import EngineBridge.Proofs.Export.Index
import EngineBridge.Proofs.Host.Observed
import EngineBridge.Proofs.Host.Silence
import EngineBridge.Proofs.Host.Stages

/-! Hosts that are started with the index of a pass.

A host reads the index after its backend was brought up. Where the index can be read the host becomes ready and calls
every function of it by its trampoline; where it is nested too deep, no host that is given it becomes ready. -/

namespace EngineBridge
open Outcome
variable {σ β ρ : Type}

namespace Launch
variable {l : Launch σ β ρ} {s : Surroundings σ} {t w : σ × β} {source : TrampolineSource σ}
variable {entries : List TrampolineEntry} {p : Path}

/-- The start of the backend, up to the trampolines. -/
def bringUp (l : Launch σ β ρ) : Action (σ × β) RuntimeError Unit := do
  l.backend.start l.config
  l.config.assemblyPaths.forM l.backend.loadAssembly
  l.backend.resolveEntryPoint l.config.entryPoint

/-- The host is given the index at the path. -/
def UsesIndex (l : Launch σ β ρ) (p : Path) : Prop := l.config.manifest.map l.config.resolve = some p

/-- What a host takes from the index is what its text holds. -/
theorem entries_of_text {text : String} (hp : l.UsesIndex p) (htext : s.files.readText p = .ok text) : l.entries s =
    match TrampolineManifest.ofText? text with
    | some m => .ok m.entries
    | none => .error (.manifest p) := by
  obtain ⟨path, hpath, rfl⟩ := Option.map_eq_some_iff.mp hp
  rw [entries, hpath]
  dsimp only
  rw [htext]
  rfl

theorem load_of_bringUp (hup : l.bringUp.runOn t = (.ok (), w)) (hsource : l.source s = .ok source)
    (hentries : l.entries s = .ok entries) : (l.load s).runOn t = (.ok (table source entries), w) := by
  obtain ⟨⟨⟩, t₁, hstart, hup⟩ := runOn_bind_eq_ok.mp hup
  obtain ⟨⟨⟩, t₂, hassemblies, hentry⟩ := runOn_bind_eq_ok.mp hup
  have hprepare : (l.prepare s).runOn t₁ = (.ok (table source entries), w) := by
    refine (run_bind_of_ok hassemblies _).trans ((run_bind_of_ok hentry _).trans ?_)
    rw [hsource, hentries]
    rfl
  refine (run_bind_of_ok hstart _).trans ?_
  have hcleaned := runOn_cleaned (l.prepare s) l.backend.shutdown t₁
  rw [hprepare] at hcleaned
  exact hcleaned

/-- A host that comes up has read the index and looked up its trampolines. -/
theorem table_of_load {direct : List (FunctionId × DirectInvocable σ)} (h : (l.load s).runOn t = (.ok direct, w)) :
    ∃ source entries, l.source s = .ok source ∧ l.entries s = .ok entries ∧ direct = table source entries := by
  obtain ⟨⟨⟩, t₁, -, h⟩ := runOn_bind_eq_ok.mp h
  rw [runOn_cleaned] at h
  have hprepare : (l.prepare s).runOn t₁ = (.ok direct, w) := by
    split at h
    · split at h <;> cases h
    · exact h
  obtain ⟨_, _, -, hprepare⟩ := runOn_bind_eq_ok.mp hprepare
  obtain ⟨_, _, -, hprepare⟩ := runOn_bind_eq_ok.mp hprepare
  obtain ⟨source, _, hsource, hprepare⟩ := runOn_bind_eq_ok.mp hprepare
  obtain ⟨entries, _, hentries, hprepare⟩ := runOn_bind_eq_ok.mp hprepare
  cases hprepare
  exact ⟨source, entries, eq_ok_of_ofExcept hsource, eq_ok_of_ofExcept hentries, rfl⟩

/-- Where the index cannot be read, nothing is loaded. -/
theorem load_without_index {e : RuntimeError} (hentries : l.entries s = .error e) :
    ∀ direct, (l.load s).runOn t ≠ (.ok direct, w) := by
  intro direct h
  obtain ⟨_, _, -, hread, -⟩ := table_of_load h
  cases hentries.symm.trans hread

/-- Of entries with names of their own each is found in the table, if its trampoline is there. -/
theorem lookup_table (hnodup : (entries.map (·.id)).Nodup) {e : TrampolineEntry} (he : e ∈ entries)
    {f : Trampoline σ} (hf : source e.symbol = some f) : (table source entries).lookup e.id = some (.ofEntry e f) := by
  have hmem : (e.id, DirectInvocable.ofEntry e f) ∈ table source entries :=
    List.mem_reverse.mpr (List.mem_filterMap.mpr ⟨e, he, by rw [hf]; rfl⟩)
  refine Labelled.lookup_of_mem ?_ hmem
  have hids : ((entries.filterMap fun e => (source e.symbol).map fun f => (e.id, DirectInvocable.ofEntry e f)).map
      Prod.fst).Sublist (entries.map (·.id)) := by
    rw [Labelled.map_filterMap_eq (k := fun e => e.id) fun e x hx => by
      obtain ⟨_, -, rfl⟩ := Option.map_eq_some_iff.mp hx
      rfl]
    exact List.filter_sublist.map _
  rw [table, List.map_reverse, List.nodup_reverse]
  exact hids.nodup hnodup

/-! ### Starts -/

/-- Every new host that is launched so becomes ready and calls each of the functions by the trampoline of its entry,
provided that its backend can be brought up and the trampolines are there. -/
def Serves (l : Launch σ β ρ) (s : Surroundings σ) (m : TrampolineManifest) (functions : List FunctionId) : Prop :=
  ∀ (t : Setting σ β ρ) (w : σ × β) (source : TrampolineSource σ), t.host = .uninitialized →
    l.bringUp.runOn (t.world, l.fresh) = (.ok (), w) → l.source s = .ok source →
    (∀ e ∈ m.entries, ∃ f, source e.symbol = some f) →
    ∃ t', (Setting.start s l).runOn t = (.ok (), t') ∧ ∀ id ∈ functions, ∃ e ∈ m.entries, ∃ f, e.id = id ∧
      source e.symbol = some f ∧ t'.host.bind id = .ok ⟨t.nextGeneration, .direct (.ofEntry e f)⟩

/-- No host that is launched so becomes ready. -/
def Refused (l : Launch σ β ρ) (s : Surroundings σ) : Prop :=
  ∀ t t' : Setting σ β ρ, (Setting.start s l).runOn t ≠ (.ok (), t')

variable {m : TrampolineManifest} {functions : List FunctionId}

theorem serves_of_entries (hentries : l.entries s = .ok m.entries) (honce : (m.entries.map (·.id)).Nodup)
    (hfunctions : ∀ id ∈ functions, ∃ e ∈ m.entries, e.id = id) : l.Serves s m functions := by
  intro t w source ht hup hsource hsymbols
  have hload := load_of_bringUp hup hsource hentries
  have hstart := Setting.start_fresh ht s l
  rw [Setting.runOn_finishStart] at hstart
  dsimp only [Setting.moved] at hstart
  rw [hload] at hstart
  refine ⟨_, hstart, fun id hid => ?_⟩
  obtain ⟨e, he, rfl⟩ := hfunctions id hid
  obtain ⟨f, hf⟩ := hsymbols e he
  refine ⟨e, he, f, rfl, hf, ?_⟩
  have htarget := lookup_table honce he hf
  show Except.ok (Binding.mk _ (Runtime.target _ e.id)) = _
  rw [Runtime.target]
  dsimp only
  rw [htarget]

theorem refused_of_entries {e : RuntimeError} (hentries : l.entries s = .error e) : l.Refused s := by
  intro t t' h
  by_cases ht : t.host.state = .uninitialized
  · rw [Setting.start_fresh (Host.eq_uninitialized ht), Setting.runOn_finishStart] at h
    split at h
    case h_1 direct world state hload => exact load_without_index hentries direct hload
    all_goals cases h
  · rw [Setting.start_refused ht] at h
    cases h

end Launch

/-! ### The index of a pass -/

namespace Trampoline
variable {tree : FileTree} {c : BindingContext}

/-- Every host that is given a file with the text of the index serves the functions of the pass. -/
def Output.ServesHosts (o : Output) : Prop :=
  ∀ {σ β ρ : Type} (l : Launch σ β ρ) (s : Surroundings σ) (p : Path), l.UsesIndex p →
    s.files.readText p = .ok o.manifest.toText → l.Serves s o.manifest o.functions

/-- Every host that is given a file with the text of the index is refused. -/
def Output.RefusesHosts (o : Output) : Prop :=
  ∀ {σ β ρ : Type} (l : Launch σ β ρ) (s : Surroundings σ) (p : Path), l.UsesIndex p →
    s.files.readText p = .ok o.manifest.toText → l.Refused s

/-- The index of a pass that ends well is on disk. If it is nested no deeper than the limit it is loaded as the pass made
it, and hosts call all of its functions by their trampolines; but the pass does not keep to the limit, and an index that
is nested deeper is not loaded by anyone. -/
theorem written_index_loads_within_limit (hd : c.document.validate = .ok ())
    (hok : (writeOut tree c).2.report.isSuccess = true)
    (hcount : ∀ e ∈ (writeOut tree c).2.manifest.entries, e.layout.Countable) :
    (writeOut tree c).1.readText (indexPath c) = .ok (writeOut tree c).2.manifest.toText ∧
      ((writeOut tree c).2.manifest.toJson.depth ≤ nestingLimit →
        (writeOut tree c).1.loadIndex (indexPath c) = some (writeOut tree c).2.manifest ∧
          (writeOut tree c).2.ServesHosts) ∧
      (nestingLimit < (writeOut tree c).2.manifest.toJson.depth →
        (writeOut tree c).1.loadIndex (indexPath c) = none ∧ (writeOut tree c).2.RefusesHosts) := by
  have hconsistent := Document.validate_eq_ok.mp hd
  have hfits := fits_written hconsistent.names hcount
  have hholds : (writeOut tree c).1.holds (indexPath c) (writeOut tree c).2.manifest.toText = true :=
    holds_index_of_success hok
  have hload := FileTree.loadIndex_of_holds hholds
  refine ⟨FileTree.readText_of_holds hholds, fun hdepth => ?_, fun hdepth => ?_⟩
  · have hread := TrampolineManifest.ofText?_toText hfits hdepth
    refine ⟨hload.trans hread, fun l s p hp htext => ?_⟩
    have hentries := Launch.entries_of_text hp htext
    rw [hread] at hentries
    exact Launch.serves_of_entries hentries (written_once hconsistent) fun id hid => mem_functions_iff.mp hid
  · have hread := TrampolineManifest.ofText?_deep hfits hdepth
    refine ⟨hload.trans hread, fun l s p hp htext => ?_⟩
    have hentries := Launch.entries_of_text hp htext
    rw [hread] at hentries
    exact Launch.refused_of_entries hentries

end Trampoline

/-! ### A project with nested structs -/

namespace NestedProject
open Trampoline

/-- The name of the struct that has so many structs around it. -/
def nameAt (i : Nat) : String := String.ofList (List.replicate (i + 1) 'S')

/-- One of `n` structs, each but the last with the next one as its field. -/
def layer (n i : Nat) : TypeRecord :=
  { TypeRecord.bare (nameAt i) "Game" .structKind with
    properties := if i + 1 < n then [⟨"inner", .struct (nameAt (i + 1)), .empty⟩] else [] }

/-- A function that takes the outermost struct. -/
def take : FunctionRecord where
  name := "Take"
  params := [⟨"value", .struct (nameAt 0), .inward⟩]
  returnType := none
  flags := FunctionFlags.nativeCallable.union FunctionFlags.fastInvokeEligible

def actor : TypeRecord := { TypeRecord.bare "Actor" "Game" .classKind with functions := [take] }

/-- A document with structs that are nested `n` deep, and the function. -/
def document (n : Nat) : Document :=
  ⟨"5.4", DocumentAttributes.allowFastInvoke, actor :: (List.range n).map (layer n)⟩

def context (n : Nat) : BindingContext := .create (document n) ⟨"/project"⟩ .native

def tree : FileTree := ⟨[(["project"], .directory)], [], []⟩

/-- The directory of the trampolines. -/
def native : Location := ["project", "Intermediate", "SharpBind", "Native"]

/-- The most structs that the index can be loaded with, and one more: it is evaluated where files lie and whether they can
be written, but none of their texts. -/
theorem outcomes : ∀ n ∈ [40, 41], (document n).validate = .ok () ∧
    (unwritten (writes tree (context n)).2).isEmpty = true ∧
    (writes tree (context n)).1.locate (context n).nativeRoot = .ok native ∧
    stale (((writes tree (context n)).1.namesBelow native).map fun names =>
      names.foldl Path.child (context n).nativeRoot) (current tree (context n)) = [] ∧
    ((writes tree (context n)).1.write (indexPath (context n)) .empty).2 = .ok () := by
  decide +kernel

/-- The index lists the function, with three levels for each struct. -/
theorem listings : ∀ n ∈ [40, 41], (Trampoline.listed tree (context n)).toJson.depth = 3 * n + 5 ∧
    (Trampoline.listed tree (context n)).entries.map (fun e => (e.id, decide (e.layout.size < UInt64.size), e.layout.ret.isNone)) =
      [(⟨"Actor", "Take"⟩, true, true)] := by
  decide +kernel

variable {n : Nat} (hn : n ∈ [40, 41])
include hn

theorem no_leftovers : leftovers tree (context n) = [] := by
  obtain ⟨-, -, hroot, hstale, -⟩ := outcomes n hn
  have hperm := leftovers_perm hroot
  rw [hstale] at hperm
  exact hperm.eq_nil

theorem succeeds : (writeOut tree (context n)).2.report.isSuccess = true := by
  obtain ⟨-, hwrites, -, -, hindex⟩ := outcomes n hn
  obtain ⟨o, ho⟩ := FileTree.writeArtifact_of_write (a := index tree (context n)) hindex
  have hsweep := sweep_of_no_leftovers (no_leftovers hn)
  rw [← indexWrite_of_no_leftovers (no_leftovers hn)] at ho
  exact success_of_parts (List.isEmpty_iff.mp hwrites) (by rw [hsweep]) ho

theorem countable : ∀ e ∈ (writeOut tree (context n)).2.manifest.entries, e.layout.Countable := by
  intro e he
  rw [writeOut_manifest] at he
  have hlisting := List.mem_map_of_mem (f := fun e : TrampolineEntry =>
    (e.id, decide (e.layout.size < UInt64.size), e.layout.ret.isNone)) he
  rw [(listings n hn).2, List.mem_singleton, Prod.mk.injEq, Prod.mk.injEq] at hlisting
  refine ⟨of_decide_eq_true hlisting.2.1, fun r hr => ?_⟩
  rw [Option.isNone_iff_eq_none.mp hlisting.2.2] at hr
  cases hr

theorem take_listed : ⟨"Actor", "Take"⟩ ∈ (writeOut tree (context n)).2.functions := by
  have hids := congrArg (List.map Prod.fst) (listings n hn).2
  rw [List.map_map, ← writeOut_manifest] at hids
  rw [mem_functions_iff, ← List.mem_map]
  exact hids ▸ List.mem_singleton_self _

theorem depth_eq : (writeOut tree (context n)).2.manifest.toJson.depth = 3 * n + 5 := by
  rw [writeOut_manifest]
  exact (listings n hn).1

omit hn

/-- There is a trampoline behind every symbol. -/
def everywhere : TrampolineSource Unit := fun _ => some fun frame _ ret => return ⟨0, frame, ret⟩

/-- A host that is given the index. -/
def launch (n : Nat) : Launch Unit Unit Unit where
  backend := Boundary.TwoBytes.backend
  fresh := ()
  reflection := ()
  trampolines := some everywhere
  config := { HostConfig.usual ⟨"/host"⟩ with manifest := some (indexPath (context n)) }

/-- The files after the pass, and no libraries. -/
def surroundings (n : Nat) : Surroundings Unit :=
  { Boundary.TwoBytes.surroundings with files := (writeOut tree (context n)).1 }

end NestedProject

open NestedProject Trampoline in
/-- With 40 nested structs the index is loaded as it was made, and a host that is given it calls the function by its
trampoline. -/
theorem written_index_loads_within_limit_nested : (context 40).document.validate = .ok () ∧
    (writeOut tree (context 40)).2.report.isSuccess = true ∧
    (∀ e ∈ (writeOut tree (context 40)).2.manifest.entries, e.layout.Countable) ∧
    (writeOut tree (context 40)).2.manifest.toJson.depth ≤ nestingLimit ∧
    (writeOut tree (context 40)).1.loadIndex (indexPath (context 40)) = some (writeOut tree (context 40)).2.manifest ∧
    ∃ t' e f, (Setting.start (surroundings 40) (launch 40)).runOn (.fresh ()) = (.ok (), t') ∧
      e ∈ (writeOut tree (context 40)).2.manifest.entries ∧
      t'.host.bind ⟨"Actor", "Take"⟩ = .ok ⟨1, .direct (.ofEntry e f)⟩ := by
  have hn : 40 ∈ [40, 41] := by decide
  have hvalid := (outcomes 40 hn).1
  have hdepth : (writeOut tree (context 40)).2.manifest.toJson.depth ≤ nestingLimit := by
    rw [depth_eq hn]
    decide
  obtain ⟨hwritten, hloads, -⟩ := written_index_loads_within_limit hvalid (succeeds hn) (countable hn)
  obtain ⟨hloaded, hserves⟩ := hloads hdepth
  have hindex : (launch 40).UsesIndex (indexPath (context 40)) := rfl
  have hfiles : (surroundings 40).files = (writeOut tree (context 40)).1 := by rw [surroundings]
  rw [← hfiles] at hwritten
  have hup : (launch 40).bringUp.runOn ((), ()) = (.ok (), ((), ())) := rfl
  have hsource : (launch 40).source (surroundings 40) = .ok everywhere := rfl
  have hsymbols : ∀ e : TrampolineEntry, ∃ f, everywhere e.symbol = some f := fun e => ⟨_, rfl⟩
  obtain ⟨t', hstart, hbinds⟩ :=
    hserves _ _ _ hindex hwritten (.fresh ()) _ _ rfl hup hsource fun e _ => hsymbols e
  obtain ⟨e, he, f, -, -, hbind⟩ := hbinds _ (take_listed hn)
  exact ⟨hvalid, succeeds hn, countable hn, hdepth, hloaded, t', e, f, hstart, he, hbind⟩

open NestedProject Trampoline in
/-- With one struct more the pass reports no failure either, but nothing can be loaded. -/
theorem deeper_index_is_lost : tree.Proper ∧ (context 41).document.validate = .ok () ∧
    (∀ ty ∈ (context 41).document.types, isIdentifier ty.module = true) ∧
    (context 41).fastInvokeEnabled = true ∧ (writeOut tree (context 41)).2.report.isSuccess = true ∧
    (writeOut tree (context 41)).1.readText (indexPath (context 41)) =
      .ok (writeOut tree (context 41)).2.manifest.toText ∧
    (writeOut tree (context 41)).1.loadIndex (indexPath (context 41)) = none := by
  have hn : 41 ∈ [40, 41] := by decide
  have hvalid : (context 41).document.validate = .ok () := (outcomes 41 hn).1
  have hmodules : ∀ ty ∈ (context 41).document.types, isIdentifier ty.module = true := by decide +kernel
  have hholds := holds_index_of_success (succeeds hn)
  have hdeep : nestingLimit < (writeOut tree (context 41)).2.manifest.toJson.depth := by
    rw [depth_eq hn]
    decide
  have hfits := fits_written (Document.validate_eq_ok.mp hvalid).names (countable hn)
  have hnone := (FileTree.loadIndex_of_holds hholds).trans (TrampolineManifest.ofText?_deep hfits hdeep)
  exact ⟨by decide, hvalid, hmodules, rfl, succeeds hn, FileTree.readText_of_holds hholds, hnone⟩

end EngineBridge
