import EngineBridge.Export.Write
import EngineBridge.Proofs.Files.Edit
import Mathlib.Data.List.Nodup

/-! What a stage leaves behind when it writes its artifacts.

Artifacts that lead down along different names do not get into each other's way: each that was written, or was there
already, is there at the end. -/

namespace EngineBridge
open Path (IsName Solid Descends)

/-! ### Names of files -/

theorem inName_of_startsName {c : Char} (h : startsName c = true) : inName c = true := by
  unfold startsName at h
  unfold inName Char.isAlphanum
  rcases Bool.or_eq_true_iff.mp h with h | h <;> simp [h]

section
variable {name module ending : String} (hname : isIdentifier name = true)
include hname

theorem isIdentifier_cons : ∃ c cs, name.toList = c :: cs ∧ startsName c = true ∧ ∀ k ∈ name.toList, inName k = true := by
  unfold isIdentifier at hname
  split at hname
  · cases hname
  · next c cs hlist =>
    obtain ⟨hc, hcs⟩ := Bool.and_eq_true_iff.mp hname
    refine ⟨c, cs, hlist, hc, fun k hk => ?_⟩
    rw [hlist] at hk
    rcases List.mem_cons.mp hk with rfl | hk
    · exact inName_of_startsName hc
    · exact List.all_eq_true.mp hcs k hk

theorem isIdentifier_append (hending : ending.toList.all inName = true) : isIdentifier (name ++ ending) = true := by
  obtain ⟨k, ks, hlist, hk, hall⟩ := isIdentifier_cons hname
  rw [hlist, List.forall_mem_cons] at hall
  unfold isIdentifier
  rw [String.toList_append, hlist, List.cons_append]
  dsimp only
  rw [hk, Bool.true_and, List.all_append, Bool.and_eq_true, List.all_eq_true]
  exact ⟨hall.2, hending⟩

/-- An identifier with an ending is the name of a file. -/
theorem isName_of_isIdentifier (hfree : '/' ∉ ending.toList) : IsName (name ++ ending) := by
  obtain ⟨c, cs, hlist, hc, hall⟩ := isIdentifier_cons hname
  have htext : (name ++ ending).toList = c :: (cs ++ ending.toList) := by
    rw [String.toList_append, hlist]
    rfl
  have hpoint : c ≠ '.' := by
    rintro rfl
    cases hc
  refine ⟨fun h => ?_, fun h => ?_, fun h => ?_, ?_⟩
  · rw [h] at htext
    cases htext
  · rw [h] at htext
    exact hpoint (List.cons.inj htext).1.symm
  · rw [h] at htext
    exact hpoint (List.cons.inj htext).1.symm
  · rw [String.toList_append, List.mem_append, not_or]
    refine ⟨fun hslash => ?_, hfree⟩
    cases hall _ hslash

theorem isName_identifier : IsName name := by
  have h : IsName (name ++ "") := isName_of_isIdentifier hname (by simp)
  rwa [String.append_empty] at h

/-- The file of a type leads down along its module and its name. -/
theorem descends_file (hmodule : isIdentifier module = true) (hfree : '/' ∉ ending.toList) :
    (Path.child ⟨module⟩ (name ++ ending)).Descends := by
  have hm := isName_identifier hmodule
  exact (Path.descends_name hm).child (isName_of_isIdentifier hname hfree)

theorem segments_file (hmodule : isIdentifier module = true) (hfree : '/' ∉ ending.toList) :
    (Path.child ⟨module⟩ (name ++ ending)).segments = [module, name ++ ending] := by
  have hm := isName_identifier hmodule
  rw [Path.segments_child (isName_of_isIdentifier hname hfree) hm.solid, Path.segments_of_slashFree hm.slashFree]
  rfl

end

/-- Files of things with names of their own have names of their own. -/
theorem nodup_files {α : Type} {xs : List α} {name : α → String} (module : α → String) (ending : String)
    (h : (xs.map name).Nodup) :
    (xs.map fun x => [module x, name x ++ ending]).Nodup :=
  List.pairwise_map.mpr <| (List.pairwise_map.mp h).imp fun hne heq =>
    hne ((String.append_left_inj ending).mp (List.cons.inj (List.cons.inj heq).2).1)

namespace FileTree
variable {t t' : FileTree} {root : Path} {a b : Artifact} {o : WriteOutcome} {e : ExportError}
variable {r : Except ExportError WriteOutcome} {as : List Artifact} {results : List (Artifact × Except ExportError WriteOutcome)}
variable {write : FileTree → Path → Artifact → FileTree × Except ExportError WriteOutcome}

theorem holds_iff {p : Path} {text : String} :
    t.holds p text = true ↔ ∃ l, t.locate p = .ok l ∧ t.entry? l = some (.file text.toUTF8) := by
  unfold holds
  rw [beq_iff_eq, find?_eq_some]

theorem Spares.holds {S : Set Location} {p : Path} {text : String} (h : Spares S t t') (hholds : t.holds p text = true)
    (hp : ∀ {l}, t'.locate p = .ok l → l ∉ S) : t'.holds p text = true := by
  obtain ⟨l, hl, hfile⟩ := holds_iff.mp hholds
  have hl' := h.locate hl
  exact holds_iff.mpr ⟨l, hl', (h.file (hp hl')).mpr hfile⟩

theorem isThere_iff {p : Path} : t.isThere p = true ↔ ∃ l e, t.locate p = .ok l ∧ t.entry? l = some e := by
  unfold isThere
  rw [Option.isSome_iff_exists, exists_comm]
  exact exists_congr fun e => find?_eq_some

theorem Spares.isThere {S : Set Location} {p : Path} (h : Spares S t t') (hthere : t.isThere p = true)
    (hp : ∀ {l}, t'.locate p = .ok l → l ∉ S) : t'.isThere p = true := by
  obtain ⟨l, e, hl, he⟩ := isThere_iff.mp hthere
  have hl' := h.locate hl
  refine isThere_iff.mpr ⟨l, e, hl', ?_⟩
  cases e with
  | directory => exact h.directory he
  | file content => exact (h.file (hp hl')).mpr he

/-! ### One artifact -/

/-- The locations that the artifact's path leads to. -/
def placeOf (t : FileTree) (root : Path) (a : Artifact) : Set Location := {l | t.locate (root.join a.path) = .ok l}

/-- A way of writing an artifact keeps trees proper, and changes no file but that of the artifact. -/
structure Careful (write : FileTree → Path → Artifact → FileTree × Except ExportError WriteOutcome) : Prop where
  proper : ∀ {t root a t' r}, write t root a = (t', r) → t.Proper → t'.Proper
  spares : ∀ {t root a t' r}, write t root a = (t', r) → Spares (t'.placeOf root a) t t'

theorem writeText_cases {p : Path} {text : String} {r : Except ExportError Unit} (h : t.writeText p text = (t', r)) :
    ∃ result, t.write p text.toUTF8 = (t', result) ∧ (r = .ok () → result = .ok ()) := by
  unfold writeText at h
  split at h
  · next hwrite =>
    obtain ⟨rfl, -⟩ := Prod.mk.inj h
    exact ⟨_, hwrite, fun _ => rfl⟩
  · next hwrite =>
    obtain ⟨rfl, rfl⟩ := Prod.mk.inj h
    exact ⟨_, hwrite, fun hok => nomatch hok⟩

theorem writeText_spares {p : Path} {text : String} {r : Except ExportError Unit} (h : t.writeText p text = (t', r)) :
    Spares {l | t'.locate p = .ok l} t t' := by
  obtain ⟨e | u, hwrite, -⟩ := writeText_cases h
  · exact (write_error hwrite).mono (Set.empty_subset _)
  · obtain ⟨l, hl, -, hspares⟩ := write_ok hwrite
    exact hspares.mono (Set.singleton_subset_iff.mpr hl)

theorem Proper.writeText {p : Path} {text : String} {r : Except ExportError Unit} (ht : t.Proper)
    (h : t.writeText p text = (t', r)) : t'.Proper := by
  obtain ⟨result, hwrite, -⟩ := writeText_cases h
  exact ht.write hwrite

theorem writeText_ok {p : Path} {text : String} (h : t.writeText p text = (t', .ok ())) : t'.holds p text = true := by
  obtain ⟨result, hwrite, hok⟩ := writeText_cases h
  obtain rfl := hok rfl
  obtain ⟨l, hl, hfile, -⟩ := write_ok hwrite
  exact holds_iff.mpr ⟨l, hl, hfile⟩

theorem writeArtifact_cases (h : t.writeArtifact root a = (t', r)) :
    (t.holds (root.join a.path) a.contents = true ∧ t' = t ∧ r = .ok .unchanged) ∨
    ∃ result, t.writeText (root.join a.path) a.contents = (t', result) ∧ r = result.map fun _ => .written := by
  unfold writeArtifact at h
  dsimp only at h
  split at h
  · next hholds =>
    obtain ⟨rfl, rfl⟩ := Prod.mk.inj h
    exact .inl ⟨hholds, rfl, rfl⟩
  · obtain ⟨rfl, rfl⟩ := Prod.mk.inj h
    exact .inr ⟨_, rfl, rfl⟩

theorem writeIfAbsent_cases (h : t.writeIfAbsent root a = (t', r)) :
    (t.isThere (root.join a.path) = true ∧ t' = t ∧ r = .ok .preserved) ∨ t.isThere (root.join a.path) = false ∧
      ∃ result, t.writeText (root.join a.path) a.contents = (t', result) ∧ r = result.map fun _ => .written := by
  unfold writeIfAbsent at h
  dsimp only at h
  split at h
  · next hthere =>
    obtain ⟨rfl, rfl⟩ := Prod.mk.inj h
    exact .inl ⟨hthere, rfl, rfl⟩
  · next hthere =>
    obtain ⟨rfl, rfl⟩ := Prod.mk.inj h
    exact .inr ⟨Bool.eq_false_iff.mpr hthere, _, rfl, rfl⟩

theorem writeArtifact_of_holds (h : t.holds (root.join a.path) a.contents = true) :
    t.writeArtifact root a = (t, .ok .unchanged) := if_pos h

/-- Where any file can be written at an artifact's path, the artifact can. -/
theorem writeArtifact_of_write {content : ByteArray} (h : (t.write (root.join a.path) content).2 = .ok ()) :
    ∃ o, (t.writeArtifact root a).2 = .ok o := by
  unfold writeArtifact
  dsimp only
  split
  · exact ⟨_, rfl⟩
  · unfold writeText
    have hwrite := (write_outcome t (root.join a.path) a.contents.toUTF8 content).trans h
    rcases hresult : t.write (root.join a.path) a.contents.toUTF8 with ⟨t', r⟩
    rw [hresult] at hwrite
    obtain rfl : r = .ok () := hwrite
    exact ⟨_, rfl⟩

/-- An artifact that was written, or was there already, is there. -/
theorem writeArtifact_ok (h : t.writeArtifact root a = (t', .ok o)) : t'.holds (root.join a.path) a.contents = true := by
  obtain ⟨hholds, rfl, -⟩ | ⟨result, hwrite, hr⟩ := writeArtifact_cases h
  · exact hholds
  · obtain ⟨⟨⟩, rfl, -⟩ := Outcome.map_eq_ok.mp hr.symm
    exact writeText_ok hwrite

/-- No file can be written in the directory of the path, and trying to leaves the tree as it is. -/
def Blocked (t : FileTree) (root : Path) : Prop :=
  ∀ n content, IsName n → ∃ e, t.write (root.child n) content = (t, .error e)

/-- After an artifact was written in a directory, or was not, the directory is there or nothing can be written in it. -/
theorem writeArtifact_settles {n text : String} (ht : t.Proper) (hroot : root.Solid) (hn : IsName n) (hfree : ZeroFree ⟨n⟩)
    (h : t.writeArtifact root ⟨⟨n⟩, text⟩ = (t', r)) : (∃ l, t'.locate root = .ok l) ∨ t'.Blocked root := by
  obtain ⟨hholds, rfl, -⟩ | ⟨result, hwrite, -⟩ := writeArtifact_cases h
  · obtain ⟨l, hl, -⟩ := holds_iff.mp hholds
    obtain ⟨m, hm, -⟩ := locate_child hroot hn hl
    exact .inl ⟨m, hm⟩
  · obtain ⟨result', hwrite', -⟩ := writeText_cases hwrite
    exact ht.write_settles hroot hn hfree hwrite'

theorem Blocked.writeArtifact {n text : String} (hblocked : t.Blocked root) (hn : IsName n)
    (h : t.writeArtifact root ⟨⟨n⟩, text⟩ = (t', r)) : t' = t := by
  obtain ⟨-, rfl, -⟩ | ⟨result, hwrite, -⟩ := writeArtifact_cases h
  · rfl
  · obtain ⟨e, he⟩ := hblocked n text.toUTF8 hn
    have hjoin : root.join ⟨n⟩ = root.child n := rfl
    obtain ⟨result', hwrite', -⟩ := writeText_cases hwrite
    rw [hjoin, he] at hwrite'
    exact (Prod.mk.inj hwrite').1.symm

theorem careful_writeArtifact : Careful writeArtifact where
  proper h ht := by
    obtain ⟨-, rfl, -⟩ | ⟨result, hwrite, -⟩ := writeArtifact_cases h
    · exact ht
    · exact ht.writeText hwrite
  spares h := by
    obtain ⟨-, rfl, -⟩ | ⟨result, hwrite, -⟩ := writeArtifact_cases h
    · exact .refl _ _
    · exact writeText_spares hwrite

theorem careful_writeIfAbsent : Careful writeIfAbsent where
  proper h ht := by
    obtain ⟨-, rfl, -⟩ | ⟨-, result, hwrite, -⟩ := writeIfAbsent_cases h
    · exact ht
    · exact ht.writeText hwrite
  spares h := by
    obtain ⟨-, rfl, -⟩ | ⟨-, result, hwrite, -⟩ := writeIfAbsent_cases h
    · exact .refl _ _
    · exact writeText_spares hwrite

/-- What holds of an artifact that was written lasts while its own place is spared; and where it holds, there is nothing
to write. -/
structure Lasting (write : FileTree → Path → Artifact → FileTree × Except ExportError WriteOutcome)
    (Done : FileTree → Path → Artifact → Prop) (idle : WriteOutcome) : Prop extends Careful write where
  done : ∀ {t root a t' o}, write t root a = (t', .ok o) → Done t' root a
  lasts : ∀ {t t' root a S}, Done t root a → Spares S t t' → (∀ {l}, l ∈ t'.placeOf root a → l ∉ S) → Done t' root a
  idle : ∀ {t root a}, Done t root a → write t root a = (t, .ok idle)

theorem lasting_writeArtifact :
    Lasting writeArtifact (fun t root a => t.holds (root.join a.path) a.contents = true) .unchanged where
  toCareful := careful_writeArtifact
  done := writeArtifact_ok
  lasts hdone hspares := hspares.holds hdone
  idle := writeArtifact_of_holds

theorem lasting_writeIfAbsent : Lasting writeIfAbsent (fun t root a => t.isThere (root.join a.path) = true) .preserved where
  toCareful := careful_writeIfAbsent
  done h := by
    obtain ⟨hthere, rfl, -⟩ | ⟨-, result, hwrite, hresult⟩ := writeIfAbsent_cases h
    · exact hthere
    · obtain ⟨⟨⟩, rfl, -⟩ := Outcome.map_eq_ok.mp hresult.symm
      obtain ⟨l, hl, hfile⟩ := holds_iff.mp (writeText_ok hwrite)
      exact isThere_iff.mpr ⟨l, _, hl, hfile⟩
  lasts hdone hspares := hspares.isThere hdone
  idle hdone := if_pos hdone

/-! ### All artifacts of a stage -/

theorem writeAll_cons (h : t.writeAll write root (a :: as) = (t', results)) :
    ∃ t₁ r rest, write t root a = (t₁, r) ∧ t₁.writeAll write root as = (t', rest) ∧ results = (a, r) :: rest := by
  obtain ⟨rfl, rfl⟩ := Prod.mk.inj h
  exact ⟨_, _, _, rfl, rfl, rfl⟩

theorem writeAll_artifacts (h : t.writeAll write root as = (t', results)) : results.map (·.1) = as := by
  induction as generalizing t results with
  | nil =>
    obtain ⟨-, rfl⟩ := Prod.mk.inj h
    rfl
  | cons a as ih =>
    obtain ⟨t₁, r, rest, -, hrest, rfl⟩ := writeAll_cons h
    rw [List.map_cons, ih hrest]

theorem Proper.writeAll (ht : t.Proper) (hwrite : Careful write) (h : t.writeAll write root as = (t', results)) :
    t'.Proper := by
  induction as generalizing t results with
  | nil => exact (Prod.mk.inj h).1 ▸ ht
  | cons a as ih =>
    obtain ⟨t₁, r, rest, hfirst, hrest, -⟩ := writeAll_cons h
    exact ih (hwrite.proper hfirst ht) hrest

theorem writeAll_append {bs : List Artifact} : (t.writeAll write root (as ++ bs)).1 =
    ((t.writeAll write root as).1.writeAll write root bs).1 := by
  induction as generalizing t with
  | nil => rfl
  | cons a as ih => exact ih

/-- Only the files of the artifacts change. -/
theorem writeAll_spares (hwrite : Careful write) (h : t.writeAll write root as = (t', results)) :
    Spares {l | ∃ a ∈ as, l ∈ t'.placeOf root a} t t' := by
  induction as generalizing t results with
  | nil => exact (Prod.mk.inj h).1 ▸ .refl _ _
  | cons a as ih =>
    obtain ⟨t₁, r, rest, hfirst, hrest, -⟩ := writeAll_cons h
    have hlater := ih hrest
    refine ((hwrite.spares hfirst).mono fun l hl => ?_).trans (hlater.mono fun l hl => ?_)
    · exact ⟨a, List.mem_cons_self, hlater.locate hl⟩
    · obtain ⟨b, hb, hl⟩ := hl
      exact ⟨b, List.mem_cons_of_mem _ hb, hl⟩

/-- Artifacts that lead to the same location lead down along the same names. -/
theorem segments_eq_of_placeOf (hroot : root.Solid) (ha : a.path.Descends) (hb : b.path.Descends) {l : Location}
    (hla : l ∈ t.placeOf root a) (hlb : l ∈ t.placeOf root b) : a.path.segments = b.path.segments := by
  have hla' : t.locate (root.join a.path) = .ok l := hla
  have hlb' : t.locate (root.join b.path) = .ok l := hlb
  rw [ha.join_eq hroot] at hla'
  rw [hb.join_eq hroot] at hlb'
  exact names_eq_of_locate hroot ha.named hb.named hla' hlb'

/-- An artifact of a stage whose root lies below a directory has its place below that root. -/
theorem eq_of_placeOf {q : Path} {m l : Location} (hroot : t.Leads root m) (hq : q.Descends)
    (ha : a.path.Descends) (h : l ∈ t.placeOf (root.join q) a) : l = m ++ q.segments ++ a.path.segments := by
  have hl : t.locate ((root.join q).join a.path) = .ok l := h
  have hsolid := Path.join_solid (p := root) hq.solid
  rw [ha.join_eq hsolid] at hl
  obtain ⟨k, hk, rfl⟩ := locate_foldl_child hsolid ha.named hl
  rw [hroot hq hk]

section
variable {Done : FileTree → Path → Artifact → Prop} {idle : WriteOutcome} (hwrite : Lasting write Done idle)
include hwrite

/-- Where all artifacts are done there is nothing to write. -/
theorem writeAll_idle (h : ∀ a ∈ as, Done t root a) : t.writeAll write root as = (t, as.map (·, .ok idle)) := by
  induction as with
  | nil => rfl
  | cons a as ih =>
    rw [List.forall_mem_cons] at h
    unfold writeAll
    rw [hwrite.idle h.1]
    dsimp only
    rw [ih h.2]
    rfl

/-- Each artifact that was written, or need not be, is done at the end. -/
theorem writeAll_done (hroot : root.Solid) (hdescends : ∀ a ∈ as, a.path.Descends)
    (hdistinct : (as.map (·.path.segments)).Nodup) (h : t.writeAll write root as = (t', results))
    (ha : (a, .ok o) ∈ results) : Done t' root a := by
  induction as generalizing t results with
  | nil =>
    rw [(Prod.mk.inj h).2.symm] at ha
    cases ha
  | cons b as ih =>
    rw [List.forall_mem_cons] at hdescends
    rw [List.map_cons, List.nodup_cons] at hdistinct
    obtain ⟨t₁, r, rest, hfirst, hrest, rfl⟩ := writeAll_cons h
    rcases List.mem_cons.mp ha with heq | ha
    · obtain ⟨rfl, rfl⟩ := Prod.mk.inj heq
      refine hwrite.lasts (hwrite.done hfirst) (writeAll_spares hwrite.toCareful hrest) fun {l} hl hlater => ?_
      obtain ⟨b, hb, hlb⟩ := hlater
      have hsegments := segments_eq_of_placeOf hroot hdescends.1 (hdescends.2 b hb) hl hlb
      exact hdistinct.1 (hsegments ▸ List.mem_map_of_mem hb)
    · exact ih hdescends.2 hdistinct.2 hrest ha

/-- What is done below the root of a stage is not undone beside it. -/
theorem Lasting.beside {q : Path} {m : Location} {S : Set Location} (hq : q.Descends) (ha : a.path.Descends)
    (h : Done t (root.join q) a) (hspares : Spares S t t') (hroot : t'.Leads root m)
    (hS : ∀ l, m ++ q.segments <+: l → l ∉ S) : Done t' (root.join q) a := by
  refine hwrite.lasts h hspares fun {l} hl => hS l ?_
  rw [eq_of_placeOf hroot hq ha hl]
  exact List.prefix_append _ _

end

/-- From one tree to the other no file is lost, and the new files are some of the artifacts. -/
structure Adds (as : List Artifact) (root : Path) (t t' : FileTree) : Prop where
  kept : ∀ {l content}, t.entry? l = some (.file content) → t'.entry? l = some (.file content)
  added : ∀ {l content}, t'.entry? l = some (.file content) → t.entry? l = some (.file content) ∨
    ∃ a ∈ as, l ∈ t'.placeOf root a ∧ content = a.contents.toUTF8

theorem Spares.adds {as : List Artifact} {root : Path} (h : Spares ∅ t t') : Adds as root t t' :=
  ⟨(h.file (Set.notMem_empty _)).mpr, fun hfile => .inl ((h.file (Set.notMem_empty _)).mp hfile)⟩

section
variable {p q : Path} {m : Location} (hp : t.locate p = .ok m) (hq : q.Descends)
include hp hq

/-- An artifact that is written only where nothing is adds a file. -/
theorem Proper.writeIfAbsent_adds (ht : t.Proper) (ha : a.path.Descends)
    (h : t.writeIfAbsent (p.join q) a = (t', r)) : Adds [a] (p.join q) t t' := by
  obtain ⟨-, rfl, -⟩ | ⟨hthere, result, hwrite, -⟩ := writeIfAbsent_cases h
  · exact (Spares.refl ∅ _).adds
  · obtain ⟨e | u, hwrite, -⟩ := writeText_cases hwrite
    · exact (write_error hwrite).adds
    · obtain ⟨k, hk, hfile, hspares⟩ := write_ok hwrite
      have hnone : ∀ e, t.entry? k ≠ some e := fun e he => by
        obtain ⟨hdescends, hjoin⟩ := Path.descends_join (p := p) hq ha
        have hbefore := ht.locate_of_entry hspares hp hdescends (hjoin ▸ hk) he
        exact Bool.eq_false_iff.mp hthere (isThere_iff.mpr ⟨k, e, hjoin ▸ hbefore, he⟩)
      refine ⟨fun {l content} hl => ?_, fun {l content} hl => ?_⟩
      · exact (hspares.file fun heq => hnone _ (Set.mem_singleton_iff.mp heq ▸ hl)).mpr hl
      · by_cases heq : l = k
        · subst heq
          injection hfile.symm.trans hl with hcontent
          injection hcontent with hcontent
          exact .inr ⟨a, List.mem_cons_self, hk, hcontent.symm⟩
        · exact .inl ((hspares.file (by simpa using heq)).mp hl)

theorem Proper.writeAll_adds (ht : t.Proper) (has : ∀ a ∈ as, a.path.Descends)
    (h : t.writeAll writeIfAbsent (p.join q) as = (t', results)) : Adds as (p.join q) t t' := by
  induction as generalizing t results with
  | nil => exact (Prod.mk.inj h).1 ▸ (Spares.refl ∅ _).adds
  | cons a as ih =>
    rw [List.forall_mem_cons] at has
    obtain ⟨t₁, r, rest, hfirst, hrest, -⟩ := writeAll_cons h
    have hspares := careful_writeIfAbsent.spares hfirst
    have hlater := writeAll_spares careful_writeIfAbsent hrest
    obtain ⟨hkept, hadded⟩ := Proper.writeIfAbsent_adds hp hq ht has.1 hfirst
    obtain ⟨hkept', hadded'⟩ := ih (hspares.locate hp) (careful_writeIfAbsent.proper hfirst ht) has.2 hrest
    refine ⟨fun hl => hkept' (hkept hl), fun hl => ?_⟩
    rcases hadded' hl with hl | ⟨b, hb, hplace, hcontent⟩
    · refine (hadded hl).imp_right ?_
      rintro ⟨b, hb, hplace, hcontent⟩
      obtain rfl := List.mem_singleton.mp hb
      exact ⟨b, List.mem_cons_self, hlater.locate hplace, hcontent⟩
    · exact .inr ⟨b, List.mem_cons_of_mem _ hb, hplace, hcontent⟩

end

/-- What became of an artifact is told once. -/
theorem writeAll_functional (hdistinct : (as.map (·.path.segments)).Nodup) (h : t.writeAll write root as = (t', results))
    {r r' : Except ExportError WriteOutcome} (hr : (a, r) ∈ results) (hr' : (a, r') ∈ results) : r = r' := by
  have hartifacts : (results.map (·.1)).Nodup := by
    rw [writeAll_artifacts h]
    exact List.Nodup.of_map _ hdistinct
  exact (Prod.mk.inj (List.inj_on_of_nodup_map hartifacts hr hr' rfl)).2

end FileTree

namespace Trampoline
open FileTree
variable {t t' : FileTree} {p : Path} {ps removed : List Path} {entries : List ReportEntry}

/-! ### Taking files away -/

/-- The first file is gone, or it is reported that it is not. -/
theorem removeFiles_cons (h : removeFiles t (p :: ps) = (t', removed, entries)) :
    ∃ t₁ removed' entries', removeFiles t₁ ps = (t', removed', entries') ∧
      (t.removeFile p = (t₁, .ok ()) ∧ removed = p :: removed' ∧ entries = entries' ∨
        ∃ e : FileError, t₁ = t ∧ removed = removed' ∧ entries = ⟨p.text, .failed e.message⟩ :: entries') := by
  unfold removeFiles at h
  split at h
  · next t₁ hremove =>
    rcases hrest : removeFiles t₁ ps with ⟨t₂, removed', entries'⟩
    rw [hrest] at h
    cases h
    exact ⟨t₁, _, _, hrest, .inl ⟨hremove, rfl, rfl⟩⟩
  · next t₁ e hremove =>
    rcases hrest : removeFiles t₁ ps with ⟨t₂, removed', entries'⟩
    rw [hrest] at h
    cases h
    exact ⟨t₁, _, _, hrest, .inr ⟨e, removeFile_error hremove, rfl, rfl⟩⟩

/-- Each file is gone, or it is reported that it is not. -/
theorem removeFiles_told (h : removeFiles t ps = (t', removed, entries)) (hp : p ∈ ps) :
    p ∈ removed ∨ ∃ e : FileError, ⟨p.text, .failed e.message⟩ ∈ entries := by
  induction ps generalizing t removed entries with
  | nil => cases hp
  | cons q ps ih =>
    obtain ⟨t₁, removed', entries', hrest, ⟨-, rfl, rfl⟩ | ⟨e, -, rfl, rfl⟩⟩ := removeFiles_cons h
    · rcases List.mem_cons.mp hp with rfl | hp
      · exact .inl List.mem_cons_self
      · exact (ih hrest hp).imp_left (List.mem_cons_of_mem _)
    · rcases List.mem_cons.mp hp with rfl | hp
      · exact .inr ⟨e, List.mem_cons_self⟩
      · refine (ih hrest hp).imp_right ?_
        rintro ⟨e', he'⟩
        exact ⟨e', List.mem_cons_of_mem _ he'⟩

theorem proper_removeFiles (ht : t.Proper) (h : removeFiles t ps = (t', removed, entries)) : t'.Proper := by
  induction ps generalizing t removed entries with
  | nil => exact (Prod.mk.inj h).1 ▸ ht
  | cons p ps ih =>
    obtain ⟨t₁, _, _, hrest, ⟨hremove, -⟩ | ⟨_, rfl, -⟩⟩ := removeFiles_cons h
    · obtain ⟨l, content, -, hfile, rfl⟩ := removeFile_ok hremove
      exact ih (ht.drop hfile) hrest
    · exact ih ht hrest

/-- Only the files at the ends of the paths change. -/
theorem removeFiles_spares (ht : t.Proper) (h : removeFiles t ps = (t', removed, entries)) :
    Spares {l | ∃ p ∈ ps, t'.locate p = .ok l} t t' := by
  induction ps generalizing t removed entries with
  | nil => exact (Prod.mk.inj h).1 ▸ .refl _ _
  | cons p ps ih =>
    have hsub : {l | ∃ q ∈ ps, t'.locate q = .ok l} ⊆ {l | ∃ q ∈ p :: ps, t'.locate q = .ok l} := by
      rintro l ⟨q, hq, hl⟩
      exact ⟨q, List.mem_cons_of_mem _ hq, hl⟩
    obtain ⟨t₁, _, _, hrest, ⟨hremove, -⟩ | ⟨_, rfl, -⟩⟩ := removeFiles_cons h
    · obtain ⟨l, content, hl, hfile, rfl⟩ := removeFile_ok hremove
      have hdrop := ht.spares_drop hfile
      have hlater := ih (ht.drop hfile) hrest
      refine (hdrop.mono ?_).trans (hlater.mono hsub)
      exact Set.singleton_subset_iff.mpr ⟨p, List.mem_cons_self, hlater.locate (hdrop.locate hl)⟩
    · exact (ih ht hrest).mono hsub

/-- What is there after files were taken away was there before. -/
theorem entry?_of_removeFiles (h : removeFiles t ps = (t', removed, entries)) {l : Location} {e : Entry}
    (he : t'.entry? l = some e) : t.entry? l = some e := by
  induction ps generalizing t removed entries with
  | nil => exact (Prod.mk.inj h).1 ▸ he
  | cons p ps ih =>
    obtain ⟨t₁, _, _, hrest, ⟨hremove, -⟩ | ⟨_, rfl, -⟩⟩ := removeFiles_cons h
    · obtain ⟨k, content, -, -, rfl⟩ := removeFile_ok hremove
      have hdropped := ih hrest
      by_cases hprefix : k <+: l ∧ l ≠ []
      · rw [entry?_drop_below hprefix.1 hprefix.2] at hdropped
        cases hdropped
      · by_cases hl : l = []
        · rwa [hl, entry?_nil] at hdropped ⊢
        · rwa [entry?_drop_beside fun hk => hprefix ⟨hk, hl⟩] at hdropped
    · exact ih hrest

/-- Nothing is left of a file that was taken away. -/
theorem gone_of_removed (ht : t.Proper) (h : removeFiles t ps = (t', removed, entries)) (hp : p ∈ removed) :
    ∃ l, t'.locate p = .ok l ∧ t'.entry? l = none := by
  induction ps generalizing t removed entries with
  | nil =>
    obtain ⟨-, h⟩ := Prod.mk.inj h
    rw [(Prod.mk.inj h).1.symm] at hp
    cases hp
  | cons q ps ih =>
    obtain ⟨t₁, removed', _, hrest, ⟨hremove, rfl, -⟩ | ⟨_, rfl, rfl, -⟩⟩ := removeFiles_cons h
    · obtain ⟨l, content, hl, hfile, rfl⟩ := removeFile_ok hremove
      have ht₁ := ht.drop hfile
      rcases List.mem_cons.mp hp with rfl | hp
      · refine ⟨l, (removeFiles_spares ht₁ hrest).locate ((ht.spares_drop hfile).locate hl), ?_⟩
        by_contra hne
        obtain ⟨e, he⟩ := Option.ne_none_iff_exists'.mp hne
        have hback := entry?_of_removeFiles hrest he
        rw [entry?_drop_below List.prefix_rfl fun hnil => by simp [hnil] at hfile] at hback
        cases hback
      · exact ih ht₁ hrest hp
    · exact ih ht hrest hp

end Trampoline
end EngineBridge
