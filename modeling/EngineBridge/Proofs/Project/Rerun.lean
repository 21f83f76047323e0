import EngineBridge.Proofs.Export.Brackets
import EngineBridge.Proofs.Export.Rereading
import EngineBridge.Proofs.Project.Definitions
import EngineBridge.Proofs.Project.Schemas
import EngineBridge.Proofs.Project.Sources
import Mathlib

/-! A run on what a run has left behind, where the sources of the document may lie around the project.

What a run writes under the name of a source file is a wrapper or a placeholder. The wrapper of a class is no source file
for the reader; the other files may be read, but export nothing. So all that a run does to the next one is to stop it. -/

namespace EngineBridge
open Outcome Source
open FileTree (Spares Mutes KeepsSources)

variable {t t' : FileTree} {l : Location} {content : ByteArray}

/-! ### What is written -/

namespace FileTree
variable {p root : Path} {bytes : ByteArray} {as : List Artifact}
variable {results : List (Artifact × Except ExportError WriteOutcome)}
variable {write : FileTree → Path → Artifact → FileTree × Except ExportError WriteOutcome}

/-- A file is as it was before, or holds what was written. -/
theorem write_content {r : Except FileError Unit} (h : t.write p bytes = (t', r))
    (hfile : t'.entry? l = some (.file content)) : t.entry? l = some (.file content) ∨ content = bytes := by
  cases r with
  | error e => exact .inl (((write_error h).file (Set.notMem_empty _)).mp hfile)
  | ok _ =>
    obtain ⟨k, -, hk, hspares⟩ := write_ok h
    by_cases hl : l = k
    · rw [hl, hk] at hfile
      injection hfile with hfile
      injection hfile with hbytes
      exact .inr hbytes.symm
    · exact .inl ((hspares.file (by simpa using hl)).mp hfile)

theorem writeText_content {text : String} {r : Except ExportError Unit} (h : t.writeText p text = (t', r))
    (hfile : t'.entry? l = some (.file content)) : t.entry? l = some (.file content) ∨ content = text.toUTF8 := by
  obtain ⟨result, hwrite, -⟩ := writeText_cases h
  exact write_content hwrite hfile

/-- A way of writing an artifact fills files with its contents only. -/
def Fills (write : FileTree → Path → Artifact → FileTree × Except ExportError WriteOutcome) : Prop :=
  ∀ {t t' : FileTree} {root : Path} {a : Artifact} {r} {l : Location} {content : ByteArray}, write t root a = (t', r) →
    t'.entry? l = some (.file content) → t.entry? l = some (.file content) ∨ content = a.contents.toUTF8

theorem fills_writeArtifact : Fills writeArtifact := by
  intro t t' root a r l content h hfile
  obtain ⟨-, rfl, -⟩ | ⟨result, hwrite, -⟩ := writeArtifact_cases h
  · exact .inl hfile
  · exact writeText_content hwrite hfile

theorem fills_writeIfAbsent : Fills writeIfAbsent := by
  intro t t' root a r l content h hfile
  obtain ⟨-, rfl, -⟩ | ⟨-, result, hwrite, -⟩ := writeIfAbsent_cases h
  · exact .inl hfile
  · exact writeText_content hwrite hfile

theorem writeAll_content (hwrite : Fills write) (h : t.writeAll write root as = (t', results))
    (hfile : t'.entry? l = some (.file content)) :
    t.entry? l = some (.file content) ∨ ∃ a ∈ as, content = a.contents.toUTF8 := by
  induction as generalizing t results with
  | nil => exact .inl ((Prod.mk.inj h).1 ▸ hfile)
  | cons a as ih =>
    obtain ⟨t₁, r, rest, hfirst, hrest, -⟩ := writeAll_cons h
    rcases ih hrest with hmiddle | ⟨b, hb, hcontent⟩
    · exact (hwrite hfirst hmiddle).imp_right fun hcontent => ⟨a, List.mem_cons_self, hcontent⟩
    · exact .inr ⟨b, List.mem_cons_of_mem _ hb, hcontent⟩

/-- Where all texts declare nothing, a stage does not add to the next document. -/
theorem mutes_writeAll (hcareful : Careful write) (hfills : Fills write) (h : t.writeAll write root as = (t', results))
    (has : ∀ a ∈ as, Mute a.contents) : Mutes t t' where
  spares := (writeAll_spares hcareful h).mono (Set.subset_univ _)
  sources _ hfile := (writeAll_content hfills h hfile).imp_right fun ⟨a, ha, hcontent⟩ => ⟨a.contents, hcontent, has a ha⟩

end FileTree

/-! ### Texts that declare nothing -/

theorem Source.mute_of_unmarked {text : String} (h : Unmarked text.toList) : Mute text :=
  fun _ hparse => not_exported_of_unmarked h hparse

/-- What could end the string that the native name is in, and begin a declaration, are two different marks. -/
def TypeRecord.Inert (ty : TypeRecord) : Prop :=
  ty.kind = .classKind → Lacks '[' ty.nativeName ∨ Lacks ';' ty.nativeName

theorem Wrapper.Declares.mute {c : BindingContext} {fast : List FunctionId} {ty : TypeRecord} {a : Artifact}
    (h : Declares c fast ty a) (hbrackets : ty.Unbracketed) (hinert : ty.Inert) : Mute a.contents := by
  by_cases hkind : ty.kind = .classKind
  · rcases hinert hkind with hfree | hfree
    · exact mute_of_unmarked (h.unmarked hbrackets fun _ => hfree)
    · exact fun ds hparse => absurd hparse (h.refused hkind hfree ds)
  · exact mute_of_unmarked (h.unmarked hbrackets fun hclass => absurd hclass hkind)

theorem Trampoline.Touches.not_isSource {c : BindingContext} (h : Touches c t l) : ¬IsSource l := h.not_called (by decide)

namespace RunOptions
variable {o : RunOptions} {d : Document} {s : RunSummary} {m : Location}

theorem makeDocument_sources (hkind : o.kind = .sourceCode) : o.makeDocument t = .ok d ↔
    t.isThere o.input = true ∧ t.documentOfSources o.input o.source = .ok d := by
  unfold makeDocument FileTree.makeDocument
  rw [hkind]
  cases t.isThere o.input <;> simp

theorem consistent_of_makeDocument (h : o.makeDocument t = .ok d) : d.Consistent :=
  Document.validate_eq_ok.mp (validate_of_makeDocument h)

/-- The types of a document of source files are spelled without brackets. -/
theorem unbracketed_of_makeDocument (hkind : o.kind = .sourceCode) (h : o.makeDocument t = .ok d) :
    ∀ ty ∈ d.types, ty.Unbracketed := by
  obtain ⟨-, hd⟩ := (makeDocument_sources hkind).mp h
  obtain ⟨-, hd⟩ := FileTree.documentOfSources_eq_ok.mp hd
  refine Document.unbracketed_of_ofDecls hd (fun decl hdecl => ?_) (consistent_of_makeDocument h)
  obtain ⟨p, -, hp⟩ := List.mem_flatMap.mp hdecl
  obtain ⟨text, decls, -, hparse, hexported⟩ :=
    FileTree.exportedDecls_eq_ok.mp (FileTree.exportedDecls_of_declsAt (List.ne_nil_of_mem hp))
  rw [hexported] at hp
  exact typesInWords_of_parseFile hparse decl (List.mem_filter.mp hp).1

/-! ### One run -/

theorem checkpoint_mutes : Mutes t (o.checkpoint t d).1 := by
  refine .of_spares (checkpoint_keeps.mono fun l hl => ?_)
  obtain ⟨m, n, rfl, hends⟩ := hl.named
  exact not_called hends (by decide)

theorem generate_mutes (ht : t.Proper) (hd : d.Consistent) (hbrackets : ∀ ty ∈ d.types, ty.Unbracketed)
    (hinert : ∀ ty ∈ d.types, ty.Inert) : Mutes t (o.generate t d).1 := by
  obtain ⟨t₁, t₂, c, fast, hparts⟩ := o.exists_parts t d
  obtain ⟨made, hmade⟩ := hparts.trampolines
  obtain ⟨-, htouches⟩ := Trampoline.writeTrampolines_touches ht hd.names hmade
  have htrampolines : Mutes t t₁ := .of_spares (htouches.mono fun l hl => hl.2.not_isSource)
  have hwrappers : Mutes t₁ t₂ := by
    rw [← hparts.wrappers]
    refine FileTree.mutes_writeAll FileTree.careful_writeArtifact FileTree.fills_writeArtifact rfl fun a ha => ?_
    obtain ⟨ty, hty, entries, hrender⟩ := Wrapper.mem_rendered.mp ha
    rw [hparts.document] at hty
    exact (Wrapper.renderType_declares hrender).mute (hbrackets ty hty) (hinert ty hty)
  have hplaceholders : Mutes t₂ (o.generate t d).1 := by
    rw [← hparts.placeholders]
    refine FileTree.mutes_writeAll FileTree.careful_writeIfAbsent FileTree.fills_writeIfAbsent rfl fun a ha => ?_
    obtain ⟨ty, hty, hrender⟩ := Placeholder.mem_generated.mp ha
    rw [hparts.document] at hty
    exact mute_of_unmarked (Placeholder.unmarked_of_renderType (hbrackets ty (List.mem_filter.mp hty).1) hrender)
  exact htrampolines.trans (hwrappers.trans hplaceholders)

theorem run_mutes (ht : t.Proper) (hkind : o.kind = .sourceCode) (hvalid : o.validate t = .ok ())
    (hdocument : o.makeDocument t = .ok d) (hinert : ∀ ty ∈ d.types, ty.Inert) : Mutes t (o.run t).1 := by
  rw [run_eq hvalid hdocument]
  exact checkpoint_mutes.trans (generate_mutes (proper_checkpoint ht) (consistent_of_makeDocument hdocument)
    (unbracketed_of_makeDocument hkind hdocument) hinert)

/-! ### Another run -/

/-- Kept documents lie beside the directories of the stages. -/
theorem Keeps.beside (h : o.Keeps t l) (hleads : t.Leads o.project m) :
    ¬Project.trampolines m <+: l ∧ ¬Project.wrappers m <+: l ∧ ¬Project.placeholders m <+: l := by
  obtain ⟨name, hn, hends, hl⟩ := h
  have hdirectory : Path.Descends ⟨"Intermediate/SharpBind"⟩ :=
    (Path.descends_name (n := "Intermediate") (by decide)).child (n := "SharpBind") (by decide)
  have hplace := FileTree.eq_of_placeOf (a := ⟨⟨name⟩, ""⟩) hleads hdirectory (Path.descends_name hn) hl
  have hsegments : Path.segments ⟨"Intermediate/SharpBind"⟩ = ["Intermediate", "SharpBind"] := by decide
  rw [hsegments, Path.segments_of_slashFree hn.slashFree, List.append_assoc] at hplace
  have hnative : name ≠ "Native" := by
    rintro rfl
    exact absurd hends (by decide)
  subst hplace
  refine ⟨fun h => ?_, fun h => ?_, fun h => ?_⟩
  all_goals
    have hprefix := (List.prefix_append_right_inj m).mp h
    simp [hnative.symm] at hprefix

/-- What a run has finished stays so while the directories of its stages are spared. -/
theorem Finished.beside {S : Set Location} (h : o.Finished d t) (ht : t.Proper) (ht' : t'.Proper)
    (hmodules : ∀ ty ∈ d.types, isIdentifier ty.module = true) (hnames : (d.types.map (·.name)).Nodup)
    (hspares : Spares S t t') (hleads : t'.Leads o.project m)
    (hS : ∀ l ∈ S, ¬Project.trampolines m <+: l ∧ ¬Project.wrappers m <+: l ∧ ¬Project.placeholders m <+: l) :
    o.Finished d t' where
  trampolines henabled := (h.trampolines henabled).beside hmodules hnames ht ht' hspares hleads
    fun l hbelow hl => (hS l hl).1 hbelow
  wrappers a ha := FileTree.lasting_writeArtifact.beside Wrapper.descends_managed (Wrapper.descends_rendered ha)
    (h.wrappers a ha) hspares hleads fun l hbelow hl => (hS l hl).2.1 hbelow
  placeholders a ha := FileTree.lasting_writeIfAbsent.beside Placeholder.descends_definitions
    (Placeholder.descends_generated ha) (h.placeholders a ha) hspares hleads fun l hbelow hl => (hS l hl).2.2 hbelow

theorem Finished.checkpoint (h : o.Finished d t) (ht : t.Proper) (hmodules : ∀ ty ∈ d.types, isIdentifier ty.module = true)
    (hnames : (d.types.map (·.name)).Nodup) : o.Finished d (o.checkpoint t d).1 := by
  obtain ⟨m, hleads, -⟩ := FileTree.exists_leads (o.checkpoint t d).1 o.project
  exact h.beside ht (proper_checkpoint ht) hmodules hnames checkpoint_keeps hleads fun l hl => hl.beside hleads

theorem validate_sources (hkind : o.kind = .sourceCode) :
    o.validate t = .ok () ↔ t.isDirectory o.project = true ∧ t.isThere o.input = true := by
  unfold validate
  rw [hkind]
  cases t.isDirectory o.project <;> cases t.isThere o.input <;> simp [bind, Except.bind, pure, Except.pure, throw, throwThe,
    MonadExceptOf.throw]

theorem run_of_document (hvalid : o.validate t = .ok ()) (hdocument : o.makeDocument t = .ok d) :
    o.run t = ((o.generate (o.checkpoint t d).1 d).1,
      (o.generate (o.checkpoint t d).1 d).2.map fun s => { s with checkpoint := (o.checkpoint t d).2 }) := by
  unfold run
  simp only [hvalid, hdocument]

/-- A run that gives a summary has run all stages on its document. -/
theorem run_ok (hdocument : o.makeDocument t = .ok d) (h : o.run t = (t', .ok s)) : o.validate t = .ok () ∧
    ∃ s', o.generate (o.checkpoint t d).1 d = (t', .ok s') ∧ s = { s' with checkpoint := (o.checkpoint t d).2 } := by
  cases hvalid : o.validate t with
  | error e =>
    unfold run at h
    rw [hvalid] at h
    cases h
  | ok _ =>
    rw [run_of_document hvalid hdocument] at h
    obtain ⟨htree, hsummary⟩ := Prod.mk.inj h
    obtain ⟨s', hs', rfl⟩ := map_eq_ok.mp hsummary
    exact ⟨rfl, s', Prod.ext htree hs', rfl⟩

/-- A run in the tree makes the document, and ends well. -/
structure Repeats (o : RunOptions) (d : Document) (t : FileTree) : Prop where
  document : o.makeDocument t = .ok d
  verdict : ∃ t' s, o.run t = (t', .ok s) ∧ s.verdict = .ok ()

/-- The verdict is that of the stages, wherever the document was kept. -/
theorem verdict_checkpoint {checkpoint : Option Path} : { s with checkpoint : RunSummary }.verdict = s.verdict := rfl

theorem Succeeded.repeats (h : o.Succeeded d t s) (ht : t.Proper) (hverdict : s.verdict = .ok ())
    (hvalid : o.validate t = .ok ()) (hdocument : o.makeDocument t = .ok d) : o.Repeats d t := by
  have hmodules : ∀ ty ∈ d.types, isIdentifier ty.module = true := fun ty hty => by
    obtain ⟨entries, a, hrender⟩ := h.wrappers ty hty
    exact (Wrapper.renderType_names hrender).2.1
  have hnames := (consistent_of_makeDocument hdocument).names
  have hidle := (h.finished.checkpoint ht hmodules hnames).idle
  refine ⟨hdocument, (o.checkpoint t d).1, { o.complete d with checkpoint := (o.checkpoint t d).2 }, ?_, ?_⟩
  · rw [run_of_document hvalid hdocument, hidle]
    rfl
  · rw [verdict_checkpoint, ← h.summary, hverdict]

/-- After a class has had its wrapper written below the directory of the sources, no document is made of them. -/
theorem stopped_by_class {input project : Location} {ty : TypeRecord} (ht : t.Proper) (hkind : o.kind = .sourceCode)
    (hdocument : o.makeDocument t = .ok d) (hrun : o.run t = (t', .ok s)) (hverdict : s.verdict = .ok ())
    (hinput : t.locate o.input = .ok input) (hdirectory : t.entry? input = some .directory)
    (hproject : t.locate o.project = .ok project) (hinside : input <+: project) (hty : ty ∈ d.types)
    (hclass : ty.kind = .classKind) (hfree : Lacks ';' ty.nativeName) : ∀ d', o.makeDocument t' ≠ .ok d' := by
  obtain ⟨-, s', hgenerate, rfl⟩ := run_ok hdocument hrun
  have hkept := checkpoint_keeps (t := t) (o := o) (d := d)
  have hproject' := hkept.locate hproject
  have hproper := proper_checkpoint (o := o) (d := d) ht
  have hleaves := Project.Run.leaves
    ⟨validate_of_makeDocument hdocument, o, s', hproject', hgenerate, hverdict⟩ hproper
  obtain ⟨c, fast, -, hshown, -⟩ := hleaves.shown
  obtain ⟨entries, a, hrender, hfile⟩ := hshown ty hty
  obtain ⟨rest, rfl⟩ := hinside
  have hinput' := hleaves.spares.locate (hkept.locate hinput)
  have hdirectory' := hleaves.spares.directory (hkept.directory hdirectory)
  have hlast : rest ++ ["Managed", "Bindings"] ++ [ty.module, ty.name ++ ".gen.cs"] =
      (rest ++ ["Managed", "Bindings", ty.module]) ++ [ty.name ++ ".gen.cs"] := by simp
  generalize hnames : rest ++ ["Managed", "Bindings"] ++ [ty.module, ty.name ++ ".gen.cs"] = names at hlast
  have hwrapper : Project.wrapper (input ++ rest) ty = input ++ names := by
    rw [← hnames]
    simp [Project.wrapper, Project.wrappers]
  rw [hwrapper] at hfile
  have hnamed : ∀ n ∈ names, Path.IsName n := fun n hn => hleaves.proper.isName hfile (List.mem_append_right _ hn)
  have hends : (names.foldl Path.child o.input).extension? = some "cs" := by
    rw [hlast] at hnamed ⊢
    rw [Path.extension?_below (hnamed _ (List.mem_append_right _ List.mem_cons_self))]
    exact Path.splitName_of_point (ty.name.toList ++ ".gen".toList) "cs".toList (by simp) (by decide) (by simp)
  -- The wrapper is one of the input files now, and what it declares is no source text.
  intro d' hd'
  obtain ⟨-, hsources⟩ := (makeDocument_sources hkind).mp hd'
  obtain ⟨ds, hds⟩ := (FileTree.documentOfSources_eq_ok.mp hsources).1 _
    (FileTree.mem_inputFiles hinput' hdirectory' (hleaves.proper.mem_namesBelow.mpr ⟨_, hfile⟩) hends)
  obtain ⟨text, decls, hfind, hparse, -⟩ := FileTree.exportedDecls_eq_ok.mp hds
  have htext := FileTree.find?_below hinput' hnamed hfind
  rw [hfile] at htext
  injection htext with htext
  injection htext with hbytes
  obtain rfl := String.toByteArray_inj.mp hbytes
  exact (Wrapper.renderType_declares hrender).refused hclass hfree decls hparse

end RunOptions

/-! ### A project with a script -/

namespace Project.ScriptedActor

/-- What the user wrote. -/
def script : String := "[UClass] public class Actor \x7b \x7d"

def root : Location := ["project"]

/-- The project before the script was written. -/
def bare : FileTree := ⟨[(root, .directory)], [], []⟩

def tree : FileTree := bare.put (root ++ ["actor.cs"]) (.file script.toUTF8)

def options (input : Path) : RunOptions := ⟨.sourceCode, input, ⟨"/project"⟩, none, none, .native, .usual⟩

/-- The script is the input. -/
def scripted : RunOptions := options ⟨"/project/actor.cs"⟩

/-- The project is the input. -/
def enclosing : RunOptions := options ⟨"/project"⟩

def actor : TypeRecord := .bare "Actor" "Game" .classKind

def document : Document := ⟨"5.4", .empty, [actor]⟩

theorem proper : tree.Proper := by
  have hbare : bare.Proper := by decide
  exact hbare.put (l := root) (n := "actor.cs") (by decide) (by decide) (.inl (by decide))

/-- The actor as it is read. -/
def decl : TypeDecl where
  name := "Actor"
  kind := .classKind
  module := none
  nspace := none
  base := none
  attributes := [⟨"UClass", []⟩]
  modifiers := ["public"]
  members := []
  variants := []

set_option maxRecDepth 4000 in
theorem parsed : parseFile script = .ok [decl] := by cbv

theorem lowered : Document.ofDecls [decl] "Game" "5.4" .empty = .ok document := by rfl

theorem exported : tree.exportedDecls ⟨"/project/actor.cs"⟩ = .ok [decl] :=
  FileTree.exportedDecls_eq_ok.mpr ⟨script, [decl], by rfl, parsed, by rfl⟩

theorem inputFiles_scripted : tree.inputFiles scripted.input = [⟨"/project/actor.cs"⟩] := by rfl

theorem inputFiles_enclosing : tree.inputFiles enclosing.input = [⟨"/project/actor.cs"⟩] := by
  have hdirectory : tree.isDirectory enclosing.input = true := by decide
  have hl : tree.locate enclosing.input = .ok root := by decide
  have hnames : tree.sortedNames root = [["actor.cs"]] := List.mergeSort_singleton _
  unfold FileTree.inputFiles FileTree.sourceFiles
  rw [if_pos hdirectory, FileTree.walk_eq hl, hnames]
  decide

/-- Either input has the actor in it. -/
theorem made {input : Path} (hthere : tree.isThere input = true)
    (hfiles : tree.inputFiles input = [⟨"/project/actor.cs"⟩]) : (options input).makeDocument tree = .ok document := by
  refine (RunOptions.makeDocument_sources rfl).mpr ⟨hthere, FileTree.documentOfSources_eq_ok.mpr ?_⟩
  have hinput : (options input).input = input := rfl
  rw [hinput, hfiles, List.flatMap_singleton, FileTree.declsAt_of_ok exported]
  exact ⟨List.forall_mem_singleton.mpr ⟨_, exported⟩, lowered⟩

/-- The context of the wrapper and the placeholder: no trampolines are made. -/
def settled : BindingContext := scripted.settled document []

/-- A run ends well if the wrapper and the placeholder can be written. -/
theorem ends_well (input : Path) (hvalid : (options input).validate tree = .ok ())
    (hmade : (options input).makeDocument tree = .ok document)
    (hwrapper : (Wrapper.outputOf ((options input).checkpoint tree document).1 settled []).report.isSuccess = true)
    (hplaceholder : (Placeholder.writeOut (Wrapper.writes ((options input).checkpoint tree document).1 settled []).1
      settled).2.report.isSuccess = true) : ∃ last s, (options input).run tree = (last, .ok s) ∧ s.verdict = .ok () := by
  have hdisabled : document.allowsFastInvoke = false := by decide
  have hgenerate := (options input).generate_without_trampolines (d := document)
    ((options input).checkpoint tree document).1 hdisabled
  have hsettled : (options input).settled document [] = settled := rfl
  rw [hsettled] at hgenerate
  refine ⟨_, _, (RunOptions.run_of_document hvalid hmade).trans (by rw [hgenerate]; rfl), ?_⟩
  rw [RunOptions.verdict_checkpoint, RunSummary.verdict_eq_ok]
  exact List.forall_mem_cons.mpr ⟨hwrapper, List.forall_mem_singleton.mpr hplaceholder⟩

/-- Of the first run it is evaluated whether files can be written, but none of their texts. -/
theorem enclosing_ends_well : ∃ last s, enclosing.run tree = (last, .ok s) ∧ s.verdict = .ok () := by
  refine ends_well _ ?_ (made ?_ inputFiles_enclosing) ?_ ?_
  all_goals decide +kernel

theorem scripted_ends_well : ∃ last s, scripted.run tree = (last, .ok s) ∧ s.verdict = .ok () := by
  refine ends_well _ ?_ (made ?_ inputFiles_scripted) ?_ ?_
  all_goals decide +kernel

/-- The run leaves the script as it is. -/
theorem script_kept {last : FileTree} {s : RunSummary} (hran : scripted.run tree = (last, .ok s))
    (hverdict : s.verdict = .ok ()) : last.find? scripted.input = tree.find? scripted.input := by
  have hmade : scripted.makeDocument tree = .ok document := made (by decide) inputFiles_scripted
  obtain ⟨-, s', hgenerate, rfl⟩ := RunOptions.run_ok hmade hran
  have hkept := RunOptions.checkpoint_keeps (t := tree) (o := scripted) (d := document)
  have hrun : Run root (scripted.checkpoint tree document).1 document last :=
    ⟨by decide, scripted, s', hkept.locate (by decide), hgenerate, hverdict⟩
  have hleaves := hrun.leaves (RunOptions.proper_checkpoint proper)
  have hlocated : tree.locate scripted.input = .ok (root ++ ["actor.cs"]) := by decide
  have hfile : tree.entry? (root ++ ["actor.cs"]) = some (.file script.toUTF8) := FileTree.entry?_put_self (by decide)
  have hdocument : ¬scripted.Keeps (scripted.checkpoint tree document).1 (root ++ ["actor.cs"]) := fun hl =>
    not_called (show ".cs".toList <:+ "actor.cs".toList by decide) (by decide) hl.named
  have hlast : last.entry? (root ++ ["actor.cs"]) = some (.file script.toUTF8) := by
    refine (hleaves.spares.file ?_).mpr ((hkept.file hdocument).mpr hfile)
    rintro (htrampoline | ⟨ty, hty, hwrapper⟩ | hplaceholder)
    · exact absurd htrampoline (by decide)
    · rw [List.mem_singleton.mp hty] at hwrapper
      exact absurd hwrapper (by decide)
    · exact absurd hplaceholder (by decide)
  have hfound := FileTree.find?_eq_some.mpr ⟨_, hlocated, hfile⟩
  exact (FileTree.find?_eq_some.mpr ⟨_, hleaves.spares.locate (hkept.locate hlocated), hlast⟩).trans hfound.symm

end Project.ScriptedActor
end EngineBridge
