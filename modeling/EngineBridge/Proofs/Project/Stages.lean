import EngineBridge.Proofs.Export.Disk
import EngineBridge.Proofs.Export.WrapperText
import EngineBridge.Proofs.Json.Reading

/-! What the stages of a run change in a project.

Each stage writes below a directory of its own, and none of these lies within another; so each leaves alone what the
others have written. A stage that reports no failure has written all that it renders. -/

namespace EngineBridge
open Outcome
open Path (Descends IsName)
open FileTree (Spares)

theorem Report.isSuccess_iff {r : Report} : r.isSuccess = true ↔ ∀ e ∈ r.entries, e.outcome.isFailed = false := by
  simp [Report.isSuccess, Report.failures, Report.countWhere, List.filter_eq_nil_iff]

/-- A report that knows of no failure has nothing unwritten in it. -/
theorem unwritten_eq_nil {r : Report} {results : List (Artifact × Except ExportError WriteOutcome)}
    (hr : r.isSuccess = true) (hreported : ∀ u ∈ unwritten results, unwrittenEntry u ∈ r.entries) :
    unwritten results = [] := by
  refine List.eq_nil_iff_forall_not_mem.mpr fun u hu => ?_
  cases Report.isSuccess_iff.mp hr _ (hreported u hu)

/-- Where everything could be written, everything is done. -/
theorem FileTree.writeAll_complete {write : FileTree → Path → Artifact → FileTree × Except ExportError WriteOutcome}
    {Done : FileTree → Path → Artifact → Prop} {idle : WriteOutcome} (hwrite : FileTree.Lasting write Done idle)
    {t t' : FileTree} {root : Path} {as : List Artifact} {results : List (Artifact × Except ExportError WriteOutcome)}
    (hroot : root.Solid) (hdescends : ∀ a ∈ as, a.path.Descends) (hdistinct : (as.map (·.path.segments)).Nodup)
    (h : t.writeAll write root as = (t', results)) (hresults : unwritten results = []) : ∀ a ∈ as, Done t' root a := by
  intro a ha
  rw [← FileTree.writeAll_artifacts h] at ha
  obtain ⟨⟨a, r⟩, hr, rfl⟩ := List.mem_map.mp ha
  cases r with
  | ok o => exact FileTree.writeAll_done hwrite hroot hdescends hdistinct h hr
  | error e =>
    have hunwritten := Trampoline.mem_unwritten.mpr hr
    rw [hresults] at hunwritten
    cases hunwritten

/-! ### The text of the index -/

/-- The index has the symbols of its entries in double quotes. -/
theorem TrampolineManifest.quoted_of_entry {m : TrampolineManifest} {e : TrampolineEntry} (he : e ∈ m.entries) :
    Json.quotedString e.symbol <:+: m.toText.toList := by
  have hentry : Json.pretty 2 e.toJson <:+: Json.pretty 0 m.toJson :=
    (Json.infix_array (List.mem_map_of_mem he)).trans (Json.infix_record "entries" (by simp))
  have hsymbol : Json.pretty 3 (.str e.symbol) <:+: Json.pretty 2 e.toJson :=
    Json.infix_record "symbol" (by simp)
  unfold TrampolineManifest.toText Json.toPretty
  rw [String.toList_ofList]
  exact hsymbol.trans hentry

/-! ### Directories of a project -/

namespace Project
variable {project l : Location}

/-- The directory of the trampolines. -/
def trampolines (project : Location) : Location := project ++ ["Intermediate", "SharpBind", "Native"]

/-- The directory of the wrappers. -/
def wrappers (project : Location) : Location := project ++ ["Managed", "Bindings"]

/-- The directory of the placeholders. -/
def placeholders (project : Location) : Location := project ++ ["Managed", "Bindings.Defs"]

/-- The file of the index of trampolines. -/
def index (project : Location) : Location := trampolines project ++ [Trampoline.manifestFile]

/-- The file of a type's wrapper. -/
def wrapper (project : Location) (t : TypeRecord) : Location := wrappers project ++ [t.module, t.name ++ ".gen.cs"]

/-- What lies below two directories of a project lies below directories of which one is within the other. -/
theorem prefix_of_below {a b : List String} (ha : project ++ a <+: l) (hb : project ++ b <+: l) : a <+: b ∨ b <+: a := by
  rcases List.prefix_or_prefix_of_prefix ha hb with h | h
  · exact .inl ((List.prefix_append_right_inj _).mp h)
  · exact .inr ((List.prefix_append_right_inj _).mp h)

theorem not_wrappers_of_trampolines (h : trampolines project <+: l) : ¬wrappers project <+: l := fun h' =>
  absurd (prefix_of_below h h') (by decide)

theorem not_wrappers_of_placeholders (h : placeholders project <+: l) : ¬wrappers project <+: l := fun h' =>
  absurd (prefix_of_below h h') (by decide)

theorem not_trampolines_of_placeholders (h : placeholders project <+: l) : ¬trampolines project <+: l := fun h' =>
  absurd (prefix_of_below h h') (by decide)

theorem wrapper_below (t : TypeRecord) : wrappers project <+: wrapper project t := List.prefix_append _ _

theorem index_below : trampolines project <+: index project := List.prefix_append _ _

/-- The index on disk has an entry of the symbol. -/
def Lists (t : FileTree) (project : Location) (symbol : String) : Prop :=
  ∃ m : TrampolineManifest, t.entry? (index project) = some (.file m.toText.toUTF8) ∧ ∃ e ∈ m.entries, e.symbol = symbol

theorem Lists.spares {S : Set Location} {t t' : FileTree} {symbol : String} (h : Lists t project symbol)
    (hspares : Spares S t t') (hindex : index project ∉ S) : Lists t' project symbol := by
  obtain ⟨m, hfile, hlisted⟩ := h
  exact ⟨m, (hspares.file hindex).mpr hfile, hlisted⟩

end Project

/-! ### Where stages write -/

namespace FileTree
variable {t t' : FileTree} {l project : Location} {S : Set Location} {root q : Path}

/-- The location lies in the directory that the path leads to. -/
def Within (t : FileTree) (root : Path) (l : Location) : Prop := ∃ m, t.locate root = .ok m ∧ m <+: l

theorem Spares.within (h : Spares S t t') (hl : t.Within root l) : t'.Within root l := by
  obtain ⟨m, hm, hprefix⟩ := hl
  exact ⟨m, h.locate hm, hprefix⟩

theorem within_foldl_child {names : List String} (hroot : root.Solid) (hnames : ∀ n ∈ names, IsName n)
    (hl : t.locate (names.foldl Path.child root) = .ok l) : t.Within root l := by
  obtain ⟨m, hm, rfl⟩ := locate_foldl_child hroot hnames hl
  exact ⟨m, hm, List.prefix_append _ _⟩

/-- What leads down from a directory stays in it. -/
theorem within_of_placeOf {a : Artifact} (hroot : root.Solid) (ha : a.path.Descends) (hl : l ∈ t.placeOf root a) :
    t.Within root l := by
  have hplace : t.locate (root.join a.path) = .ok l := hl
  rw [ha.join_eq hroot] at hplace
  exact within_foldl_child hroot ha.named hplace

/-- What lies in a directory below a path lies below where the path leads. -/
theorem Within.below (h : t.Within (root.join q) l) (hq : q.Descends) (hroot : t.Leads root project) :
    project ++ q.segments <+: l := by
  obtain ⟨m, hm, hprefix⟩ := h
  rwa [hroot hq hm] at hprefix

/-- Where the file of a type is written, the file has the name of the type. -/
theorem locate_file {name module ending : String} (hname : isIdentifier name = true) (hfree : '/' ∉ ending.toList)
    (hl : t.locate (root.join (Path.child ⟨module⟩ (name ++ ending))) = .ok l) : ∃ m, l = m ++ [name ++ ending] := by
  have hfile := isName_of_isIdentifier hname hfree
  obtain ⟨front, hfront⟩ := Path.segments_child_last ⟨module⟩ hfile
  obtain ⟨front', hlast⟩ := Path.segments_join_last root hfront
  exact locate_last hlast hfile hl

end FileTree

section
variable {t t' : FileTree} {c : BindingContext} {project : Location} {d : Document} {root : Path} {schema : BindingSchema}

/-! ### Trampolines -/

namespace Trampoline

theorem descends_native : Descends ⟨"Intermediate/SharpBind/Native"⟩ :=
  ((Path.descends_name (n := "Intermediate") (by decide)).child (n := "SharpBind") (by decide)).child (n := "Native")
    (by decide)

section
variable {l : Location} {S : Set Location}

/-- Names that only files of the pass have. -/
def IsOwnName (n : String) : Prop := n = headerFile ∨ n = manifestFile ∨ typeFileEnding.toList <:+ n.toList

/-- The file has a name of the pass and lies in its directory. -/
structure Placed (c : BindingContext) (t : FileTree) (l : Location) : Prop where
  named : ∃ m n, l = m ++ [n] ∧ IsOwnName n
  within : t.Within c.nativeRoot l

/-- The file of the trampolines of a type whose module is no identifier. -/
def Stray (c : BindingContext) (t : FileTree) (l : Location) : Prop :=
  ∃ ty ∈ c.document.types, isIdentifier ty.module = false ∧ t.locate (c.nativeRoot.join (typeFilePath ty)) = .ok l

/-- What the pass may change: files with a name of its own, in its directory unless they are stray. -/
structure Touches (c : BindingContext) (t : FileTree) (l : Location) : Prop where
  named : ∃ m n, l = m ++ [n] ∧ IsOwnName n
  placed : t.Within c.nativeRoot l ∨ Stray c t l

theorem Placed.touches (h : Placed c t l) : Touches c t l := ⟨h.named, .inl h.within⟩

theorem Placed.spares (hl : Placed c t l) (h : Spares S t t') : Placed c t' l := ⟨hl.named, h.within hl.within⟩

theorem Touches.spares (hl : Touches c t l) (h : Spares S t t') : Touches c t' l := by
  refine ⟨hl.named, hl.placed.imp h.within ?_⟩
  rintro ⟨ty, hty, hmodule, hplace⟩
  exact ⟨ty, hty, hmodule, h.locate hplace⟩

theorem placed_child {n : String} (hn : IsName n) (hown : IsOwnName n) (hl : t.locate (c.nativeRoot.child n) = .ok l) :
    Placed c t l := by
  obtain ⟨m, hm, rfl⟩ := FileTree.locate_child nativeRoot_solid hn hl
  exact ⟨⟨m, n, rfl, hown⟩, m, hm, List.prefix_append _ _⟩

/-- The files that are swept lie below the root and are named for trampolines. -/
theorem placed_leftover (ht : t.Proper) {p : Path} (hp : p ∈ leftovers t c) (hl : t'.locate p = .ok l) :
    Placed c t' l := by
  obtain ⟨hwalk, htype, -⟩ := mem_leftovers.mp hp
  obtain ⟨names, hnamed, rfl⟩ := (proper_writes ht).names_of_walk hwalk
  obtain ⟨m, hm, rfl⟩ := FileTree.locate_foldl_child nativeRoot_solid hnamed hl
  refine ⟨?_, m, hm, List.prefix_append _ _⟩
  rcases List.eq_nil_or_concat names with rfl | ⟨front, n, rfl⟩
  · have hsegments : Path.segments ⟨"Intermediate/SharpBind/Native"⟩ = ["Intermediate", "SharpBind"] ++ ["Native"] := by
      decide
    have hname : c.nativeRoot.fileName? = some "Native" := Path.fileName?_join hsegments (by decide)
    rw [List.foldl_nil, typeOfPath?, hname] at htype
    exact absurd htype (by decide)
  · rw [List.concat_eq_append] at hnamed htype ⊢
    have hn : IsName n := hnamed n (List.mem_append_right _ List.mem_cons_self)
    refine ⟨m ++ front, n, (List.append_assoc _ _ _).symm, .inr (.inr ?_)⟩
    rw [List.foldl_append, List.foldl_cons, List.foldl_nil, typeOfPath?_child hn] at htype
    split at htype
    · next hsuffix => exact List.isSuffixOf_iff_suffix.mp hsuffix
    · cases htype

theorem touches_artifact {a : Artifact} (hnames : (c.document.types.map (·.name)).Nodup) (ha : a ∈ (generate c).artifacts)
    (hl : l ∈ t.placeOf c.nativeRoot a) : Touches c t l := by
  rcases mem_artifacts_iff.mp ha with ⟨x, hx, rfl⟩ | rfl
  · obtain ⟨m, rfl⟩ := FileTree.locate_file (isIdentifier_type hx) typeFileEnding_slashFree hl
    refine ⟨⟨m, _, rfl, .inr (.inr ?_)⟩, ?_⟩
    · rw [String.toList_append]
      exact List.suffix_append _ _
    · cases hmodule : isIdentifier x.1.type.module with
      | true =>
        have hdescends : (fileOf x).path.Descends := descends_file (isIdentifier_type hx) hmodule typeFileEnding_slashFree
        exact .inl (FileTree.within_of_placeOf nativeRoot_solid hdescends hl)
      | false =>
        obtain ⟨ty, hty, rfl⟩ := mem_madeGroups hnames hx
        exact .inr ⟨ty, hty, hmodule, hl⟩
  · exact (placed_child isName_headerFile (.inl rfl) hl).touches

/-- The sweep and the index do not leave the directory. -/
theorem writes_placed (ht : t.Proper) : Spares {l | Placed c (writeOut t c).1 l} (writes t c).1 (writeOut t c).1 := by
  have hsweep := sweep_spares (c := c) ht
  have hindex := indexWrite_spares (t := t) (c := c)
  rw [writeOut_tree]
  refine (hsweep.mono ?_).trans (hindex.mono ?_)
  · rintro l ⟨p, hp, hl⟩
    exact (placed_leftover ht hp hl).spares hindex
  · exact fun l hl => placed_child isName_manifestFile (.inr (.inl rfl)) hl

/-- The pass changes no files but its own. -/
theorem writeOut_touches (ht : t.Proper) (hnames : (c.document.types.map (·.name)).Nodup) :
    Spares {l | Touches c (writeOut t c).1 l} t (writeOut t c).1 := by
  have hwrites : Spares {l | ∃ a ∈ (generate c).artifacts, l ∈ (writes t c).1.placeOf c.nativeRoot a} t (writes t c).1 :=
    FileTree.writeAll_spares FileTree.careful_writeArtifact rfl
  have hplaced := writes_placed (c := c) ht
  refine (hwrites.mono ?_).trans (hplaced.mono fun l hl => hl.touches)
  rintro l ⟨a, ha, hl⟩
  exact (touches_artifact hnames ha hl).spares hplaced

/-- So does the stage, if it runs. -/
theorem writeTrampolines_touches {c' : BindingContext} {made : Option Output} (ht : t.Proper)
    (hnames : (c.document.types.map (·.name)).Nodup)
    (h : RunOptions.writeTrampolines t c = (t', .ok c', made)) :
    t'.Proper ∧ Spares {l | c.fastInvokeEnabled = true ∧ Touches c t' l} t t' := by
  unfold RunOptions.writeTrampolines at h
  split at h
  · next henabled =>
    obtain ⟨rfl, -⟩ := Prod.mk.inj h
    exact ⟨proper_writeOut ht, (writeOut_touches ht hnames).mono fun l hl => ⟨henabled, hl⟩⟩
  · obtain ⟨rfl, -⟩ := Prod.mk.inj h
    exact ⟨ht, .refl _ _⟩

end

/-- Where all modules are identifiers, the stage changes nothing outside of its directory. -/
theorem writeOut_spares (ht : t.Proper) (hmodules : ∀ ty ∈ c.document.types, isIdentifier ty.module = true)
    (hnames : (c.document.types.map (·.name)).Nodup) (hroot : t.locate c.root = .ok project) :
    Spares {l | Project.trampolines project <+: l} t (writeOut t c).1 := by
  have htouches := writeOut_touches ht hnames
  refine htouches.mono fun l hl => ?_
  rcases hl.placed with hwithin | ⟨ty, hty, hmodule, -⟩
  · exact hwithin.below descends_native (FileTree.leads_of_locate (htouches.locate hroot))
  · rw [hmodules ty hty] at hmodule
    cases hmodule

theorem failed_of_removeFiles {ps removed : List Path} {entries : List ReportEntry}
    (h : removeFiles t ps = (t', removed, entries)) : ∀ e ∈ entries, e.outcome.isFailed = true := by
  induction ps generalizing t removed entries with
  | nil =>
    obtain ⟨-, h⟩ := Prod.mk.inj h
    rw [← (Prod.mk.inj h).2]
    exact List.forall_mem_nil _
  | cons p ps ih =>
    obtain ⟨t₁, _, _, hrest, ⟨-, -, rfl⟩ | ⟨e, -, -, rfl⟩⟩ := removeFiles_cons h
    · exact ih hrest
    · exact List.forall_mem_cons.mpr ⟨rfl, ih hrest⟩

/-- Where no failure is reported, no part of the pass failed. -/
theorem parts_of_success (hok : (writeOut t c).2.report.isSuccess = true) :
    unwritten (writes t c).2 = [] ∧ (sweep t c).2.2 = [] ∧ ∃ o, (indexWrite t c).2 = .ok o := by
  have hreport := Report.isSuccess_iff.mp hok
  rw [writeOut_report] at hreport
  refine ⟨unwritten_eq_nil hok fun u hu => ?_, List.eq_nil_iff_forall_not_mem.mpr fun e he => ?_, ?_⟩
  · rw [writeOut_report]
    exact List.mem_append_right _ (List.mem_append_left _ (List.mem_append_left _ (List.mem_map_of_mem hu)))
  · have hfailed := failed_of_removeFiles rfl e he
    rw [hreport e (List.mem_append_right _ (List.mem_append_left _ (List.mem_append_right _ he)))] at hfailed
    cases hfailed
  · cases hindex : (indexWrite t c).2 with
    | ok o => exact ⟨o, rfl⟩
    | error e =>
      rw [hindex] at hreport
      cases hreport _ (List.mem_append_right _ (List.mem_append_right _ List.mem_cons_self))

theorem holds_index_of_success (hok : (writeOut t c).2.report.isSuccess = true) :
    (writeOut t c).1.holds (c.nativeRoot.join ⟨manifestFile⟩) (writeOut t c).2.manifest.toText = true := by
  obtain ⟨-, -, o, hwritten⟩ := parts_of_success hok
  rw [writeOut_eq]
  exact FileTree.writeArtifact_ok (a := index t c) (Prod.ext rfl hwritten)

/-- Where no failure is reported, the index is on disk. -/
theorem index_of_success (ht : t.Proper) (hmodules : ∀ ty ∈ c.document.types, isIdentifier ty.module = true)
    (hnames : (c.document.types.map (·.name)).Nodup) (hroot : t.locate c.root = .ok project)
    (hok : (writeOut t c).2.report.isSuccess = true) :
    FileTree.entry? (writeOut t c).1 (Project.index project) = some (.file (writeOut t c).2.manifest.toText.toUTF8) := by
  obtain ⟨l, hl, hfile⟩ := FileTree.holds_iff.mp (holds_index_of_success hok)
  have hroot' := (writeOut_spares ht hmodules hnames hroot).locate hroot
  have hplace : l ∈ (writeOut t c).1.placeOf c.nativeRoot ⟨⟨manifestFile⟩, ""⟩ := hl
  have hleads : (writeOut t c).1.Leads c.root project := FileTree.leads_of_locate hroot'
  rw [FileTree.eq_of_placeOf hleads descends_native (Path.descends_name isName_manifestFile) hplace] at hfile
  exact hfile

/-- Where no failure is reported, the index on disk has the symbols of all functions that have a trampoline. -/
theorem lists_of_success (ht : t.Proper) (hmodules : ∀ ty ∈ c.document.types, isIdentifier ty.module = true)
    (hnames : (c.document.types.map (·.name)).Nodup) (hroot : t.locate c.root = .ok project)
    (hok : (writeOut t c).2.report.isSuccess = true) {id : FunctionId} (hid : id ∈ (writeOut t c).2.functions) :
    Project.Lists (writeOut t c).1 project (trampolineSymbol id) := by
  obtain ⟨e, he, rfl⟩ := mem_functions_iff.mp hid
  obtain ⟨ty, -, f, -, hmade⟩ := made_of_written hnames he
  refine ⟨_, index_of_success ht hmodules hnames hroot hok, e, he, ?_⟩
  rw [hmade.symbol_eq, hmade.id_eq]

theorem generate_not_failed (c : BindingContext) : ∀ e ∈ (generate c).report.entries, e.outcome.isFailed = false := by
  intro e he
  obtain ⟨x, hx, he⟩ := List.mem_flatMap.mp (show e ∈ ((groups c).map fun g => (g, lowerGroup c.document g)).flatMap
    (·.2.2) from he)
  obtain ⟨g, -, rfl⟩ := List.mem_map.mp hx
  obtain ⟨⟨y, r⟩, -, rfl⟩ := List.mem_map.mp he
  cases r <;> rfl

/-- The stage reports a failure only of a file that could not be written or taken away. -/
theorem success_of_parts {o : WriteOutcome} (hwrites : unwritten (writes t c).2 = []) (hsweep : (sweep t c).2.2 = [])
    (hindex : (indexWrite t c).2 = .ok o) : (writeOut t c).2.report.isSuccess = true := by
  rw [Report.isSuccess_iff, writeOut_report, hwrites, hsweep, hindex]
  intro e he
  rcases List.mem_append.mp he with he | he
  · exact generate_not_failed c e he
  · cases he

/-- The functions that a run starts its wrappers with. -/
structure Installs (t : FileTree) (project : Location) (d : Document) (root : Path) (t' : FileTree) (c : BindingContext)
    (fast : List FunctionId) : Prop where
  proper : t'.Proper
  document : c.document = d
  root : c.root = root
  known : c.fastFunctions = .ok fast
  spares : Spares {l | Project.trampolines project <+: l} t t'
  lists : ∀ id ∈ fast, Project.Lists t' project (trampolineSymbol id)

/-- Behind the stage it is known which functions have a trampoline, and the index on disk has their symbols. -/
theorem writeTrampolines_lists {made : Option Output} (ht : t.Proper)
    (hmodules : ∀ ty ∈ d.types, isIdentifier ty.module = true) (hnames : (d.types.map (·.name)).Nodup)
    (hroot : t.locate root = .ok project)
    (h : RunOptions.writeTrampolines t (.create d root schema) = (t', .ok c, made))
    (hok : ∀ output, made = some output → output.report.isSuccess = true) :
    ∃ fast, Installs t project d root t' c fast := by
  by_cases henabled : (BindingContext.create d root schema).fastInvokeEnabled = true
  · rw [writeTrampolines_enabled henabled (if_pos henabled)] at h
    obtain ⟨rfl, hinstall⟩ := Prod.mk.inj h
    obtain ⟨hc, rfl⟩ := Prod.mk.inj hinstall
    obtain rfl := Except.ok.inj hc
    exact ⟨_, proper_writeOut ht, rfl, rfl, rfl, writeOut_spares ht hmodules hnames hroot,
      fun id hid => lists_of_success ht hmodules hnames hroot (hok _ rfl) hid⟩
  · unfold RunOptions.writeTrampolines at h
    rw [if_neg henabled] at h
    obtain ⟨rfl, hinstall⟩ := Prod.mk.inj h
    obtain rfl := Except.ok.inj (Prod.mk.inj hinstall).1
    have hfast : (BindingContext.create d root schema).fast = some [] := if_neg henabled
    refine ⟨[], ht, rfl, rfl, ?_, .refl _ _, fun id hid => nomatch hid⟩
    unfold BindingContext.fastFunctions
    rw [hfast]

end Trampoline

/-! ### Wrappers -/

/-- Files that are made of some types lead along names of their own. -/
theorem segments_of_types {types : List TypeRecord} {ending : String} {f : TypeRecord → Option Artifact}
    (hf : ∀ ty a, f ty = some a → isIdentifier ty.name = true ∧ isIdentifier ty.module = true ∧
      a.path = Path.child ⟨ty.module⟩ (ty.name ++ ending)) (hfree : '/' ∉ ending.toList)
    (hnames : (types.map (·.name)).Nodup) : ((types.filterMap f).map (·.path.segments)).Nodup := by
  refine List.Nodup.sublist ?_ (nodup_files (·.module) ending hnames)
  rw [List.map_filterMap]
  refine Labelled.filterMap_sublist_map fun ty segments h => ?_
  obtain ⟨a, ha, rfl⟩ := Option.map_eq_some_iff.mp h
  obtain ⟨hname, hmodule, hpath⟩ := hf ty a ha
  rw [hpath]
  exact segments_file hname hmodule hfree

namespace Wrapper
variable {fast : List FunctionId} {ty : TypeRecord}

theorem descends_managed : Descends ⟨"Managed/Bindings"⟩ :=
  (Path.descends_name (n := "Managed") (by decide)).child (n := "Bindings") (by decide)

/-- The wrappers that could be rendered. -/
def rendered (c : BindingContext) (fast : List FunctionId) : List Artifact :=
  c.document.types.filterMap fun ty => (renderType c fast ty).2.toOption

/-- The tree after the wrappers were written, and what became of each. -/
def writes (t : FileTree) (c : BindingContext) (fast : List FunctionId) :
    FileTree × List (Artifact × Except ExportError WriteOutcome) :=
  t.writeAll FileTree.writeArtifact c.managedRoot (rendered c fast)

/-- What the stage tells: of each type, and of the wrappers that could not be written. -/
def outputOf (t : FileTree) (c : BindingContext) (fast : List FunctionId) : Output where
  root := c.managedRoot
  artifacts := rendered c fast
  report := ((Report.start .wrappers).addAll (c.document.types.flatMap fun ty => (outcomeOf c fast ty).2)).addAll
    ((unwritten (writes t c fast).2).map unwrittenEntry)

theorem writeOut_eq (hfast : c.fastFunctions = .ok fast) :
    writeOut t c = ((writes t c fast).1, .ok (outputOf t c fast)) := by
  have hrendered : (c.document.types.map (outcomeOf c fast)).filterMap (·.1) = rendered c fast := by
    rw [List.filterMap_map]
    exact List.filterMap_congr fun ty _ => outcomeOf_artifact ty
  have hreported : (c.document.types.map (outcomeOf c fast)).flatMap (·.2) =
      c.document.types.flatMap fun ty => (outcomeOf c fast ty).2 := List.flatMap_map _ _ _
  unfold outputOf writes
  rw [← hrendered, ← hreported]
  unfold writeOut generate
  rw [hfast]
  rfl

theorem proper_writes (ht : t.Proper) : (writes t c fast).1.Proper := ht.writeAll FileTree.careful_writeArtifact rfl

theorem segments_typePath (hname : isIdentifier ty.name = true) (hmodule : isIdentifier ty.module = true) :
    (typePath ty).segments = [ty.module, ty.name ++ ".gen.cs"] := segments_file hname hmodule (by decide)

theorem descends_typePath (hname : isIdentifier ty.name = true) (hmodule : isIdentifier ty.module = true) :
    (typePath ty).Descends := descends_file hname hmodule (by decide)

/-- The names of a type whose wrapper is rendered are identifiers. -/
theorem renderType_names {entries : List ReportEntry} {a : Artifact} (h : renderType c fast ty = (entries, .ok a)) :
    isIdentifier ty.name = true ∧ isIdentifier ty.module = true ∧ a.path = typePath ty := by
  obtain ⟨name, module, code, hname, hmodule, -, rfl⟩ := renderType_eq_ok.mp h
  exact ⟨(managedIdentifier_ok hname).1, (managedIdentifier_ok hmodule).1, rfl⟩

/-- Where no failure is reported, all types have been rendered. -/
theorem renderType_of_success {output : Output} (hfast : c.fastFunctions = .ok fast)
    (h : writeOut t c = (t', .ok output)) (hok : output.report.isSuccess = true) (hty : ty ∈ c.document.types) :
    ∃ entries a, renderType c fast ty = (entries, .ok a) := by
  rw [writeOut_eq hfast] at h
  obtain rfl := Except.ok.inj (Prod.mk.inj h).2
  rcases hrender : renderType c fast ty with ⟨entries, e | a⟩
  · have hfailed : ReportEntry.mk ty.name (.failed e.message) ∈ (outcomeOf c fast ty).2 := by
      unfold outcomeOf
      rw [hrender]
      exact List.mem_append_right _ List.mem_cons_self
    cases Report.isSuccess_iff.mp hok _
      (List.mem_append_left _ (List.mem_append_right _ (List.mem_flatMap.mpr ⟨ty, hty, hfailed⟩)))
  · exact ⟨entries, a, rfl⟩

theorem written_of_success (hok : (outputOf t c fast).report.isSuccess = true) : unwritten (writes t c fast).2 = [] :=
  unwritten_eq_nil hok fun _ hu => List.mem_append_right _ (List.mem_map_of_mem hu)

/-- A file holds the wrapper of a type. -/
def Shown (t : FileTree) (project : Location) (c : BindingContext) (fast : List FunctionId) (ty : TypeRecord) : Prop :=
  ∃ entries a, renderType c fast ty = (entries, .ok a) ∧
    t.entry? (Project.wrapper project ty) = some (.file a.contents.toUTF8)

theorem mem_rendered {a : Artifact} : a ∈ rendered c fast ↔
    ∃ ty ∈ c.document.types, ∃ entries, renderType c fast ty = (entries, .ok a) := by
  unfold rendered
  rw [List.mem_filterMap]
  refine exists_congr fun ty => and_congr_right fun _ => ?_
  rcases renderType c fast ty with ⟨entries, e | b⟩
  · simp [Except.toOption]
  · simp [Except.toOption]

theorem descends_rendered {a : Artifact} (ha : a ∈ rendered c fast) : a.path.Descends := by
  obtain ⟨ty, -, entries, hrender⟩ := mem_rendered.mp ha
  obtain ⟨hname, hmodule, hpath⟩ := renderType_names hrender
  rw [hpath]
  exact descends_typePath hname hmodule

theorem rendered_path {a : Artifact} (h : (renderType c fast ty).2.toOption = some a) :
    isIdentifier ty.name = true ∧ isIdentifier ty.module = true ∧ a.path = typePath ty := by
  rcases hrender : renderType c fast ty with ⟨entries, e | b⟩ <;> rw [hrender] at h
  · cases h
  · obtain rfl := Option.some.inj h
    exact renderType_names hrender

/-- The wrappers lead along names of their own. -/
theorem segments_rendered (hnames : (c.document.types.map (·.name)).Nodup) :
    ((rendered c fast).map (·.path.segments)).Nodup :=
  segments_of_types (fun _ _ h => rendered_path h) (by decide) hnames

/-- The place of the wrapper of a type. -/
def Places (c : BindingContext) (t : FileTree) (l : Location) : Prop :=
  ∃ ty ∈ c.document.types, ∃ m, t.locate c.managedRoot = .ok m ∧ l = m ++ [ty.module, ty.name ++ ".gen.cs"]

/-- The stage changes no file but those of the wrappers. -/
theorem writes_places : Spares {l | Places c (writes t c fast).1 l} t (writes t c fast).1 := by
  have hwrites : Spares {l | ∃ a ∈ rendered c fast, l ∈ (writes t c fast).1.placeOf c.managedRoot a} t (writes t c fast).1 :=
    FileTree.writeAll_spares FileTree.careful_writeArtifact rfl
  refine hwrites.mono ?_
  rintro l ⟨a, ha, hl⟩
  obtain ⟨ty, hty, entries, hrender⟩ := mem_rendered.mp ha
  obtain ⟨hname, hmodule, hpath⟩ := renderType_names hrender
  have hplace : FileTree.locate _ (c.managedRoot.join a.path) = .ok l := hl
  have hdescends := descends_typePath hname hmodule
  have hsolid : c.managedRoot.Solid := Path.join_solid descends_managed.solid
  rw [hpath, hdescends.join_eq hsolid] at hplace
  obtain ⟨m, hm, rfl⟩ := FileTree.locate_foldl_child hsolid hdescends.named hplace
  rw [segments_typePath hname hmodule]
  exact ⟨ty, hty, m, hm, rfl⟩

theorem Places.within {l : Location} (h : Places c t l) : t.Within c.managedRoot l := by
  obtain ⟨ty, -, m, hm, rfl⟩ := h
  exact ⟨m, hm, List.prefix_append _ _⟩

section
variable (hroot : t.locate c.root = .ok project)
include hroot

/-- Where a wrapper is written. -/
theorem place_eq {a : Artifact} {entries : List ReportEntry} {l : Location}
    (h : renderType c fast ty = (entries, .ok a)) (hl : l ∈ t.placeOf c.managedRoot a) :
    l = Project.wrapper project ty := by
  obtain ⟨hname, hmodule, hpath⟩ := renderType_names h
  have hdescends : a.path.Descends := hpath ▸ descends_typePath hname hmodule
  have hleads : t.Leads c.root project := FileTree.leads_of_locate hroot
  rw [FileTree.eq_of_placeOf hleads descends_managed hdescends hl, hpath, segments_typePath hname hmodule]
  rfl

theorem writeOut_spares {output : Output} (hfast : c.fastFunctions = .ok fast) (h : writeOut t c = (t', .ok output)) :
    Spares {l | ∃ ty ∈ c.document.types, l = Project.wrapper project ty} t t' := by
  rw [writeOut_eq hfast] at h
  obtain ⟨rfl, -⟩ := Prod.mk.inj h
  have hwrites : Spares {l | Places c (writes t c fast).1 l} t (writes t c fast).1 := writes_places
  have hleads : FileTree.Leads _ c.root project := FileTree.leads_of_locate (hwrites.locate hroot)
  refine hwrites.mono ?_
  rintro l ⟨ty, hty, m, hm, rfl⟩
  rw [hleads descends_managed hm]
  exact ⟨ty, hty, rfl⟩

/-- Where no failure is reported, the wrappers of all types are on disk. -/
theorem shown_of_success {output : Output} (hnames : (c.document.types.map (·.name)).Nodup)
    (hfast : c.fastFunctions = .ok fast) (h : writeOut t c = (t', .ok output)) (hok : output.report.isSuccess = true)
    (hty : ty ∈ c.document.types) : Shown t' project c fast ty := by
  obtain ⟨entries, a, hrender⟩ := renderType_of_success hfast h hok hty
  have hroot' := (writeOut_spares hroot hfast h).locate hroot
  rw [writeOut_eq hfast] at h
  obtain ⟨rfl, houtput⟩ := Prod.mk.inj h
  obtain rfl := Except.ok.inj houtput
  have hholds := FileTree.writeAll_complete FileTree.lasting_writeArtifact (Path.join_solid descends_managed.solid)
    (fun _ ha => descends_rendered ha) (segments_rendered hnames) rfl (written_of_success hok) a
    (mem_rendered.mpr ⟨ty, hty, entries, hrender⟩)
  obtain ⟨l, hl, hfile⟩ := FileTree.holds_iff.mp hholds
  refine ⟨entries, a, hrender, ?_⟩
  rw [← place_eq hroot' hrender hl]
  exact hfile

end

end Wrapper

/-! ### Placeholders -/

namespace Placeholder

theorem descends_definitions : Descends ⟨"Managed/Bindings.Defs"⟩ :=
  (Path.descends_name (n := "Managed") (by decide)).child (n := "Bindings.Defs") (by decide)

theorem proper_writeOut (ht : t.Proper) : (writeOut t c).1.Proper := ht.writeAll FileTree.careful_writeIfAbsent rfl

theorem renderType_path {schema : BindingSchema} {ty : TypeRecord} {a : Artifact} (h : renderType schema ty = .ok a) :
    isIdentifier ty.name = true ∧ isIdentifier ty.module = true ∧ a.path = typePath ty := by
  unfold renderType at h
  obtain ⟨name, hname, h⟩ := Outcome.bind_eq_ok.mp h
  obtain ⟨module, hmodule, h⟩ := Outcome.bind_eq_ok.mp h
  obtain ⟨events, -, h⟩ := Outcome.bind_eq_ok.mp h
  rw [← Except.ok.inj h]
  exact ⟨(managedIdentifier_ok hname).1, (managedIdentifier_ok hmodule).1, rfl⟩

theorem generated_eq : (generate c).1 =
    (typesOf c.document).filterMap fun ty => (renderType c.schema ty).toOption := by
  unfold generate
  dsimp only
  rw [List.filterMap_map]
  refine List.filterMap_congr fun ty _ => ?_
  unfold Function.comp outcomeOf
  cases renderType c.schema ty <;> rfl

theorem generated_path {schema : BindingSchema} {ty : TypeRecord} {a : Artifact}
    (h : (renderType schema ty).toOption = some a) :
    isIdentifier ty.name = true ∧ isIdentifier ty.module = true ∧ a.path = typePath ty := by
  cases hrender : renderType schema ty <;> rw [hrender] at h
  · cases h
  · obtain rfl := Option.some.inj h
    exact renderType_path hrender

theorem mem_generated {a : Artifact} : a ∈ (generate c).1 ↔
    ∃ ty ∈ typesOf c.document, renderType c.schema ty = .ok a := by
  rw [generated_eq, List.mem_filterMap]
  refine exists_congr fun ty => and_congr_right fun _ => ?_
  cases renderType c.schema ty <;> simp [Except.toOption]

theorem descends_generated {a : Artifact} (ha : a ∈ (generate c).1) : a.path.Descends := by
  obtain ⟨ty, -, hrender⟩ := mem_generated.mp ha
  obtain ⟨hname, hmodule, hpath⟩ := renderType_path hrender
  rw [hpath]
  exact descends_file hname hmodule (by decide)

/-- The stage changes nothing outside of its directory. -/
theorem writeOut_within : Spares {l | (writeOut t c).1.Within c.definitionsRoot l} t (writeOut t c).1 := by
  have hwrites : Spares {l | ∃ a ∈ (generate c).1, l ∈ (writeOut t c).1.placeOf c.definitionsRoot a} t (writeOut t c).1 :=
    FileTree.writeAll_spares FileTree.careful_writeIfAbsent rfl
  refine hwrites.mono ?_
  rintro l ⟨a, ha, hl⟩
  exact FileTree.within_of_placeOf (Path.join_solid descends_definitions.solid) (descends_generated ha) hl

theorem writeOut_spares (hroot : t.locate c.root = .ok project) :
    Spares {l | Project.placeholders project <+: l} t (writeOut t c).1 := by
  have hwithin := writeOut_within (t := t) (c := c)
  exact hwithin.mono fun l hl => hl.below descends_definitions (FileTree.leads_of_locate (hwithin.locate hroot))

end Placeholder

end

/-! ### All stages -/

/-- What the stages of a run come to. -/
def RunSummary.ofStages (c : BindingContext) (made : Option Trampoline.Output) (wrappers : Wrapper.Output)
    (placeholders : Placeholder.Output) : RunSummary where
  fast := c.fast.getD []
  trampolineRoot := made.map (·.root)
  checkpoint := none
  reports := (made.map (·.report)).toList ++ [wrappers.report, placeholders.report]

theorem RunOptions.generate_eq {o : RunOptions} {t t₁ t₂ : FileTree} {d : Document} {c : BindingContext}
    {made : Option Trampoline.Output} {output : Wrapper.Output}
    (htrampolines : RunOptions.writeTrampolines t (.create d o.project o.schema) = (t₁, .ok c, made))
    (hwrappers : Wrapper.writeOut t₁ c = (t₂, .ok output)) :
    o.generate t d = ((Placeholder.writeOut t₂ c).1, .ok (.ofStages c made output (Placeholder.writeOut t₂ c).2)) := by
  unfold generate
  simp only [htrampolines, hwrappers]
  rfl

end EngineBridge
