import EngineBridge.Proofs.Export.TypeFiles

/-! The pass that makes trampolines tells the truth about the disk.

The pass writes the files, sweeps what earlier runs left over, and writes the index, each part on the tree that the part
before left behind. The files that were written lie along names of their own, a leftover leads to none of them, and
the index has a name that no file of trampolines has; so no part undoes what another did. -/

namespace EngineBridge
namespace Trampoline
open Path (IsName Solid Descends)
open FileTree (Spares)

variable {t t' : FileTree} {c : BindingContext} {a b : Artifact} {e : TrampolineEntry} {p root : Path}

/-! ### The parts of the pass -/

/-- The tree after the files were written, and what became of each. -/
def writes (t : FileTree) (c : BindingContext) : FileTree × List (Artifact × Except ExportError WriteOutcome) :=
  t.writeAll FileTree.writeArtifact c.nativeRoot (generate c).artifacts

/-- The file was written by this run, or held the same text already. -/
def Written (t : FileTree) (c : BindingContext) (a : Artifact) : Prop := ∃ outcome, (a, .ok outcome) ∈ (writes t c).2

/-- The paths of the files that were written, or held the same text already. -/
def current (t : FileTree) (c : BindingContext) : List Path :=
  (writes t c).2.filterMap fun
    | (a, .ok _) => some (c.nativeRoot.join a.path)
    | (_, .error _) => none

/-- The files of trampolines below the root that are not of this run. -/
def leftovers (t : FileTree) (c : BindingContext) : List Path :=
  staleFiles (writes t c).1 c.nativeRoot (current t c)

/-- The tree after the leftovers were taken away, which of them are gone, and what is reported of the others. -/
def sweep (t : FileTree) (c : BindingContext) : FileTree × List Path × List ReportEntry :=
  removeFiles (writes t c).1 (leftovers t c)

/-- The trampolines whose files were written. -/
def listed (t : FileTree) (c : BindingContext) : TrampolineManifest :=
  { (generate c).manifest with entries := keptEntries (unwritten (writes t c).2) (generate c).manifest.entries }

/-- The index of the trampolines whose files were written. -/
def index (t : FileTree) (c : BindingContext) : Artifact := ⟨⟨manifestFile⟩, (listed t c).toText⟩

/-- The tree after the index was written, and what became of it. -/
def indexWrite (t : FileTree) (c : BindingContext) : FileTree × Except ExportError WriteOutcome :=
  (sweep t c).1.writeArtifact c.nativeRoot (index t c)

/-- What is reported of the index. -/
def indexEntries (result : Except ExportError WriteOutcome) : List ReportEntry :=
  match result with
  | .ok _ => []
  | .error e => [⟨manifestFile, .failed e.message⟩]

/-- The parts of the pass, one after the other. -/
theorem writeOut_eq : writeOut t c = ((indexWrite t c).1, {
    root := c.nativeRoot, manifest := listed t c, removed := (sweep t c).2.1
    artifacts := (generate c).artifacts ++ [index t c]
    report := (generate c).report.addAll ((unwritten (writes t c).2).map unwrittenEntry ++ (sweep t c).2.2 ++
      indexEntries (indexWrite t c).2) }) := by
  have hroot : (generate c).root = c.nativeRoot := rfl
  unfold writeOut indexWrite index sweep listed leftovers current writes
  rw [← hroot]
  generalize generate c = output
  rfl

theorem writeOut_report : (writeOut t c).2.report.entries = (generate c).report.entries ++
    ((unwritten (writes t c).2).map unwrittenEntry ++ (sweep t c).2.2 ++ indexEntries (indexWrite t c).2) := by
  rw [writeOut_eq]
  rfl

theorem writeOut_manifest : (writeOut t c).2.manifest = listed t c := by
  rw [writeOut_eq]

theorem writeOut_tree : (writeOut t c).1 = (indexWrite t c).1 := by
  rw [writeOut_eq]

theorem sweep_of_no_leftovers (h : leftovers t c = []) : sweep t c = ((writes t c).1, [], []) := by
  unfold sweep
  rw [h]
  rfl

/-- Where nothing was left over, the index is written on the tree that the files were written on. -/
theorem indexWrite_of_no_leftovers (h : leftovers t c = []) :
    indexWrite t c = (writes t c).1.writeArtifact c.nativeRoot (index t c) := by
  unfold indexWrite
  rw [sweep_of_no_leftovers h]

/-! ### What the pass says -/

/-- What the pass says of the disk that it leaves behind: which functions have a trampoline, which files there are, and
what went wrong. -/
structure TellsDisk (t : FileTree) (c : BindingContext) (t' : FileTree) (o : Output) : Prop where
  /-- The functions are those whose type's file was written or held its text already. -/
  functions : ∀ id, id ∈ o.functions ↔ ∃ e a, StandsIn c e a ∧ Written t c a ∧ e.id = id
  /-- The index lists their trampolines. -/
  listed : ∀ e, e ∈ o.manifest.entries ↔ ∃ a, StandsIn c e a ∧ Written t c a
  /-- It lists each function once. -/
  once : (o.manifest.entries.map (·.id)).Nodup
  /-- Files that were written, or held their text already, hold exactly that text. -/
  files : ∀ a, Written t c a → t'.holds (c.nativeRoot.join a.path) a.contents = true
  /-- So does the index, if it could be written. -/
  index : ∀ outcome, (indexWrite t c).2 = .ok outcome →
    t'.holds (c.nativeRoot.join ⟨manifestFile⟩) o.manifest.toText = true
  /-- If all leftovers could be taken away, there are no other files of trampolines below the root, and all that those
  files define is listed. -/
  swept : (∀ p ∈ leftovers t c, p ∈ o.removed) → ∀ p ∈ t'.walk c.nativeRoot, (typeOfPath? p).isSome = true →
    ∃ a, p = c.nativeRoot.join a.path ∧ Written t c a ∧ (∃ e, StandsIn c e a) ∧
      ∀ e, StandsIn c e a → e ∈ o.manifest.entries
  /-- A file that could not be written is reported. -/
  failedWrites : ∀ a e, (a, .error e) ∈ (writes t c).2 → ⟨a.path.text, .failed e.message⟩ ∈ o.report.entries
  /-- A leftover is gone or reported. -/
  failedRemovals : ∀ p ∈ leftovers t c,
    p ∈ o.removed ∨ ∃ e : FileError, ⟨p.text, .failed e.message⟩ ∈ o.report.entries
  /-- An index that could not be written is reported. -/
  failedIndex : ∀ e, (indexWrite t c).2 = .error e → ⟨manifestFile, .failed e.message⟩ ∈ o.report.entries

theorem mem_unwritten {results : List (Artifact × Except ExportError WriteOutcome)} {e : ExportError} :
    (a, e) ∈ unwritten results ↔ (a, .error e) ∈ results := by
  unfold unwritten
  rw [List.mem_filterMap]
  constructor
  · rintro ⟨⟨b, r⟩, hmem, hsome⟩
    cases r with
    | ok _ => cases hsome
    | error _ =>
      obtain ⟨rfl, rfl⟩ := Prod.mk.inj (Option.some.inj hsome)
      exact hmem
  · intro hmem
    exact ⟨_, hmem, rfl⟩

theorem mem_current : p ∈ current t c ↔ ∃ a, Written t c a ∧ p = c.nativeRoot.join a.path := by
  unfold current
  rw [List.mem_filterMap]
  constructor
  · rintro ⟨⟨a, r⟩, hmem, hsome⟩
    cases r with
    | ok o => exact ⟨a, ⟨o, hmem⟩, (Option.some.inj hsome).symm⟩
    | error _ => cases hsome
  · rintro ⟨a, ⟨o, hmem⟩, rfl⟩
    exact ⟨_, hmem, rfl⟩

theorem mem_leftovers : p ∈ leftovers t c ↔ p ∈ (writes t c).1.walk c.nativeRoot ∧ (typeOfPath? p).isSome = true ∧
    ∀ q ∈ current t c, p.components = q.components → p.isAbsolute ≠ q.isAbsolute := by
  unfold leftovers staleFiles
  simp [List.mem_filter]

/-- The paths among some that lead to files of trampolines and are not of this run. -/
def stale (paths current : List Path) : List Path :=
  paths.filter fun p =>
    (typeOfPath? p).isSome && !current.any fun q => p.components == q.components && p.isAbsolute == q.isAbsolute

theorem leftovers_perm {l : Location} (hl : (writes t c).1.locate c.nativeRoot = .ok l) : (leftovers t c).Perm
    (stale (((writes t c).1.namesBelow l).map fun names => names.foldl Path.child c.nativeRoot) (current t c)) :=
  (FileTree.walk_perm hl).filter _

/-- Where there are no trampolines to make and the header is there already, nothing is written, and all other files of
trampolines are left over. -/
theorem leftovers_of_header (hartifacts : (generate c).artifacts = [header])
    (hholds : t.holds (c.nativeRoot.join header.path) header.contents = true) {l : Location}
    (hl : t.locate c.nativeRoot = .ok l) : unwritten (writes t c).2 = [] ∧ sweep t c = removeFiles t (leftovers t c) ∧
      (leftovers t c).Perm (stale ((t.namesBelow l).map fun names => names.foldl Path.child c.nativeRoot)
        [c.nativeRoot.join header.path]) := by
  have hwrites : writes t c = (t, [(header, .ok .unchanged)]) := by
    unfold writes
    rw [hartifacts, FileTree.writeAll_idle FileTree.lasting_writeArtifact (by simpa using hholds)]
    rfl
  have hcurrent : current t c = [c.nativeRoot.join header.path] := by
    unfold current
    rw [hwrites]
    rfl
  have hperm := leftovers_perm (t := t) (c := c) (l := l) (by rwa [hwrites])
  unfold sweep
  rw [hwrites, hcurrent] at hperm
  rw [hwrites]
  exact ⟨rfl, rfl, hperm⟩

theorem artifact_of_result {r : Except ExportError WriteOutcome} (h : (a, r) ∈ (writes t c).2) :
    a ∈ (generate c).artifacts := by
  have hartifacts : (writes t c).2.map (·.1) = (generate c).artifacts := FileTree.writeAll_artifacts rfl
  rw [← hartifacts]
  exact List.mem_map.mpr ⟨_, h, rfl⟩

/-! ### The parts keep what was there -/

section
variable (ht : t.Proper)
include ht

theorem proper_writes : (writes t c).1.Proper := ht.writeAll FileTree.careful_writeArtifact rfl

theorem proper_sweep : (sweep t c).1.Proper := proper_removeFiles (proper_writes ht) rfl

theorem proper_writeOut : (writeOut t c).1.Proper := by
  rw [writeOut_eq]
  exact FileTree.careful_writeArtifact.proper rfl (proper_sweep ht)

theorem sweep_spares : Spares {l | ∃ p ∈ leftovers t c, (sweep t c).1.locate p = .ok l} (writes t c).1 (sweep t c).1 :=
  removeFiles_spares (proper_writes ht) rfl

omit ht in
theorem indexWrite_spares :
    Spares ((indexWrite t c).1.placeOf c.nativeRoot (index t c)) (sweep t c).1 (indexWrite t c).1 :=
  FileTree.careful_writeArtifact.spares rfl

/-- The header is the last file that is written. -/
theorem writes_settles : (∃ l, (writes t c).1.locate c.nativeRoot = .ok l) ∨ (writes t c).1.Blocked c.nativeRoot := by
  have htree : (writes t c).1 =
      ((t.writeAll FileTree.writeArtifact c.nativeRoot ((madeGroups c).map fileOf)).1.writeArtifact c.nativeRoot header).1 :=
    FileTree.writeAll_append
  have hbefore : (t.writeAll FileTree.writeArtifact c.nativeRoot ((madeGroups c).map fileOf)).1.Proper :=
    ht.writeAll FileTree.careful_writeArtifact rfl
  rw [htree]
  exact FileTree.writeArtifact_settles hbefore nativeRoot_solid isName_headerFile (by decide) rfl

/-- If the root is there in the end, it was there before the sweep: what is not there when the header was written is not
there when the index is. -/
theorem root_of_indexWrite {l : Location} (hl : (indexWrite t c).1.locate c.nativeRoot = .ok l) :
    (writes t c).1.locate c.nativeRoot = .ok l := by
  cases hroot : (writes t c).1.locate c.nativeRoot with
  | ok m =>
    have hm := (indexWrite_spares (t := t) (c := c)).locate ((sweep_spares ht).locate hroot)
    exact hm.symm.trans hl
  | error e =>
    obtain ⟨m, hm⟩ | hblocked := writes_settles (c := c) ht
    · rw [hroot] at hm
      cases hm
    · have hleftovers : leftovers t c = [] := by
        unfold leftovers staleFiles FileTree.walk
        rw [hroot]
        rfl
      have hindex : (indexWrite t c).1 = (writes t c).1 := by
        rw [indexWrite_of_no_leftovers hleftovers]
        exact hblocked.writeArtifact isName_manifestFile rfl
      rw [hindex, hroot] at hl
      cases hl

/-- A file of trampolines that is there in the end was there before the sweep. -/
theorem mem_walk_writes (hp : p ∈ (indexWrite t c).1.walk c.nativeRoot) (htype : (typeOfPath? p).isSome = true) :
    p ∈ (writes t c).1.walk c.nativeRoot ∧ ∃ names l content, (∀ n ∈ names, IsName n) ∧
      p = names.foldl Path.child c.nativeRoot ∧ (sweep t c).1.locate c.nativeRoot = .ok l ∧
        FileTree.entry? (sweep t c).1 (l ++ names) = some (.file content) := by
  have hproper := FileTree.careful_writeArtifact.proper (r := (indexWrite t c).2) rfl (proper_sweep (c := c) ht)
  obtain ⟨l, names, content, hl, hfile, rfl⟩ := hproper.mem_walk.mp hp
  have hnames : ∀ n ∈ names, IsName n := fun n hn => hproper.isName hfile (List.mem_append_right _ hn)
  -- The index has a name that no file of trampolines has.
  have hindex : l ++ names ∉ (indexWrite t c).1.placeOf c.nativeRoot (index t c) := by
    intro hplace
    obtain ⟨m, hm, heq⟩ := FileTree.locate_child nativeRoot_solid isName_manifestFile hplace
    obtain rfl : l = m := Except.ok.inj (hl.symm.trans hm)
    obtain rfl := List.append_cancel_left heq
    rw [List.foldl_cons, List.foldl_nil, typeOfPath?_child isName_manifestFile] at htype
    exact absurd htype (by decide)
  have hswept := (indexWrite_spares.file hindex).mp hfile
  have hroot := root_of_indexWrite ht hl
  refine ⟨(proper_writes ht).mem_walk.mpr ⟨l, names, content, hroot, ?_, rfl⟩, names, l, content, hnames, rfl,
    (sweep_spares ht).locate hroot, hswept⟩
  exact entry?_of_removeFiles rfl hswept

end

section
variable (hmodules : ∀ t ∈ c.document.types, isIdentifier t.module = true)
  (hnames : (c.document.types.map (·.name)).Nodup)
include hmodules hnames

/-- What became of a file is told once. -/
theorem written_of_not_unwritten (ha : a ∈ (generate c).artifacts) :
    Written t c a ↔ ∀ e, (a, e) ∉ unwritten (writes t c).2 := by
  have hartifacts : (writes t c).2.map (·.1) = (generate c).artifacts := FileTree.writeAll_artifacts rfl
  constructor
  · rintro ⟨o, ho⟩ e he
    cases FileTree.writeAll_functional (segments_distinct hmodules hnames) rfl ho (mem_unwritten.mp he)
  · intro hnot
    rw [← hartifacts] at ha
    obtain ⟨⟨a, r⟩, hr, rfl⟩ := List.mem_map.mp ha
    cases r with
    | ok o => exact ⟨o, hr⟩
    | error e => exact absurd (mem_unwritten.mpr hr) (hnot e)

/-- A type loses its trampolines exactly if its file was not written. -/
theorem mem_listed : e ∈ (listed t c).entries ↔ ∃ a, StandsIn c e a ∧ Written t c a := by
  unfold listed keptEntries
  rw [List.mem_filter, mem_entries_iff, Bool.not_eq_true', ← Bool.not_eq_true, List.contains_iff_mem, List.mem_filterMap]
  constructor
  · rintro ⟨⟨a, x, hx, he, rfl⟩, hkept⟩
    refine ⟨fileOf x, ⟨x, hx, he, rfl⟩, ?_⟩
    refine (written_of_not_unwritten hmodules hnames (mem_artifacts_iff.mpr (.inl ⟨x, hx, rfl⟩))).mpr fun err herr => ?_
    refine hkept ⟨_, herr, ?_⟩
    rw [typeOfPath?_fileOf hx, type_of_entry hx he]
  · rintro ⟨a, ⟨x, hx, he, rfl⟩, hwritten⟩
    refine ⟨⟨_, x, hx, he, rfl⟩, ?_⟩
    rintro ⟨⟨b, err⟩, hb, htype⟩
    dsimp only at htype
    rcases mem_artifacts_iff.mp (artifact_of_result (mem_unwritten.mp hb)) with ⟨y, hy, rfl⟩ | rfl
    · rw [typeOfPath?_fileOf hy, type_of_entry hx he] at htype
      obtain rfl := eq_of_type hnames hy hx (Option.some.inj htype)
      exact (written_of_not_unwritten hmodules hnames (artifact_of_result (mem_unwritten.mp hb))).mp hwritten err hb
    · rw [typeOfPath?_header] at htype
      cases htype

/-- No file leads where the index does. -/
theorem segments_ne_index (ha : a ∈ (generate c).artifacts) : a.path.segments ≠ (index t c).path.segments := by
  have hindex : (index t c).path.segments = [manifestFile] := Path.segments_of_slashFree isName_manifestFile.slashFree
  rw [hindex]
  rcases mem_artifacts_iff.mp ha with ⟨x, hx, rfl⟩ | rfl
  · rw [segments_fileOf hmodules hnames hx]
    simp
  · decide

/-- A file that was written, or held its text already, still does after the sweep and the index. -/
theorem holds_of_written (ht : t.Proper) (ha : Written t c a) :
    (indexWrite t c).1.holds (c.nativeRoot.join a.path) a.contents = true := by
  have hartifact : a ∈ (generate c).artifacts := by
    obtain ⟨o, ho⟩ := ha
    exact artifact_of_result ho
  have hdescends := descends_artifact hmodules hnames hartifact
  have hwritten : (writes t c).1.holds (c.nativeRoot.join a.path) a.contents = true := by
    obtain ⟨o, ho⟩ := ha
    exact FileTree.writeAll_done FileTree.lasting_writeArtifact nativeRoot_solid
      (fun b hb => descends_artifact hmodules hnames hb) (segments_distinct hmodules hnames) rfl ho
  have hswept := (sweep_spares ht).holds hwritten fun {l} hl ⟨p, hp, hpl⟩ => by
    obtain ⟨hwalk, -, hnot⟩ := mem_leftovers.mp hp
    obtain ⟨names, hnamed, rfl⟩ := (proper_writes ht).names_of_walk hwalk
    rw [hdescends.join_eq nativeRoot_solid] at hl
    have hsegments : names = a.path.segments :=
      FileTree.names_eq_of_locate nativeRoot_solid hnamed hdescends.named hpl hl
    refine hnot _ (mem_current.mpr ⟨a, ha, rfl⟩) ?_ ?_ <;> rw [hsegments, hdescends.join_eq nativeRoot_solid]
  refine indexWrite_spares.holds hswept fun {l} hl hindex => ?_
  have hindexPath := Path.descends_name isName_manifestFile
  exact segments_ne_index hmodules hnames hartifact
    (FileTree.segments_eq_of_placeOf nativeRoot_solid hdescends hindexPath hl hindex)

/-- What remains of trampolines below the root are the files of this run, if the leftovers could be taken away. -/
theorem written_of_walk (ht : t.Proper) (hremoved : ∀ p ∈ leftovers t c, p ∈ (sweep t c).2.1)
    (hp : p ∈ (indexWrite t c).1.walk c.nativeRoot) (htype : (typeOfPath? p).isSome = true) :
    ∃ x ∈ madeGroups c, p = c.nativeRoot.join (fileOf x).path ∧ Written t c (fileOf x) := by
  obtain ⟨hwalk, names, l, content, hnamed, rfl, hl, hfile⟩ := mem_walk_writes ht hp htype
  by_cases hcurrent : ∃ q ∈ current t c, (names.foldl Path.child c.nativeRoot).components = q.components
  · obtain ⟨q, hq, hcomponents⟩ := hcurrent
    obtain ⟨a, ha, rfl⟩ := mem_current.mp hq
    have hartifact : a ∈ (generate c).artifacts := by
      obtain ⟨o, ho⟩ := ha
      exact artifact_of_result ho
    have hdescends := descends_artifact hmodules hnames hartifact
    have hjoin := hdescends.join_eq (nativeRoot_solid (c := c))
    rw [hjoin, Path.components_foldl_child nativeRoot_solid hnamed,
      Path.components_foldl_child nativeRoot_solid hdescends.named] at hcomponents
    obtain rfl := List.append_cancel_left hcomponents
    rw [← hjoin] at htype ⊢
    rcases mem_artifacts_iff.mp hartifact with ⟨x, hx, rfl⟩ | rfl
    · exact ⟨x, hx, rfl, ha⟩
    · have hheader : c.nativeRoot.join header.path = c.nativeRoot.child headerFile := rfl
      rw [hheader, typeOfPath?_child isName_headerFile] at htype
      exact absurd htype (by decide)
  · -- It was a leftover, and is gone.
    have hleftover := mem_leftovers.mpr ⟨hwalk, htype, fun q hq hcomponents => absurd ⟨q, hq, hcomponents⟩ hcurrent⟩
    obtain ⟨k, hk, hnone⟩ := gone_of_removed (proper_writes ht) rfl (hremoved _ hleftover)
    obtain ⟨m, hm, rfl⟩ := FileTree.locate_foldl_child nativeRoot_solid hnamed hk
    obtain rfl : l = m := Except.ok.inj (hl.symm.trans hm)
    have hsome : FileTree.entry? (sweep t c).1 (l ++ names) = none := hnone
    rw [hfile] at hsome
    cases hsome

end

/-- The pass tells the truth about the disk, whatever was there before and whichever files cannot be written or taken
away. -/
theorem writeOut_tells_disk (ht : t.Proper) (hd : c.document.validate = .ok ())
    (hmodules : ∀ t ∈ c.document.types, isIdentifier t.module = true) :
    TellsDisk t c (writeOut t c).1 (writeOut t c).2 := by
  have hconsistent := Document.validate_eq_ok.mp hd
  have hnames := hconsistent.names
  have hlisted : ∀ e, e ∈ (writeOut t c).2.manifest.entries ↔ ∃ a, StandsIn c e a ∧ Written t c a := by
    rw [writeOut_eq]
    exact fun e => mem_listed hmodules hnames
  constructor
  case functions =>
    intro id
    rw [mem_functions_iff]
    constructor
    · rintro ⟨e, he, hid⟩
      obtain ⟨a, hstands, ha⟩ := (hlisted e).mp he
      exact ⟨e, a, hstands, ha, hid⟩
    · rintro ⟨e, a, hstands, ha, hid⟩
      exact ⟨e, (hlisted e).mpr ⟨a, hstands, ha⟩, hid⟩
  case listed => exact hlisted
  case once =>
    rw [writeOut_eq]
    exact (List.filter_sublist.map _).nodup (entries_once hconsistent)
  case files =>
    rw [writeOut_eq]
    exact fun a ha => holds_of_written hmodules hnames ht ha
  case index =>
    intro outcome h
    rw [writeOut_eq]
    exact FileTree.writeArtifact_ok (a := index t c) (Prod.ext rfl h)
  case swept =>
    intro hremoved p hp htype
    rw [writeOut_eq] at hremoved hp
    obtain ⟨x, hx, rfl, hwritten⟩ := written_of_walk hmodules hnames ht hremoved hp htype
    exact ⟨fileOf x, rfl, hwritten, exists_standsIn hx, fun e he => (hlisted e).mpr ⟨_, he, hwritten⟩⟩
  case failedWrites =>
    intro a e h
    rw [writeOut_report]
    refine List.mem_append_right _ (List.mem_append_left _ (List.mem_append_left _ ?_))
    exact List.mem_map.mpr ⟨(a, e), mem_unwritten.mpr h, rfl⟩
  case failedRemovals =>
    intro p hp
    rw [writeOut_report, writeOut_eq]
    refine (removeFiles_told rfl hp).imp_right ?_
    rintro ⟨e, he⟩
    exact ⟨e, List.mem_append_right _ (List.mem_append_left _ (List.mem_append_right _ he))⟩
  case failedIndex =>
    intro e h
    rw [writeOut_report, h]
    exact List.mem_append_right _ (List.mem_append_right _ List.mem_cons_self)

namespace LockedProject

/-- A function that asks for a trampoline and can have one. -/
def jump : FunctionRecord := ⟨"Jump", [], none, FunctionFlags.nativeCallable.union FunctionFlags.fastInvokeEligible⟩

def actor : TypeRecord := { TypeRecord.bare "Actor" "Engine" .classKind with functions := [jump] }

def pawn : TypeRecord := { TypeRecord.bare "Pawn" "Game" .classKind with functions := [jump] }

def context : BindingContext :=
  .create ⟨"5.4", DocumentAttributes.allowFastInvoke, [actor, pawn]⟩ ⟨"/project"⟩ .native

/-- The names of the native root. -/
def native : Location := ["project", "Intermediate", "SharpBind", "Native"]

/-- What an earlier run left of a type that is gone. -/
def old : List String := ["Engine", "Old.FastInvoke.gen.cpp"]

/-- A project with a leftover, where the file of the actor cannot be written. -/
def tree : FileTree where
  entries := [(["project"], .directory), (["project", "Intermediate"], .directory),
    (["project", "Intermediate", "SharpBind"], .directory), (native, .directory), (native ++ ["Engine"], .directory),
    (native ++ old, .file "old".toUTF8)]
  current := []
  locked := [(native ++ ["Engine", "Actor.FastInvoke.gen.cpp"], .writing)]

theorem outcomes :
    (writes tree context).2.map (fun r => (r.1.path.text, r.2.isOk)) =
        [("Engine/Actor.FastInvoke.gen.cpp", false), ("Game/Pawn.FastInvoke.gen.cpp", true),
          ("SharpBindFastInvoke.gen.h", true)] ∧
      (listed tree context).entries.map (·.id) = [⟨"Pawn", "Jump"⟩] ∧
      (writes tree context).1.locate context.nativeRoot = .ok native ∧
      FileTree.entry? (writes tree context).1 (native ++ old) = some (.file "old".toUTF8) ∧
      ∀ q ∈ current tree context, (old.foldl Path.child context.nativeRoot).components ≠ q.components := by
  decide +kernel

end LockedProject

open LockedProject in
/-- The file of the actor cannot be written, so that only the function of the pawn is listed; what was left of a type that
is gone is swept. -/
theorem writeOut_tells_disk_locked : tree.Proper ∧ context.document.validate = .ok () ∧
    TellsDisk tree context (writeOut tree context).1 (writeOut tree context).2 ∧
      (writes tree context).2.map (fun r => (r.1.path.text, r.2.isOk)) =
        [("Engine/Actor.FastInvoke.gen.cpp", false), ("Game/Pawn.FastInvoke.gen.cpp", true),
          ("SharpBindFastInvoke.gen.h", true)] ∧
      (∀ id, id ∈ (writeOut tree context).2.functions ↔ id = ⟨"Pawn", "Jump"⟩) ∧
      old.foldl Path.child context.nativeRoot ∈ leftovers tree context := by
  have hproper : tree.Proper := by decide
  have hvalid : context.document.validate = .ok () := rfl
  obtain ⟨hresults, hentries, hroot, hold, hcurrent⟩ := outcomes
  refine ⟨hproper, hvalid, writeOut_tells_disk hproper hvalid (by decide), hresults, fun id => ?_, ?_⟩
  · have hids : (writeOut tree context).2.manifest.entries.map (·.id) = [⟨"Pawn", "Jump"⟩] := by
      rw [writeOut_eq]
      exact hentries
    rw [mem_functions_iff, ← List.mem_map, hids, List.mem_singleton]
  · refine mem_leftovers.mpr ⟨(proper_writes hproper).mem_walk.mpr ⟨native, old, _, hroot, hold, rfl⟩, by decide, ?_⟩
    exact fun q hq hcomponents => absurd hcomponents (hcurrent q hq)

end Trampoline
end EngineBridge
