import EngineBridge.Proofs.Files.Edit
import EngineBridge.Proofs.Text.Utf8
import EngineBridge.Project.Source
import Mathlib.Data.List.Sort

/-! What a document of source files depends on.

Of the files below a directory only those matter that declare an exported type, and these come in the order of their
paths, whatever lies between them. So a tree in which such files are kept, and the new files declare nothing that is
exported, has the same document, provided that its new files can be read. -/

namespace EngineBridge
open Outcome
open Path (IsName)

/-! ### Endings -/

namespace Path
variable {p : Path} {n e : String}

/-- What follows the last point of a name is its end. -/
theorem suffix_of_splitName (h : (splitName n).2 = some e) : ("." ++ e).toList <:+ n.toList := by
  unfold splitName at h
  dsimp only at h
  split at h
  · next hpoint =>
    obtain rfl := Option.some.inj h
    have hmem : '.' ∈ n.toList.reverse := List.mem_reverse.mpr (List.contains_iff_mem.mp (Bool.and_eq_true_iff.mp hpoint).1)
    obtain ⟨before, hbefore⟩ : ∃ before, n.toList.reverse.dropWhile (· ≠ '.') = '.' :: before := by
      generalize n.toList.reverse = cs at hmem
      induction cs with
      | nil => cases hmem
      | cons c cs ih =>
        by_cases hc : c = '.'
        · exact ⟨cs, by simp [hc]⟩
        · obtain ⟨before, hbefore⟩ := ih ((List.mem_cons.mp hmem).resolve_left (Ne.symm hc))
          exact ⟨before, by simpa [hc] using hbefore⟩
    have hwhole := List.takeWhile_append_dropWhile (p := fun c => decide (c ≠ '.')) (l := n.toList.reverse)
    refine ⟨before.reverse, ?_⟩
    rw [hbefore] at hwhole
    have hpoints := congrArg List.reverse hwhole
    rw [List.reverse_append, List.reverse_cons, List.reverse_reverse, List.append_assoc] at hpoints
    generalize (n.toList.reverse.takeWhile fun c => decide (c ≠ '.')).reverse = after at hpoints ⊢
    simpa [String.toList_append] using hpoints
  · cases h

theorem splitName_of_point (front after : List Char) (hfront : front ≠ []) (hafter : '.' ∉ after)
    (hn : n.toList = front ++ '.' :: after) : (splitName n).2 = some (String.ofList after) := by
  have hkept : ∀ c ∈ after.reverse, decide (c ≠ '.') = true := fun c hc => by
    rw [decide_eq_true_eq]
    rintro rfl
    exact hafter (List.mem_reverse.mp hc)
  have hreverse : n.toList.reverse = after.reverse ++ '.' :: front.reverse := by simp [hn]
  have htake : n.toList.reverse.takeWhile (fun c => decide (c ≠ '.')) = after.reverse := by
    rw [hreverse, List.takeWhile_append_of_pos hkept]
    simp
  have hdrop : n.toList.reverse.dropWhile (fun c => decide (c ≠ '.')) = '.' :: front.reverse := by
    rw [hreverse, List.dropWhile_append_of_pos hkept]
    simp
  have hpoint : n.toList.contains '.' = true := by simp [hn]
  unfold splitName
  dsimp only
  rw [htake, hdrop, hpoint]
  simp [hfront]

theorem extension?_below {names : List String} (hn : IsName n) :
    ((names ++ [n]).foldl child p).extension? = (splitName n).2 := by
  rw [List.foldl_append, List.foldl_cons, List.foldl_nil, extension?, fileName?_child _ hn]
  rfl

end Path

namespace FileTree
variable {t t' : FileTree} {l x : Location} {p input : Path} {names : List String} {e : Entry} {content : ByteArray}
variable {S : Set Location} {ds : List TypeDecl} {text : String}

/-! ### Reading -/

/-- What is read at a path depends on what is found there. -/
theorem readInput_eq (t : FileTree) (p : Path) : t.readInput p =
    match t.find? p with
    | some (.file content) => ((String.fromUTF8? content).map .ok).getD (.error (.unreadable p.text))
    | _ => .error (.unreadable p.text) := by
  unfold readInput readText read find?
  cases hl : t.locate p with
  | error e => rfl
  | ok l =>
    simp only [bind, Except.bind]
    cases he : t.entry? l with
    | none => rfl
    | some e =>
      cases e with
      | directory => rfl
      | file content =>
        simp only [pure, Except.pure]
        cases String.fromUTF8? content with
        | none => rfl
        | some s => rfl

theorem exportedDecls_congr (h : t'.find? p = t.find? p) : t'.exportedDecls p = t.exportedDecls p := by
  unfold exportedDecls
  rw [readInput_eq, readInput_eq, h]

theorem exportedDecls_eq_ok : t.exportedDecls p = .ok ds ↔ ∃ (text : String) (decls : List TypeDecl),
    t.find? p = some (.file text.toUTF8) ∧ Source.parseFile text = .ok decls ∧ ds = decls.filter (·.isExported) := by
  constructor
  · intro h
    obtain ⟨text, htext, h⟩ := bind_eq_ok.mp h
    have hfile : t.find? p = some (.file text.toUTF8) := by
      rw [readInput_eq] at htext
      split at htext
      · next content hfile =>
        cases hread : String.fromUTF8? content with
        | none =>
          rw [hread] at htext
          cases htext
        | some s =>
          rw [hread] at htext
          obtain rfl := Except.ok.inj htext
          rw [hfile, Utf8.toUTF8_of_fromUTF8? hread]
      · cases htext
    split at h
    · next decls hparse => exact ⟨text, decls, hfile, hparse, (Except.ok.inj h).symm⟩
    · cases h
  · rintro ⟨text, decls, hfile, hparse, rfl⟩
    refine bind_eq_ok.mpr ⟨text, ?_, ?_⟩
    · rw [readInput_eq, hfile]
      dsimp only
      rw [Utf8.fromUTF8?_toUTF8]
      rfl
    · rw [hparse]
      rfl

/-! ### The files of a document -/

/-- The files that a document is made of. -/
def inputFiles (t : FileTree) (input : Path) : List Path :=
  if t.isDirectory input then t.sourceFiles input none else [input]

/-- What is declared at a path and exported. -/
def declsAt (t : FileTree) (p : Path) : List TypeDecl := (t.exportedDecls p).toOption.getD []

theorem declsAt_congr (h : t'.find? p = t.find? p) : t'.declsAt p = t.declsAt p := by
  unfold declsAt
  rw [exportedDecls_congr h]

theorem declsAt_of_ok (h : t.exportedDecls p = .ok ds) : t.declsAt p = ds := by
  unfold declsAt
  rw [h]
  rfl

/-- What declares anything can be read. -/
theorem exportedDecls_of_declsAt (h : t.declsAt p ≠ []) : t.exportedDecls p = .ok (t.declsAt p) := by
  unfold declsAt at h ⊢
  cases hdecls : t.exportedDecls p with
  | error e =>
    rw [hdecls] at h
    exact absurd rfl h
  | ok ds => rfl

theorem exportedDeclsOf_eq_ok {files : List Path} : t.exportedDeclsOf files = .ok ds ↔
    (∀ p ∈ files, ∃ ds, t.exportedDecls p = .ok ds) ∧ ds = files.flatMap t.declsAt := by
  have hlists : ∀ {dss : List (List TypeDecl)}, List.Forall₂ (fun p ds => t.exportedDecls p = .ok ds) files dss →
      dss = files.map t.declsAt := by
    intro dss h
    induction h with
    | nil => rfl
    | cons hp _ ih => rw [List.map_cons, declsAt_of_ok hp, ← ih]
  constructor
  · intro h
    obtain ⟨dss, hdss, h⟩ := bind_eq_ok.mp h
    have hall := mapM_eq_ok.mp hdss
    refine ⟨fun p hp => ?_, ?_⟩
    · obtain ⟨ds, -, hds⟩ := Paired.exists_right hall hp
      exact ⟨ds, hds⟩
    · rw [← Except.ok.inj h, hlists hall, List.flatMap_def]
  · rintro ⟨hall, rfl⟩
    refine bind_eq_ok.mpr ⟨files.map t.declsAt, mapM_eq_ok.mpr (List.forall₂_map_right_iff.mpr ?_), ?_⟩
    · refine List.forall₂_same.mpr fun p hp => ?_
      obtain ⟨ds, hds⟩ := hall p hp
      rw [hds, declsAt_of_ok hds]
    · rw [List.flatMap_def]
      rfl

theorem documentOfSources_eq_ok {o : SourceOptions} {d : Document} : t.documentOfSources input o = .ok d ↔
    (∀ p ∈ t.inputFiles input, ∃ ds, t.exportedDecls p = .ok ds) ∧
      Document.ofDecls ((t.inputFiles input).flatMap t.declsAt) o.defaultModule o.engineVersion o.attributes = .ok d := by
  refine Iff.trans bind_eq_ok ⟨?_, ?_⟩
  · rintro ⟨ds, hds, h⟩
    obtain ⟨hall, rfl⟩ := exportedDeclsOf_eq_ok.mp hds
    exact ⟨hall, h⟩
  · rintro ⟨hall, h⟩
    exact ⟨_, exportedDeclsOf_eq_ok.mpr ⟨hall, rfl⟩, h⟩

/-! ### The order of a walk -/

theorem Proper.nodup_namesBelow (ht : t.Proper) : (t.namesBelow l).Nodup := by
  unfold namesBelow
  refine List.pairwise_filterMap.mpr ((List.pairwise_map.mp ht.distinct).imp ?_)
  rintro ⟨x, e⟩ ⟨x', e'⟩ hne names hnames names' hnames' rfl
  cases e with
  | directory => cases hnames
  | file content =>
    cases e' with
    | directory => cases hnames'
    | file content' =>
      dsimp only at hnames hnames'
      split at hnames
      · split at hnames'
        · next hprefix hprefix' =>
          obtain ⟨rest, rfl⟩ := List.isPrefixOf_iff_prefix.mp hprefix
          obtain ⟨rest', rfl⟩ := List.isPrefixOf_iff_prefix.mp hprefix'
          rw [List.drop_left] at hnames hnames'
          exact hne (congrArg (l ++ ·) ((Option.some.inj hnames).trans (Option.some.inj hnames').symm))
        · cases hnames'
      · cases hnames

theorem locationLe_iff {a b : Location} : locationLe a b = true ↔ a < b ∨ a = b := by
  unfold locationLe
  rw [Bool.or_eq_true, beq_iff_eq, decide_eq_true_eq, or_comm]

theorem locationLe_trans (a b c : Location) (hab : locationLe a b = true) (hbc : locationLe b c = true) :
    locationLe a c = true := by
  rw [locationLe_iff, ← List.le_iff_lt_or_eq] at *
  exact List.le_trans hab hbc

theorem locationLe_total (a b : Location) : (locationLe a b || locationLe b a) = true := by
  rw [Bool.or_eq_true, locationLe_iff, locationLe_iff, ← List.le_iff_lt_or_eq, ← List.le_iff_lt_or_eq]
  exact List.le_total a b

/-- A walk comes to each file once, in the order of their names. -/
theorem Proper.pairwise_sortedNames (ht : t.Proper) : (t.sortedNames l).Pairwise (· < ·) := by
  have hle : (t.sortedNames l).Pairwise fun a b => locationLe a b = true :=
    List.pairwise_mergeSort locationLe_trans locationLe_total _
  have hne : (t.sortedNames l).Pairwise (· ≠ ·) := (List.mergeSort_perm _ _).nodup_iff.mpr ht.nodup_namesBelow
  exact hle.imp₂ (fun a b hle hne => (locationLe_iff.mp hle).resolve_right hne) hne

/-- What is taken from two walks is the same if the same files are taken. -/
theorem Proper.walk_filter_eq (ht : t.Proper) (ht' : t'.Proper) (hl : t.locate p = .ok l) (hl' : t'.locate p = .ok l)
    {f f' : Path → Bool} (h : ∀ names, names ∈ t.namesBelow l ∧ f (names.foldl Path.child p) = true ↔
      names ∈ t'.namesBelow l ∧ f' (names.foldl Path.child p) = true) : (t.walk p).filter f = (t'.walk p).filter f' := by
  have hnames : (t.sortedNames l).filter (f ∘ fun names => names.foldl Path.child p) =
      (t'.sortedNames l).filter (f' ∘ fun names => names.foldl Path.child p) := by
    refine (ht.pairwise_sortedNames.filter _).eq_of_mem_iff (ht'.pairwise_sortedNames.filter _) fun names => ?_
    simpa [sortedNames] using h names
  rw [walk_eq hl, walk_eq hl', List.filter_map, List.filter_map, hnames]

/-! ### Below a directory -/

/-- A path that goes on along names leads to where the names lead. -/
theorem locate_below (hl : t.locate p = .ok l) (hnames : ∀ n ∈ names, IsName n)
    (hx : t.locate (names.foldl Path.child p) = .ok x) : x = l ++ names := by
  cases names with
  | nil =>
    rw [List.append_nil]
    exact Except.ok.inj (hx.symm.trans hl)
  | cons n names =>
    rw [List.forall_mem_cons] at hnames
    obtain ⟨k, hk, rfl⟩ := locate_foldl_child (Path.child_solid hnames.1) hnames.2 hx
    have hn := leads_of_locate hl (Path.descends_name hnames.1) hk
    rw [Path.segments_of_slashFree hnames.1.slashFree] at hn
    rw [hn, List.append_assoc]
    rfl

theorem find?_below (hl : t.locate p = .ok l) (hnames : ∀ n ∈ names, IsName n)
    (h : t.find? (names.foldl Path.child p) = some e) : t.entry? (l ++ names) = some e := by
  obtain ⟨x, hx, he⟩ := find?_eq_some.mp h
  rwa [locate_below hl hnames hx] at he

/-- What is found below a directory was found there before, if it was there. -/
theorem Proper.find?_of_entry (ht : t.Proper) (h : Spares S t t') (hl : t.locate p = .ok l) (hnames : ∀ n ∈ names, IsName n)
    (hfind : t'.find? (names.foldl Path.child p) = some e) (he : t.entry? (l ++ names) = some e) :
    t.find? (names.foldl Path.child p) = some e := by
  obtain ⟨x, hx, -⟩ := find?_eq_some.mp hfind
  obtain rfl := locate_below (h.locate hl) hnames hx
  refine find?_eq_some.mpr ⟨_, ?_, he⟩
  cases names with
  | nil => rwa [List.append_nil]
  | cons n names =>
    rw [List.forall_mem_cons] at hnames
    obtain ⟨hdescends, hjoin⟩ := Path.descends_foldl_child (p := p) (Path.descends_name hnames.1) hnames.2
    exact hjoin ▸ ht.locate_of_entry h hl hdescends (hjoin.symm ▸ hx) he

theorem isDirectory_iff : t.isDirectory p = true ↔ ∃ l, t.locate p = .ok l ∧ t.entry? l = some .directory := by
  unfold isDirectory
  rw [beq_iff_eq, find?_eq_some]

theorem Spares.isDirectory (h : Spares S t t') (hdirectory : t.isDirectory p = true) : t'.isDirectory p = true := by
  obtain ⟨l, hl, hentry⟩ := isDirectory_iff.mp hdirectory
  exact isDirectory_iff.mpr ⟨l, h.locate hl, h.directory hentry⟩

end FileTree

/-! ### Files that declare nothing -/

/-- The text declares nothing that is exported. -/
def Source.Mute (text : String) : Prop := ∀ ds, parseFile text = .ok ds → ds.filter (·.isExported) = []

/-- The file is called as a source file. -/
def IsSource (l : Location) : Prop := ∃ m n, l = m ++ [n] ∧ ".cs".toList <:+ n.toList

namespace FileTree
variable {t t' t'' : FileTree} {l : Location} {p input : Path} {names : List String} {content : ByteArray}
variable {o : SourceOptions} {d : Document}

/-- From one tree to the other directories stay, and the source files that are new or changed declare nothing that is
exported. -/
structure Mutes (t t' : FileTree) : Prop where
  spares : Spares Set.univ t t'
  sources : ∀ {l content}, IsSource l → t'.entry? l = some (.file content) →
    t.entry? l = some (.file content) ∨ ∃ text : String, content = text.toUTF8 ∧ Source.Mute text

namespace Mutes

theorem refl (t : FileTree) : Mutes t t := ⟨.refl _ _, fun _ => .inl⟩

theorem trans (h : Mutes t t') (h' : Mutes t' t'') : Mutes t t'' := by
  refine ⟨h.spares.trans h'.spares, fun hl hfile => ?_⟩
  rcases h'.sources hl hfile with hfile | hmute
  · exact h.sources hl hfile
  · exact .inr hmute

theorem of_spares (h : Spares {l | ¬IsSource l} t t') : Mutes t t' :=
  ⟨h.mono (Set.subset_univ _), fun hl hfile => .inl ((h.file (not_not_intro hl)).mp hfile)⟩

end Mutes

/-- The files that the document is made of are kept, but for those that declare nothing that is exported. -/
def KeepsSources (t t' : FileTree) (input : Path) : Prop :=
  ∀ p ∈ t.inputFiles input, p = input ∨ t.exportedDecls p ≠ .ok [] → t'.find? p = t.find? p

/-- The path is that of a source file that declares something that is exported. -/
def Contributes (t : FileTree) (p : Path) : Bool := p.extension? == some "cs" && !(t.declsAt p).isEmpty

theorem contributes_iff : t.Contributes p = true ↔ p.extension? = some "cs" ∧ t.declsAt p ≠ [] := by
  simp [Contributes]

theorem mem_sourceFiles : p ∈ t.sourceFiles input none ↔ p ∈ t.walk input ∧ p.extension? = some "cs" := by
  simp [sourceFiles]

theorem flatMap_sourceFiles : (t.sourceFiles input none).flatMap t.declsAt =
    ((t.walk input).filter t.Contributes).flatMap t.declsAt := by
  have hfiles : (t.walk input).filter t.Contributes = (t.sourceFiles input none).filter fun p => !(t.declsAt p).isEmpty := by
    unfold sourceFiles
    rw [List.filter_filter]
    refine List.filter_congr fun p _ => ?_
    simp [Contributes, Bool.and_comm]
  rw [hfiles, Labelled.flatMap_filter fun p hp => by simpa using hp]

/-- Below a directory, names lead to a file that the document is made of. -/
theorem mem_inputFiles (hl : t.locate input = .ok l) (hdirectory : t.entry? l = some .directory)
    (hnames : names ∈ t.namesBelow l) (hends : (names.foldl Path.child input).extension? = some "cs") :
    names.foldl Path.child input ∈ t.inputFiles input := by
  unfold inputFiles
  rw [if_pos (isDirectory_iff.mpr ⟨l, hl, hdirectory⟩), mem_sourceFiles, (walk_perm hl).mem_iff]
  exact ⟨List.mem_map_of_mem hnames, hends⟩

theorem isSource_below (hdirectory : t.entry? l = some .directory) (hnames : ∀ n ∈ names, IsName n)
    (hfile : t.entry? (l ++ names) = some (.file content))
    (hends : (names.foldl Path.child input).extension? = some "cs") : IsSource (l ++ names) := by
  rcases List.eq_nil_or_concat names with rfl | ⟨front, n, rfl⟩
  · rw [List.append_nil, hdirectory] at hfile
    cases hfile
  · rw [List.concat_eq_append] at hnames hends ⊢
    exact ⟨l ++ front, n, (List.append_assoc ..).symm,
      Path.suffix_of_splitName ((Path.extension?_below (hnames n (List.mem_append_right _ List.mem_cons_self))).symm.trans hends)⟩

/-- The input does not go away. -/
theorem Mutes.isThere (h : Mutes t t') (hkept : t.KeepsSources t' input) (hthere : t.isThere input = true) :
    t'.isThere input = true := by
  by_cases hdirectory : t.isDirectory input = true
  · unfold FileTree.isThere
    rw [beq_iff_eq.mp (h.spares.isDirectory hdirectory), Option.isSome_some]
  · have hfile : t.inputFiles input = [input] := if_neg hdirectory
    unfold FileTree.isThere at *
    rwa [hkept input (hfile ▸ List.mem_cons_self) (.inl rfl)]

section
variable (h : Mutes t t') (ht : t.Proper) (ht' : t'.Proper) (hkept : t.KeepsSources t' input)
include h ht ht' hkept

/-- Below a directory the same files declare anything, and the same. -/
theorem Mutes.contributes_iff (hl : t.locate input = .ok l) (hdirectory : t.entry? l = some .directory) :
    names ∈ t.namesBelow l ∧ t.Contributes (names.foldl Path.child input) = true ↔
      names ∈ t'.namesBelow l ∧ t'.Contributes (names.foldl Path.child input) = true := by
  have hnames : ∀ {t : FileTree} {content}, t.Proper → t.entry? (l ++ names) = some (.file content) → ∀ n ∈ names, IsName n :=
    fun ht hfile n hn => ht.isName hfile (List.mem_append_right _ hn)
  rw [FileTree.contributes_iff, FileTree.contributes_iff]
  constructor
  · rintro ⟨hbelow, hends, hdecls⟩
    obtain ⟨content, hfile⟩ := ht.mem_namesBelow.mp hbelow
    have hread := exportedDecls_of_declsAt hdecls
    obtain ⟨text, -, hfind, -⟩ := exportedDecls_eq_ok.mp hread
    have hsame := hkept _ (mem_inputFiles hl hdirectory hbelow hends) (.inr fun hnone =>
      hdecls (Except.ok.inj (hread.symm.trans hnone)))
    have hfile' := find?_below (h.spares.locate hl) (hnames ht hfile) (hsame.trans hfind)
    exact ⟨ht'.mem_namesBelow.mpr ⟨_, hfile'⟩, hends, by rwa [declsAt_congr hsame]⟩
  · rintro ⟨hbelow, hends, hdecls⟩
    obtain ⟨content, hfile⟩ := ht'.mem_namesBelow.mp hbelow
    obtain ⟨text, decls, hfind, hparse, hexported⟩ := exportedDecls_eq_ok.mp (exportedDecls_of_declsAt hdecls)
    have htext := find?_below (h.spares.locate hl) (hnames ht' hfile) hfind
    have hsource := isSource_below (h.spares.directory hdirectory) (hnames ht' hfile) htext hends
    rcases h.sources hsource htext with hbefore | ⟨text', heq, hmute⟩
    · have hfind' := ht.find?_of_entry h.spares hl (hnames ht' hfile) hfind hbefore
      exact ⟨ht.mem_namesBelow.mpr ⟨_, hbefore⟩, hends, by rwa [← declsAt_congr (hfind.trans hfind'.symm)]⟩
    · obtain rfl := String.toByteArray_inj.mp heq
      exact absurd (hexported.trans (hmute decls hparse)) hdecls

/-- So the documents are made of the same declarations. -/
theorem Mutes.flatMap_declsAt : (t'.inputFiles input).flatMap t'.declsAt = (t.inputFiles input).flatMap t.declsAt := by
  by_cases hdirectory : t.isDirectory input = true
  · obtain ⟨l, hl, hentry⟩ := isDirectory_iff.mp hdirectory
    have hdirectory' := h.spares.isDirectory hdirectory
    have hfiles := ht.walk_filter_eq ht' hl (h.spares.locate hl) fun names => h.contributes_iff ht ht' hkept hl hentry
    unfold inputFiles
    rw [if_pos hdirectory, if_pos hdirectory', flatMap_sourceFiles, flatMap_sourceFiles, ← hfiles, List.flatMap_def,
      List.flatMap_def]
    refine congrArg List.flatten (List.map_congr_left fun p hp => ?_)
    obtain ⟨hwalk, hcontributes⟩ := List.mem_filter.mp hp
    obtain ⟨hends, hdecls⟩ := FileTree.contributes_iff.mp hcontributes
    have hread := exportedDecls_of_declsAt hdecls
    refine declsAt_congr (hkept p ?_ (.inr fun hnone => hdecls (Except.ok.inj (hread.symm.trans hnone))))
    unfold inputFiles
    rw [if_pos hdirectory]
    exact mem_sourceFiles.mpr ⟨hwalk, hends⟩
  · have hfile : t.inputFiles input = [input] := if_neg hdirectory
    have hsame : t'.find? input = t.find? input := hkept input (hfile ▸ List.mem_cons_self) (.inl rfl)
    have hfile' : t'.inputFiles input = [input] := by
      unfold inputFiles isDirectory at *
      rw [hsame, if_neg hdirectory]
    rw [hfile, hfile', List.flatMap_singleton, List.flatMap_singleton, declsAt_congr hsame]

/-- The document is made again if the files that are new or changed can be read. -/
theorem Mutes.documentOfSources_iff (hd : t.documentOfSources input o = .ok d) : t'.documentOfSources input o = .ok d ↔
    ∀ p ∈ t'.inputFiles input, p ∉ t.inputFiles input ∨ t'.find? p ≠ t.find? p → ∃ ds, t'.exportedDecls p = .ok ds := by
  obtain ⟨hall, hdecls⟩ := documentOfSources_eq_ok.mp hd
  rw [documentOfSources_eq_ok, h.flatMap_declsAt ht ht' hkept, and_iff_left hdecls]
  refine forall₂_congr fun p hp => ⟨fun hread _ => hread, fun hread => ?_⟩
  by_cases hkept : p ∈ t.inputFiles input ∧ t'.find? p = t.find? p
  · rw [exportedDecls_congr hkept.2]
    exact hall p hkept.1
  · exact hread (by rwa [← not_and_or])

end

end FileTree
end EngineBridge
