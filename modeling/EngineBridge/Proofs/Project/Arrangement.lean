import EngineBridge.Proofs.Model.Order
import EngineBridge.Proofs.Project.Sources

/-! How sources are arranged in files.

A document is made of the declarations of all its files in the order of their paths. Which file a declaration is in, and
what the file is called, is not kept, so another arrangement of the sources makes the same types in another order. -/

namespace EngineBridge
open Outcome Document

namespace FileTree
variable {t t' : FileTree} {input input' : Path} {o : SourceOptions}

/-- What is declared in what is found at a path, and exported. -/
def exportedIn : Option Entry → Option (List TypeDecl)
  | some (.file content) => (String.fromUTF8? content).bind fun text =>
    (Source.parseFile text).toOption.map fun decls => decls.filter (·.isExported)
  | _ => none

theorem toOption_exportedDecls (t : FileTree) (p : Path) : (t.exportedDecls p).toOption = exportedIn (t.find? p) := by
  unfold exportedDecls
  rw [readInput_eq]
  rcases t.find? p with _ | (_ | content)
  · rfl
  · rfl
  · dsimp only [exportedIn]
    cases String.fromUTF8? content with
    | none => rfl
    | some text =>
      simp only [Option.map_some, Option.getD_some, Option.bind_some]
      cases hparse : Source.parseFile text <;> simp [bind, Except.bind, hparse] <;> rfl

theorem exists_exportedDecls_iff {p : Path} : (∃ ds, t.exportedDecls p = .ok ds) ↔ (exportedIn (t.find? p)).isSome := by
  rw [← toOption_exportedDecls]
  cases t.exportedDecls p <;> simp [Except.toOption]

theorem declsAt_eq (t : FileTree) (p : Path) : t.declsAt p = (exportedIn (t.find? p)).getD [] := by
  rw [declsAt, toOption_exportedDecls]

/-- The documents are made of the same declarations, or some file stands in the way of either. -/
theorem rearranged_of_decls (haccepted : (∀ p ∈ t.inputFiles input, ∃ ds, t.exportedDecls p = .ok ds) ↔
      ∀ p ∈ t'.inputFiles input', ∃ ds, t'.exportedDecls p = .ok ds)
    (hperm : ((t'.inputFiles input').flatMap t'.declsAt).Perm ((t.inputFiles input).flatMap t.declsAt)) :
    Rearranged ((t.inputFiles input).flatMap t.declsAt) ((t'.inputFiles input').flatMap t'.declsAt)
      (t.documentOfSources input o) (t'.documentOfSources input' o) where
  exists_iff := by
    simp only [documentOfSources_eq_ok, exists_and_left]
    exact and_congr haccepted (rearranged_of_perm hperm).exists_iff
  records d d' hd hd' :=
    (rearranged_of_perm hperm).records d d' (documentOfSources_eq_ok.mp hd).2 (documentOfSources_eq_ok.mp hd').2

theorem rearranged_of_contents
    (h : ((t'.inputFiles input').map t'.find?).Perm ((t.inputFiles input).map t.find?)) :
    Rearranged ((t.inputFiles input).flatMap t.declsAt) ((t'.inputFiles input').flatMap t'.declsAt)
      (t.documentOfSources input o) (t'.documentOfSources input' o) := by
  have hdecls : ∀ (t : FileTree) (files : List Path),
      files.flatMap t.declsAt = (files.map t.find?).flatMap fun e => (exportedIn e).getD [] := fun t files => by
    rw [List.flatMap_map]
    exact List.flatMap_congr fun p _ => t.declsAt_eq p
  have haccepted : ∀ (t : FileTree) (files : List Path), (∀ p ∈ files, ∃ ds, t.exportedDecls p = .ok ds) ↔
      ∀ e ∈ files.map t.find?, (exportedIn e).isSome := fun t files => by
    simp only [exists_exportedDecls_iff, List.forall_mem_map]
  refine rearranged_of_decls ?_ ?_
  · rw [haccepted, haccepted]
    simp only [h.mem_iff]
  · rw [hdecls, hdecls]
    exact h.flatMap_right _

/-- The same declarations in another order make the same records in that order, or no document as before. So do files that
declare the same between them, and so do the same files under other names. -/
theorem order_of_declarations_immaterial :
    (∀ (decls decls' : List TypeDecl), decls'.Perm decls → ∀ fallback version attributes,
      Rearranged decls decls' (ofDecls decls fallback version attributes) (ofDecls decls' fallback version attributes)) ∧
    ∀ (t t' : FileTree) (input input' : Path) (o : SourceOptions),
      (∀ ds ds', t.exportedDeclsOf (t.inputFiles input) = .ok ds → t'.exportedDeclsOf (t'.inputFiles input') = .ok ds' →
        ds'.Perm ds → Rearranged ds ds' (t.documentOfSources input o) (t'.documentOfSources input' o)) ∧
      (((t'.inputFiles input').map t'.find?).Perm ((t.inputFiles input).map t.find?) →
        Rearranged ((t.inputFiles input).flatMap t.declsAt) ((t'.inputFiles input').flatMap t'.declsAt)
          (t.documentOfSources input o) (t'.documentOfSources input' o)) := by
  refine ⟨fun _ _ hperm _ _ _ => rearranged_of_perm hperm, fun t t' input input' o => ⟨?_, rearranged_of_contents⟩⟩
  intro ds ds' hds hds' hperm
  obtain ⟨hall, rfl⟩ := exportedDeclsOf_eq_ok.mp hds
  obtain ⟨hall', rfl⟩ := exportedDeclsOf_eq_ok.mp hds'
  exact rearranged_of_decls ⟨fun _ => hall', fun _ => hall⟩ hperm

end FileTree

/-! ### A directory with two scripts -/

namespace Project.TwoScripts

def pointText : String := "[UStruct] struct Point \x7b \x7d "

def lineText : String := "[UClass] class Line \x7b [UProperty] Point From; \x7d "

def tree (a b : String) : FileTree :=
  ⟨[(["src"], .directory), (["src", "a.cs"], .file a.toUTF8), (["src", "b.cs"], .file b.toUTF8)], [], []⟩

/-- The struct as it is read. -/
def point : TypeDecl where
  name := "Point"
  kind := .structKind
  module := none
  nspace := none
  base := none
  attributes := [⟨"UStruct", []⟩]
  modifiers := []
  members := []
  variants := []

/-- The class as it is read. -/
def line : TypeDecl where
  name := "Line"
  kind := .classKind
  module := none
  nspace := none
  base := none
  attributes := [⟨"UClass", []⟩]
  modifiers := []
  members := [.field ⟨"From", ⟨"Point", []⟩, [⟨"UProperty", []⟩], []⟩]
  variants := []

def records : List TypeRecord :=
  [.bare "Point" "Game" .structKind,
    { TypeRecord.bare "Line" "Game" .classKind with properties := [⟨"From", .struct "Point", .empty⟩] }]

theorem lowered : ofDecls [point, line] "Game" "5.4" .empty = .ok ⟨"5.4", .empty, records⟩ := by rfl

set_option maxRecDepth 8000 in
theorem parsed_point : Source.parseFile pointText = .ok [point] := by cbv

set_option maxRecDepth 8000 in
theorem parsed_line : Source.parseFile lineText = .ok [line] := by cbv

set_option maxRecDepth 8000 in
theorem parsed_both : Source.parseFile (lineText ++ pointText) = .ok [line, point] := by cbv

theorem parsed_empty : Source.parseFile "" = .ok [] := by cbv

theorem inputFiles_src (a b : String) : (tree a b).inputFiles ⟨"/src"⟩ = [⟨"/src/a.cs"⟩, ⟨"/src/b.cs"⟩] := by
  have hdirectory : (tree a b).isDirectory ⟨"/src"⟩ = true := by rfl
  have hl : (tree a b).locate ⟨"/src"⟩ = .ok ["src"] := by rfl
  have hnames : (tree a b).sortedNames ["src"] = [["a.cs"], ["b.cs"]] :=
    List.mergeSort_of_pairwise (l := [["a.cs"], ["b.cs"]]) (by decide)
  unfold FileTree.inputFiles FileTree.sourceFiles
  rw [if_pos hdirectory, FileTree.walk_eq hl, hnames]
  decide

theorem contents_src (a b : String) : ((tree a b).inputFiles ⟨"/src"⟩).map (tree a b).find? =
    [some (.file a.toUTF8), some (.file b.toUTF8)] := by
  rw [inputFiles_src]
  rfl

theorem declared {a b : String} {ds ds' : List TypeDecl} (ha : Source.parseFile a = .ok ds)
    (hb : Source.parseFile b = .ok ds') : (tree a b).exportedDeclsOf ((tree a b).inputFiles ⟨"/src"⟩) =
      .ok (ds.filter (·.isExported) ++ ds'.filter (·.isExported)) := by
  have hfirst : (tree a b).exportedDecls ⟨"/src/a.cs"⟩ = .ok (ds.filter (·.isExported)) :=
    FileTree.exportedDecls_eq_ok.mpr ⟨a, ds, by rfl, ha, rfl⟩
  have hsecond : (tree a b).exportedDecls ⟨"/src/b.cs"⟩ = .ok (ds'.filter (·.isExported)) :=
    FileTree.exportedDecls_eq_ok.mpr ⟨b, ds', by rfl, hb, rfl⟩
  rw [inputFiles_src, FileTree.exportedDeclsOf_eq_ok]
  refine ⟨List.forall_mem_cons.mpr ⟨⟨_, hfirst⟩, List.forall_mem_singleton.mpr ⟨_, hsecond⟩⟩, ?_⟩
  simp [FileTree.declsAt_of_ok hfirst, FileTree.declsAt_of_ok hsecond]

theorem reversed {made made' : Except DocumentError Document} (h : Rearranged [point, line] [line, point] made made')
    (hmade : made = .ok ⟨"5.4", .empty, records⟩) : ∃ d, made' = .ok d ∧ d.types = records.reverse := by
  obtain ⟨d, hd⟩ := h.exists_iff.mp ⟨_, hmade⟩
  obtain ⟨-, -, record, hrecords, htypes⟩ := h.records _ _ hmade hd
  refine ⟨d, hd, ?_⟩
  rw [htypes, show records = [point, line].map record from hrecords]
  rfl

/-- The line before the point, as declarations, in files whose names are exchanged, and in one file. -/
theorem order_of_declarations_immaterial_line :
    (∃ d, ofDecls [line, point] "Game" "5.4" .empty = .ok d ∧ d.types = records.reverse) ∧
      (tree pointText lineText).documentOfSources ⟨"/src"⟩ .usual = .ok ⟨"5.4", .empty, records⟩ ∧
      (∃ d, (tree (lineText ++ pointText) "").documentOfSources ⟨"/src"⟩ .usual = .ok d ∧ d.types = records.reverse) ∧
      ∃ d, (tree lineText pointText).documentOfSources ⟨"/src"⟩ .usual = .ok d ∧ d.types = records.reverse := by
  have hperm : [line, point].Perm [point, line] := .swap point line []
  have hdecls : (tree pointText lineText).exportedDeclsOf ((tree pointText lineText).inputFiles ⟨"/src"⟩) =
    .ok [point, line] := declared parsed_point parsed_line
  have hjoined : (tree (lineText ++ pointText) "").exportedDeclsOf ((tree (lineText ++ pointText) "").inputFiles ⟨"/src"⟩) =
    .ok [line, point] := declared parsed_both parsed_empty
  have hexchanged : (tree lineText pointText).exportedDeclsOf ((tree lineText pointText).inputFiles ⟨"/src"⟩) =
    .ok [line, point] := declared parsed_line parsed_point
  obtain ⟨haccepted, hall⟩ := FileTree.exportedDeclsOf_eq_ok.mp hdecls
  have hmade : (tree pointText lineText).documentOfSources ⟨"/src"⟩ .usual = .ok ⟨"5.4", .empty, records⟩ :=
    FileTree.documentOfSources_eq_ok.mpr ⟨haccepted, hall ▸ lowered⟩
  obtain ⟨horder, hfiles⟩ := FileTree.order_of_declarations_immaterial
  refine ⟨reversed (horder _ _ hperm _ _ _) lowered, hmade, reversed ((hfiles _ _ _ _ _).1 _ _ hdecls hjoined hperm) hmade, ?_⟩
  have hcontents := (hfiles (tree pointText lineText) (tree lineText pointText) ⟨"/src"⟩ ⟨"/src"⟩ .usual).2 (by
    rw [contents_src, contents_src]
    exact .swap _ _ [])
  rw [← hall, ← (FileTree.exportedDeclsOf_eq_ok.mp hexchanged).2] at hcontents
  exact reversed hcontents hmade

end Project.TwoScripts
end EngineBridge
