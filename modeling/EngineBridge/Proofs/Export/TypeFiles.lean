import EngineBridge.Proofs.Export.Trampolines
import EngineBridge.Proofs.Export.Writing

/-! The files of trampolines: one for each type that has any, along the type's module and name.

In a consistent document whose modules are identifiers no two files lead along the same names, the type can be told from
the name of its file, and each function is listed once. -/

namespace EngineBridge
namespace Trampoline
open Path (IsName Solid Descends)

variable {c : BindingContext} {d : Document} {a : Artifact} {e : TrampolineEntry} {p : Path}
variable {x y : Group × List Lowered × List ReportEntry}

/-- The file of a group's trampolines. -/
def fileOf (x : Group × List Lowered × List ReportEntry) : Artifact := typeFile x.1.type x.2.1

/-- A trampoline that is generated, and the file of its type. -/
def StandsIn (c : BindingContext) (e : TrampolineEntry) (a : Artifact) : Prop :=
  ∃ x ∈ madeGroups c, e ∈ x.2.1.map (·.entry) ∧ a = fileOf x

theorem mem_entries_iff : e ∈ (generate c).manifest.entries ↔ ∃ a, StandsIn c e a := by
  rw [generate_entries, List.mem_flatMap]
  constructor
  · rintro ⟨x, hx, he⟩
    exact ⟨fileOf x, x, hx, he, rfl⟩
  · rintro ⟨a, x, hx, he, -⟩
    exact ⟨x, hx, he⟩

theorem mem_artifacts_iff : a ∈ (generate c).artifacts ↔ (∃ x ∈ madeGroups c, a = fileOf x) ∨ a = header := by
  rw [generate_artifacts, List.mem_append, List.mem_map, List.mem_singleton]
  refine or_congr_left ⟨?_, ?_⟩
  · rintro ⟨x, hx, rfl⟩
    exact ⟨x, hx, rfl⟩
  · rintro ⟨x, hx, rfl⟩
    exact ⟨x, hx, rfl⟩

/-! ### Groups -/

theorem exists_standsIn (hx : x ∈ madeGroups c) : ∃ e, StandsIn c e (fileOf x) := by
  have hne : x.2.1 ≠ [] := by simpa using (List.mem_filter.mp hx).2
  obtain ⟨y, hy⟩ := List.exists_mem_of_ne_nil _ hne
  exact ⟨y.entry, x, hx, List.mem_map_of_mem hy, rfl⟩

theorem identifiers_of_lower {z : Candidate} (h : lower d z = .ok e) : ∀ n ∈ spelledNames z, isIdentifier n = true := by
  unfold lower at h
  split at h
  · cases h
  · next hnone => simpa using hnone

/-- What became of a group's functions is said of the group's type. -/
theorem type_of_lowered (hx : x ∈ madeGroups c) {f : Lowered} (hf : f ∈ x.2.1) :
    f.entry.id.type = x.1.type.name ∧ isIdentifier x.1.type.name = true := by
  obtain ⟨g, -, rfl⟩ := List.mem_map.mp (List.mem_filter.mp hx).1
  obtain ⟨z, -, hcandidate, hlower⟩ := mem_lowered hf
  have hid := (lower_eq_ok hlower).1
  have hidentifiers := identifiers_of_lower hlower
  rw [hcandidate] at hid hidentifiers
  rw [hid]
  exact ⟨rfl, hidentifiers _ List.mem_cons_self⟩

theorem type_of_entry (hx : x ∈ madeGroups c) (he : e ∈ x.2.1.map (·.entry)) : e.id.type = x.1.type.name := by
  obtain ⟨f, hf, rfl⟩ := List.mem_map.mp he
  exact (type_of_lowered hx hf).1

theorem isIdentifier_type (hx : x ∈ madeGroups c) : isIdentifier x.1.type.name = true := by
  have hne : x.2.1 ≠ [] := by simpa using (List.mem_filter.mp hx).2
  obtain ⟨f, hf⟩ := List.exists_mem_of_ne_nil _ hne
  exact (type_of_lowered hx hf).2

theorem names_of_groups (hnames : (c.document.types.map (·.name)).Nodup) :
    ((madeGroups c).map (·.1.type.name)).Nodup := by
  have hgroups : ((groups c).map (·.type.name)).Nodup := by
    rw [groups_eq hnames]
    refine List.Nodup.sublist (List.filter_sublist.map _) ?_
    rwa [List.map_map]
  refine List.Nodup.sublist (List.filter_sublist.map _) ?_
  rwa [List.map_map]

/-- Groups of one type are the same group. -/
theorem eq_of_type (hnames : (c.document.types.map (·.name)).Nodup) (hx : x ∈ madeGroups c) (hy : y ∈ madeGroups c)
    (h : x.1.type.name = y.1.type.name) : x = y :=
  List.inj_on_of_nodup_map (names_of_groups hnames) hx hy h

/-! ### Paths -/

theorem typeFileEnding_slashFree : '/' ∉ typeFileEnding.toList := by decide

theorem isName_headerFile : IsName headerFile := by decide

theorem isName_manifestFile : IsName manifestFile := by decide

theorem nativeRoot_solid : c.nativeRoot.Solid := Path.join_solid ⟨by decide, by decide⟩

theorem typeOfPath?_child {n : String} (hn : IsName n) : typeOfPath? (p.child n) =
    if typeFileEnding.toList.isSuffixOf n.toList then
      some (String.ofList (n.toList.take (n.toList.length - typeFileEnding.toList.length)))
    else none := by
  unfold typeOfPath?
  rw [Path.fileName?_child p hn]
  rfl

/-- The type of a file can be told from the file's path. -/
theorem typeOfPath?_typeFilePath {t : TypeRecord} (h : isIdentifier t.name = true) :
    typeOfPath? (typeFilePath t) = some t.name := by
  have hfile := isName_of_isIdentifier h typeFileEnding_slashFree
  have hpath : typeFilePath t = Path.child ⟨t.module⟩ (t.name ++ typeFileEnding) := rfl
  rw [hpath, typeOfPath?_child hfile, String.toList_append,
    if_pos (List.isSuffixOf_iff_suffix.mpr (List.suffix_append _ _)), List.length_append, Nat.add_sub_cancel,
    List.take_left, String.ofList_toList]

theorem typeOfPath?_fileOf (hx : x ∈ madeGroups c) : typeOfPath? (fileOf x).path = some x.1.type.name :=
  typeOfPath?_typeFilePath (isIdentifier_type hx)

theorem typeOfPath?_header : typeOfPath? header.path = none := by decide

section
variable (hmodules : ∀ t ∈ c.document.types, isIdentifier t.module = true)
  (hnames : (c.document.types.map (·.name)).Nodup)
include hmodules hnames

theorem isIdentifier_module (hx : x ∈ madeGroups c) : isIdentifier x.1.type.module = true := by
  obtain ⟨t, ht, rfl⟩ := mem_madeGroups hnames hx
  exact hmodules t ht

theorem segments_fileOf (hx : x ∈ madeGroups c) :
    (fileOf x).path.segments = [x.1.type.module, x.1.type.name ++ typeFileEnding] :=
  segments_file (isIdentifier_type hx) (isIdentifier_module hmodules hnames hx) typeFileEnding_slashFree

theorem descends_artifact (ha : a ∈ (generate c).artifacts) : a.path.Descends := by
  rcases mem_artifacts_iff.mp ha with ⟨x, hx, rfl⟩ | rfl
  · exact descends_file (isIdentifier_type hx) (isIdentifier_module hmodules hnames hx) typeFileEnding_slashFree
  · exact Path.descends_name isName_headerFile

/-- The files lead along names of their own. -/
theorem segments_distinct : ((generate c).artifacts.map (·.path.segments)).Nodup := by
  have hfiles : ((madeGroups c).map fileOf).map (·.path.segments) =
      (madeGroups c).map fun x => [x.1.type.module, x.1.type.name ++ typeFileEnding] := by
    rw [List.map_map]
    exact List.map_congr_left fun x hx => segments_fileOf hmodules hnames hx
  have hheader : header.path.segments = [headerFile] := Path.segments_of_slashFree isName_headerFile.slashFree
  have hartifacts : (generate c).artifacts = (madeGroups c).map fileOf ++ [header] := generate_artifacts
  rw [hartifacts, List.map_append, hfiles, List.map_singleton, hheader, List.nodup_append]
  refine ⟨nodup_files _ _ (names_of_groups hnames), by simp, ?_⟩
  rintro s hs s' hs' rfl
  obtain ⟨x, -, rfl⟩ := List.mem_map.mp hs
  simp at hs'

end

/-! ### Functions -/

/-- The functions of a group are listed in the order of its candidates. -/
theorem lowered_sublist (g : Group) : List.Sublist ((lowerGroup d g).1.map (·.entry.id))
    (g.candidates.map fun z => ⟨g.type.name, z.function.name⟩) := by
  unfold lowerGroup
  dsimp only
  rw [List.map_filterMap, List.filterMap_map]
  refine Labelled.filterMap_sublist_map fun z id hid => ?_
  obtain ⟨f, hf, rfl⟩ := Option.map_eq_some_iff.mp hid
  dsimp only [Function.comp_apply] at hf
  split at hf
  · next e heq =>
    cases hf
    obtain ⟨rfl, hlower⟩ := Prod.mk.inj heq
    exact (lower_eq_ok hlower).1
  · cases hf

/-- Each function is listed once. -/
theorem entries_once (hd : c.document.Consistent) : ((generate c).manifest.entries.map (·.id)).Nodup := by
  rw [generate_entries, List.map_flatMap, List.nodup_flatMap]
  constructor
  · intro x hx
    obtain ⟨t, ht, rfl⟩ := mem_madeGroups hd.names hx
    rw [List.map_map]
    refine (lowered_sublist (groupOf c t)).nodup ?_
    have hfunctions : (t.functions.map (·.name)).Nodup := (hd.accepts t ht).functionNames
    rw [groupOf, List.map_map]
    refine ((List.filter_sublist.map _).nodup ?_ : List.Nodup _)
    exact List.pairwise_map.mpr ((List.pairwise_map.mp hfunctions).imp fun hne heq => hne (FunctionId.mk.inj heq).2)
  · refine List.Pairwise.imp_of_mem (fun {x y} hx hy hne => ?_) (List.pairwise_map.mp (names_of_groups hd.names))
    intro id hid hid'
    obtain ⟨e, he, rfl⟩ := List.mem_map.mp hid
    obtain ⟨e', he', heq⟩ := List.mem_map.mp hid'
    have htype := type_of_entry hx he
    rw [← heq, type_of_entry hy he'] at htype
    exact hne htype.symm

end Trampoline
end EngineBridge
