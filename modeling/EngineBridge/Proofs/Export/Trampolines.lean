import EngineBridge.Project.Pipeline
import EngineBridge.Proofs.Lists
import EngineBridge.Proofs.Model.Validity

/-! What the pass that makes trampolines leaves behind.

Types of a consistent document have names of their own, so that every group of candidates is that of one type.
An entry of the index is then the layout of a function of the document, whose trampoline stands in the file of
its type; and the functions that are installed are those of the index. -/

namespace EngineBridge
namespace Trampoline
variable {c : BindingContext} {d : Document} {t : TypeRecord} {f : FunctionRecord} {e : TrampolineEntry}

theorem lower_eq_ok {x : Candidate} (h : lower d x = .ok e) :
    e.id = x.id ∧ e.symbol = trampolineSymbol x.id ∧ FrameLayout.ofFunction d x.owner x.function = .ok e.layout := by
  unfold lower at h
  split at h
  · cases h
  · split at h
    · cases h
    · next layout hlayout =>
      cases h
      exact ⟨rfl, rfl, hlayout⟩

/-- The candidates of a type by themselves. -/
def groupOf (c : BindingContext) (t : TypeRecord) : Group := ⟨t, (t.functions.filter c.isCandidate).map (⟨t, ·⟩)⟩

section
variable (hnames : (c.document.types.map (·.name)).Nodup)
include hnames

theorem candidates_of_name (ht : t ∈ c.document.types) :
    c.candidates.filter (fun x => x.owner.name == t.name) = (groupOf c t).candidates := by
  refine Labelled.filter_flatMap TypeRecord.name hnames (fun t _ x hx => ?_) ht
  obtain ⟨f, -, rfl⟩ := List.mem_map.mp hx
  rfl

/-- Every type has a group of its own. -/
theorem groups_eq : groups c = (c.document.types.map (groupOf c)).filter (!·.candidates.isEmpty) := by
  have htypes : (c.document.types.eraseDupsBy fun a b => a.name == b.name) = c.document.types := by
    refine Labelled.eraseDupsBy_eq_self TypeRecord.name ((List.pairwise_map.mp hnames).imp fun hne => ?_)
    exact beq_eq_false_iff_ne.mpr (Ne.symm hne)
  have hgroups : (c.document.types.map fun t =>
      Group.mk t (c.candidates.filter fun x => x.owner.name == t.name)) = c.document.types.map (groupOf c) :=
    List.map_congr_left fun t ht => congrArg (Group.mk t) (candidates_of_name hnames ht)
  show (List.map _ (c.document.types.eraseDupsBy fun a b => a.name == b.name)).filter _ = _
  rw [htypes, hgroups]

end

theorem mem_lowered {g : Group} {x : Lowered} (hx : x ∈ (lowerGroup d g).1) :
    ∃ y ∈ g.candidates, x.candidate = { y with owner := g.type } ∧ lower d x.candidate = .ok x.entry := by
  obtain ⟨z, hz, hsome⟩ := List.mem_filterMap.mp hx
  obtain ⟨y, hy, rfl⟩ := List.mem_map.mp hz
  refine ⟨y, hy, ?_⟩
  dsimp only at hsome
  split at hsome
  · next e he =>
    cases hsome
    obtain ⟨hcandidate, hlower⟩ := Prod.mk.inj he
    exact ⟨hcandidate.symm, hcandidate ▸ hlower⟩
  · cases hsome

/-- A trampoline: its entry is that of a function of the document, and it stands in the file of the function's
type. -/
structure Made (d : Document) (artifacts : List Artifact) (t : TypeRecord) (f : FunctionRecord) (e : TrampolineEntry) :
    Prop where
  id_eq : e.id = ⟨t.name, f.name⟩
  symbol_eq : e.symbol = trampolineSymbol ⟨t.name, f.name⟩
  layout : FrameLayout.ofFunction d t f = .ok e.layout
  file : ∃ functions, ⟨⟨t, f⟩, e⟩ ∈ functions ∧ typeFile t functions ∈ artifacts

/-- The groups that have a trampoline, with what became of their candidates. -/
def madeGroups (c : BindingContext) : List (Group × List Lowered × List ReportEntry) :=
  ((groups c).map fun g => (g, lowerGroup c.document g)).filter fun x => !x.2.1.isEmpty

theorem generate_entries : (generate c).manifest.entries = (madeGroups c).flatMap fun x => x.2.1.map (·.entry) := rfl

theorem generate_artifacts :
    (generate c).artifacts = (madeGroups c).map (fun x => typeFile x.1.type x.2.1) ++ [header] := rfl

theorem mem_madeGroups (hnames : (c.document.types.map (·.name)).Nodup)
    {x : Group × List Lowered × List ReportEntry} (hx : x ∈ madeGroups c) :
    ∃ t ∈ c.document.types, x = (groupOf c t, lowerGroup c.document (groupOf c t)) := by
  obtain ⟨g, hg, rfl⟩ := List.mem_map.mp (List.mem_filter.mp hx).1
  rw [groups_eq hnames] at hg
  obtain ⟨t, ht, rfl⟩ := List.mem_map.mp (List.mem_filter.mp hg).1
  exact ⟨t, ht, rfl⟩

theorem made_of_entry (hnames : (c.document.types.map (·.name)).Nodup) (he : e ∈ (generate c).manifest.entries) :
    ∃ t ∈ c.document.types, ∃ f ∈ t.functions, Made c.document (generate c).artifacts t f e := by
  rw [generate_entries] at he
  obtain ⟨x, hx, he⟩ := List.mem_flatMap.mp he
  obtain ⟨⟨candidate, entry⟩, hy, rfl⟩ := List.mem_map.mp he
  obtain ⟨t, ht, hgroup⟩ := mem_madeGroups hnames hx
  rw [hgroup] at hy
  obtain ⟨z, hz, hcandidate, hlower⟩ := mem_lowered hy
  obtain ⟨f, hf, rfl⟩ := List.mem_map.mp hz
  obtain rfl : candidate = ⟨t, f⟩ := hcandidate
  obtain ⟨hid, hsymbol, hlayout⟩ := lower_eq_ok hlower
  refine ⟨t, ht, f, (List.mem_filter.mp hf).1, hid, hsymbol, hlayout, _, hy, ?_⟩
  rw [generate_artifacts]
  exact List.mem_append_left _ (List.mem_map.mpr ⟨x, hx, by rw [hgroup]; rfl⟩)

/-! ### Installing -/

theorem mem_functions_iff {o : Output} {id : FunctionId} :
    id ∈ o.functions ↔ ∃ e ∈ o.manifest.entries, e.id = id := by
  unfold Output.functions FunctionId.sorted
  rw [List.mem_mergeSort, List.mem_eraseDups, List.mem_map]

theorem mem_functions {o : Output} {id : FunctionId} (h : id ∈ o.functions) : ∃ e, o.manifest.find? id = some e := by
  obtain ⟨e, he, rfl⟩ := mem_functions_iff.mp h
  rw [← Option.isSome_iff_exists]
  unfold TrampolineManifest.find?
  rw [List.find?_isSome]
  exact ⟨e, he, beq_self_eq_true _⟩

theorem find?_mem {m : TrampolineManifest} {id : FunctionId} (h : m.find? id = some e) : e ∈ m.entries ∧ e.id = id := by
  unfold TrampolineManifest.find? at h
  exact ⟨List.mem_of_find?_eq_some h, by simpa using List.find?_some h⟩

/-- Writing the trampolines takes entries away, and adds none. -/
theorem made_of_written {tree : FileTree} (hnames : (c.document.types.map (·.name)).Nodup)
    (he : e ∈ (writeOut tree c).2.manifest.entries) :
    ∃ t ∈ c.document.types, ∃ f ∈ t.functions, Made c.document (writeOut tree c).2.artifacts t f e := by
  have he' : e ∈ (generate c).manifest.entries := (List.mem_filter.mp he).1
  obtain ⟨t, ht, f, hf, hmade⟩ := made_of_entry hnames he'
  obtain ⟨functions, hmem, hfile⟩ := hmade.file
  exact ⟨t, ht, f, hf, hmade.id_eq, hmade.symbol_eq, hmade.layout, functions, hmem, List.mem_append_left _ hfile⟩

/-- In a consistent document the entry that is found for a function is that of its own trampoline. -/
theorem made_of_found {tree : FileTree} (hd : c.document.Consistent) (ht : t ∈ c.document.types) (hf : f ∈ t.functions)
    (he : (writeOut tree c).2.manifest.find? ⟨t.name, f.name⟩ = some e) :
    Made c.document (writeOut tree c).2.artifacts t f e := by
  obtain ⟨hmem, hid⟩ := find?_mem he
  obtain ⟨t', ht', f', hf', hmade⟩ := made_of_written hd.names hmem
  rw [hmade.id_eq] at hid
  -- The index is searched by names only; that these lead to one function is what a consistent document adds.
  obtain ⟨htype, hfunction⟩ := FunctionId.mk.inj hid
  obtain rfl := hd.eq_of_name ht' ht htype
  obtain rfl := (hd.accepts t' ht').eq_of_name hf' hf hfunction
  exact hmade

/-- The functions that are known to have a trampoline once the pass is done. -/
def installed (made : Option Output) : List FunctionId := (made.map (·.functions)).getD []

/-- A function that is installed has an entry in the index, and the entry is that of its own trampoline. -/
theorem made_of_installed {tree : FileTree} {root : Path} {schema : BindingSchema} {made : Option Output}
    (hd : d.Consistent) (hwritten : ∀ output, made = some output → output = (writeOut tree (.create d root schema)).2)
    (ht : t ∈ d.types) (hf : f ∈ t.functions) (hmem : ⟨t.name, f.name⟩ ∈ installed made) :
    ∃ output entry, made = some output ∧ output.manifest.find? ⟨t.name, f.name⟩ = some entry ∧
      Made d output.artifacts t f entry := by
  cases houtput : made with
  | none =>
    rw [houtput] at hmem
    cases hmem
  | some output =>
    rw [houtput] at hmem
    obtain ⟨entry, hfound⟩ := mem_functions hmem
    refine ⟨output, entry, rfl, hfound, ?_⟩
    rw [hwritten output houtput] at hfound ⊢
    exact made_of_found (c := .create d root schema) hd ht hf hfound

/-- Where trampolines are made, those that were written are installed. -/
theorem writeTrampolines_enabled {tree : FileTree} (henabled : c.fastInvokeEnabled = true) (hfast : c.fast = none) :
    RunOptions.writeTrampolines tree c = ((writeOut tree c).1,
      .ok { c with fast := some (writeOut tree c).2.functions }, some (writeOut tree c).2) := by
  have hinstall : ∀ functions, c.install functions = .ok { c with fast := some functions } := by
    intro functions
    unfold BindingContext.install
    rw [hfast]
  unfold RunOptions.writeTrampolines
  rw [if_pos henabled, ← hinstall]

/-- The pass always ends, and what it made is installed. -/
theorem writeTrampolines_installs (tree : FileTree) (d : Document) (root : Path) (schema : BindingSchema) :
    ∃ tree' c made, RunOptions.writeTrampolines tree (.create d root schema) = (tree', .ok c, made) ∧
      c.document = d ∧ c.schema = schema ∧ c.fastFunctions = .ok (installed made) ∧
      ∀ output, made = some output → output = (writeOut tree (.create d root schema)).2 := by
  by_cases henabled : (BindingContext.create d root schema).fastInvokeEnabled = true
  · have hfast : (BindingContext.create d root schema).fast = none := if_pos henabled
    refine ⟨_, _, _, writeTrampolines_enabled henabled hfast, rfl, rfl, rfl, ?_⟩
    rintro output ⟨⟩
    rfl
  · have hfast : (BindingContext.create d root schema).fast = some [] := if_neg henabled
    refine ⟨tree, .create d root schema, none, if_neg henabled, rfl, rfl, ?_, fun output h => (nomatch h)⟩
    unfold BindingContext.fastFunctions
    rw [hfast]
    rfl

end Trampoline
end EngineBridge
