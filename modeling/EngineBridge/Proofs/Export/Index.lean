import EngineBridge.Proofs.Layout.Reload
import EngineBridge.Proofs.Project.Stages

/-! The index of trampolines is read as it was written, unless a layout in it is nested too deep.

The pass that makes trampolines does not look at how deep a struct is nested, but the reader of the index does. -/

namespace EngineBridge
open Json (Plain)

variable {limit : Nat}

namespace FunctionId

theorem plain_toJson (id : FunctionId) : Plain id.toJson := .record (by simp)

theorem ofJson?_toJson (id : FunctionId) : ofJson? id.toJson = some id := by
  rw [ofJson?, toJson, Json.fields?_record (by simp)]
  simp [List.lookup_cons]

end FunctionId

namespace TrampolineEntry
variable {e : TrampolineEntry}

theorem plain_toJson (h : e.layout.Fits) : Plain e.toJson :=
  .record (by simp [FunctionId.plain_toJson, FrameLayout.plain_toJson h])

theorem fields?_toJson (e : TrampolineEntry) :
    e.toJson.fields? ["id", "symbol", "layout"] = some [some e.id.toJson, some (.str e.symbol), some e.layout.toJson] := by
  rw [toJson, Json.fields?_record (by simp)]
  simp [List.lookup_cons]

theorem ofJson?_of_fields {j : Json} {id symbol layout : Option Json}
    (h : j.fields? ["id", "symbol", "layout"] = some [id, symbol, layout]) :
    ofJson? limit j = (Json.required FunctionId.ofJson? id).bind fun id =>
      (Json.required Json.string? symbol).bind fun symbol =>
        (Json.required (FrameLayout.ofJson? (limit - 1)) layout).map fun layout => ⟨id, symbol, layout⟩ := by
  rw [ofJson?, h]
  simp only [Option.bind_eq_bind, Option.bind_some, Option.map_eq_bind]
  rfl

/-- An entry is read up to its layout. -/
theorem ofJson?_toJson (e : TrampolineEntry) :
    ofJson? limit e.toJson = (FrameLayout.ofJson? (limit - 1) e.layout.toJson).map fun layout => { e with layout } := by
  rw [ofJson?_of_fields (fields?_toJson e), Json.required_some, FunctionId.ofJson?_toJson, Option.bind_some,
    Json.required_some, Json.string?_str, Option.bind_some, Json.required_some]

/-- An entry that is nested deeper than a name is nested deeper than its layout by one. -/
theorem depth_layout {n : Nat} (h : n + 1 < e.toJson.depth) (hn : 1 ≤ n) : n < e.layout.toJson.depth := by
  obtain ⟨f, hf, hdeep⟩ := Json.exists_deep_field h
  simp only [List.mem_cons, List.not_mem_nil, or_false] at hf
  rcases hf with rfl | rfl | rfl
  · have hid : e.id.toJson.depth = 1 := rfl
    dsimp only at hdeep
    omega
  · exact absurd hdeep (Nat.not_lt_zero n)
  · exact hdeep

end TrampolineEntry

namespace TrampolineManifest
variable {m : TrampolineManifest}

/-- The sizes in every layout can be held by a word. -/
def Fits (m : TrampolineManifest) : Prop := ∀ e ∈ m.entries, e.layout.Fits

theorem plain_toJson (h : m.Fits) : Plain m.toJson := by
  have hentries : Plain (.array (m.entries.map TrampolineEntry.toJson)) :=
    .array (List.forall_mem_map.mpr fun e he => TrampolineEntry.plain_toJson (h e he))
  exact .record (by simp [hentries])

theorem ofJson?_toJson_eq (m : TrampolineManifest) : ofJson? m.toJson =
    (Json.list? (TrampolineEntry.ofJson? (nestingLimit - 2)) (.array (m.entries.map TrampolineEntry.toJson))).map
      fun entries => { m with entries } := by
  rw [ofJson?, toJson, Json.fields?_record (by simp)]
  simp [List.lookup_cons, Option.map_eq_bind]

theorem ofJson?_toJson (hfits : m.Fits) (h : m.toJson.depth ≤ nestingLimit) : ofJson? m.toJson = some m := by
  have hentry : ∀ e ∈ m.entries, TrampolineEntry.ofJson? (nestingLimit - 2) e.toJson = some e := by
    intro e he
    have hdepth : e.toJson.depth ≤ nestingLimit - 2 := depth_le_of_listed "entries" (by simp) he h
    rw [TrampolineEntry.ofJson?_toJson, FrameLayout.ofJson?_toJson (hfits e he)
      (Json.depth_le_of_field "layout" (by simp) hdepth)]
    rfl
  rw [ofJson?_toJson_eq, list?_map hentry, Option.map_some]

/-- An index that is nested too deep is not read: it has an entry that is. -/
theorem ofJson?_deep (hfits : m.Fits) (h : nestingLimit < m.toJson.depth) : ofJson? m.toJson = none := by
  obtain ⟨f, hf, hlist⟩ := Json.exists_deep_field (n := nestingLimit - 1) h
  simp only [List.mem_cons, List.not_mem_nil, or_false] at hf
  rcases hf with rfl | rfl
  · exact absurd hlist (Nat.not_lt_zero _)
  obtain ⟨_, hv, hentry⟩ := Json.exists_deep_item (n := nestingLimit - 2) hlist
  obtain ⟨e, he, rfl⟩ := List.mem_map.mp hv
  have hlayout := TrampolineEntry.depth_layout (n := nestingLimit - 2 - 1) hentry (by decide)
  have hnone : TrampolineEntry.ofJson? (nestingLimit - 2) e.toJson = none := by
    rw [TrampolineEntry.ofJson?_toJson, FrameLayout.ofJson?_deep (hfits e he) (by decide) hlayout, Option.map_none]
  rw [ofJson?_toJson_eq, list?_map_none he hnone, Option.map_none]

theorem ofText?_toText (hfits : m.Fits) (h : m.toJson.depth ≤ nestingLimit) : ofText? m.toText = some m := by
  rw [ofText?, toText, Json.parse?_toPretty (plain_toJson hfits), Option.bind_some, ofJson?_toJson hfits h]

theorem ofText?_deep (hfits : m.Fits) (h : nestingLimit < m.toJson.depth) : ofText? m.toText = none := by
  rw [ofText?, toText, Json.parse?_toPretty (plain_toJson hfits), Option.bind_some, ofJson?_deep hfits h]

end TrampolineManifest

/-! ### The index that a pass leaves -/

namespace FileTree

/-- The index that a file holds. -/
def loadIndex (t : FileTree) (p : Path) : Option TrampolineManifest :=
  (t.readText p).toOption.bind TrampolineManifest.ofText?

variable {t : FileTree} {p : Path} {text : String}

theorem readText_of_holds (h : t.holds p text = true) : t.readText p = .ok text := by
  obtain ⟨l, hl, hfile⟩ := holds_iff.mp h
  exact readText_of_entry hl hfile

theorem loadIndex_of_holds (h : t.holds p text = true) : t.loadIndex p = TrampolineManifest.ofText? text := by
  rw [loadIndex, readText_of_holds h]
  rfl

end FileTree

namespace Trampoline
variable {t : FileTree} {c : BindingContext}

/-- Where the pass writes its index. -/
def indexPath (c : BindingContext) : Path := c.nativeRoot.join ⟨manifestFile⟩

/-- Entries have the layouts of functions, so that all sizes fit where those of the frames do. -/
theorem fits_written (hnames : (c.document.types.map (·.name)).Nodup)
    (hcount : ∀ e ∈ (writeOut t c).2.manifest.entries, e.layout.Countable) : (writeOut t c).2.manifest.Fits := by
  intro e he
  obtain ⟨ty, -, f, -, hmade⟩ := made_of_written hnames he
  exact (FrameLayout.isCFrame_ofFunction hmade.layout).fits (hcount e he)

/-- Each function is listed once. -/
theorem written_once (hd : c.document.Consistent) : ((writeOut t c).2.manifest.entries.map (·.id)).Nodup := by
  rw [writeOut_manifest]
  exact (List.filter_sublist.map _).nodup (entries_once hd)

end Trampoline
end EngineBridge
