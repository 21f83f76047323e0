import EngineBridge.Proofs.Files.Footprint
import EngineBridge.Proofs.Project.Confinement

/-! Runs of a document that permits no trampolines.

The schema is asked which functions and properties are exposed, and whether trampolines are wanted. The native and the
managed one expose the same; so a document that permits no trampolines is served alike by both. -/

namespace EngineBridge
open FileTree (Spares OnlyIn)

variable {c c' : BindingContext} {t : FileTree} {d : Document} {o : RunOptions} {fast : List FunctionId} {ty : TypeRecord}

/-! ### Schemas that expose the same -/

/-- The schemas expose the same functions and properties. -/
structure BindingSchema.Alike (s s' : BindingSchema) : Prop where
  functions : s.exposes = s'.exposes
  properties : s.exposesProperty = s'.exposesProperty

theorem BindingSchema.native_alike_managed : Alike native managed := ⟨rfl, rfl⟩

/-- The contexts differ in nothing that wrappers and placeholders look at. -/
structure BindingContext.Alike (c c' : BindingContext) : Prop where
  document : c.document = c'.document
  root : c.root = c'.root
  fast : c.fast = c'.fast
  schema : c.schema.Alike c'.schema

namespace Wrapper

theorem services_congr (h : c.Alike c') : services c fast ty = services c' fast ty := by
  unfold services
  rw [h.document, h.schema.functions]

theorem typeCode_congr (h : c.Alike c') {name : String} : typeCode c fast ty name = typeCode c' fast ty name := by
  unfold typeCode functionsCode
  rw [services_congr h, h.schema.properties]

theorem outcomeOf_congr (h : c.Alike c') : outcomeOf c fast = outcomeOf c' fast := by
  funext ty
  unfold outcomeOf renderType
  simp only [typeCode_congr h]

theorem generate_congr (h : c.Alike c') : generate c = generate c' := by
  unfold generate BindingContext.fastFunctions BindingContext.managedRoot
  rw [h.document, h.root, h.fast]
  simp only [outcomeOf_congr h]

theorem writeOut_congr (h : c.Alike c') : writeOut t c = writeOut t c' := by
  unfold writeOut
  rw [generate_congr h]

end Wrapper

namespace Placeholder

theorem renderType_congr {s s' : BindingSchema} (h : s.Alike s') : renderType s = renderType s' := by
  funext ty
  unfold renderType events
  rw [h.functions]

theorem generate_congr (h : c.Alike c') : generate c = generate c' := by
  unfold generate outcomeOf
  rw [h.document, renderType_congr h.schema]

theorem writeOut_congr (h : c.Alike c') : writeOut t c = writeOut t c' := by
  unfold writeOut BindingContext.definitionsRoot
  rw [generate_congr h, h.root]

end Placeholder

/-! ### The stages behind that of the trampolines -/

/-- The wrappers and placeholders leave everything in the directory of the trampolines as it was. -/
theorem BindingContext.later_beside_trampolines {project : Location} (hroot : t.locate c.root = .ok project) :
    OnlyIn {x | ¬Project.trampolines project <+: x} t (Placeholder.writeOut (Wrapper.writes t c fast).1 c).1 := by
  have hspares : Spares _ t (Wrapper.writes t c fast).1 := Wrapper.writes_places
  have hwrappers : OnlyIn _ t (Wrapper.writes t c fast).1 :=
    FileTree.writeAll_onlyIn FileTree.careful_writeArtifact FileTree.direct_writeArtifact hroot Wrapper.descends_managed
      (fun _ ha => Wrapper.descends_rendered ha) rfl
  have hplaceholders : OnlyIn _ (Wrapper.writes t c fast).1 (Placeholder.writeOut (Wrapper.writes t c fast).1 c).1 :=
    FileTree.writeAll_onlyIn FileTree.careful_writeIfAbsent FileTree.direct_writeIfAbsent (hspares.locate hroot)
      Placeholder.descends_definitions (fun _ ha => Placeholder.descends_generated ha) rfl
  have hbeside : ∀ x, x = project ∨ project ++ ["Managed"] <+: x → ¬Project.trampolines project <+: x := by
    rintro x (rfl | hmanaged) hbelow
    · exact absurd hbelow.length_le (by simp [Project.trampolines])
    · exact absurd (Project.prefix_of_below hmanaged hbelow) (by decide)
  refine (hwrappers.mono ?_).trans (hplaceholders.mono ?_)
  · rintro x ⟨a, ha, hx⟩
    exact hbeside x (FileTree.mem_along_join Wrapper.descends_managed (Wrapper.descends_rendered ha) (by decide) hx)
  · rintro x ⟨a, ha, hx⟩
    exact hbeside x
      (FileTree.mem_along_join Placeholder.descends_definitions (Placeholder.descends_generated ha) (by decide) hx)

namespace RunOptions

/-- Where no trampolines are made, a run writes wrappers and placeholders. -/
theorem generate_without_trampolines (t : FileTree) (hdisabled : (o.context d).fastInvokeEnabled = false) :
    o.generate t d = ((Placeholder.writeOut (Wrapper.writes t (o.settled d []) []).1 (o.settled d [])).1,
      .ok (.ofStages (o.settled d []) none (Wrapper.outputOf t (o.settled d []) [])
        (Placeholder.writeOut (Wrapper.writes t (o.settled d []) []).1 (o.settled d [])).2)) := by
  have hnot : ¬(o.context d).fastInvokeEnabled = true := by simp [hdisabled]
  obtain ⟨hnone, hmade⟩ := trampolines_disabled (t := t) hnot
  have hfast : o.fast d = [] := by
    unfold fast
    rw [hnone]
    rfl
  rw [hfast] at hmade
  exact generate_eq hmade (Wrapper.writeOut_eq rfl)

/-- Runs whose schemas expose the same, and of which none makes trampolines, do the same. -/
theorem generate_congr {o' : RunOptions} (hproject : o.project = o'.project) (hschema : o.schema.Alike o'.schema)
    (hdisabled : (o.context d).fastInvokeEnabled = false) (hdisabled' : (o'.context d).fastInvokeEnabled = false) :
    o.generate t d = o'.generate t d := by
  have halike : (o.settled d []).Alike (o'.settled d []) := ⟨rfl, hproject, rfl, hschema⟩
  have hwrappers := Wrapper.writeOut_congr (t := t) halike
  have hknown : ∀ o : RunOptions, (o.settled d []).fastFunctions = .ok [] := fun _ => rfl
  rw [Wrapper.writeOut_eq (hknown o), Wrapper.writeOut_eq (hknown o')] at hwrappers
  obtain ⟨htree, houtput⟩ := Prod.mk.inj hwrappers
  rw [generate_without_trampolines t hdisabled, generate_without_trampolines t hdisabled', htree, Except.ok.inj houtput,
    Placeholder.writeOut_congr halike]
  rfl

/-- A document that does not permit trampolines is served alike under the native and the managed schema: both leave the
same tree and tell the same, they make no trampoline, and nothing in the directory of the trampolines is touched. -/
theorem native_unpermitted_eq_managed (o : RunOptions) (t : FileTree) {d : Document}
    (hforbidden : d.allowsFastInvoke = false) : ∃ t' s,
      RunOptions.generate { o with schema := .native } t d = (t', .ok s) ∧
      RunOptions.generate { o with schema := .managed } t d = (t', .ok s) ∧
      s.fast = [] ∧ s.trampolineRoot = none ∧ s.reports.map (·.stage) = [.wrappers, .placeholders] ∧
      (∀ l, t'.Within (o.context d).nativeRoot l → ¬t.Changes t' l) ∧
      ∀ project, t.locate o.project = .ok project →
        ∀ l, Project.trampolines project <+: l → t'.entry? l = t.entry? l := by
  have hnative : (RunOptions.context { o with schema := .native } d).fastInvokeEnabled = false := hforbidden
  have hmanaged : (RunOptions.context { o with schema := .managed } d).fastInvokeEnabled = false := rfl
  have hsame : RunOptions.generate { o with schema := .native } t d = RunOptions.generate { o with schema := .managed } t d :=
    generate_congr rfl BindingSchema.native_alike_managed hnative hmanaged
  have hmade := generate_without_trampolines t hmanaged
  refine ⟨_, _, hsame.trans hmade, hmade, rfl, rfl, rfl, fun l hl hchanged => ?_, fun project hroot l hl => ?_⟩
  · obtain ⟨m, hleads, hwrappers, hplaceholders⟩ := stages_below t (settled { o with schema := .managed } d []) []
    have hbelow := hl.below Trampoline.descends_native hleads
    have hspares := (hwrappers.mono Set.subset_union_left).trans (hplaceholders.mono Set.subset_union_right)
    rcases hspares.mem_of_changes hchanged with hwrapper | hplaceholder
    · exact Project.not_wrappers_of_trampolines hbelow hwrapper
    · exact Project.not_trampolines_of_placeholders hplaceholder hbelow
  · exact (BindingContext.later_beside_trampolines (c := settled { o with schema := .managed } d []) hroot).kept
      (not_not.mpr hl)

end RunOptions

namespace Project.UnpermittedActor
open ActorProject (actor empty options root)

/-- The actor's function asks for a trampoline, but its document does not permit any. -/
def document : Document := ⟨"5.4", .empty, [actor]⟩

/-- Nothing comes to be where the trampolines of the actor would lie. -/
theorem native_unpermitted_eq_managed_actor : document.allowsFastInvoke = false ∧
    empty.locate options.project = .ok root ∧ ∃ t' s,
      RunOptions.generate { options with schema := .native } empty document = (t', .ok s) ∧
      RunOptions.generate { options with schema := .managed } empty document = (t', .ok s) ∧ s.fast = [] ∧
      t'.entry? (trampolines root) = none := by
  have hforbidden : document.allowsFastInvoke = false := by decide
  obtain ⟨t', s, hnative, hmanaged, hfast, -, -, -, hkept⟩ :=
    RunOptions.native_unpermitted_eq_managed options empty hforbidden
  refine ⟨hforbidden, ActorProject.located, t', s, hnative, hmanaged, hfast, ?_⟩
  rw [hkept root ActorProject.located (trampolines root) (List.prefix_refl _)]
  decide

end Project.UnpermittedActor
end EngineBridge
