import EngineBridge.Proofs.Project.Completion
import EngineBridge.Proofs.Project.Rejection

/-! Where a run writes.

The wrappers and placeholders of a type are made only if its module is an identifier, and then they lie below the
directories of their stages. The pass that makes trampolines does not ask for that: a file of trampolines goes wherever
the module of its type leads. -/

namespace EngineBridge
open FileTree (Spares)

variable {t t' : FileTree} {l : Location} {S : Set Location} {c : BindingContext} {d : Document}

namespace FileTree

/-- The file at the location is created, overwritten or taken away. -/
def Changes (t t' : FileTree) (l : Location) : Prop :=
  ∃ content, ¬(t'.entry? l = some (.file content) ↔ t.entry? l = some (.file content))

theorem Spares.mem_of_changes (h : Spares S t t') (hl : t.Changes t' l) : l ∈ S := by
  obtain ⟨content, hchanged⟩ := hl
  by_contra hS
  exact hchanged (h.file hS)

end FileTree

/-! ### Runs -/

namespace RunOptions
variable {o : RunOptions} {t₁ t₂ : FileTree} {fast : List FunctionId}

/-- The trees between the stages of a run, and what the stages behind that of the trampolines work with. -/
structure Parts (o : RunOptions) (t : FileTree) (d : Document) (t₁ t₂ : FileTree) (c : BindingContext)
    (fast : List FunctionId) : Prop where
  trampolines : ∃ made, writeTrampolines t (.create d o.project o.schema) = (t₁, .ok c, made)
  document : c.document = d
  root : c.root = o.project
  schema : c.schema = o.schema
  known : c.fastFunctions = .ok fast
  wrappers : (Wrapper.writes t₁ c fast).1 = t₂
  placeholders : (Placeholder.writeOut t₂ c).1 = (o.generate t d).1

theorem exists_parts (o : RunOptions) (t : FileTree) (d : Document) : ∃ t₁ t₂ c fast, Parts o t d t₁ t₂ c fast := by
  obtain ⟨t₁, c, made, fast, hmade, hlearns, hfast⟩ := BindingContext.create_learns t d o.project o.schema
  have hknown := (BindingContext.informed_of_fast hfast).fastFunctions
  have hsame : c.document = d ∧ c.root = o.project ∧ c.schema = o.schema := by
    cases hlearns with
    | known => exact ⟨rfl, rfl, rfl⟩
    | told _ hpending hinstall =>
      unfold BindingContext.install at hinstall
      rw [hpending] at hinstall
      obtain rfl := Except.ok.inj hinstall
      exact ⟨rfl, rfl, rfl⟩
  obtain ⟨hdocument, hroot, hschema⟩ := hsame
  exact ⟨t₁, _, c, fast, ⟨_, hmade⟩, hdocument, hroot, hschema, hknown, rfl,
    (congrArg Prod.fst (generate_eq hmade (Wrapper.writeOut_eq hknown))).symm⟩

/-- The location lies in the directory of one of the stages. -/
def InStages (o : RunOptions) (t : FileTree) (l : Location) : Prop :=
  t.Within (o.project.join ⟨"Intermediate/SharpBind/Native"⟩) l ∨ t.Within (o.project.join ⟨"Managed/Bindings"⟩) l ∨
    t.Within (o.project.join ⟨"Managed/Bindings.Defs"⟩) l

/-- Where the project is there, these are its directories. -/
theorem InStages.below {project : Location} (h : o.InStages t l) (hroot : t.locate o.project = .ok project) :
    Project.trampolines project <+: l ∨ Project.wrappers project <+: l ∨ Project.placeholders project <+: l := by
  have hleads : t.Leads o.project project := FileTree.leads_of_locate hroot
  exact h.imp (·.below Trampoline.descends_native hleads)
    (.imp (·.below Wrapper.descends_managed hleads) (·.below Placeholder.descends_definitions hleads))

/-- The stages behind that of the trampolines write below directories of their own. -/
theorem Parts.later (h : Parts o t d t₁ t₂ c fast) :
    Spares {l | o.InStages (o.generate t d).1 l} t₁ (o.generate t d).1 := by
  have hwrappers : Spares {l | Wrapper.Places c t₂ l} t₁ t₂ := h.wrappers ▸ Wrapper.writes_places
  have hplaceholders := Placeholder.writeOut_within (t := t₂) (c := c)
  unfold BindingContext.definitionsRoot at hplaceholders
  rw [h.placeholders, h.root] at hplaceholders
  have hmanaged : c.managedRoot = o.project.join ⟨"Managed/Bindings"⟩ := congrArg (Path.join · _) h.root
  refine (hwrappers.mono fun l hl => ?_).trans (hplaceholders.mono fun l hl => ?_)
  · exact .inr (.inl (hplaceholders.within (hmanaged ▸ hl.within)))
  · exact .inr (.inr hl)

/-- Once the files of trampolines are written, a run stays in the directories of its stages. -/
theorem generate_after_writes (ht : t.Proper) (henabled : (o.context d).fastInvokeEnabled = true) :
    Spares {l | o.InStages (o.generate t d).1 l} (Trampoline.writes t (o.context d)).1 (o.generate t d).1 := by
  obtain ⟨t₁, t₂, c, fast, hparts⟩ := o.exists_parts t d
  obtain ⟨made, hmade⟩ := hparts.trampolines
  have hpending : (o.context d).fast = none := if_pos henabled
  have htree : (Trampoline.writeOut t (o.context d)).1 = t₁ :=
    congrArg Prod.fst ((Trampoline.writeTrampolines_enabled henabled hpending).symm.trans hmade)
  have hplaced := Trampoline.writes_placed (c := o.context d) ht
  rw [htree] at hplaced
  have hlater := hparts.later
  exact (hplaced.mono fun l hl => .inl (hlater.within hl.within)).trans hlater

/-- Every file that a run creates, overwrites or takes away lies in the directory of a stage, whatever the document and
the project hold, but for files of trampolines whose type has a module that is no identifier. -/
theorem generate_confined (ht : t.Proper) (hd : d.validate = .ok ()) (hl : t.Changes (o.generate t d).1 l) :
    o.InStages (o.generate t d).1 l ∨
      (o.context d).fastInvokeEnabled = true ∧ Trampoline.Stray (o.context d) (o.generate t d).1 l := by
  obtain ⟨t₁, t₂, c, fast, hparts⟩ := o.exists_parts t d
  obtain ⟨made, hmade⟩ := hparts.trampolines
  obtain ⟨-, htrampolines⟩ := Trampoline.writeTrampolines_touches ht (Document.validate_eq_ok.mp hd).names hmade
  have hlater := hparts.later
  have hspares := (htrampolines.mono fun l hl => Or.inr hl).trans (hlater.mono fun l hl => Or.inl hl)
  rcases hspares.mem_of_changes hl with hstages | ⟨henabled, htouched⟩
  · exact .inl hstages
  · exact (htouched.spares hlater).placed.imp .inl fun hstray => ⟨henabled, hstray⟩

open Project.ActorProject in
/-- The actor's wrapper is new, and lies in the directory of a stage. -/
theorem generate_confined_actor : empty.Proper ∧ (document [actor]).validate = .ok () ∧
    empty.Changes (options.generate empty (document [actor])).1 (Project.wrapper root actor) ∧
      options.InStages (options.generate empty (document [actor])).1 (Project.wrapper root actor) := by
  have hvalid : (document [actor]).validate = .ok () := first_run.valid
  obtain ⟨summary, hran, -⟩ := first_ends_well
  obtain ⟨text, hfile, -⟩ := first_wrapper
  -- The tree that the run leaves is not to be evaluated.
  generalize first.1 = last at hran hfile
  have hchanges : empty.Changes (options.generate empty (document [actor])).1 (Project.wrapper root actor) := by
    rw [hran]
    exact ⟨text.toUTF8, fun hiff => no_files _ _ (by decide) (hiff.mp hfile)⟩
  refine ⟨proper, hvalid, hchanges, (generate_confined proper hvalid hchanges).resolve_right ?_⟩
  rintro ⟨-, ty, hty, hmodule, -⟩
  rw [modules ty hty] at hmodule
  cases hmodule

end RunOptions

/-! ### An actor in a module that leads up -/

namespace Project.StrayActor
open ActorProject (empty options root)

/-- The module leads from the directory of the trampolines up to the project. -/
def actor : TypeRecord := { ActorProject.actor with module := "../../.." }

def document : Document := ActorProject.document [actor]

/-- The file of the actor's trampolines. -/
def file : Location := root ++ ["Actor.FastInvoke.gen.cpp"]

theorem written : (Trampoline.writes empty (options.context document)).1.hasFileAt file = true := by decide +kernel

/-- The file lies in no directory of a stage. -/
theorem stray_trampolines_leave_stages : empty.Proper ∧ document.validate = .ok () ∧
    empty.Changes (options.generate empty document).1 file ∧ ¬options.InStages (options.generate empty document).1 file := by
  have hspares := options.generate_after_writes (d := document) ActorProject.proper rfl
  have hroot : (Trampoline.writes empty (options.context document)).1.locate options.project = .ok root := by
    unfold Trampoline.writes
    exact (FileTree.writeAll_spares FileTree.careful_writeArtifact rfl).locate ActorProject.located
  have houtside : ¬options.InStages (options.generate empty document).1 file := fun h =>
    absurd (h.below (hspares.locate hroot)) (by decide)
  obtain ⟨content, hfile⟩ := FileTree.hasFileAt_iff.mp written
  have hlast := (hspares.file houtside).mpr hfile
  exact ⟨ActorProject.proper, rfl, ⟨content, fun hiff => ActorProject.no_files _ _ (by decide) (hiff.mp hlast)⟩, houtside⟩

end Project.StrayActor
end EngineBridge
