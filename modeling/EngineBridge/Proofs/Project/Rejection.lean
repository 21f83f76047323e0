import EngineBridge.Proofs.Project.Stages

/-! When a run gives no summary.

A run gives up only before it writes anything: when its inputs are not there, or when no document can be made of them.
Behind that point its context learns once which functions have a trampoline, before the first wrapper is rendered; so
no stage asks too early, and nobody tells the context a second time. -/

namespace EngineBridge
variable {o : RunOptions} {t : FileTree} {d : Document} {c : BindingContext} {e : RunError}

/-- Why a run is rejected: its inputs are refused, or there is no document in them. -/
inductive RunOptions.Rejects (o : RunOptions) (t : FileTree) : RunError → Prop
  | inputs {reason : String} : o.validate t = .error (.refused reason) → Rejects o t (.refused reason)
  | document {e : DocumentError} : o.validate t = .ok () → o.makeDocument t = .error e → Rejects o t (.document e)

/-- How a context learns which functions have a trampoline: it knows that there are none, or the pass that makes them
tells it. -/
inductive BindingContext.Learns (t : FileTree) (c : BindingContext) :
    BindingContext → Option Trampoline.Output → Prop
  | known : c.fastInvokeEnabled = false → c.fast = some [] → Learns t c c none
  | told {c' : BindingContext} : c.fastInvokeEnabled = true → c.fast = none →
    c.install (Trampoline.writeOut t c).2.functions = .ok c' → Learns t c c' (some (Trampoline.writeOut t c).2)

/-- What a context can be asked that knows which functions have a trampoline, and that nobody can tell it again. -/
structure BindingContext.Informed (c : BindingContext) (fast : List FunctionId) : Prop where
  fastFunctions : c.fastFunctions = .ok fast
  install : ∀ functions, c.install functions = .error .alreadyInstalled
  dispatch : ∀ id, c.dispatch id = .ok (if fast.contains id then .direct else .reflection)
  wrappers : ∀ t, ∃ t' output, Wrapper.writeOut t c = (t', .ok output)

namespace BindingContext

theorem informed_of_fast {fast : List FunctionId} (h : c.fast = some fast) : c.Informed fast := by
  have hknown : c.fastFunctions = .ok fast := by
    unfold fastFunctions
    rw [h]
  refine ⟨hknown, fun functions => ?_, fun id => ?_, fun t => ⟨_, _, Wrapper.writeOut_eq hknown⟩⟩
  · unfold install
    rw [h]
  · unfold dispatch
    rw [hknown]
    rfl

/-- A context is told nothing but what it waits for. -/
theorem create_learns (t : FileTree) (d : Document) (root : Path) (schema : BindingSchema) : ∃ t' c made fast,
    RunOptions.writeTrampolines t (create d root schema) = (t', .ok c, made) ∧
      Learns t (create d root schema) c made ∧ c.fast = some fast := by
  cases henabled : (create d root schema).fastInvokeEnabled with
  | true =>
    have hpending : (create d root schema).fast = none := if_pos henabled
    refine ⟨_, _, _, _, Trampoline.writeTrampolines_enabled henabled hpending, .told henabled hpending ?_, rfl⟩
    unfold install
    rw [hpending]
  | false =>
    have hknown : (create d root schema).fast = some [] := if_neg (Bool.eq_false_iff.mp henabled)
    exact ⟨t, _, none, [], if_neg (Bool.eq_false_iff.mp henabled), .known henabled hknown, hknown⟩

end BindingContext

namespace RunOptions

/-- Every document has a summary, whatever it says and wherever the stages cannot write. -/
theorem generate_summarises (o : RunOptions) (t : FileTree) (d : Document) : ∃ t₁ c made summary,
    writeTrampolines t (.create d o.project o.schema) = (t₁, .ok c, made) ∧
      BindingContext.Learns t (.create d o.project o.schema) c made ∧ c.Informed summary.fast ∧
      (o.generate t d).2 = .ok summary := by
  obtain ⟨t₁, c, made, fast, hmade, hlearns, hfast⟩ := BindingContext.create_learns t d o.project o.schema
  have hinformed := BindingContext.informed_of_fast hfast
  obtain ⟨t₂, output, hwrappers⟩ := hinformed.wrappers t₁
  refine ⟨t₁, c, made, _, hmade, hlearns, ?_, congrArg Prod.snd (generate_eq hmade hwrappers)⟩
  unfold RunSummary.ofStages
  rwa [hfast]

theorem validate_refuses (h : o.validate t = .error e) : ∃ reason, e = .refused reason := by
  unfold validate at h
  simp only [bind, Except.bind, pure, Except.pure, throw, throwThe, MonadExceptOf.throw] at h
  split_ifs at h with hproject hinput hassembly
  · exact ⟨_, (Except.error.inj h).symm⟩
  · exact ⟨_, (Except.error.inj h).symm⟩
  · split at h
    · exact ⟨_, (Except.error.inj h).symm⟩
    · split_ifs at h
      exact ⟨_, (Except.error.inj h).symm⟩

theorem run_of_rejects (h : o.Rejects t e) : o.run t = (t, .error e) := by
  unfold run
  cases h with
  | inputs hinputs => rw [hinputs]
  | document hvalid hdocument => simp only [hvalid, hdocument]

theorem run_error_iff : (o.run t).2 = .error e ↔ o.Rejects t e := by
  refine ⟨fun h => ?_, fun h => by rw [run_of_rejects h]⟩
  unfold run at h
  split at h
  · next e' hinputs =>
    obtain rfl := Except.error.inj h
    obtain ⟨reason, rfl⟩ := validate_refuses hinputs
    exact .inputs hinputs
  · next hvalid =>
    split at h
    · next e' hdocument =>
      obtain rfl := Except.error.inj h
      exact .document hvalid hdocument
    · next d _ =>
      obtain ⟨-, -, -, summary, -, -, -, hsummary⟩ := o.generate_summarises (o.checkpoint t d).1 d
      dsimp only at h
      rw [hsummary] at h
      cases h

/-- A run that is rejected changes nothing, and no other run fails to give a summary: the context of a run is told at most
once which functions have a trampoline, and knows it before it is asked. -/
theorem rejection_leaves_project (o : RunOptions) (t : FileTree) :
    (∀ e, (o.run t).2 = .error e ↔ o.Rejects t e) ∧ (∀ e, (o.run t).2 = .error e → (o.run t).1 = t) ∧
      ∀ d, ∃ t₁ c made summary, writeTrampolines t (.create d o.project o.schema) = (t₁, .ok c, made) ∧
        BindingContext.Learns t (.create d o.project o.schema) c made ∧ c.Informed summary.fast ∧
          (o.generate t d).2 = .ok summary := by
  refine ⟨fun e => run_error_iff, fun e h => ?_, o.generate_summarises t⟩
  rw [run_of_rejects (run_error_iff.mp h)]

/-- A run on a saved document. -/
def saved : RunOptions := ⟨.savedDocument, ⟨"/saved.json"⟩, ⟨"/project"⟩, none, none, .native, .usual⟩

/-- A project whose saved document is cut off. -/
def damaged : FileTree := ⟨[(["project"], .directory), (["saved.json"], .file "\x7b".toUTF8)], [], []⟩

theorem rejection_leaves_project_damaged :
    (saved.run damaged).2 = .error (.document (.malformed "/saved.json")) ∧ (saved.run damaged).1 = damaged := by
  have h : (saved.run damaged).2 = .error (.document (.malformed "/saved.json")) := by rfl
  exact ⟨h, (rejection_leaves_project saved damaged).2.1 _ h⟩

end RunOptions
end EngineBridge
