import EngineBridge.Host.Launch
import EngineBridge.Host.Managed
import EngineBridge.Proofs.Outcome

/-! Hosts under observation. What surrounds a host notes what is asked of it before it does it, in a log beside the
world, which neither it nor the host can read. `Appends` says of an action what it adds to the log, whatever the world
does, and is put together at each bind. -/

namespace EngineBridge
open Outcome

inductive BackendRequest
  | start
  | loadAssembly
  | resolveEntryPoint
  | dispatch
  | shutdown
deriving DecidableEq

/-- What happens around a host. The backends that it is given are numbered. -/
inductive HostEvent
  | asked (backend : Nat) (request : BackendRequest)
  /-- The backend said that it started. -/
  | started (backend : Nat)
  | trampoline
  | handler
deriving DecidableEq

namespace HostEvent

def backend? : HostEvent → Option Nat
  | asked n _ | started n => some n
  | trampoline | handler => none

/-- The function was reached that a call is for. -/
def IsCall : HostEvent → Prop
  | asked _ .dispatch | trampoline | handler => True
  | _ => False

end HostEvent

/-- A world, and what happened in it so far. -/
structure Observed (σ : Type) where
  world : σ
  events : List HostEvent

namespace Observed
variable {σ β ε α : Type}

def note (e : HostEvent) : StateM (Observed σ) Unit := modify fun w => { w with events := w.events ++ [e] }

def lift (a : StateM σ α) : StateM (Observed σ) α := fun w =>
  let (result, world) := a.run w.world
  (result, { w with world })

def act (a : Action σ ε α) : Action (Observed σ) ε α :=
  Action.within (·.world) (fun world w => { w with world }) a

def operate (a : Action (σ × β) ε α) : Action (Observed σ × β) ε α :=
  Action.within (fun s => (s.1.world, s.2)) (fun t s => ({ s.1 with world := t.1 }, t.2)) a

end Observed

open Observed (note lift act operate)

section
variable {σ β ρ : Type}

def Backend.observed (n : Nat) (b : Backend σ β) : Backend (Observed σ) β where
  start c := do
    Backend.outside (note (.asked n .start))
    operate (b.start c)
    Backend.outside (note (.started n))
  loadAssembly p := do
    Backend.outside (note (.asked n .loadAssembly))
    operate (b.loadAssembly p)
  resolveEntryPoint e := do
    Backend.outside (note (.asked n .resolveEntryPoint))
    operate (b.resolveEntryPoint e)
  dispatch state request response := do
    Action.sure (note (.asked n .dispatch))
    act (b.dispatch state request response)
  shutdown := do
    Backend.outside (note (.asked n .shutdown))
    operate b.shutdown

def Trampoline.observed (f : Trampoline σ) : Trampoline (Observed σ) := fun frame count ret => do
  note .trampoline
  lift (f frame count ret)

def Reflection.observed (r : Reflection σ) : Reflection (Observed σ) where
  contains := r.contains
  call id := do
    Call.outside (note .handler)
    Action.within (fun c => ⟨c.world.world, c.args⟩) (fun c o => ⟨{ o.world with world := c.world }, c.args⟩) (r.call id)

def DirectInvocable.observed (d : DirectInvocable σ) : DirectInvocable (Observed σ) :=
  ⟨d.id, d.symbol, d.layout, d.trampoline.observed⟩

def Binding.observed (b : Binding σ ρ) : Binding (Observed σ) ρ where
  generation := b.generation
  target := match b.target with
    | .direct d => .direct d.observed
    | .lookup id reflection => .lookup id reflection

def Embedding.observed (e : Embedding σ) : Embedding (Observed σ) where
  setAssembliesPath path := lift (e.setAssembliesPath path)
  bootDomain name version := lift (e.bootDomain name version)
  openAssembly domain path := lift (e.openAssembly domain path)
  assemblyImage assembly := lift (e.assemblyImage assembly)
  classFromName image space name := lift (e.classFromName image space name)
  methodFromName type name arity := lift (e.methodFromName type name arity)
  unmanagedThunk method := lift (e.unmanagedThunk method)
  callThunk thunk request response := lift (e.callThunk thunk request response)
  objectText object := lift (e.objectText object)
  textBytes text := lift (e.textBytes text)
  release := lift e.release
  cleanup domain := lift (e.cleanup domain)

def Library.observed (l : Library σ) : Library (Observed σ) where
  symbols name := (l.symbols name).map fun s => ⟨s.trampoline.observed, fun args => lift (s.function args)⟩
  embedding := l.embedding.observed

def Surroundings.observed (s : Surroundings σ) : Surroundings (Observed σ) :=
  ⟨s.files, fun path => (s.loader.load path).map (·.observed), s.loader.process.observed⟩

def Launch.observed (n : Nat) (l : Launch σ β ρ) : Launch (Observed σ) β ρ :=
  ⟨l.backend.observed n, l.fresh, l.reflection, l.trampolines.map fun source name => (source name).map (·.observed),
    l.config⟩

end

/-! ### Results of actions -/

section
variable {τ ε α γ : Type}

theorem runOn_cleaned (a : Action τ ε α) (cleanup : Action τ Empty Unit) (t : τ) :
    (a.cleaned cleanup).runOn t =
      match a.runOn t with
      | (.error (.failed e), t) =>
        match cleanup.runOn t with
        | (.ok (), t) => (.error (.failed e), t)
        | (.error _, t) => (.error .crashed, t)
      | outcome => outcome := rfl

end

/-! ### What actions add to the log -/

/-- The action adds only events that have `P` to the log, whatever its state is. -/
def Appends {τ ε α : Type} (log : τ → List HostEvent) (P : HostEvent → Prop) (a : Action τ ε α) : Prop :=
  ∀ t, ∃ es, log (a.runOn t).2 = log t ++ es ∧ ∀ e ∈ es, P e

section
variable {σ β τ ε δ α γ : Type} {log : τ → List HostEvent} {P Q : HostEvent → Prop} {a : Action τ ε α}
  {f : α → Action τ ε γ}

theorem appends_of_kept (h : ∀ t, log (a.runOn t).2 = log t) : Appends log P a :=
  fun t => ⟨[], by rw [h, List.append_nil], by simp⟩

theorem appends_pure (x : α) : Appends log P (pure x : Action τ ε α) := appends_of_kept fun _ => rfl

theorem appends_throw (stop : Stop ε) : Appends log P (throw stop : Action τ ε α) := appends_of_kept fun _ => rfl

theorem appends_get : Appends log P (get : Action τ ε τ) := appends_of_kept fun _ => rfl

theorem appends_ofExcept (x : Except ε α) : Appends log P (Action.ofExcept x : Action τ ε α) := by
  cases x with
  | ok x => exact appends_pure x
  | error e => exact appends_throw _

theorem Appends.mono (h : Appends log P a) (hPQ : ∀ e, P e → Q e) : Appends log Q a := by
  intro t
  obtain ⟨es, hes, hall⟩ := h t
  exact ⟨es, hes, fun e he => hPQ e (hall e he)⟩

theorem Appends.bind (ha : Appends log P a) (hf : ∀ x, Appends log P (f x)) : Appends log P (a >>= f) := by
  intro t
  obtain ⟨es, hes, hall⟩ := ha t
  unfold Action.runOn at hes ⊢
  rw [run_bind]
  rcases hx : a.run.run t with ⟨stop | x, t'⟩
  · rw [hx] at hes
    exact ⟨es, hes, hall⟩
  · rw [hx] at hes
    obtain ⟨es', hes', hall'⟩ := hf x t'
    unfold Action.runOn at hes'
    refine ⟨es ++ es', ?_, fun e he => ?_⟩
    · rw [← List.append_assoc, ← hes]
      exact hes'
    · rcases List.mem_append.mp he with he | he
      · exact hall e he
      · exact hall' e he

theorem Appends.mapError (h : Appends log P a) (g : ε → δ) : Appends log P (Action.mapError g a) := h

theorem Appends.cleaned {cleanup : Action τ Empty Unit} (h : Appends log P a) (hc : Appends log P cleanup) :
    Appends log P (a.cleaned cleanup) := by
  intro t
  obtain ⟨es, hes, hall⟩ := h t
  rw [runOn_cleaned]
  rcases ha : a.runOn t with ⟨(e | _) | x, t₁⟩ <;> rw [ha] at hes
  · obtain ⟨es', hes', hall'⟩ := hc t₁
    refine ⟨es ++ es', ?_, fun e he => ?_⟩
    · rw [← List.append_assoc, ← hes, ← hes']
      dsimp only
      split <;> rename_i hcleanup <;> rw [hcleanup]
    · rcases List.mem_append.mp he with he | he
      · exact hall e he
      · exact hall' e he
  · exact ⟨es, hes, hall⟩
  · exact ⟨es, hes, hall⟩

/-- A check in front of an action. -/
theorem appends_unless {c : Prop} [Decidable c] {x : Action τ ε γ} (hx : Appends log P x) (h : Appends log P a) :
    Appends log P (if c then x >>= fun _ => a else a) := by
  split
  · exact hx.bind fun _ => h
  · exact h

theorem appends_forM {xs : List γ} {g : γ → Action τ ε Unit} (h : ∀ x, Appends log P (g x)) :
    Appends log P (xs.forM g) := by
  induction xs with
  | nil => exact appends_pure ()
  | cons x xs ih => exact (h x).bind fun _ => ih

/-- An action on a part of the state adds what it adds there. -/
theorem Appends.within {υ : Type} {log' : υ → List HostEvent} {part : υ → τ} {put : τ → υ → υ} (h : Appends log P a)
    (hpart : ∀ u, log (part u) = log' u) (hput : ∀ t u, log' (put t u) = log t) :
    Appends log' P (Action.within part put a) := by
  intro u
  obtain ⟨es, hes, hall⟩ := h (part u)
  exact ⟨es, (hput _ u).trans (hes.trans (congrArg (· ++ es) (hpart u))), hall⟩

theorem appends_act (a : Action σ ε α) : Appends Observed.events P (act a) := appends_of_kept fun _ => rfl

theorem appends_operate (a : Action (σ × β) ε α) : Appends (fun s => s.1.events) P (operate a) :=
  appends_of_kept fun _ => rfl

theorem appends_sure_note {e : HostEvent} (h : P e) :
    Appends Observed.events P (Action.sure (note e) : Action (Observed σ) ε Unit) :=
  fun _ => ⟨[e], rfl, by simpa using h⟩

theorem appends_outside_note {e : HostEvent} (h : P e) :
    Appends (fun s => s.1.events) P (Backend.outside (note e) : Action (Observed σ × β) ε Unit) :=
  fun _ => ⟨[e], rfl, by simpa using h⟩

end

/-! ### Calls -/

section
variable {σ β ρ α : Type} {P : HostEvent → Prop}

theorem appends_allocated {τ : Type} {log : τ → List HostEvent} (size : Nat) :
    Appends log P (Buffer.allocated size : Action τ HostError Buffer) := by
  unfold Buffer.allocated
  split
  · exact appends_throw _
  · exact appends_pure _

theorem appends_load {τ : Type} {log : τ → List HostEvent} (b : Buffer) (offset : Nat) (r : NativeRepr) :
    Appends log P (b.load offset r : Action τ HostError Value) := by
  unfold Buffer.load
  split
  · exact appends_pure _
  · exact appends_throw _
  · exact appends_throw _

theorem appends_checkCount (function : String) (expected : Nat) :
    Appends (fun c => c.world.events) P (Call.checkCount function expected : Call (Observed σ) Unit) := by
  unfold Call.checkCount
  refine appends_get.bind fun c => ?_
  dsimp only
  split
  · exact appends_throw _
  · exact appends_pure _

theorem appends_frame (d : DirectInvocable (Observed σ)) (args : List Value) :
    Appends (fun c => c.world.events) P (d.frame args) := by
  refine (appends_allocated _).bind fun empty => ?_
  dsimp only
  split
  · exact appends_pure _
  · exact appends_throw _

theorem appends_unpack (frame : Buffer) : ∀ (slots : List FrameSlot) (index : Nat),
    Appends (fun c => c.world.events) P (DirectInvocable.unpack frame index slots : Call (Observed σ) Unit)
  | [], _ => appends_pure ()
  | s :: ss, index => by
    have hrest := appends_unpack frame ss (index + 1)
    unfold DirectInvocable.unpack
    dsimp only
    split
    · exact (appends_load frame s.offset s.repr).bind fun v => (appends_of_kept fun _ => rfl).bind fun _ => hrest
    · exact (appends_pure ()).bind fun _ => hrest

theorem appends_direct (d : DirectInvocable σ) :
    Appends (fun c => c.world.events) (· = .trampoline) d.observed.invoke := by
  have htrampoline : ∀ frame count ret,
      Appends (fun c => c.world.events) (· = .trampoline) (Call.outside (d.observed.trampoline frame count ret)) :=
    fun frame count ret c => ⟨[.trampoline], rfl, by simp⟩
  refine (appends_checkCount _ _).bind fun _ => appends_get.bind fun c => (appends_frame _ _).bind fun frame => ?_
  refine (appends_allocated _).bind fun ret => (htrampoline _ _ _).bind fun answer => ?_
  refine appends_unless (appends_throw _) ((appends_unpack _ _ _).bind fun _ => ?_)
  split
  · exact appends_load _ _ _
  · exact appends_pure _

theorem appends_reflection (r : Reflection σ) (id : FunctionId) :
    Appends (fun c => c.world.events) (· = .handler) (r.observed.call id) := by
  have hnote : Appends (fun c : CallState (Observed σ) => c.world.events) (· = .handler)
      (Call.outside (note .handler)) := fun c => ⟨[.handler], rfl, by simp⟩
  exact hnote.bind fun _ => appends_of_kept fun _ => rfl

/-- A bound function that is called reaches its trampoline or a handler, and nothing else. -/
theorem appends_target (sources : ρ → Reflection σ) (b : Binding σ ρ) :
    Appends (fun c => c.world.events) (fun e => e = .trampoline ∨ e = .handler)
      (b.observed.target.invoke fun r => (sources r).observed) := by
  obtain ⟨generation, d | ⟨id, r⟩⟩ := b
  · exact (appends_direct d).mono fun _ => .inl
  · exact (appends_reflection (sources r) id).mono fun _ => .inr

/-- A request reaches the dispatcher of the backend that runs, and nothing else. -/
theorem appends_dispatch {n : Nat} {b : Backend σ β} {r : Runtime (Observed σ) β ρ} (hr : r.backend = b.observed n)
    (request : List UInt8) (capacity : Nat) :
    Appends Observed.events (· = .asked n .dispatch) (r.dispatch request capacity) := by
  unfold Runtime.dispatch
  rw [hr]
  have hask : Appends Observed.events (· = .asked n .dispatch)
      (Action.sure (note (.asked n .dispatch)) : Action (Observed σ) RuntimeError Unit) := appends_sure_note rfl
  exact (hask.bind fun _ => appends_act _).mapError _

/-! ### Operations of hosts -/

theorem appends_invoke (h : Host (Observed σ) β ρ) (sources : ρ → Reflection σ) (b : Binding σ ρ) :
    Appends (fun c => c.world.events) (fun e => e = .trampoline ∨ e = .handler)
      (h.invoke (fun r => (sources r).observed) b.observed) := by
  exact (appends_ofExcept _).bind fun running => appends_unless (appends_throw _) (appends_target sources b)

variable {n : Nat} {b : Backend σ β} {r : Runtime (Observed σ) β ρ}

theorem appends_forward (generation : Nat) (hr : r.backend = b.observed n) (label : String)
    (request : List UInt8) (capacity : Nat) :
    Appends Observed.events (· = .asked n .dispatch) ((Host.ready generation r).forward label request capacity) := by
  have hdispatch := appends_dispatch hr request
  simp only [Host.forward, Host.running, Action.ofExcept, pure_bind]
  refine (hdispatch capacity).bind fun first => ?_
  -- The last step, which reads the answer, stands behind each of these.
  split
  · split
    · refine (hdispatch _).bind fun answer => ?_
      split <;> first | exact appends_pure _ | exact appends_throw _
    · split <;> first | exact appends_pure _ | exact appends_throw _
  · split <;> first | exact appends_pure _ | exact appends_throw _

theorem appends_callManaged (generation : Nat) (hr : r.backend = b.observed n) (m : ManagedMethod) :
    Appends (fun c => c.world.events) (· = .asked n .dispatch) ((Host.ready generation r).callManaged m) := by
  have hforward : ∀ request, Appends (fun c : CallState (Observed σ) => c.world.events) (· = .asked n .dispatch)
      (Call.inWorld ((Host.ready generation r).forward m.name request Host.firstCapacity)) :=
    fun request => (appends_forward generation hr _ _ _).within (fun _ => rfl) fun _ _ => rfl
  have hreplaced : ∀ out, Appends (fun c : CallState (Observed σ) => c.world.events) (· = .asked n .dispatch)
      (modify fun c => { c with args := ManagedMethod.replaced m.directions c.args out } : Call (Observed σ) Unit) :=
    fun out => appends_of_kept fun _ => rfl
  refine appends_get.bind fun c => appends_unless (appends_throw _) ((hforward _).bind fun response => ?_)
  split
  · exact appends_throw _
  · exact appends_unless (appends_throw _) ((hreplaced _).bind fun _ => appends_pure _)

end
end EngineBridge
