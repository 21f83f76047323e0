import EngineBridge.Proofs.Host.Launching
import EngineBridge.Proofs.Host.Stages
import Mathlib.Data.List.Chain

/-! The life of a host.

A host is started once, and the backend that it was given then is the only one that is ever asked anything: it is
started, it serves while the host is ready, and it is shut down once if it had started. `Lived` says how far it came in
each stage of the host's life; every operation keeps it, and what is promised of a whole life is read off it. -/

namespace EngineBridge
open Outcome
open BackendStage (Logs)
variable {σ β ρ : Type}

/-! ### Operations -/

/-- What may be asked of a host. Sources of functions may change from call to call. -/
inductive HostOperation (σ β ρ : Type)
  | start (s : Surroundings σ) (l : Launch σ β ρ)
  | bind (id : FunctionId)
  | invoke (sources : ρ → Reflection σ) (b : Binding σ ρ) (args : List Value)
  | callManaged (m : ManagedMethod) (args : List Value)
  | forward (label : String) (request : List UInt8) (capacity : Nat)
  | shutdown

/-- Why an operation stopped early, if it did, and what its arguments are afterwards. -/
structure HostAnswer where
  stopped : Option (Stop HostError)
  args : List Value

def Stop.of? {ε α : Type} : Except (Stop ε) α → Option (Stop ε)
  | .ok _ => none
  | .error stop => some stop

namespace HostOperation

/-- The operation is one that only a host that is ready carries out. -/
def IsCall : HostOperation σ β ρ → Prop
  | start _ _ | shutdown => False
  | callManaged m args => args.length = m.directions.length
  | bind _ | invoke _ _ _ | forward _ _ _ => True

def args : HostOperation σ β ρ → List Value
  | invoke _ _ args | callManaged _ args => args
  | _ => []

/-- The operation on a host whose surroundings are observed. A backend that it brings gets the number `n`. -/
def perform (n : Nat) (op : HostOperation σ β ρ) (t : Setting (Observed σ) β ρ) :
    HostAnswer × Setting (Observed σ) β ρ :=
  let moved (o : Except (Stop HostError) Unit × Setting (Observed σ) β ρ) := (⟨Stop.of? o.1, []⟩, o.2)
  let called (o : Except (Stop HostError) Value × CallState (Observed σ)) :=
    (⟨Stop.of? o.1, o.2.args⟩, { t with world := o.2.world })
  match op with
  | start s l => moved ((Setting.start s.observed (l.observed n)).runOn t)
  | bind id => (⟨Stop.of? ((t.host.bind id).mapError .failed), []⟩, t)
  | invoke sources b args =>
    called ((t.host.invoke (fun r => (sources r).observed) b.observed).runOn ⟨t.world, args⟩)
  | callManaged m args => called ((t.host.callManaged m).runOn ⟨t.world, args⟩)
  | forward label request capacity =>
    let (result, world) := (t.host.forward label request capacity).runOn t.world
    (⟨Stop.of? result, []⟩, { t with world })
  | shutdown => moved (Setting.shutdown.runOn t)

/-- The stage that the host passes within the operation. -/
def between (op : HostOperation σ β ρ) (t : Setting (Observed σ) β ρ) : HostState :=
  match op with
  | start _ _ => ((Setting.beginStart.runOn t).2).host.state
  | shutdown => ((Setting.beginShutdown.runOn t).2).host.state
  | _ => t.host.state

end HostOperation

/-- An operation that was carried out. -/
structure Episode (σ β ρ : Type) where
  operation : HostOperation σ β ρ
  before : Setting (Observed σ) β ρ
  answer : HostAnswer
  after : Setting (Observed σ) β ρ

def HostOperation.episode (n : Nat) (op : HostOperation σ β ρ) (t : Setting (Observed σ) β ρ) : Episode σ β ρ :=
  ⟨op, t, (op.perform n t).1, (op.perform n t).2⟩

/-- What happened around the host in the meantime. -/
def Episode.events (x : Episode σ β ρ) : List HostEvent := x.after.world.events.drop x.before.world.events.length

structure HostLife (σ β ρ : Type) where
  past : List (Episode σ β ρ)
  now : Setting (Observed σ) β ρ

namespace HostLife

def act (l : HostLife σ β ρ) (op : HostOperation σ β ρ) : HostLife σ β ρ :=
  let x := op.episode l.past.length l.now
  ⟨l.past ++ [x], x.after⟩

/-- The life of a new host of which these operations are asked one after the other. -/
def live (world : σ) (generation : Nat) (ops : List (HostOperation σ β ρ)) : HostLife σ β ρ :=
  ops.foldl act ⟨[], ⟨⟨world, []⟩, .uninitialized, generation⟩⟩

/-- All stages that the host was in, from the beginning. -/
def stages (l : HostLife σ β ρ) : List HostState :=
  .uninitialized :: l.past.flatMap fun x => [x.operation.between x.before, x.after.host.state]

def events (l : HostLife σ β ρ) : List HostEvent := l.now.world.events

end HostLife

/-! ### What is promised -/

/-- The steps of a host's life. -/
inductive HostState.Leads : HostState → HostState → Prop
  | load : Leads .uninitialized .loading
  | ready : Leads .loading .ready
  | fail : Leads .loading .failed
  | shutDown : Leads .ready .shuttingDown
  | terminate : Leads .shuttingDown .terminated
  | giveUp : Leads .failed .terminated

/-- An operation that the host does not carry out changes nothing, neither around it nor of its arguments. -/
def Episode.Refused (x : Episode σ β ρ) (e : HostError) : Prop :=
  x.after = x.before ∧ x.answer = ⟨some (.failed e), x.operation.args⟩

structure Episode.Safe (x : Episode σ β ρ) : Prop where
  /-- Calls reach what they are for only within a host that is ready. -/
  ready : ∀ e ∈ x.events, e.IsCall → x.before.host.state = .ready ∧ x.after.host.state = .ready
  unavailable : x.operation.IsCall → x.before.host.state = .failed →
    ∃ reason, x.before.host.failure? = some reason ∧ x.Refused (.unavailable reason)
  notInitialized : x.operation.IsCall → x.before.host.state ≠ .ready → x.before.host.state ≠ .failed →
    x.Refused .notInitialized
  recorded : x.before.host.state ≠ .failed → x.after.host.state = .failed →
    ∃ e, x.answer.stopped = some (.failed e) ∧ x.after.host.failure? = some e.message
  /-- A host is started only once. -/
  restart : (∃ s l, x.operation = .start s l) → x.before.host.state ≠ .uninitialized →
    x.Refused (.invalidTransition x.before.host.state)

structure HostLife.Safe (l : HostLife σ β ρ) : Prop where
  moves : l.stages.IsChain fun a b => a = b ∨ a.Leads b
  episodes : ∀ x ∈ l.past, x.Safe
  /-- Only one of the backends is ever asked anything, and it is started once. -/
  backend : ∃ m, (∀ e ∈ l.events, ∀ n, e.backend? = some n → n = m) ∧ l.events.count (.asked m .start) ≤ 1
  /-- A backend that comes with a start which the host refuses is asked nothing. -/
  refused : ∀ n x, l.past[n]? = some x → (∃ s l, x.operation = .start s l) →
    x.before.host.state ≠ .uninitialized → ∀ e ∈ l.events, e.backend? ≠ some n
  closed : ∀ n, .started n ∈ l.events → l.now.host.state = .failed ∨ l.now.host.state = .terminated →
    l.events.count (.asked n .shutdown) = 1
  silent : ∀ n before after, l.events = before ++ .asked n .shutdown :: after → ∀ e ∈ after, e.backend? ≠ some n
  /-- What the host gives out to be invoked is observed. -/
  bound : ∀ id b, l.now.host.bind id = .ok b → ∃ b₀ : Binding σ ρ, b = b₀.observed


/-! ### Stages -/

/-- What happened around a host until now, of which `n` operations were asked. -/
def Setting.Lived (n : Nat) (t : Setting (Observed σ) β ρ) : Prop :=
  match t.host with
  | .uninitialized => t.world.events = []
  | .loading => ∃ m < n, ∃ stage, Logs m stage t.world.events
  | .ready _ r => ∃ m < n, Logs m .serving t.world.events ∧ (∃ b : Backend σ β, r.backend = b.observed m) ∧
    ∀ p ∈ r.direct, ∃ d : DirectInvocable σ, p.2 = d.observed
  | .shuttingDown => ∃ m < n, Logs m .closed t.world.events
  | .failed _ | .terminated _ => ∃ m < n, Logs m .refused t.world.events ∨ Logs m .closed t.world.events

/-- What each operation keeps, and what is promised of it. -/
structure Episode.Sound (n : Nat) (x : Episode σ β ρ) : Prop where
  lived : x.after.Lived (n + 1)
  grows : x.before.world.events <+: x.after.world.events
  enters : x.before.host.state = x.operation.between x.before ∨
    x.before.host.state.Leads (x.operation.between x.before)
  leaves : x.operation.between x.before = x.after.host.state ∨
    (x.operation.between x.before).Leads x.after.host.state
  safe : x.Safe

section
variable {n : Nat} {t : Setting (Observed σ) β ρ} {op : HostOperation σ β ρ}

theorem lived_mono {m : Nat} (h : t.Lived n) (hm : n ≤ m) : t.Lived m := by
  unfold Setting.Lived at h ⊢
  split at h
  · exact h
  all_goals
    obtain ⟨k, hk, h⟩ := h
    exact ⟨k, hk.trans_le hm, h⟩

theorem lived_begun (h : t.Lived n) (hstate : t.host.state ≠ .uninitialized) :
    ∃ m < n, ∃ stage, Logs m stage t.world.events := by
  unfold Setting.Lived at h
  split at h
  · rename_i hhost
    exact absurd (congrArg Host.state hhost) hstate
  · exact h
  · obtain ⟨m, hm, hlog, -⟩ := h
    exact ⟨m, hm, _, hlog⟩
  · obtain ⟨m, hm, hlog⟩ := h
    exact ⟨m, hm, _, hlog⟩
  all_goals
    obtain ⟨m, hm, hlog | hlog⟩ := h
    · exact ⟨m, hm, _, hlog⟩
    · exact ⟨m, hm, _, hlog⟩

theorem lived_log (h : t.Lived n) : t.world.events = [] ∨ ∃ m < n, ∃ stage, Logs m stage t.world.events := by
  by_cases hstate : t.host.state = .uninitialized
  · unfold Setting.Lived at h
    rw [Host.eq_uninitialized hstate] at h
    exact .inl h
  · exact .inr (lived_begun h hstate)

theorem lived_over (h : t.Lived n) (hstate : t.host.state = .failed ∨ t.host.state = .terminated) :
    ∃ m, Logs m .refused t.world.events ∨ Logs m .closed t.world.events := by
  unfold Setting.Lived at h
  split at h <;> rename_i hhost <;> rw [hhost] at hstate
  case h_5 | h_6 =>
    obtain ⟨m, -, hlog⟩ := h
    exact ⟨m, hlog⟩
  all_goals rcases hstate with hstate | hstate <;> cases hstate

/-! ### Calls -/

theorem perform_refused (hop : op.IsCall) {e : HostError} (h : t.host.running = .error e) :
    op.perform n t = (⟨some (.failed e), op.args⟩, t) := by
  have hrunning : ∀ {τ : Type} (w : τ), (Action.ofExcept t.host.running : Action τ HostError _).run.run w =
      (.error (.failed e), w) := by
    intro τ w
    rw [h]
    rfl
  cases op with
  | start s l => exact hop.elim
  | shutdown => exact hop.elim
  | bind id =>
    unfold HostOperation.perform Host.bind
    dsimp only
    rw [h]
    rfl
  | invoke sources b args =>
    have hinvoke : (t.host.invoke (fun r => (sources r).observed) b.observed).runOn ⟨t.world, args⟩ =
        (.error (.failed e), ⟨t.world, args⟩) := run_bind_of_error (hrunning _) _
    unfold HostOperation.perform
    dsimp only
    rw [hinvoke]
    rfl
  | callManaged m args =>
    have hget : (get : Call (Observed σ) (CallState (Observed σ))).run.run ⟨t.world, args⟩ =
        (.ok ⟨t.world, args⟩, ⟨t.world, args⟩) := rfl
    have hforward : ∀ request, (t.host.forward m.name request Host.firstCapacity).runOn t.world =
        (.error (.failed e), t.world) := fun _ => run_bind_of_error (hrunning _) _
    have hcall : (t.host.callManaged m).runOn ⟨t.world, args⟩ = (.error (.failed e), ⟨t.world, args⟩) := by
      unfold Host.callManaged Action.runOn
      rw [run_bind_of_ok hget]
      dsimp only
      rw [if_neg fun h : args.length ≠ m.directions.length => h hop]
      refine run_bind_of_error ?_ _
      exact congrArg (fun o => (o.1, (⟨o.2, args⟩ : CallState (Observed σ)))) (hforward _)
    unfold HostOperation.perform
    dsimp only
    rw [hcall]
    rfl
  | forward label request capacity =>
    have hforward : (t.host.forward label request capacity).runOn t.world = (.error (.failed e), t.world) :=
      run_bind_of_error (hrunning _) _
    unfold HostOperation.perform
    dsimp only
    rw [hforward]
    rfl

theorem perform_miscounted {m : ManagedMethod} {args : List Value} (h : args.length ≠ m.directions.length) :
    ((HostOperation.callManaged m args : HostOperation σ β ρ).perform n t).2 = t := by
  have hcall : (t.host.callManaged m).runOn ⟨t.world, args⟩ =
      (.error (.failed (.marshal (.argumentCount m.name m.directions.length args.length))), ⟨t.world, args⟩) := by
    have hget : (get : Call (Observed σ) (CallState (Observed σ))).run.run ⟨t.world, args⟩ =
        (.ok ⟨t.world, args⟩, ⟨t.world, args⟩) := rfl
    unfold Host.callManaged Action.runOn
    rw [run_bind_of_ok hget]
    dsimp only
    rw [if_pos h]
    exact run_bind_of_error rfl _
  unfold HostOperation.perform
  dsimp only
  rw [hcall]

/-- A call in a host that is ready changes nothing but the world around it. -/
theorem perform_ready {g : Nat} {r : Runtime (Observed σ) β ρ} {m : Nat} {b : Backend σ β}
    (ht : t.host = .ready g r) (hr : r.backend = b.observed m) (hstart : ∀ s l, op ≠ .start s l)
    (hshutdown : op ≠ .shutdown) :
    (op.perform n t).2.host = t.host ∧
      ∃ es, (op.perform n t).2.world.events = t.world.events ++ es ∧ ∀ e ∈ es, e.Serves m := by
  have hdispatch : ∀ e : HostEvent, e = .asked m .dispatch → e.Serves m := by
    rintro e rfl
    rfl
  cases op with
  | start s l => exact absurd rfl (hstart s l)
  | shutdown => exact absurd rfl hshutdown
  | bind id => exact ⟨rfl, [], (List.append_nil _).symm, List.forall_mem_nil _⟩
  | invoke sources b args =>
    obtain ⟨es, hes, hall⟩ := appends_invoke t.host sources b ⟨t.world, args⟩
    refine ⟨rfl, es, hes, fun e he => ?_⟩
    rcases hall e he with rfl | rfl
    · trivial
    · trivial
  | callManaged k args =>
    obtain ⟨es, hes, hall⟩ := appends_callManaged g hr k ⟨t.world, args⟩
    rw [← ht] at hes
    exact ⟨rfl, es, hes, fun e he => hdispatch e (hall e he)⟩
  | forward label request capacity =>
    obtain ⟨es, hes, hall⟩ := appends_forward g hr label request capacity t.world
    rw [← ht] at hes
    exact ⟨rfl, es, hes, fun e he => hdispatch e (hall e he)⟩

theorem between_call (hstart : ∀ s l, op ≠ .start s l) (hshutdown : op ≠ .shutdown) :
    op.between t = t.host.state := by
  cases op with
  | start s l => exact absurd rfl (hstart s l)
  | shutdown => exact absurd rfl hshutdown
  | _ => rfl

theorem kept_of_not_ready (hready : t.host.state ≠ .ready) (hstart : ∀ s l, op ≠ .start s l)
    (hshutdown : op ≠ .shutdown) : (op.perform n t).2 = t := by
  have hrefused : ∃ e, t.host.running = .error e := by
    by_cases hfailed : t.host.state = .failed
    · obtain ⟨reason, -, hrunning⟩ := Host.running_failed hfailed
      exact ⟨_, hrunning⟩
    · exact ⟨_, Host.running_idle hready hfailed⟩
  obtain ⟨e, he⟩ := hrefused
  by_cases hop : op.IsCall
  · rw [perform_refused hop he]
  · cases op with
    | start s l => exact absurd rfl (hstart s l)
    | shutdown => exact absurd rfl hshutdown
    | callManaged m args => exact perform_miscounted hop
    | _ => exact absurd trivial hop

theorem safe_call (hstart : ∀ s l, op ≠ .start s l) (hshutdown : op ≠ .shutdown)
    (hhost : (op.perform n t).2.host = t.host) : (op.episode n t).Safe where
  ready := by
    intro e he hcall
    by_contra hready
    have hready : t.host.state ≠ .ready := fun h => hready ⟨h, (congrArg Host.state hhost).trans h⟩
    have hkept : (op.episode n t).after = t := kept_of_not_ready hready hstart hshutdown
    rw [Episode.events, hkept] at he
    exact absurd he (by simp [HostOperation.episode])
  unavailable := by
    intro hop hfailed
    obtain ⟨reason, hreason, hrunning⟩ := Host.running_failed hfailed
    have hperform := perform_refused (n := n) hop hrunning
    exact ⟨reason, hreason, congrArg (·.2) hperform, congrArg (·.1) hperform⟩
  notInitialized := by
    intro hop hready hfailed
    have hperform := perform_refused (n := n) hop (Host.running_idle hready hfailed)
    exact ⟨congrArg (·.2) hperform, congrArg (·.1) hperform⟩
  recorded := fun hbefore hafter => absurd ((congrArg Host.state hhost).symm.trans hafter) hbefore
  restart := by
    rintro ⟨s, l, hop⟩
    exact absurd hop (hstart s l)

theorem sound_call (hlived : t.Lived n) (hstart : ∀ s l, op ≠ .start s l) (hshutdown : op ≠ .shutdown) :
    (op.episode n t).Sound n := by
  have hbetween : op.between t = t.host.state := between_call hstart hshutdown
  by_cases hready : t.host.state = .ready
  · obtain ⟨g, r, ht⟩ := Host.eq_ready hready
    have hlog := hlived
    unfold Setting.Lived at hlog
    rw [ht] at hlog
    obtain ⟨m, hm, hlog, ⟨b, hr⟩, hdirect⟩ := hlog
    obtain ⟨hhost, es, hes, hserves⟩ := perform_ready (n := n) ht hr hstart hshutdown
    refine ⟨?_, ⟨es, hes.symm⟩, .inl hbetween.symm, .inl ?_, safe_call hstart hshutdown hhost⟩
    · unfold Setting.Lived HostOperation.episode
      dsimp only
      rw [hhost, ht, hes]
      exact ⟨m, hm.trans n.lt_succ_self, hlog.append hserves, ⟨b, hr⟩, hdirect⟩
    · exact hbetween.trans (congrArg Host.state hhost).symm
  · have hkept : (op.episode n t).after = t := kept_of_not_ready hready hstart hshutdown
    refine ⟨?_, ?_, .inl hbetween.symm, .inl ?_, safe_call hstart hshutdown (congrArg (·.host) hkept)⟩
    · rw [hkept]
      exact lived_mono hlived n.le_succ
    · rw [hkept]
      exact List.prefix_rfl
    · rw [hkept]
      exact hbetween

/-! ### Starts and shutdowns -/

/-- A start or a shutdown for which it is too early or too late. -/
theorem sound_of_refused (hlived : t.Lived n) (hop : ¬ op.IsCall) (hbetween : op.between t = t.host.state)
    (hrefused : op.perform n t = (⟨some (.failed (.invalidTransition t.host.state)), op.args⟩, t)) :
    (op.episode n t).Sound n := by
  have hkept : (op.episode n t).after = t := congrArg (·.2) hrefused
  refine ⟨?_, ?_, .inl hbetween.symm, .inl ?_, ?_⟩
  · rw [hkept]
    exact lived_mono hlived n.le_succ
  · rw [hkept]
    exact List.prefix_rfl
  · rw [hkept]
    exact hbetween
  · refine ⟨?_, fun h => absurd h hop, fun h => absurd h hop, fun hbefore hafter => ?_, fun _ _ => ?_⟩
    · intro e he
      rw [Episode.events, hkept] at he
      exact absurd he (by simp [HostOperation.episode])
    · rw [hkept] at hafter
      exact absurd hafter hbefore
    · exact ⟨hkept, congrArg (·.1) hrefused⟩

/-- A start or a shutdown that moves the host on. -/
theorem sound_of_moved (hop : ¬ op.IsCall) {answer : HostAnswer} {t' : Setting (Observed σ) β ρ}
    (hperform : op.perform n t = (answer, t')) {es : List HostEvent}
    (hes : t'.world.events = t.world.events ++ es) (hquiet : ∀ e ∈ es, ¬ e.IsCall) (hlived : t'.Lived (n + 1))
    (henters : t.host.state = op.between t ∨ t.host.state.Leads (op.between t))
    (hleaves : op.between t = t'.host.state ∨ (op.between t).Leads t'.host.state)
    (hrecorded : t'.host.state = .failed →
      ∃ e, answer.stopped = some (.failed e) ∧ t'.host.failure? = some e.message)
    (hstart : (∃ s l, op = .start s l) → t.host.state = .uninitialized) : (op.episode n t).Sound n := by
  have hepisode : op.episode n t = ⟨op, t, answer, t'⟩ := by
    unfold HostOperation.episode
    rw [hperform]
  rw [hepisode]
  refine ⟨hlived, ⟨es, hes.symm⟩, henters, hleaves, ?_, fun h => absurd h hop, fun h => absurd h hop,
    fun _ => hrecorded, fun h hstate => absurd (hstart h) hstate⟩
  intro e he hcall
  rw [Episode.events, hes, List.drop_left] at he
  exact absurd hcall (hquiet e he)

theorem between_start (ht : t.host = .uninitialized) (s : Surroundings σ) (l : Launch σ β ρ) :
    (HostOperation.start s l).between t = .loading := by
  unfold HostOperation.between
  dsimp only
  rw [Setting.beginStart_fresh ht]
  rfl

section
variable {s : Surroundings σ} {l : Launch σ β ρ}

theorem perform_start_refused (hstate : t.host.state ≠ .uninitialized) :
    (HostOperation.start s l).perform n t = (⟨some (.failed (.invalidTransition t.host.state)), []⟩, t) := by
  unfold HostOperation.perform
  dsimp only
  rw [Setting.start_refused hstate]
  rfl

/-- A start that was carried out, whatever came of it. -/
theorem sound_of_started (ht : t.host = .uninitialized) {answer : HostAnswer} {t' : Setting (Observed σ) β ρ}
    (hperform : (HostOperation.start s l).perform n t = (answer, t'))
    (hworld : t'.world = (((l.observed n).load s.observed).runOn (t.world, (l.observed n).fresh)).2.1)
    (hlived : t'.Lived (n + 1)) (hleaves : .loading = t'.host.state ∨ HostState.loading.Leads t'.host.state)
    (hrecorded : t'.host.state = .failed →
      ∃ e, answer.stopped = some (.failed e) ∧ t'.host.failure? = some e.message) :
    ((HostOperation.start s l).episode n t).Sound n := by
  have hstate : t.host.state = .uninitialized := congrArg Host.state ht
  obtain ⟨es, hes, hquiet⟩ := appends_load_quiet (n := n) (s := s) (l := l) (t.world, (l.observed n).fresh)
  dsimp only at hes
  rw [← hworld] at hes
  refine sound_of_moved id hperform hes hquiet hlived (.inr ?_) ?_ hrecorded fun _ => hstate
  · rw [between_start ht, hstate]
    exact .load
  · rw [between_start ht]
    exact hleaves

theorem sound_start (hlived : t.Lived n) : ((HostOperation.start s l).episode n t).Sound n := by
  by_cases hstate : t.host.state = .uninitialized
  case neg =>
    refine sound_of_refused hlived id ?_ (perform_start_refused hstate)
    unfold HostOperation.between
    dsimp only
    rw [Setting.beginStart_refused hstate]
  have ht := Host.eq_uninitialized hstate
  have hnothing : t.world.events = [] := by
    unfold Setting.Lived at hlived
    rwa [ht] at hlived
  have hstart := Setting.start_fresh ht s.observed (l.observed n)
  rw [Setting.runOn_finishStart] at hstart
  dsimp only [Setting.moved] at hstart
  -- Loading fails, breaks off, or gives a runtime: the host has failed, is still loading, or is ready.
  rcases hload : ((l.observed n).load s.observed).runOn (t.world, (l.observed n).fresh) with
    ⟨(e | _) | direct, world, state⟩ <;> rw [hload] at hstart <;> have hends := load_ends hnothing hload
  · have hperform : (HostOperation.start s l).perform n t =
        (⟨some (.failed (.runtime e)), []⟩, t.moved world (.failed e.message)) := by
      unfold HostOperation.perform
      dsimp only
      rw [hstart]
      rfl
    refine sound_of_started ht hperform (by rw [hload]; rfl) ?_ (.inr .fail) fun _ => ⟨_, rfl, rfl⟩
    exact ⟨n, n.lt_succ_self, hends⟩
  · have hperform : (HostOperation.start s l).perform n t = (⟨some .crashed, []⟩, t.moved world .loading) := by
      unfold HostOperation.perform
      dsimp only
      rw [hstart]
      rfl
    refine sound_of_started ht hperform (by rw [hload]; rfl) ?_ (.inl rfl) fun h => by cases h
    exact ⟨n, n.lt_succ_self, hends⟩
  · have hperform : (HostOperation.start s l).perform n t = (⟨none, []⟩, ⟨world,
        .ready t.nextGeneration ⟨(l.observed n).backend, state, (l.observed n).reflection, direct⟩,
        t.nextGeneration + 1⟩) := by
      unfold HostOperation.perform
      dsimp only
      rw [hstart]
      rfl
    refine sound_of_started ht hperform (by rw [hload]) ?_ (.inr .ready) fun h => by cases h
    exact ⟨n, n.lt_succ_self, hends.1, ⟨l.backend, rfl⟩, hends.2⟩

end

/-- The backend of a host that is ready is asked for its shutdown, and for nothing else. -/
theorem perform_shutdown_ready {g : Nat} {r : Runtime (Observed σ) β ρ} {m : Nat} {b : Backend σ β}
    (ht : t.host = .ready g r) (hr : r.backend = b.observed m) :
    ∃ answer t', (HostOperation.shutdown : HostOperation σ β ρ).perform n t = (answer, t') ∧
      t'.world.events = t.world.events ++ [.asked m .shutdown] ∧
      (t'.host = .shuttingDown ∨ t'.host = .terminated none) := by
  have hshutdown := Setting.shutdown_ready ht
  have hlog := shutdown_appends (n := m) b (t.world, r.state)
  rw [Setting.runOn_finishShutdown, hr] at hshutdown
  dsimp only [Setting.moved] at hshutdown
  unfold HostOperation.perform
  dsimp only
  rw [hshutdown]
  rcases hr : (b.observed m).shutdown.runOn (t.world, r.state) with ⟨_ | ⟨⟩, world, state⟩ <;> rw [hr] at hlog
  · exact ⟨_, _, rfl, hlog, .inl rfl⟩
  · exact ⟨_, _, rfl, hlog, .inr rfl⟩

theorem sound_shutdown_ready (hlived : t.Lived n) {g : Nat} {r : Runtime (Observed σ) β ρ} (ht : t.host = .ready g r) :
    ((HostOperation.shutdown : HostOperation σ β ρ).episode n t).Sound n := by
  unfold Setting.Lived at hlived
  rw [ht] at hlived
  obtain ⟨m, hm, hlog, ⟨b, hr⟩, -⟩ := hlived
  obtain ⟨answer, t', hperform, hes, hstate⟩ := perform_shutdown_ready (n := n) ht hr
  have hbetween : (HostOperation.shutdown : HostOperation σ β ρ).between t = .shuttingDown := by
    unfold HostOperation.between
    dsimp only
    rw [Setting.beginShutdown_ready ht]
    rfl
  refine sound_of_moved id hperform hes (by simp [HostEvent.IsCall]) ?_ (.inr ?_) ?_ ?_ ?_
  · unfold Setting.Lived
    rcases hstate with hstate | hstate <;> rw [hstate, hes]
    · exact ⟨m, hm.trans n.lt_succ_self, hlog.shutDown⟩
    · exact ⟨m, hm.trans n.lt_succ_self, .inr hlog.shutDown⟩
  · rw [hbetween, ht]
    exact .shutDown
  · rw [hbetween]
    rcases hstate with hstate | hstate <;> rw [hstate]
    · exact .inl rfl
    · exact .inr .terminate
  · rcases hstate with hstate | hstate <;> rw [hstate] <;> intro h <;> cases h
  · rintro ⟨s, l, h⟩
    cases h

theorem sound_shutdown_failed (hlived : t.Lived n) {reason : String} (ht : t.host = .failed reason) :
    ((HostOperation.shutdown : HostOperation σ β ρ).episode n t).Sound n := by
  have hperform : (HostOperation.shutdown : HostOperation σ β ρ).perform n t =
      (⟨none, []⟩, t.moved t.world (.terminated (some reason))) := by
    unfold HostOperation.perform
    dsimp only
    rw [Setting.shutdown_failed ht]
    rfl
  have hbetween : (HostOperation.shutdown : HostOperation σ β ρ).between t = .terminated := by
    unfold HostOperation.between
    dsimp only
    rw [Setting.beginShutdown_failed ht]
    rfl
  refine sound_of_moved id hperform (List.append_nil _).symm (List.forall_mem_nil _) ?_ (.inr ?_) (.inl hbetween)
    (fun h => by cases h) ?_
  · unfold Setting.Lived at hlived
    rw [ht] at hlived
    obtain ⟨m, hm, hlog⟩ := hlived
    exact ⟨m, hm.trans n.lt_succ_self, hlog⟩
  · rw [hbetween, ht]
    exact .giveUp
  · rintro ⟨s, l, h⟩
    cases h

theorem sound_shutdown (hlived : t.Lived n) :
    ((HostOperation.shutdown : HostOperation σ β ρ).episode n t).Sound n := by
  by_cases hready : t.host.state = .ready
  · obtain ⟨g, r, ht⟩ := Host.eq_ready hready
    exact sound_shutdown_ready hlived ht
  by_cases hfailed : t.host.state = .failed
  · obtain ⟨reason, ht⟩ := Host.eq_failed hfailed
    exact sound_shutdown_failed hlived ht
  refine sound_of_refused hlived id ?_ ?_
  · unfold HostOperation.between
    dsimp only
    rw [Setting.beginShutdown_refused hready hfailed]
  · unfold HostOperation.perform
    dsimp only
    rw [Setting.shutdown_refused hready hfailed]
    rfl

/-- Whatever is asked of a host, what is promised is kept. -/
theorem sound_episode (hlived : t.Lived n) (op : HostOperation σ β ρ) : (op.episode n t).Sound n := by
  cases op with
  | start s l => exact sound_start hlived
  | shutdown => exact sound_shutdown hlived
  | bind id => exact sound_call hlived (by simp) (by simp)
  | invoke sources b args => exact sound_call hlived (by simp) (by simp)
  | callManaged m args => exact sound_call hlived (by simp) (by simp)
  | forward label request capacity => exact sound_call hlived (by simp) (by simp)

end

/-! ### Lives -/

namespace HostLife
variable {l : HostLife σ β ρ}

/-- What holds after any operations. -/
structure Sound (l : HostLife σ β ρ) : Prop where
  lived : l.now.Lived l.past.length
  moves : l.stages.IsChain fun a b => a = b ∨ a.Leads b
  latest : l.stages.getLast? = some l.now.host.state
  episodes : ∀ (n : Nat) (x : Episode σ β ρ), l.past[n]? = some x →
    x.Safe ∧ x.before.Lived n ∧ x.before.world.events <+: l.events

theorem stages_act (l : HostLife σ β ρ) (op : HostOperation σ β ρ) :
    (l.act op).stages = l.stages ++ [op.between l.now, (l.act op).now.host.state] := by
  simp [stages, act, HostOperation.episode]

theorem sound_act (h : l.Sound) (op : HostOperation σ β ρ) : (l.act op).Sound := by
  have hx := sound_episode h.lived op
  refine ⟨?_, ?_, ?_, ?_⟩
  · have hlived : (l.act op).now.Lived (l.past.length + 1) := hx.lived
    rwa [show (l.act op).past.length = l.past.length + 1 by simp [act]]
  · rw [stages_act]
    refine h.moves.append (List.isChain_pair.mpr hx.leaves) ?_
    rw [h.latest]
    rintro a ⟨⟩ b ⟨⟩
    exact hx.enters
  · simp [stages_act]
  · intro n x hn
    have hgrows : l.events <+: (l.act op).events := hx.grows
    rcases lt_or_ge n l.past.length with hlt | hge
    · have hn : l.past[n]? = some x := by rwa [act, List.getElem?_append_left hlt] at hn
      obtain ⟨hsafe, hlived, hprefix⟩ := h.episodes n x hn
      exact ⟨hsafe, hlived, hprefix.trans hgrows⟩
    · rw [act, List.getElem?_append_right hge, List.getElem?_singleton] at hn
      split at hn
      case isFalse => cases hn
      cases hn
      obtain rfl : n = l.past.length := by omega
      exact ⟨hx.safe, h.lived, hgrows⟩

theorem sound_live (world : σ) (generation : Nat) (ops : List (HostOperation σ β ρ)) :
    (live world generation ops).Sound := by
  have hrun : ∀ (ops : List (HostOperation σ β ρ)) (l : HostLife σ β ρ), l.Sound → (ops.foldl act l).Sound := by
    intro ops
    induction ops with
    | nil => exact fun l h => h
    | cons op ops ih => exact fun l h => ih _ (sound_act h op)
  refine hrun ops _ ⟨rfl, by simp [stages], rfl, ?_⟩
  intro n x hn
  simp at hn

theorem bound_observed (h : l.Sound) {id : FunctionId} {b : Binding (Observed σ) ρ} (hb : l.now.host.bind id = .ok b) :
    ∃ b₀ : Binding σ ρ, b = b₀.observed := by
  obtain ⟨⟨g, r⟩, hrunning, hb⟩ := bind_eq_ok.mp hb
  cases hb
  have hlived := h.lived
  unfold Setting.Lived at hlived
  cases hhost : l.now.host with
  | ready g' r' =>
    rw [hhost] at hrunning hlived
    cases hrunning
    obtain ⟨-, -, -, -, hdirect⟩ := hlived
    unfold Runtime.target
    split
    case h_1 d hd =>
      obtain ⟨before, after, hsplit, -⟩ := List.lookup_eq_some_iff.mp hd
      obtain ⟨d₀, hd₀⟩ := hdirect (id, d) (by simp [hsplit])
      dsimp only at hd₀
      subst hd₀
      exact ⟨⟨g, .direct d₀⟩, rfl⟩
    case h_2 => exact ⟨⟨g, .lookup id r.reflection⟩, rfl⟩
  | _ =>
    rw [hhost] at hrunning
    cases hrunning

/-- Whatever is asked of a host in whatever order, and however its backends behave. -/
theorem live_safe (world : σ) (generation : Nat) (ops : List (HostOperation σ β ρ)) :
    (live world generation ops).Safe := by
  have hsound := sound_live world generation ops
  generalize live world generation ops = l at hsound
  refine ⟨hsound.moves, ?_, ?_, ?_, ?_, ?_, fun id b hb => bound_observed hsound hb⟩
  · intro x hx
    obtain ⟨n, hn⟩ := List.mem_iff_getElem?.mp hx
    exact (hsound.episodes n x hn).1
  · rcases lived_log hsound.lived with hnothing | ⟨m, -, stage, hlog⟩
    · exact ⟨0, by simp [events, hnothing]⟩
    · exact ⟨m, hlog.backend, hlog.starts.le⟩
  · intro n x hn hstart hstate e he hbackend
    obtain ⟨-, hlived, hprefix⟩ := hsound.episodes n x hn
    obtain ⟨m, hm, stage, hlog⟩ := lived_begun hlived hstate
    -- The log begins as it did when the start was refused, with the backend that came before.
    have hhead : l.events.head? = some (.asked m .start) := by
      obtain ⟨rest, hrest⟩ := hprefix
      rw [← hrest, List.head?_append, hlog.head]
      rfl
    obtain ⟨m', hm', stage', hlog'⟩ : ∃ m' < l.past.length, ∃ stage', Logs m' stage' l.events := by
      refine (lived_log hsound.lived).resolve_left fun hnothing => ?_
      rw [events, hnothing] at hhead
      cases hhead
    cases hhead.symm.trans hlog'.head
    exact absurd (hlog'.backend e he n hbackend) hm.ne'
  · intro n hstarted hstate
    obtain ⟨m, hlog⟩ := lived_over hsound.lived hstate
    rcases hlog with hlog | hlog
    · exact absurd hstarted hlog.not_started
    · obtain rfl := hlog.backend _ hstarted n rfl
      exact hlog.shutdowns
  · intro n before after hsplit e he
    have hasked : .asked n .shutdown ∈ l.events := by simp [hsplit]
    rcases lived_log hsound.lived with hnothing | ⟨m, -, stage, hlog⟩
    · rw [events, hnothing] at hasked
      cases hasked
    · obtain rfl := hlog.backend _ hasked n rfl
      rw [hlog.silent hsplit] at he
      cases he

end HostLife
end EngineBridge
