import EngineBridge.Host.Launch
import EngineBridge.Proofs.Outcome

/-! What the stages of a host's life lead to: what starts and shutdowns do in each of them, and which calls are
refused. -/

namespace EngineBridge
open Outcome

namespace Host
variable {σ β ρ : Type}

theorem eq_uninitialized {h : Host σ β ρ} (hstate : h.state = .uninitialized) : h = .uninitialized := by
  cases h with
  | uninitialized => rfl
  | _ => cases hstate

theorem eq_ready {h : Host σ β ρ} (hstate : h.state = .ready) :
    ∃ generation r, h = .ready generation r := by
  cases h with
  | ready generation r => exact ⟨generation, r, rfl⟩
  | _ => cases hstate

theorem eq_failed {h : Host σ β ρ} (hstate : h.state = .failed) : ∃ reason, h = .failed reason := by
  cases h with
  | failed reason => exact ⟨reason, rfl⟩
  | _ => cases hstate

theorem running_failed {h : Host σ β ρ} (hstate : h.state = .failed) :
    ∃ reason, h.failure? = some reason ∧ h.running = .error (.unavailable reason) := by
  obtain ⟨reason, rfl⟩ := eq_failed hstate
  exact ⟨reason, rfl, rfl⟩

theorem running_idle {h : Host σ β ρ} (hready : h.state ≠ .ready) (hfailed : h.state ≠ .failed) :
    h.running = .error .notInitialized := by
  cases h with
  | ready generation r => exact absurd rfl hready
  | failed reason => exact absurd rfl hfailed
  | _ => rfl

end Host

namespace Setting
variable {σ β ρ : Type} {t : Setting σ β ρ}

/-! ### Starts -/

theorem beginStart_refused (h : t.host.state ≠ .uninitialized) :
    beginStart.runOn t = (.error (.failed (.invalidTransition t.host.state)), t) := by
  obtain ⟨world, host, generation⟩ := t
  cases host with
  | uninitialized => exact absurd rfl h
  | _ => rfl

theorem beginStart_fresh (h : t.host = .uninitialized) :
    beginStart.runOn t = (.ok (), t.moved t.world .loading) := by
  obtain ⟨world, host, generation⟩ := t
  cases h
  rfl

theorem runOn_finishStart (s : Surroundings σ) (l : Launch σ β ρ) (t : Setting σ β ρ) :
    (finishStart s l).runOn t =
      match (l.load s).runOn (t.world, l.fresh) with
      | (.ok direct, world, state) =>
        (.ok (), ⟨world, .ready t.nextGeneration ⟨l.backend, state, l.reflection, direct⟩, t.nextGeneration + 1⟩)
      | (.error (.failed e), world, _) => (.error (.failed (.runtime e)), t.moved world (.failed e.message))
      | (.error .crashed, world, _) => (.error .crashed, t.moved world t.host) := by
  refine (run_bind_of_ok rfl _).trans ?_
  dsimp only
  rcases (l.load s).runOn (t.world, l.fresh) with ⟨(e | _) | direct, world, state⟩ <;> rfl

theorem start_refused (h : t.host.state ≠ .uninitialized) (s : Surroundings σ) (l : Launch σ β ρ) :
    (start s l).runOn t = (.error (.failed (.invalidTransition t.host.state)), t) :=
  run_bind_of_error (beginStart_refused h) _

theorem start_fresh (h : t.host = .uninitialized) (s : Surroundings σ) (l : Launch σ β ρ) :
    (start s l).runOn t = (finishStart s l).runOn (t.moved t.world .loading) :=
  run_bind_of_ok (beginStart_fresh h) _

/-! ### Shutdowns -/

theorem beginShutdown_ready {g : Nat} {r : Runtime σ β ρ} (ht : t.host = .ready g r) :
    beginShutdown.runOn t = (.ok (some r), t.moved t.world .shuttingDown) := by
  obtain ⟨world, host, generation⟩ := t
  cases ht
  rfl

theorem beginShutdown_failed {reason : String} (ht : t.host = .failed reason) :
    beginShutdown.runOn t = (.ok none, t.moved t.world (.terminated (some reason))) := by
  obtain ⟨world, host, generation⟩ := t
  cases ht
  rfl

theorem beginShutdown_refused (hready : t.host.state ≠ .ready) (hfailed : t.host.state ≠ .failed) :
    beginShutdown.runOn t = (.error (.failed (.invalidTransition t.host.state)), t) := by
  obtain ⟨world, host, generation⟩ := t
  cases host with
  | ready g r => exact absurd rfl hready
  | failed reason => exact absurd rfl hfailed
  | _ => rfl

theorem runOn_finishShutdown (r : Runtime σ β ρ) (t : Setting σ β ρ) :
    (finishShutdown r).runOn t =
      match r.backend.shutdown.runOn (t.world, r.state) with
      | (.ok (), world, _) => (.ok (), t.moved world (.terminated none))
      | (.error _, world, _) => (.error .crashed, t.moved world t.host) := by
  refine (run_bind_of_ok rfl _).trans ?_
  rcases r.backend.shutdown.runOn (t.world, r.state) with ⟨_ | ⟨⟩, world, state⟩ <;> rfl

theorem shutdown_ready {g : Nat} {r : Runtime σ β ρ} (ht : t.host = .ready g r) :
    shutdown.runOn t = (finishShutdown r).runOn (t.moved t.world .shuttingDown) :=
  run_bind_of_ok (beginShutdown_ready ht) _

theorem shutdown_failed {reason : String} (ht : t.host = .failed reason) :
    shutdown.runOn t = (.ok (), t.moved t.world (.terminated (some reason))) :=
  run_bind_of_ok (beginShutdown_failed ht) _

theorem shutdown_refused (hready : t.host.state ≠ .ready) (hfailed : t.host.state ≠ .failed) :
    shutdown.runOn t = (.error (.failed (.invalidTransition t.host.state)), t) :=
  run_bind_of_error (beginShutdown_refused hready hfailed) _

/-- A shutdown that ends well ends the host's life. -/
theorem terminated_of_shutdown {t' : Setting σ β ρ} (h : shutdown.runOn t = (.ok (), t')) :
    ∃ failure, t'.host = .terminated failure := by
  by_cases hready : t.host.state = .ready
  · obtain ⟨g, r, ht⟩ := Host.eq_ready hready
    rw [shutdown_ready ht, runOn_finishShutdown] at h
    split at h <;> cases h
    exact ⟨none, rfl⟩
  by_cases hfailed : t.host.state = .failed
  · obtain ⟨reason, ht⟩ := Host.eq_failed hfailed
    rw [shutdown_failed ht] at h
    cases h
    exact ⟨some reason, rfl⟩
  rw [shutdown_refused hready hfailed] at h
  cases h

end Setting
end EngineBridge
