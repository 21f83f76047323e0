import EngineBridge.Proofs.Host.Observed

/-! The start of a host under observation. Whichever step fails, a backend that started is shut down again, nothing is
called meanwhile, and the trampolines that are found are observed. -/

namespace EngineBridge
open Outcome
variable {σ β ρ : Type}

/-! ### The log of a backend -/

/-- How far the one backend came that a host was given. -/
inductive BackendStage
  | refused
  | serving
  | closed

/-- What a backend that runs is asked, and what is called beside it. -/
def HostEvent.Serves (n : Nat) : HostEvent → Prop
  | asked m .loadAssembly | asked m .resolveEntryPoint | asked m .dispatch => m = n
  | trampoline | handler => True
  | _ => False

/-- The whole log of a host whose backend has the number `n`. -/
inductive BackendStage.Logs (n : Nat) : BackendStage → List HostEvent → Prop
  | refused : Logs n .refused [.asked n .start]
  | serving {es : List HostEvent} (h : ∀ e ∈ es, e.Serves n) : Logs n .serving (.asked n .start :: .started n :: es)
  | closed {es : List HostEvent} (h : ∀ e ∈ es, e.Serves n) :
    Logs n .closed (.asked n .start :: .started n :: (es ++ [.asked n .shutdown]))

namespace BackendStage
variable {n : Nat} {stage : BackendStage} {log es : List HostEvent}

theorem Logs.append (h : Logs n .serving log) (hes : ∀ e ∈ es, e.Serves n) : Logs n .serving (log ++ es) := by
  cases h with
  | serving h =>
    refine .serving fun e he => ?_
    rcases List.mem_append.mp he with he | he
    · exact h e he
    · exact hes e he

theorem Logs.shutDown (h : Logs n .serving log) : Logs n .closed (log ++ [.asked n .shutdown]) := by
  cases h with
  | serving h => exact .closed h

theorem Logs.head (h : Logs n stage log) : log.head? = some (.asked n .start) := by
  cases h <;> rfl

theorem backend_of_serves {e : HostEvent} (h : e.Serves n) {m : Nat} (hm : e.backend? = some m) : m = n := by
  cases e with
  | asked k r => cases r <;> simp_all [HostEvent.Serves, HostEvent.backend?]
  | started k => cases h
  | trampoline => cases hm
  | handler => cases hm

theorem Logs.backend (h : Logs n stage log) : ∀ e ∈ log, ∀ m, e.backend? = some m → m = n := by
  have hown : ∀ e ∈ log, e.Serves n ∨ e.backend? = some n := by
    cases h with
    | refused => simp [HostEvent.backend?]
    | serving h =>
      intro e he
      simp only [List.mem_cons] at he
      rcases he with rfl | rfl | he
      · exact .inr rfl
      · exact .inr rfl
      · exact .inl (h e he)
    | closed h =>
      intro e he
      simp only [List.mem_cons, List.mem_append, List.not_mem_nil, or_false] at he
      rcases he with rfl | rfl | he | rfl
      · exact .inr rfl
      · exact .inr rfl
      · exact .inl (h e he)
      · exact .inr rfl
  intro e he m hm
  rcases hown e he with hserves | hn
  · exact backend_of_serves hserves hm
  · exact Option.some.inj (hm.symm.trans hn)

theorem count_serves (h : ∀ e ∈ es, e.Serves n) {e : HostEvent} (he : ¬ e.Serves n) : es.count e = 0 :=
  List.count_eq_zero.mpr fun hmem => he (h e hmem)

theorem Logs.starts (h : Logs n stage log) : log.count (.asked n .start) = 1 := by
  cases h with
  | refused => simp
  | serving h => simp [count_serves h (e := .asked n .start) id]
  | closed h => simp [count_serves h (e := .asked n .start) id]

theorem Logs.not_started (h : Logs n .refused log) {m : Nat} : .started m ∉ log := by
  cases h with
  | refused => simp

theorem Logs.shutdowns (h : Logs n .closed log) : log.count (.asked n .shutdown) = 1 := by
  cases h with
  | closed h => simp [count_serves h (e := .asked n .shutdown) id]

/-- A shutdown is the last that is asked. -/
theorem Logs.last (h : Logs n stage log) : .asked n .shutdown ∉ log.dropLast := by
  have hserves : ∀ {es : List HostEvent}, (∀ e ∈ es, e.Serves n) →
      HostEvent.asked n .shutdown ∉ HostEvent.asked n .start :: .started n :: es := by
    intro es h hmem
    simp only [List.mem_cons, reduceCtorEq, HostEvent.asked.injEq, and_false, false_or] at hmem
    exact h _ hmem
  cases h with
  | refused => simp
  | serving h => exact fun hmem => hserves h (List.dropLast_subset _ hmem)
  | @closed es h =>
    have hfront : (HostEvent.asked n .start :: .started n :: (es ++ [.asked n .shutdown])).dropLast =
        .asked n .start :: .started n :: es := by
      rw [← List.cons_append, ← List.cons_append, List.dropLast_concat]
    rw [hfront]
    exact hserves h

theorem Logs.silent (h : Logs n stage log) {before after : List HostEvent}
    (hlog : log = before ++ .asked n .shutdown :: after) : after = [] := by
  by_contra hne
  refine h.last ?_
  rw [hlog, List.dropLast_append_of_ne_nil (List.cons_ne_nil _ _), List.dropLast_cons_of_ne_nil hne]
  simp

end BackendStage

open BackendStage (Logs)
open Observed (note operate)

/-! ### Starts -/

/-- How the start of a backend ends, by its result. -/
def Launch.Ends (n : Nat) : Except (Stop RuntimeError) (List (FunctionId × DirectInvocable (Observed σ))) →
    List HostEvent → Prop
  | .ok direct, log => Logs n .serving log ∧ ∀ p ∈ direct, ∃ d : DirectInvocable σ, p.2 = d.observed
  | .error (.failed _), log => Logs n .refused log ∨ Logs n .closed log
  | .error .crashed, log => ∃ stage, Logs n stage log

section
variable {n : Nat} {s : Surroundings σ} {l : Launch σ β ρ}

theorem observed_of_library {library : Library σ} {name : String} {f : Trampoline (Observed σ)}
    (h : library.observed.trampolines name = some f) : ∃ f₀ : Trampoline σ, f = f₀.observed := by
  obtain ⟨symbol, hsymbol, rfl⟩ := Option.map_eq_some_iff.mp h
  simp only [Library.symbol?, Library.observed, Option.ite_none_left_eq_some] at hsymbol
  obtain ⟨symbol₀, -, rfl⟩ := Option.map_eq_some_iff.mp hsymbol.2
  exact ⟨symbol₀.trampoline, rfl⟩

theorem observed_of_source {source : TrampolineSource (Observed σ)} (h : (l.observed n).source s.observed = .ok source)
    {name : String} {f : Trampoline (Observed σ)} (hf : source name = some f) :
    ∃ f₀ : Trampoline σ, f = f₀.observed := by
  unfold Launch.source at h
  split at h
  case h_1 _ source' _ hsource =>
    cases h
    obtain ⟨source₀, -, rfl⟩ := Option.map_eq_some_iff.mp hsource
    obtain ⟨f₀, -, rfl⟩ := Option.map_eq_some_iff.mp hf
    exact ⟨f₀, rfl⟩
  case h_2 =>
    cases h
    exact observed_of_library hf
  case h_3 =>
    split at h
    · rename_i library hlibrary
      cases h
      obtain ⟨library₀, -, rfl⟩ := Option.map_eq_some_iff.mp hlibrary
      exact observed_of_library hf
    · cases h

theorem observed_of_table {source : TrampolineSource (Observed σ)} {entries : List TrampolineEntry}
    (h : ∀ name f, source name = some f → ∃ f₀ : Trampoline σ, f = f₀.observed) :
    ∀ p ∈ Launch.table source entries, ∃ d : DirectInvocable σ, p.2 = d.observed := by
  intro p hp
  unfold Launch.table at hp
  rw [List.mem_reverse, List.mem_filterMap] at hp
  obtain ⟨e, -, he⟩ := hp
  obtain ⟨f, hf, rfl⟩ := Option.map_eq_some_iff.mp he
  obtain ⟨f₀, rfl⟩ := h _ _ hf
  exact ⟨.ofEntry e f₀, rfl⟩

theorem appends_prepare {P : HostEvent → Prop} (hload : P (.asked n .loadAssembly))
    (hentry : P (.asked n .resolveEntryPoint)) :
    Appends (fun t => t.1.events) P ((l.observed n).prepare s.observed) := by
  refine (appends_forM fun p => (appends_outside_note hload).bind fun _ => appends_operate _).bind fun _ => ?_
  refine ((appends_outside_note hentry).bind fun _ => appends_operate _).bind fun _ => ?_
  exact (appends_ofExcept _).bind fun _ => (appends_ofExcept _).bind fun _ => appends_pure _

theorem observed_of_prepare {t t' : Observed σ × β} {direct : List (FunctionId × DirectInvocable (Observed σ))}
    (h : ((l.observed n).prepare s.observed).runOn t = (.ok direct, t')) :
    ∀ p ∈ direct, ∃ d : DirectInvocable σ, p.2 = d.observed := by
  unfold Launch.prepare at h
  obtain ⟨_, _, -, h⟩ := runOn_bind_eq_ok.mp h
  obtain ⟨_, _, -, h⟩ := runOn_bind_eq_ok.mp h
  obtain ⟨source, _, hsource, h⟩ := runOn_bind_eq_ok.mp h
  obtain ⟨entries, _, -, h⟩ := runOn_bind_eq_ok.mp h
  cases h
  exact observed_of_table fun _ _ => observed_of_source (eq_ok_of_ofExcept hsource)

theorem start_cases (b : Backend σ β) (c : HostConfig) (t : Observed σ × β) :
    (∃ stop t', ((b.observed n).start c).runOn t = (.error stop, t') ∧
      t'.1.events = t.1.events ++ [.asked n .start]) ∨
    (∃ t', ((b.observed n).start c).runOn t = (.ok (), t') ∧
      t'.1.events = t.1.events ++ [.asked n .start, .started n]) := by
  let asked : Observed σ × β := ({ t.1 with events := t.1.events ++ [.asked n .start] }, t.2)
  have hstart : ((b.observed n).start c).runOn t =
      (operate (b.start c) >>= fun _ => Backend.outside (note (.started n))).runOn asked := run_bind_of_ok rfl _
  rcases hb : (b.start c).runOn (t.1.world, t.2) with ⟨stop | ⟨⟩, w⟩
  · have hoperate : (operate (b.start c)).runOn asked = (.error stop, ({ asked.1 with world := w.1 }, w.2)) := by
      unfold Observed.operate Action.within Action.runOn
      exact congrArg (fun o => (o.1, ({ asked.1 with world := o.2.1 }, o.2.2))) hb
    exact .inl ⟨stop, _, hstart.trans (run_bind_of_error hoperate _), rfl⟩
  · have hoperate : (operate (b.start c)).runOn asked = (.ok (), ({ asked.1 with world := w.1 }, w.2)) := by
      unfold Observed.operate Action.within Action.runOn
      exact congrArg (fun o => (o.1, ({ asked.1 with world := o.2.1 }, o.2.2))) hb
    exact .inr ⟨_, hstart.trans (run_bind_of_ok hoperate _), List.append_assoc ..⟩

theorem shutdown_appends (b : Backend σ β) (t : Observed σ × β) :
    ((b.observed n).shutdown.runOn t).2.1.events = t.1.events ++ [.asked n .shutdown] := by
  have hshutdown : (b.observed n).shutdown.runOn t =
      (operate b.shutdown).runOn ({ t.1 with events := t.1.events ++ [.asked n .shutdown] }, t.2) := run_bind_of_ok rfl _
  rw [hshutdown]
  rfl

theorem load_ends {t t' : Observed σ × β} (ht : t.1.events = [])
    {r : Except (Stop RuntimeError) (List (FunctionId × DirectInvocable (Observed σ)))}
    (h : ((l.observed n).load s.observed).runOn t = (r, t')) : Launch.Ends n r t'.1.events := by
  rcases start_cases (n := n) l.backend l.config t with ⟨stop, t₁, hstart, hlog⟩ | ⟨t₁, hstart, hlog⟩
  · cases (run_bind_of_error hstart _).symm.trans h
    rw [hlog, ht]
    cases stop with
    | failed e => exact .inl .refused
    | crashed => exact ⟨_, .refused⟩
  -- The backend runs from here on, and is shut down if a later step fails.
  replace h : (((l.observed n).prepare s.observed).cleaned (l.observed n).backend.shutdown).runOn t₁ = (r, t') :=
    (run_bind_of_ok hstart _).symm.trans h
  have hstarted : Logs n .serving t₁.1.events := by
    rw [hlog, ht]
    exact .serving (List.forall_mem_nil _)
  have hprepared : Logs n .serving (((l.observed n).prepare s.observed).runOn t₁).2.1.events := by
    obtain ⟨es, hes, hserves⟩ := appends_prepare (P := HostEvent.Serves n) (s := s) (l := l) rfl rfl t₁
    dsimp only at hes
    rw [hes]
    exact hstarted.append hserves
  rw [runOn_cleaned] at h
  rcases hprepare : ((l.observed n).prepare s.observed).runOn t₁ with ⟨(e | _) | direct, t₂⟩ <;>
    rw [hprepare] at hprepared h
  · have hclosed : Logs n .closed ((l.observed n).backend.shutdown.runOn t₂).2.1.events := by
      rw [Launch.observed, shutdown_appends]
      exact hprepared.shutDown
    dsimp only at h
    split at h <;> rename_i hshutdown <;> rw [hshutdown] at hclosed <;> cases h
    · exact .inr hclosed
    · exact ⟨_, hclosed⟩
  · cases h
    exact ⟨_, hprepared⟩
  · cases h
    exact ⟨hprepared, observed_of_prepare hprepare⟩

/-- Nothing is called before the host is ready. -/
theorem appends_load_quiet :
    Appends (fun t => t.1.events) (fun e => ¬ e.IsCall) ((l.observed n).load s.observed) := by
  have hstart : Appends (fun t => t.1.events) (fun e => ¬ e.IsCall) ((l.observed n).backend.start l.config) :=
    (appends_outside_note id).bind fun _ => (appends_operate _).bind fun _ => appends_outside_note id
  have hshutdown : Appends (fun t => t.1.events) (fun e => ¬ e.IsCall) (l.observed n).backend.shutdown :=
    (appends_outside_note id).bind fun _ => appends_operate _
  exact hstart.bind fun _ => (appends_prepare id id).cleaned hshutdown

end

end EngineBridge
