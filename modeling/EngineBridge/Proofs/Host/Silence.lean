import EngineBridge.Host.Boundary
import EngineBridge.Proofs.Host.Stages
import Mathlib.Data.List.Induction

/-! What an engine hears from a host after its end.

A host that was shut down answers every invocation with the number for a host that is not there, and puts nothing into
the engine's memory. One thing outlives it: a response that did not fit before the end stays kept, and goes to whoever
repeats its request before anything else is requested. -/

namespace EngineBridge
open Outcome

/-- What an engine may do with the host of its process. -/
inductive BoundaryOperation (σ β ρ : Type)
  | start (s : Surroundings σ) (launch : HostConfig → Launch σ β ρ) (base manifest nativeModule : Option String)
  | invoke (i : Invocation)
  | shutdown

namespace Boundary
variable {σ β ρ : Type}

def act (b : Boundary σ β ρ) : BoundaryOperation σ β ρ → Boundary σ β ρ
  | .start s launch base manifest nativeModule => ((start s launch base manifest nativeModule).run b).2
  | .invoke i => ((invoke i).run b).2
  | .shutdown => (shutdown.run b).2

/-- The host after all these operations. -/
def afterAll (b : Boundary σ β ρ) (ops : List (BoundaryOperation σ β ρ)) : Boundary σ β ρ := ops.foldl act b

/-- The room that an invocation has for a response. -/
abbrev room (i : Invocation) : Nat := i.capacity.toInt.toNat

/-- The answer of a host that is not there. -/
def absent : Delivery := ⟨HostError.notInitialized.status, none, []⟩

/-- The delivery of a response into so much room. -/
def handedOver (room : Nat) (response : List UInt8) : Delivery :=
  if room < response.length then ⟨tooSmallStatus, some response.length, []⟩
  else ⟨successStatus, some response.length, response⟩

/-- If the operation is a proper invocation, it repeats the request and has too little room for a response so long. -/
def Repeats (request : List UInt8) (length : Nat) (op : BoundaryOperation σ β ρ) : Prop :=
  ∀ i, op = .invoke i → ∀ r, checked i = .ok r → r = request ∧ room i < length

/-- The request was made when there was too little room for its response, and since then it was only repeated so. -/
def Owed (b : Boundary σ β ρ) (ops : List (BoundaryOperation σ β ρ)) (request response : List UInt8) : Prop :=
  ∃ front i rest, ops = front ++ .invoke i :: rest ∧ checked i = .ok request ∧ room i < response.length ∧
    ((invoke i).run (b.afterAll front)).1 = handedOver (room i) response ∧
    ∀ op ∈ rest, Repeats request response.length op

/-! ### Steps -/

section
variable {b : Boundary σ β ρ} {i : Invocation} {request : List UInt8}

theorem repeats_unchecked {e : HostError} (h : checked i = .error e) (length : Nat) :
    Repeats request length (.invoke i : BoundaryOperation σ β ρ) := by
  rintro j ⟨⟩ r hr
  cases h.symm.trans hr

theorem repeats_iff {r : List UInt8} (h : checked i = .ok r) {length : Nat} :
    Repeats request length (.invoke i : BoundaryOperation σ β ρ) ↔ r = request ∧ room i < length := by
  constructor
  · exact fun hrepeats => hrepeats i rfl r h
  · rintro hrepeats j ⟨⟩ r' hr
    cases h.symm.trans hr
    exact hrepeats

theorem run_invoke : (invoke i).run b =
    match (deliver i).runOn b with
    | (.ok delivery, b) => (delivery, b)
    | (.error stop, b) => (⟨statusOf stop, none, []⟩, b) := rfl

theorem invoke_unchecked {e : HostError} (h : checked i = .error e) :
    (invoke i).run b = (⟨e.status, none, []⟩, b) := by
  have hdeliver : (deliver i).runOn b = (.error (.failed e), b) := by
    refine run_bind_of_error ?_ _
    rw [h]
    rfl
  rw [run_invoke, hdeliver]
  rfl

/-- A proper invocation delivers what is the response to its request. -/
theorem invoke_checked (h : checked i = .ok request) :
    (invoke i).run b =
      match (response request (room i)).runOn b with
      | (.error stop, b) => (⟨statusOf stop, none, []⟩, b)
      | (.ok response, b) =>
        if lengthLimit ≤ response.length then (⟨(HostError.marshal .responseTooLarge).status, none, []⟩, b)
        else if room i < response.length then
          (handedOver (room i) response, { b with undelivered := some (request, response) })
        else (handedOver (room i) response, b) := by
  have hrequest : (Action.ofExcept (checked i) : Action (Boundary σ β ρ) HostError _).run.run b = (.ok request, b) := by
    rw [h]
    rfl
  rw [run_invoke]
  unfold deliver Action.runOn
  rw [run_bind_of_ok hrequest]
  rcases hresponse : (response request (room i)).run.run b with ⟨stop | response, b'⟩
  · rw [run_bind_of_error hresponse]
  · rw [run_bind_of_ok hresponse]
    by_cases hlarge : lengthLimit ≤ response.length
    · simp only [if_pos hlarge]
      rfl
    · by_cases hroom : room i < response.length
      · simp only [handedOver, if_neg hlarge, if_pos hroom]
        rfl
      · simp only [handedOver, if_neg hlarge, if_neg hroom]
        rfl

theorem response_kept {kept : List UInt8} (h : b.undelivered = some (request, kept)) (capacity : Nat) :
    (response request capacity).runOn b = (.ok kept, { b with undelivered := none }) := by
  refine (run_bind_of_ok rfl _).trans ((run_bind_of_ok rfl _).trans ?_)
  dsimp only
  rw [h, Option.filter_some, if_pos (beq_self_eq_true request)]
  rfl

theorem response_fresh (h : ∀ kept, b.undelivered ≠ some (request, kept)) (capacity : Nat) :
    (response request capacity).runOn b =
      let (result, world) := (b.setting.host.forward label request capacity).runOn b.setting.world
      (result, ⟨{ b.setting with world }, none⟩) := by
  refine (run_bind_of_ok rfl _).trans ((run_bind_of_ok rfl _).trans ?_)
  have hnone : b.undelivered.filter (·.1 == request) = none := by
    rw [Option.filter_eq_none_iff]
    rintro ⟨q, kept⟩ hkept hq
    rw [beq_iff_eq] at hq
    subst hq
    exact h kept hkept
  dsimp only
  rw [hnone]
  rfl

/-- What was kept is given out or forgotten. -/
theorem response_undelivered (request : List UInt8) (capacity : Nat) :
    ((response request capacity).runOn b).2.undelivered = none := by
  by_cases h : ∃ kept, b.undelivered = some (request, kept)
  · obtain ⟨kept, h⟩ := h
    rw [response_kept h]
  · rw [response_fresh fun kept hkept => h ⟨kept, hkept⟩]

theorem guarded_undelivered (a : Action (Setting σ β ρ) HostError Unit) :
    ((guarded a).run b).2.undelivered = b.undelivered := by
  unfold guarded StateT.run
  dsimp only
  split <;> rfl

theorem act_unchecked {e : HostError} (h : checked i = .error e) : b.act (.invoke i) = b :=
  congrArg Prod.snd (invoke_unchecked (b := b) h)

/-- What is kept after an operation was kept before, or is a response that an invocation had too little room for. -/
theorem undelivered_act {op : BoundaryOperation σ β ρ} {response : List UInt8}
    (h : (b.act op).undelivered = some (request, response)) :
    b.undelivered = some (request, response) ∧ Repeats request response.length op ∨
      ∃ i, op = .invoke i ∧ checked i = .ok request ∧ room i < response.length ∧ response.length < lengthLimit ∧
        ((invoke i).run b).1 = handedOver (room i) response := by
  cases op with
  | start s launch base manifest nativeModule =>
    exact .inl ⟨(guarded_undelivered _).symm.trans h, fun i hi => by cases hi⟩
  | shutdown => exact .inl ⟨(guarded_undelivered _).symm.trans h, fun i hi => by cases hi⟩
  | invoke i =>
    rcases hchecked : checked i with e | r
    · rw [act_unchecked hchecked] at h
      exact .inl ⟨h, repeats_unchecked hchecked _⟩
    · have hinvoke := invoke_checked (b := b) hchecked
      have hnone := response_undelivered (b := b) r (room i)
      rcases hresponse : (Boundary.response r (room i)).runOn b with ⟨stop | response', b'⟩ <;>
        rw [hresponse] at hinvoke hnone <;> dsimp only at hinvoke hnone
      · rw [act, hinvoke, hnone] at h
        cases h
      · split_ifs at hinvoke with hlarge hroom
        · rw [act, hinvoke, hnone] at h
          cases h
        · rw [act, hinvoke] at h
          cases h
          exact .inr ⟨i, rfl, hchecked, hroom, Nat.lt_of_not_le hlarge, congrArg Prod.fst hinvoke⟩
        · rw [act, hinvoke, hnone] at h
          cases h

end

/-! ### Before the end -/

section
variable {b : Boundary σ β ρ} {ops : List (BoundaryOperation σ β ρ)} {request response : List UInt8}

theorem afterAll_concat (op : BoundaryOperation σ β ρ) : b.afterAll (ops ++ [op]) = (b.afterAll ops).act op := by
  simp [afterAll]

/-- Whatever is kept is owed, and is no longer than a response may be. -/
theorem owed_of_undelivered (hnone : b.undelivered = none)
    (h : (b.afterAll ops).undelivered = some (request, response)) :
    Owed b ops request response ∧ response.length < lengthLimit := by
  -- The induction is on the last operation, since what is kept is what the last ones left.
  induction ops using List.reverseRecOn with
  | nil => cases hnone.symm.trans h
  | append_singleton ops op ih =>
    rw [afterAll_concat] at h
    rcases undelivered_act h with ⟨hkept, hrepeats⟩ | ⟨i, rfl, hchecked, hroom, hlimit, hanswer⟩
    · obtain ⟨⟨front, i, rest, rfl, hchecked, hroom, hanswer, hrest⟩, hlimit⟩ := ih hkept
      refine ⟨⟨front, i, rest ++ [op], by simp, hchecked, hroom, hanswer, ?_⟩, hlimit⟩
      intro op' hop
      rcases List.mem_append.mp hop with hop | hop
      · exact hrest op' hop
      · rw [List.mem_singleton.mp hop]
        exact hrepeats
    · exact ⟨⟨ops, i, [], rfl, hchecked, hroom, hanswer, List.forall_mem_nil _⟩, hlimit⟩

end

/-! ### After the end -/

/-- The host's life is over. What is kept is no longer than a response may be. -/
structure Ended (b : Boundary σ β ρ) : Prop where
  terminated : ∃ failure, b.setting.host = .terminated failure
  fits : ∀ request response, b.undelivered = some (request, response) → response.length < lengthLimit

section
variable {b : Boundary σ β ρ} {i : Invocation} {request : List UInt8}

theorem run_guarded (a : Action (Setting σ β ρ) HostError Unit) :
    (guarded a).run b =
      match a.runOn b.setting with
      | (.ok (), setting) => (successStatus, { b with setting })
      | (.error stop, setting) => (statusOf stop, { b with setting }) := rfl

theorem statusOf_ne_success (stop : Stop HostError) : statusOf stop ≠ successStatus := by
  rcases stop with e | _
  · cases e <;> simp [statusOf, HostError.status, successStatus]
  · decide

theorem ended_of_shutdown (h : (shutdown.run b).1 = successStatus)
    (hfits : ∀ request response, b.undelivered = some (request, response) → response.length < lengthLimit) :
    (shutdown.run b).2.Ended := by
  have hkept : (shutdown.run b).2.undelivered = b.undelivered := guarded_undelivered _
  refine ⟨?_, hkept ▸ hfits⟩
  unfold shutdown at h ⊢
  rw [run_guarded] at h ⊢
  rcases hshutdown : Setting.shutdown.runOn b.setting with ⟨stop | ⟨⟩, setting⟩ <;> rw [hshutdown] at h
  · exact absurd h (statusOf_ne_success stop)
  · exact Setting.terminated_of_shutdown hshutdown

namespace Ended

theorem act_other (h : b.Ended) {op : BoundaryOperation σ β ρ} (hop : ∀ i, op ≠ .invoke i) : b.act op = b := by
  obtain ⟨failure, hterminated⟩ := h.terminated
  have hstate : b.setting.host.state = .terminated := by rw [hterminated]; rfl
  cases op with
  | invoke i => exact absurd rfl (hop i)
  | shutdown =>
    have hrefused := Setting.shutdown_refused (t := b.setting) (by simp [hstate]) (by simp [hstate])
    rw [Boundary.act, Boundary.shutdown, run_guarded, hrefused]
  | start s launch base manifest nativeModule =>
    rw [Boundary.act, Boundary.start, run_guarded]
    cases path? base with
    | none => rfl
    | some base =>
      dsimp only
      rw [Setting.start_refused (by simp [hstate])]

theorem invoke_kept (h : b.Ended) (hchecked : checked i = .ok request) {response : List UInt8}
    (hkept : b.undelivered = some (request, response)) :
    (invoke i).run b = (handedOver (room i) response,
      if room i < response.length then b else { b with undelivered := none }) := by
  have hlimit : ¬ lengthLimit ≤ response.length := Nat.not_le.mpr (h.fits _ _ hkept)
  rw [invoke_checked hchecked, response_kept hkept]
  dsimp only
  rw [if_neg hlimit]
  split
  · rw [← hkept]
  · rfl

theorem invoke_absent (h : b.Ended) (hchecked : checked i = .ok request)
    (hkept : ∀ response, b.undelivered ≠ some (request, response)) :
    (invoke i).run b = (absent, { b with undelivered := none }) := by
  obtain ⟨failure, hterminated⟩ := h.terminated
  have hforward : (b.setting.host.forward label request (room i)).runOn b.setting.world =
      (.error (.failed .notInitialized), b.setting.world) := by
    rw [hterminated]
    rfl
  rw [invoke_checked hchecked, response_fresh hkept, hforward]
  rfl

/-- After the end nothing changes but what is kept, and that stays only while its request is repeated with too little
room. -/
theorem act (h : b.Ended) (op : BoundaryOperation σ β ρ) :
    (b.act op).setting = b.setting ∧ ∀ request response, (b.act op).undelivered = some (request, response) ↔
      b.undelivered = some (request, response) ∧ Repeats request response.length op := by
  by_cases hop : ∀ i, op ≠ .invoke i
  · rw [h.act_other hop]
    exact ⟨rfl, fun request response => ⟨fun hkept => ⟨hkept, fun i hi => absurd hi (hop i)⟩, fun hkept => hkept.1⟩⟩
  obtain ⟨i, rfl⟩ : ∃ i, op = .invoke i := by simpa using hop
  rcases hchecked : checked i with e | r
  · rw [act_unchecked hchecked]
    exact ⟨rfl, fun q r => ⟨fun hkept => ⟨hkept, repeats_unchecked hchecked _⟩, fun hkept => hkept.1⟩⟩
  -- Only a request that is kept finds something there; any other drops what is kept.
  by_cases hmine : ∃ response, b.undelivered = some (r, response)
  · obtain ⟨kept, hkept⟩ := hmine
    rw [Boundary.act, h.invoke_kept hchecked hkept]
    dsimp only
    split
    case isTrue hroom =>
      refine ⟨rfl, fun request response => ⟨fun hkept' => ⟨hkept', ?_⟩, fun hkept' => hkept'.1⟩⟩
      cases hkept.symm.trans hkept'
      exact (repeats_iff hchecked).mpr ⟨rfl, hroom⟩
    case isFalse hroom =>
      refine ⟨rfl, fun request response => ⟨fun hkept' => (by cases hkept'), ?_⟩⟩
      rintro ⟨hkept', hrepeats⟩
      cases hkept.symm.trans hkept'
      exact absurd ((repeats_iff hchecked).mp hrepeats).2 hroom
  · have hinvoke := h.invoke_absent hchecked fun response hresponse => hmine ⟨response, hresponse⟩
    rw [Boundary.act, hinvoke]
    refine ⟨rfl, fun request response => ⟨fun hkept => (by cases hkept), ?_⟩⟩
    rintro ⟨hkept, hrepeats⟩
    obtain ⟨rfl, -⟩ := (repeats_iff hchecked).mp hrepeats
    exact absurd ⟨response, hkept⟩ hmine

theorem afterAll (h : b.Ended) (ops : List (BoundaryOperation σ β ρ)) :
    (b.afterAll ops).Ended ∧ ∀ request response, (b.afterAll ops).undelivered = some (request, response) ↔
      b.undelivered = some (request, response) ∧ ∀ op ∈ ops, Repeats request response.length op := by
  induction ops generalizing b with
  | nil => exact ⟨h, fun request response => by simp [Boundary.afterAll]⟩
  | cons op ops ih =>
    obtain ⟨hsetting, hkept⟩ := h.act op
    have hended : (b.act op).Ended := ⟨hsetting ▸ h.terminated, fun q r hr => h.fits q r ((hkept q r).mp hr).1⟩
    obtain ⟨hafter, hundelivered⟩ := ih hended
    refine ⟨hafter, fun request response => ?_⟩
    rw [List.forall_mem_cons, ← and_assoc, ← hkept]
    exact hundelivered request response

end Ended
end

/-- After a shutdown a proper invocation gets nothing, unless it asks for the one response that is still owed. -/
theorem silent_after_shutdown (world : σ) (before later : List (BoundaryOperation σ β ρ)) (i : Invocation)
    (request : List UInt8) (hshutdown : (shutdown.run ((fresh world).afterAll before)).1 = successStatus)
    (hchecked : checked i = .ok request) :
    let ended := (shutdown.run ((fresh world : Boundary σ β ρ).afterAll before)).2
    let answer := ((invoke i).run (ended.afterAll later)).1
    (∃ response, Owed (fresh world) before request response ∧ ended.undelivered = some (request, response) ∧
      (∀ op ∈ later, Repeats request response.length op) ∧ answer = handedOver (room i) response) ∨
    (∀ response, ended.undelivered = some (request, response) → ∃ op ∈ later, ¬ Repeats request response.length op) ∧
      answer = absent := by
  intro ended answer
  have hnone : (fresh world : Boundary σ β ρ).undelivered = none := rfl
  have hkept : ended.undelivered = ((fresh world).afterAll before).undelivered := guarded_undelivered _
  have hended : ended.Ended := ended_of_shutdown hshutdown fun q r hr => (owed_of_undelivered hnone hr).2
  obtain ⟨hafter, hundelivered⟩ := hended.afterAll later
  by_cases howed : ∃ response, (ended.afterAll later).undelivered = some (request, response)
  · obtain ⟨response, howed⟩ := howed
    obtain ⟨hresponse, hrepeats⟩ := (hundelivered request response).mp howed
    refine .inl ⟨response, (owed_of_undelivered hnone (hkept ▸ hresponse)).1, hresponse, hrepeats, ?_⟩
    exact congrArg Prod.fst (hafter.invoke_kept hchecked howed)
  · refine .inr ⟨fun response hresponse => ?_, ?_⟩
    · by_contra hrepeats
      push Not at hrepeats
      exact howed ⟨response, (hundelivered request response).mpr ⟨hresponse, hrepeats⟩⟩
    · exact congrArg Prod.fst (hafter.invoke_absent hchecked fun response hresponse => howed ⟨response, hresponse⟩)

/-! ### A response that outlives its host -/

namespace TwoBytes

/-- A backend whose responses have two bytes. -/
def backend : Backend Unit Unit where
  start _ := pure ()
  loadAssembly _ := pure ()
  resolveEntryPoint _ := pure ()
  dispatch _ _ buffer := pure (if buffer.length < 2 then ⟨.bufferTooSmall 2, buffer⟩ else ⟨.completed 2, [170, 187]⟩)
  shutdown := pure ()

def embedding : Embedding Unit where
  setAssembliesPath _ := pure ()
  bootDomain _ _ := pure none
  openAssembly _ _ := pure none
  assemblyImage _ := pure none
  classFromName _ _ _ := pure none
  methodFromName _ _ _ := pure none
  unmanagedThunk _ := pure none
  callThunk _ _ buffer := pure (0, buffer, 0, none)
  objectText _ := pure (none, none)
  textBytes _ := pure none
  release := pure ()
  cleanup _ := pure ()

/-- Nothing is around the host. -/
def surroundings : Surroundings Unit := ⟨⟨[], [], []⟩, ⟨fun _ => none, ⟨fun _ => none, embedding⟩⟩⟩

def launch (config : HostConfig) : Launch Unit Unit Unit := ⟨backend, (), (), some fun _ => none, config⟩

/-- The request of one byte, with so much room. -/
def attempt (capacity : Int32) : Invocation := ⟨some [7], 1, capacity, true, true⟩

/-- The host is started, and its first response finds too little room. -/
def begun : List (BoundaryOperation Unit Unit Unit) :=
  [.start surroundings launch (some "base") none none, .invoke (attempt 1)]

end TwoBytes

section
open TwoBytes

/-- The response that did not fit is delivered after the shutdown. -/
theorem kept_response_outlives_host :
    (shutdown.run ((fresh ()).afterAll begun)).1 = successStatus ∧ checked (attempt 2) = .ok [7] ∧
      ((invoke (attempt 2)).run (shutdown.run ((fresh ()).afterAll begun)).2).1 = ⟨successStatus, some 2, [170, 187]⟩ ∧
      ((invoke (attempt 2)).run (shutdown.run ((fresh ()).afterAll begun)).2).1 ≠ absent := by
  decide

/-- Once it is delivered, the same request gets nothing. -/
theorem silent_after_delivery :
    (shutdown.run ((fresh ()).afterAll begun)).1 = successStatus ∧ checked (attempt 2) = .ok [7] ∧
      ((invoke (attempt 2)).run ((shutdown.run ((fresh ()).afterAll begun)).2.afterAll [.invoke (attempt 2)])).1 =
        absent := by
  refine ⟨by decide, by decide, ?_⟩
  have hkept : (shutdown.run ((fresh ()).afterAll begun)).2.undelivered = some ([7], [170, 187]) := by decide
  rcases silent_after_shutdown () begun [.invoke (attempt 2)] (attempt 2) [7] (by decide) (by decide) with
    ⟨response, -, hresponse, hrepeats, -⟩ | ⟨-, habsent⟩
  · cases hkept.symm.trans hresponse
    have hchecked : checked (attempt 2) = .ok [7] := by decide
    have hroom := ((repeats_iff hchecked).mp (hrepeats _ (List.mem_singleton_self _))).2
    exact absurd hroom (by decide)
  · exact habsent

end

end Boundary
end EngineBridge
