import EngineBridge.Proofs.Host.Silence

/-! What an engine gets from a ready host, call after call. The world around the backend records each request that goes
to it and what came of it, so that every response that an engine gets can be traced to the call during which the backend
completed it. A response that does not fit is kept until the next call, and only for its own request. -/

namespace EngineBridge
open Outcome

/-- What went to a backend, and what came of it. -/
structure Dispatched where
  request : List UInt8
  outcome : Except (Stop RuntimeError) DispatchAnswer

namespace Dispatched

/-- The request and its response, if the backend completed one. -/
def completion? (d : Dispatched) : Option (List UInt8 × List UInt8) :=
  match d.outcome with
  | .ok ⟨.completed written, response⟩ => some (d.request, response.take written)
  | _ => none

end Dispatched

/-- A world, and what was sent to the backend in it so far. -/
structure Recorded (σ : Type) where
  world : σ
  dispatches : List Dispatched

section
variable {σ β ρ : Type}

/-- The backend in a world that records what is sent to it. The backend cannot read the record. -/
def Backend.recorded (b : Backend σ β) : Backend (Recorded σ) β where
  start c := besides (b.start c)
  loadAssembly p := besides (b.loadAssembly p)
  resolveEntryPoint e := besides (b.resolveEntryPoint e)
  dispatch state request buffer := fun w =>
    let (outcome, world) := (b.dispatch state request buffer).runOn w.world
    (outcome, ⟨world, w.dispatches ++ [⟨request, outcome⟩]⟩)
  shutdown := besides b.shutdown
where
  besides {ε : Type} (a : Action (σ × β) ε Unit) : Action (Recorded σ × β) ε Unit :=
    Action.within (fun s => (s.1.world, s.2)) (fun t s => ({ s.1 with world := t.1 }, t.2)) a

namespace Host

/-- The room that a dispatcher asks for and is given. -/
def askedRoom (capacity : Nat) (answer : DispatchAnswer) : Option Nat :=
  match answer.status with
  | .bufferTooSmall needed => if capacity < needed then some needed else none
  | _ => none

/-- What the last answer of a dispatcher comes to. -/
def concluded (label : String) (answer : DispatchAnswer) : Except HostError (List UInt8) :=
  match answer.status with
  | .completed written => .ok (answer.response.take written)
  | .bufferTooSmall needed =>
    .error (.runtime (.protocol (label ++ " needs " ++ toString needed ++ " response bytes after retry")))
  | .exception text => .error (.managedException text)
  | .methodNotFound => .error (.unknownFunction label)

theorem forward_ready (g : Nat) (r : Runtime σ β ρ) (label : String) (request : List UInt8) (capacity : Nat) :
    (Host.ready g r).forward label request capacity = (do
      let first ← r.dispatch request capacity
      match askedRoom capacity first with
      | some needed => do
        let answer ← r.dispatch request needed
        Action.ofExcept (concluded label answer)
      | none => Action.ofExcept (concluded label first)) := by
  have hlast : ∀ answer : DispatchAnswer, (match answer.status with
      | .completed written => pure (List.take written answer.response)
      | .bufferTooSmall needed =>
        Action.fail (.runtime (.protocol (label ++ " needs " ++ toString needed ++ " response bytes after retry")))
      | .exception text => Action.fail (.managedException text)
      | .methodNotFound => Action.fail (.unknownFunction label) : Action σ HostError (List UInt8)) =
        Action.ofExcept (concluded label answer) := by
    rintro ⟨_ | _ | _ | _, response⟩ <;> rfl
  simp only [forward, running, Action.ofExcept, pure_bind]
  refine bind_congr fun first => ?_
  obtain ⟨_ | needed | _ | _, response⟩ := first
  · rfl
  · simp only [askedRoom]
    split
    · exact bind_congr hlast
    · rfl
  · rfl
  · rfl

end Host

variable {k : Backend σ β} {r : Runtime (Recorded σ) β ρ} {request : List UInt8}

/-- What is completed by the dispatches that the action adds to the record, with what was completed before, is what
the action gives, if it gives something. -/
def Records (request : List UInt8) (before : Option (List UInt8 × List UInt8))
    (a : Action (Recorded σ) HostError (List UInt8)) : Prop :=
  ∀ w, ∃ sent, (a.runOn w).2.dispatches = w.dispatches ++ sent ∧
    before.toList ++ sent.filterMap Dispatched.completion? = ((a.runOn w).1.toOption.map (request, ·)).toList

/-- The last answer is recorded already when the action looks at it. -/
theorem records_concluded (label : String) (answer : DispatchAnswer) :
    Records request (Dispatched.completion? ⟨request, .ok answer⟩)
      (Action.ofExcept (Host.concluded label answer) : Action (Recorded σ) HostError (List UInt8)) := by
  obtain ⟨_ | _ | _ | _, response⟩ := answer <;> exact fun w => ⟨[], by simp [Host.concluded]; rfl, rfl⟩

theorem records_dispatch (hr : r.backend = k.recorded) (capacity : Nat)
    {f : DispatchAnswer → Action (Recorded σ) HostError (List UInt8)}
    (hf : ∀ answer, Records request (Dispatched.completion? ⟨request, .ok answer⟩) (f answer)) :
    Records request none (r.dispatch request capacity >>= f) := by
  intro w
  let result := (k.dispatch r.state request (Buffer.zeroed capacity)).runOn w.world
  have hrun : (r.dispatch request capacity).run.run w =
      (result.1.mapError (Action.Stop.map .runtime), ⟨result.2, w.dispatches ++ [⟨request, result.1⟩]⟩) := by
    unfold Runtime.dispatch
    rw [hr]
    rfl
  unfold Action.runOn
  rcases hresult : result.1 with stop | answer <;> rw [hresult] at hrun
  · rw [run_bind_of_error hrun f]
    exact ⟨[_], rfl, rfl⟩
  · obtain ⟨sent, hsent, hcompleted⟩ := hf answer ⟨result.2, w.dispatches ++ [⟨request, .ok answer⟩]⟩
    rw [run_bind_of_ok hrun f]
    refine ⟨⟨request, .ok answer⟩ :: sent, ?_, ?_⟩
    · exact hsent.trans (by simp)
    · refine Eq.trans ?_ hcompleted
      rw [List.filterMap_cons]
      cases Dispatched.completion? ⟨request, .ok answer⟩ <;> rfl

theorem records_forward (hr : r.backend = k.recorded) (g : Nat) (label : String) (request : List UInt8)
    (capacity : Nat) :
    Records request none ((Host.ready g r).forward label request capacity) := by
  rw [Host.forward_ready]
  refine records_dispatch hr capacity fun first => ?_
  cases hasked : Host.askedRoom capacity first with
  | none => exact records_concluded label first
  | some needed =>
    have hnone : Dispatched.completion? ⟨request, .ok first⟩ = none := by
      obtain ⟨_ | _ | _ | _, response⟩ := first
      · cases hasked
      · rfl
      · rfl
      · rfl
    rw [hnone]
    exact records_dispatch hr needed fun answer => records_concluded label answer

end

/-! ### Calls -/

/-- An invocation with lengths and buffers as they should be. -/
structure ProperInvocation where
  invocation : Invocation
  request : List UInt8
  checked : Boundary.checked invocation = .ok request

/-- A call, what it gave back, and what went to the backend because of it. -/
structure Exchange where
  request : List UInt8
  room : Nat
  delivery : Delivery
  dispatches : List Dispatched

namespace Exchange

/-- The responses that the backend completed during the call, with their requests. -/
def completed (x : Exchange) : List (List UInt8 × List UInt8) := x.dispatches.filterMap Dispatched.completion?

def Succeeded (x : Exchange) : Prop := x.delivery.status = Boundary.successStatus

def LackedRoom (x : Exchange) : Prop := x.delivery.status = Boundary.tooSmallStatus

theorem Succeeded.not_lackedRoom {x : Exchange} (h : x.Succeeded) : ¬x.LackedRoom := by
  rw [LackedRoom, h]
  decide

end Exchange

namespace Boundary
variable {σ β ρ : Type} {b b' : Boundary (Recorded σ) β ρ} {k : Backend σ β} {r : Runtime (Recorded σ) β ρ} {g : Nat}
  {p : ProperInvocation} {request request' w : List UInt8}

def exchange (b : Boundary (Recorded σ) β ρ) (p : ProperInvocation) : Exchange where
  request := p.request
  room := room p.invocation
  delivery := ((invoke p.invocation).run b).1
  dispatches := (b.act (.invoke p.invocation)).setting.world.dispatches.drop b.setting.world.dispatches.length

/-- The calls one after the other. -/
def exchanges (b : Boundary (Recorded σ) β ρ) : List ProperInvocation → List Exchange
  | [] => []
  | p :: ps => b.exchange p :: (b.act (.invoke p.invocation)).exchanges ps

/-- Where a call has its response from: it was kept, or it is what the backend completes now. -/
inductive Obtained (kept : Option (List UInt8 × List UInt8)) (request : List UInt8) (sent : List Dispatched) :
    Option (List UInt8) → Prop
  | kept {w : List UInt8} : kept = some (request, w) → sent = [] → Obtained kept request sent (some w)
  | completed {result : Option (List UInt8)} : (∀ w, kept ≠ some (request, w)) →
    sent.filterMap Dispatched.completion? = (result.map (request, ·)).toList → Obtained kept request sent result

theorem response_obtained (hb : b.setting.host = .ready g r) (hr : r.backend = k.recorded) (request : List UInt8)
    (capacity : Nat) :
    ∃ sent, ((response request capacity).runOn b).2.setting.host = .ready g r ∧
      ((response request capacity).runOn b).2.setting.world.dispatches = b.setting.world.dispatches ++ sent ∧
      Obtained b.undelivered request sent ((response request capacity).runOn b).1.toOption := by
  by_cases h : ∃ w, b.undelivered = some (request, w)
  · obtain ⟨w, h⟩ := h
    rw [response_kept h]
    exact ⟨[], hb, by simp, .kept h rfl⟩
  · have hkept : ∀ w, b.undelivered ≠ some (request, w) := fun w hw => h ⟨w, hw⟩
    rw [response_fresh hkept, hb]
    obtain ⟨sent, hsent, hcompleted⟩ := records_forward hr g label request capacity b.setting.world
    exact ⟨sent, rfl, hsent, .completed hkept hcompleted⟩

/-- What a call with a response, or without one, gives back, and what is kept after it. -/
inductive Settles (request : List UInt8) (room : Nat) :
    Option (List UInt8) → Delivery → Option (List UInt8 × List UInt8) → Prop
  | delivered {w : List UInt8} : w.length < lengthLimit → w.length ≤ room →
    Settles request room (some w) ⟨successStatus, some w.length, w⟩ none
  | refused {w : List UInt8} : w.length < lengthLimit → room < w.length →
    Settles request room (some w) ⟨tooSmallStatus, some w.length, []⟩ (some (request, w))
  | failed {result : Option (List UInt8)} {status : Int} :
    (∀ w, result = some w → lengthLimit ≤ w.length) → status < 0 →
    Settles request room result ⟨status, none, []⟩ none

theorem Obtained.completed_length {kept : Option (List UInt8 × List UInt8)} {sent : List Dispatched}
    {result : Option (List UInt8)} (h : Obtained kept request sent result) :
    (sent.filterMap Dispatched.completion?).length ≤ 1 := by
  cases h with
  | kept _ hsent => simp [hsent]
  | completed _ hsent => cases result <;> simp [hsent]

namespace Settles
variable {capacity : Nat} {result : Option (List UInt8)} {d : Delivery} {kept : Option (List UInt8 × List UInt8)}

theorem of_success (h : Settles request capacity result d kept) (hd : d.status = successStatus) :
    ∃ w, result = some w ∧ d = ⟨successStatus, some w.length, w⟩ := by
  cases h with
  | delivered => exact ⟨_, rfl, rfl⟩
  | refused => cases hd
  | failed _ hneg =>
    cases hd
    cases hneg

theorem of_tooSmall (h : Settles request capacity result d kept) (hd : d.status = tooSmallStatus) :
    ∃ w, result = some w ∧ capacity < w.length ∧ d = ⟨tooSmallStatus, some w.length, []⟩ ∧
      kept = some (request, w) := by
  cases h with
  | delivered => cases hd
  | refused _ hroom => exact ⟨_, rfl, hroom, rfl, rfl⟩
  | failed _ hneg =>
    cases hd
    cases hneg

theorem of_kept (h : Settles request capacity result d (some (request', w))) :
    request' = request ∧ result = some w ∧ w.length < lengthLimit ∧ d.status = tooSmallStatus := by
  cases h with
  | refused hlimit _ => exact ⟨rfl, rfl, hlimit, rfl⟩

theorem of_fits (h : Settles request capacity (some w) d kept) (hlimit : w.length < lengthLimit)
    (hroom : w.length ≤ capacity) : d = ⟨successStatus, some w.length, w⟩ := by
  cases h with
  | delivered => rfl
  | refused _ hless => omega
  | failed hlarge => exact absurd hlimit (Nat.not_lt.mpr (hlarge w rfl))

end Settles

theorem statusOf_neg (stop : Stop HostError) : statusOf stop < 0 := by
  rcases stop with e | _
  · cases e <;> simp [statusOf, HostError.status]
  · decide

theorem exchange_eq {d : Delivery} {sent : List Dispatched} (h : (invoke p.invocation).run b = (d, b'))
    (hsent : b'.setting.world.dispatches = b.setting.world.dispatches ++ sent) :
    b.act (.invoke p.invocation) = b' ∧ b.exchange p = ⟨p.request, room p.invocation, d, sent⟩ := by
  have hact : b.act (.invoke p.invocation) = b' := congrArg Prod.snd h
  refine ⟨hact, ?_⟩
  simp [exchange, hact, hsent, h]

/-- What a call does while the host is ready. -/
theorem exchange_settles (hb : b.setting.host = .ready g r) (hr : r.backend = k.recorded) (p : ProperInvocation) :
    ∃ result d sent, b.exchange p = ⟨p.request, room p.invocation, d, sent⟩ ∧
      Obtained b.undelivered p.request sent result ∧
      Settles p.request (room p.invocation) result d (b.act (.invoke p.invocation)).undelivered ∧
      (b.act (.invoke p.invocation)).setting.host = .ready g r := by
  obtain ⟨sent, hhost, hsent, hobtained⟩ := response_obtained hb hr p.request (room p.invocation)
  have hinvoke := invoke_checked (b := b) p.checked
  have hnone := response_undelivered (b := b) p.request (room p.invocation)
  rcases hresponse : (response p.request (room p.invocation)).runOn b with ⟨stop | w, b₁⟩ <;>
    rw [hresponse] at hinvoke hhost hsent hobtained hnone <;> dsimp only at hinvoke hhost hsent hobtained hnone
  · obtain ⟨hact, hexchange⟩ := exchange_eq hinvoke hsent
    refine ⟨none, _, sent, hexchange, hobtained, ?_, hact ▸ hhost⟩
    rw [hact, hnone]
    exact .failed nofun (statusOf_neg stop)
  · refine ⟨some w, ?_⟩
    split_ifs at hinvoke with hlarge hroom
    · obtain ⟨hact, hexchange⟩ := exchange_eq hinvoke hsent
      refine ⟨_, sent, hexchange, hobtained, ?_, hact ▸ hhost⟩
      rw [hact, hnone]
      exact .failed (by rintro _ ⟨⟩; exact hlarge) (by decide)
    · obtain ⟨hact, hexchange⟩ := exchange_eq hinvoke hsent
      refine ⟨_, sent, hexchange, hobtained, ?_, hact ▸ hhost⟩
      rw [hact, handedOver, if_pos hroom]
      exact .refused (Nat.lt_of_not_le hlarge) hroom
    · obtain ⟨hact, hexchange⟩ := exchange_eq hinvoke hsent
      refine ⟨_, sent, hexchange, hobtained, ?_, hact ▸ hhost⟩
      rw [hact, hnone, handedOver, if_neg hroom]
      exact .delivered (Nat.lt_of_not_le hlarge) (Nat.le_of_not_lt hroom)

end Boundary

/-! ### Where responses come from -/

/-- Call `k` has the response `w`, and the backend completed it during call `j`: either these are the same call, or the
call before had too little room for the response, and call `k` repeats the request and sends nothing to the backend. -/
inductive Origin (calls : List Exchange) : Nat → Nat → List UInt8 → Prop
  | completed {k : Nat} {x : Exchange} {w : List UInt8} :
    calls[k]? = some x → x.completed = [(x.request, w)] → Origin calls k k w
  | kept {k j : Nat} {x y : Exchange} {w : List UInt8} : Origin calls k j w → calls[k]? = some x → x.LackedRoom →
    calls[k + 1]? = some y → y.request = x.request → y.dispatches = [] → Origin calls (k + 1) j w

/-- Each response goes to its own request, and no response is handed out twice. -/
structure Orderly (calls : List Exchange) : Prop where
  /-- During a call the backend completes one response at most. -/
  single : ∀ x ∈ calls, x.completed.length ≤ 1
  /-- A call that succeeds hands out all of its response. -/
  succeeded : ∀ {k x}, calls[k]? = some x → x.Succeeded →
    ∃ j w, Origin calls k j w ∧ x.delivery = ⟨Boundary.successStatus, some w.length, w⟩
  /-- A call that had too little room tells how long its response is, which is longer than the room. -/
  lackedRoom : ∀ {k x}, calls[k]? = some x → x.LackedRoom →
    ∃ j w, Origin calls k j w ∧ x.room < w.length ∧ x.delivery = ⟨Boundary.tooSmallStatus, some w.length, []⟩
  /-- The response of a call was completed for the request of the call, by then. -/
  completed : ∀ {k j w x}, Origin calls k j w → calls[k]? = some x →
    j ≤ k ∧ ∃ y, calls[j]? = some y ∧ y.completed = [(x.request, w)]
  /-- Calls that succeed hand out responses that were completed during different calls. -/
  once : ∀ {k k' j w w' x x'}, Origin calls k j w → Origin calls k' j w' → calls[k]? = some x → calls[k']? = some x' →
    x.Succeeded → x'.Succeeded → k = k'
  /-- The request is repeated with enough room, and gets the response, and nothing goes to the backend. -/
  repeated : ∀ {k j w x y}, calls[k]? = some x → x.LackedRoom → calls[k + 1]? = some y → y.request = x.request →
    Origin calls k j w → w.length ≤ y.room →
    y.delivery = ⟨Boundary.successStatus, some w.length, w⟩ ∧ y.dispatches = []

namespace Origin
variable {calls more : List Exchange} {k k' j j' : Nat} {x y : Exchange} {w w' : List UInt8}

theorem append (h : Origin calls k j w) (more : List Exchange) : Origin (calls ++ more) k j w := by
  have hfound : ∀ {k x}, calls[k]? = some x → (calls ++ more)[k]? = some x := fun hk => by
    rw [List.getElem?_append_left (List.getElem?_eq_some_iff.mp hk).1, hk]
  induction h with
  | completed hk hx => exact .completed (hfound hk) hx
  | kept _ hk hx hy hrequest hnone ih => exact .kept ih (hfound hk) hx (hfound hy) hrequest hnone

theorem functional (h : Origin calls k j w) (h' : Origin calls k j' w') : j = j' ∧ w = w' := by
  induction h with
  | completed hk hx =>
    cases h' with
    | completed hk' hx' =>
      cases hk.symm.trans hk'
      simpa using hx.symm.trans hx'
    | kept _ _ _ hy _ hnone =>
      cases hk.symm.trans hy
      simp [Exchange.completed, hnone] at hx
  | kept _ _ _ hy _ hnone ih =>
    cases h' with
    | completed hk' hx' =>
      cases hy.symm.trans hk'
      simp [Exchange.completed, hnone] at hx'
    | kept h' _ _ _ _ _ => exact ih h'

theorem completed_for (h : Origin calls k j w) (hk : calls[k]? = some x) :
    j ≤ k ∧ ∃ y, calls[j]? = some y ∧ y.completed = [(x.request, w)] := by
  induction h generalizing x with
  | completed hk' hx =>
    cases hk.symm.trans hk'
    exact ⟨Nat.le_refl _, _, hk, hx⟩
  | kept _ hk' _ hy hrequest _ ih =>
    cases hk.symm.trans hy
    obtain ⟨hle, hj⟩ := ih hk'
    exact ⟨Nat.le_succ_of_le hle, hrequest ▸ hj⟩

/-- From the call during which a response was completed on, all calls before this one had too little room. -/
theorem lackedRoom_between (h : Origin calls k j w) {m : Nat} (hj : j ≤ m) (hm : m < k) (hx : calls[m]? = some x) :
    x.LackedRoom := by
  induction h with
  | completed => omega
  | @kept k _ _ _ _ h hk hlacked _ _ _ ih =>
    rcases Nat.lt_succ_iff_lt_or_eq.mp hm with hm | rfl
    · exact ih hj hm
    · cases hx.symm.trans hk
      exact hlacked

/-- A response that a call handed out is no longer kept. -/
theorem eq_of_succeeded (h : Origin calls k j w) (h' : Origin calls k' j w') (hk : calls[k]? = some x)
    (hk' : calls[k']? = some y) (hx : x.Succeeded) (hy : y.Succeeded) : k = k' := by
  rcases Nat.lt_trichotomy k k' with hlt | heq | hlt
  · exact absurd (h'.lackedRoom_between (h.completed_for hk).1 hlt hk) hx.not_lackedRoom
  · exact heq
  · exact absurd (h.lackedRoom_between (h'.completed_for hk').1 hlt hk') hy.not_lackedRoom

end Origin

theorem concat_cases {calls : List Exchange} {x z : Exchange} {k : Nat} (h : (calls ++ [x])[k]? = some z) :
    calls[k]? = some z ∨ k = calls.length ∧ x = z := by
  rcases List.mem_append.mp (List.mem_of_getElem? h) with _ | _ <;> grind

namespace Boundary
variable {σ β ρ : Type} {b : Boundary (Recorded σ) β ρ} {k : Backend σ β} {r : Runtime (Recorded σ) β ρ} {g : Nat}

/-- What holds between two calls. -/
structure Sound (g : Nat) (r : Runtime (Recorded σ) β ρ) (calls : List Exchange)
    (b : Boundary (Recorded σ) β ρ) : Prop where
  ready : b.setting.host = .ready g r
  orderly : Orderly calls
  /-- What is kept is the response of the last call, which had too little room for it. -/
  kept : ∀ {request w}, b.undelivered = some (request, w) → w.length < lengthLimit ∧
    ∃ k j x, calls.length = k + 1 ∧ calls[k]? = some x ∧ x.request = request ∧ x.LackedRoom ∧ Origin calls k j w
  lackedRoom : ∀ {k x}, calls.length = k + 1 → calls[k]? = some x → x.LackedRoom →
    ∃ w, b.undelivered = some (x.request, w)

theorem Sound.begin (hready : b.setting.host = .ready g r) (hnone : b.undelivered = none) : Sound g r [] b where
  ready := hready
  orderly := ⟨by simp, by simp, by simp, Origin.completed_for, Origin.eq_of_succeeded, by simp⟩
  kept := by simp [hnone]
  lackedRoom := by simp

/-- The response of the next call has its origin in that call, or in the calls before. -/
theorem Sound.origin_next {calls : List Exchange} (h : Sound g r calls b) {x : Exchange} {w : List UInt8}
    (hx : Obtained b.undelivered x.request x.dispatches (some w)) : ∃ j, Origin (calls ++ [x]) calls.length j w := by
  have hlast : (calls ++ [x])[calls.length]? = some x := by simp
  cases hx with
  | completed hkept hsent => exact ⟨_, .completed hlast hsent⟩
  | kept hkept hsent =>
    obtain ⟨-, k, j, y, hlength, hk, hrequest, hlacked, horigin⟩ := h.kept hkept
    have hk' : (calls ++ [x])[k]? = some y := by rw [List.getElem?_append_left (by omega), hk]
    rw [hlength] at hlast ⊢
    exact ⟨j, .kept (horigin.append _) hk' hlacked hlast hrequest.symm hsent⟩

theorem Sound.next {calls : List Exchange} (h : Sound g r calls b) (hr : r.backend = k.recorded)
    (p : ProperInvocation) : Sound g r (calls ++ [b.exchange p]) (b.act (.invoke p.invocation)) := by
  obtain ⟨result, d, sent, hx, hobtained, hsettles, hready⟩ := exchange_settles h.ready hr p
  rw [hx]
  set x : Exchange := ⟨p.request, room p.invocation, d, sent⟩
  have hlast : (calls ++ [x])[calls.length]? = some x := by simp
  refine ⟨hready, ⟨?single, ?succeeded, ?lackedRoom, Origin.completed_for, Origin.eq_of_succeeded, ?repeated⟩,
    ?kept, ?last⟩
  case single =>
    rintro z hz
    rcases List.mem_append.mp hz with hz | hz
    · exact h.orderly.single z hz
    · cases List.mem_singleton.mp hz
      exact hobtained.completed_length
  case succeeded =>
    intro k z hk hz
    rcases concat_cases hk with hk | ⟨rfl, rfl⟩
    · obtain ⟨j, w, horigin, hd⟩ := h.orderly.succeeded hk hz
      exact ⟨j, w, horigin.append _, hd⟩
    · obtain ⟨w, rfl, hd⟩ := hsettles.of_success hz
      obtain ⟨j, horigin⟩ := h.origin_next (x := x) hobtained
      exact ⟨j, w, horigin, hd⟩
  case lackedRoom =>
    intro k z hk hz
    rcases concat_cases hk with hk | ⟨rfl, rfl⟩
    · obtain ⟨j, w, horigin, hroom, hd⟩ := h.orderly.lackedRoom hk hz
      exact ⟨j, w, horigin.append _, hroom, hd⟩
    · obtain ⟨w, rfl, hroom, hd, -⟩ := hsettles.of_tooSmall hz
      obtain ⟨j, horigin⟩ := h.origin_next (x := x) hobtained
      exact ⟨j, w, horigin, hroom, hd⟩
  case repeated =>
    intro k j w y z hk hy hnext hrequest horigin hroom
    have hold : k < calls.length := by
      have := (List.getElem?_eq_some_iff.mp hnext).1
      simp at this
      omega
    rw [List.getElem?_append_left hold] at hk
    -- The repetition was among the calls before, or it is this call, which finds what the last one left.
    rcases concat_cases hnext with hnext | ⟨hlength, rfl⟩
    · obtain ⟨j', w', horigin', -⟩ := h.orderly.lackedRoom hk hy
      obtain ⟨rfl, rfl⟩ := horigin.functional (horigin'.append _)
      exact h.orderly.repeated hk hy hnext hrequest horigin' hroom
    · obtain ⟨w', hkept⟩ := h.lackedRoom hlength.symm hk hy
      obtain ⟨hlimit, k', j', -, hlength', -, -, -, horigin'⟩ := h.kept hkept
      obtain rfl : k = k' := by omega
      obtain ⟨-, rfl⟩ := horigin.functional (horigin'.append _)
      rw [← hrequest] at hkept
      cases hobtained with
      | completed hother => exact absurd hkept (hother w)
      | kept hkept' hsent =>
        cases hkept.symm.trans hkept'
        exact ⟨hsettles.of_fits hlimit hroom, hsent⟩
  case kept =>
    intro request w hkept
    rw [hkept] at hsettles
    obtain ⟨rfl, rfl, hlimit, htooSmall⟩ := hsettles.of_kept
    obtain ⟨j, horigin⟩ := h.origin_next (x := x) hobtained
    exact ⟨hlimit, calls.length, j, x, by simp, hlast, rfl, htooSmall, horigin⟩
  case last =>
    intro k z hk hz hlacked
    obtain rfl : k = calls.length := by simpa using hk.symm
    cases hlast.symm.trans hz
    obtain ⟨w, -, -, -, hkept⟩ := hsettles.of_tooSmall hlacked
    exact ⟨w, hkept⟩

/-- The induction is on the calls that are to come, after those that were. -/
theorem Sound.exchanges {calls : List Exchange} (h : Sound g r calls b) (hr : r.backend = k.recorded)
    (ps : List ProperInvocation) : Orderly (calls ++ b.exchanges ps) := by
  induction ps generalizing calls b with
  | nil =>
    rw [Boundary.exchanges, List.append_nil]
    exact h.orderly
  | cons p ps ih =>
    rw [Boundary.exchanges, List.append_cons]
    exact ih (h.next hr p)

/-- Each response goes to its own request, and no response is handed out twice, however often an engine asks and with
however little room. -/
theorem exchanges_orderly (b : Boundary (Recorded σ) β ρ) (k : Backend σ β) (g : Nat) (r : Runtime (Recorded σ) β ρ)
    (ps : List ProperInvocation) (hready : b.setting.host = .ready g r) (hbackend : r.backend = k.recorded)
    (hnone : b.undelivered = none) : Orderly (b.exchanges ps) :=
  (Sound.begin hready hnone).exchanges hbackend ps

namespace TwoBytes

def runtime : Runtime (Recorded Unit) Unit Unit := ⟨backend.recorded, (), (), []⟩

def ready : Boundary (Recorded Unit) Unit Unit := ⟨⟨⟨(), []⟩, .ready 1 runtime, 2⟩, none⟩

def properAttempt (capacity : Int32) (h : checked (attempt capacity) = .ok [7]) : ProperInvocation :=
  ⟨attempt capacity, [7], h⟩

/-- There is too little room, then there is enough, and then the request is made anew. -/
def attempts : List ProperInvocation :=
  [properAttempt 1 (by decide), properAttempt 2 (by decide), properAttempt 2 (by decide)]

end TwoBytes

section
open TwoBytes

theorem exchanges_orderly_twoBytes :
    (ready.exchanges attempts).map (·.delivery) =
        [⟨tooSmallStatus, some 2, []⟩, ⟨successStatus, some 2, [170, 187]⟩, ⟨successStatus, some 2, [170, 187]⟩] ∧
      (ready.exchanges attempts).map (·.dispatches.length) = [2, 0, 1] ∧ Orderly (ready.exchanges attempts) :=
  ⟨by decide, by decide, exchanges_orderly ready backend 1 runtime attempts rfl rfl rfl⟩

end

end Boundary
end EngineBridge
