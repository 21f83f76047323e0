import EngineBridge.Host.Managed
import EngineBridge.Proofs.Host.Delivery
import EngineBridge.Proofs.Memory.Marks
import EngineBridge.Proofs.Wire.Acceptance

/-! Calls of managed methods.

The world around a dispatcher keeps a list of what it is asked, so that what a call comes to can be read off the list: a
call is settled by the last answer alone. Either that answer holds one value for each result, and they go where they
belong, or the arguments stay as they were. -/

namespace EngineBridge
open Outcome

/-- A request that went to a dispatcher, the room for its response, and what came of it. -/
structure Attempt where
  request : List UInt8
  room : Nat
  outcome : Except (Stop RuntimeError) DispatchAnswer

/-- A world, and what a dispatcher was asked in it so far. -/
structure Attempted (σ : Type) where
  world : σ
  attempts : List Attempt

section
variable {σ β : Type}

/-- The dispatcher in a world that keeps a list of what it is asked. The dispatcher cannot read the list. -/
def attempting (dispatch : β → List UInt8 → Buffer → Action σ RuntimeError DispatchAnswer) (state : β)
    (request : List UInt8) (buffer : Buffer) : Action (Attempted σ) RuntimeError DispatchAnswer := fun w =>
  let (outcome, world) := (dispatch state request buffer).runOn w.world
  (outcome, ⟨world, w.attempts ++ [⟨request, buffer.length, outcome⟩]⟩)

end

/-- The dispatcher is asked once, or a second time if it first asks for more room, and then gets the room it asks for. -/
inductive Tries (request : List UInt8) (capacity : Nat) : List Attempt → Prop
  | once {outcome : Except (Stop RuntimeError) DispatchAnswer}
      (h : ∀ needed response, outcome = .ok ⟨.bufferTooSmall needed, response⟩ → needed ≤ capacity) :
      Tries request capacity [⟨request, capacity, outcome⟩]
  | again {needed : Nat} {response : Buffer} {outcome : Except (Stop RuntimeError) DispatchAnswer}
      (h : capacity < needed) :
      Tries request capacity [⟨request, capacity, .ok ⟨.bufferTooSmall needed, response⟩⟩, ⟨request, needed, outcome⟩]

/-- The last attempt was completed with these bytes. -/
def Completed (sent : List Attempt) (bytes : List UInt8) : Prop :=
  ∃ a written response, sent.getLast? = some a ∧ a.outcome = .ok ⟨.completed written, response⟩ ∧
    bytes = response.take written

/-- A list of values is read from the bytes, and nothing is left of them. -/
def Wire.Holds (bytes : List UInt8) (vs : List Value) : Prop :=
  ∃ place, values.run.run (.start bytes) = (.ok vs, ⟨place, []⟩)

namespace ManagedMethod

/-- The last attempt was completed with a value for the result, if there is one, and for every argument that goes
out. -/
def Answers (m : ManagedMethod) (sent : List Attempt) (vs : List Value) : Prop :=
  ∃ bytes, Completed sent bytes ∧ Wire.Holds bytes vs ∧
    vs.length = (if m.returns then 1 else 0) + m.directions.countP (· ≠ .inward)

/-- Those of the arguments that go out are the values `out`, in their order, and the others are as they were. -/
structure Replaces (directions : List Direction) (args out args' : List Value) : Prop where
  length_eq : args'.length = args.length
  kept : ∀ i : Nat, directions[i]? = some .inward → args'[i]? = args[i]?
  out_eq : ((directions.zip args').filter (·.1 ≠ Direction.inward)).map (·.2) = out

/-- `Settles m args sent result args'`: after these attempts a call with `args` ends with the result, and with
`args'`. -/
inductive Settles (m : ManagedMethod) (args : List Value) (sent : List Attempt) :
    Except (Stop HostError) Value → List Value → Prop
  | returned {v : Value} {out args' : List Value} (hreturns : m.returns = true) (h : m.Answers sent (v :: out))
      (hargs : Replaces m.directions args out args') : Settles m args sent (.ok v) args'
  | void {out args' : List Value} (hreturns : m.returns = false) (h : m.Answers sent out)
      (hargs : Replaces m.directions args out args') : Settles m args sent (.ok .void) args'
  | failed {stop : Stop HostError} (h : ∀ vs, ¬ m.Answers sent vs) : Settles m args sent (.error stop) args

/-! ### Results -/

section
variable {d : Direction} {ds : List Direction} {arg v : Value} {args args' out : List Value}

theorem writesBack_eq (d : Direction) : d.writesBack = decide (d ≠ .inward) := by cases d <;> rfl

theorem Replaces.keep (h : Replaces ds args out args') : Replaces (.inward :: ds) (arg :: args) out (arg :: args') where
  length_eq := congrArg Nat.succ h.length_eq
  kept
    | 0, _ => rfl
    | i + 1, hi => h.kept i hi
  out_eq := by simpa using h.out_eq

theorem Replaces.put (hd : d ≠ .inward) (h : Replaces ds args out args') :
    Replaces (d :: ds) (arg :: args) (v :: out) (v :: args') where
  length_eq := congrArg Nat.succ h.length_eq
  kept
    | 0, hi => absurd (Option.some.inj hi) hd
    | i + 1, hi => h.kept i hi
  out_eq := by simpa [hd] using h.out_eq

/-- With a value for every argument that goes out, each goes to its own. -/
theorem replaces_replaced (hargs : args.length = ds.length) (hout : out.length = ds.countP (· ≠ .inward)) :
    Replaces ds args out (replaced ds args out) := by
  induction ds generalizing args out with
  | nil =>
    cases List.length_eq_zero_iff.mp hargs
    cases List.length_eq_zero_iff.mp hout
    exact ⟨rfl, nofun, rfl⟩
  | cons d ds ih =>
    obtain ⟨arg, args, rfl⟩ := List.exists_cons_of_length_eq_add_one hargs
    have hrest : args.length = ds.length := Nat.succ.inj hargs
    by_cases hd : d = .inward
    · subst hd
      exact (ih hrest (by simpa using hout)).keep
    · rw [List.countP_cons_of_pos (by simpa using hd)] at hout
      obtain ⟨v, out, rfl⟩ := List.exists_cons_of_length_eq_add_one hout
      have hback : d.writesBack = true := by simpa [writesBack_eq] using hd
      simp only [replaced, hback, if_pos]
      exact (ih hrest (Nat.succ.inj hout)).put hd

end

theorem resultCount_eq (m : ManagedMethod) :
    m.resultCount = (if m.returns then 1 else 0) + m.directions.countP (· ≠ .inward) := by
  rw [resultCount]
  simp only [writesBack_eq]

/-- Values of the right number are told apart into the result and those for the arguments. -/
theorem settles_answered {m : ManagedMethod} {args vs : List Value} {sent : List Attempt}
    (hargs : args.length = m.directions.length) (h : m.Answers sent vs) :
    Settles m args sent (.ok (m.results vs).1) (replaced m.directions args (m.results vs).2) := by
  obtain ⟨bytes, hcompleted, hholds, hcount⟩ := h
  cases hreturns : m.returns with
  | false =>
    have hout : vs.length = m.directions.countP (· ≠ .inward) := by simpa [hreturns] using hcount
    have hresults : m.results vs = (.void, vs) := by simp [results, hreturns]
    rw [hresults]
    exact .void hreturns ⟨bytes, hcompleted, hholds, hcount⟩ (replaces_replaced hargs hout)
  | true =>
    have hvs : vs.length = m.directions.countP (· ≠ .inward) + 1 := by simpa [hreturns, Nat.add_comm] using hcount
    obtain ⟨v, out, rfl⟩ := List.exists_cons_of_length_eq_add_one hvs
    have hresults : m.results (v :: out) = (v, out) := by simp [results, hreturns]
    rw [hresults]
    exact .returned hreturns ⟨bytes, hcompleted, hholds, hcount⟩ (replaces_replaced hargs (Nat.succ.inj hvs))

end ManagedMethod

/-! ### Responses -/

theorem Wire.decode_response {bytes : List UInt8} {vs : List Value} :
    Wire.decode Wire.response bytes = .ok vs ↔ Wire.Holds bytes vs := by
  have hrun : Wire.response.run.run (.start bytes) =
      (Wire.values >>= fun vs => Wire.finish >>= fun _ => pure vs).run.run (.start bytes) := rfl
  unfold Wire.decode Wire.Holds
  rw [hrun]
  rcases hvalues : Wire.values.run.run (.start bytes) with ⟨fault | read, place, rest⟩
  · rw [run_bind_of_error hvalues]
    exact iff_of_false nofun nofun
  · rw [run_bind_of_ok hvalues, Wire.run_finish]
    cases rest with
    | nil =>
      constructor
      · rintro ⟨⟩
        exact ⟨place, rfl⟩
      · rintro ⟨_, ⟨⟩⟩
        rfl
    | cons x xs => exact iff_of_false nofun nofun

/-! ### Requests -/

/-- The last of the attempts is the one that counts. -/
theorem completed_concat {sent : List Attempt} {a : Attempt} {bytes : List UInt8} : Completed (sent ++ [a]) bytes ↔
    ∃ written response, a.outcome = .ok ⟨.completed written, response⟩ ∧ bytes = response.take written := by
  simp [Completed]

theorem askedRoom_eq_some {capacity needed : Nat} {answer : DispatchAnswer} :
    Host.askedRoom capacity answer = some needed ↔
      capacity < needed ∧ ∃ response, answer = ⟨.bufferTooSmall needed, response⟩ := by
  obtain ⟨_ | asked | _ | _, response⟩ := answer
  · simp [Host.askedRoom]
  · rw [Host.askedRoom]
    constructor
    · intro h
      obtain ⟨hroom, rfl⟩ : capacity < asked ∧ asked = needed := by simpa using h
      exact ⟨hroom, response, rfl⟩
    · rintro ⟨hroom, _, ⟨⟩⟩
      exact if_pos hroom
  · simp [Host.askedRoom]
  · simp [Host.askedRoom]

section
variable {σ β ρ : Type} {dispatch : β → List UInt8 → Buffer → Action σ RuntimeError DispatchAnswer}
  {r : Runtime (Attempted σ) β ρ} {label : String} {request : List UInt8} {w : Attempted σ}

theorem runOn_dispatch (hr : r.backend.dispatch = attempting dispatch) (request : List UInt8) (room : Nat)
    (w : Attempted σ) : ∃ outcome world, (r.dispatch request room).runOn w =
      (outcome.mapError (Action.Stop.map .runtime), ⟨world, w.attempts ++ [⟨request, room, outcome⟩]⟩) := by
  refine ⟨((dispatch r.state request (.zeroed room)).runOn w.world).1,
    ((dispatch r.state request (.zeroed room)).runOn w.world).2, ?_⟩
  have hroom := Buffer.length_zeroed room
  unfold Runtime.dispatch
  rw [hr]
  show (_, (⟨_, w.attempts ++ [⟨request, (Buffer.zeroed room).length, _⟩]⟩ : Attempted σ)) = _
  rw [hroom]
  rfl

/-- What the last answer comes to: a response if it completed one. -/
theorem runOn_concluded (label : String) (answer : DispatchAnswer) (w : Attempted σ) :
    ∃ result, (Action.ofExcept (Host.concluded label answer) : Action (Attempted σ) HostError _).runOn w = (result, w) ∧
      ∀ bytes, result = .ok bytes ↔
        ∃ written response, answer = ⟨.completed written, response⟩ ∧ bytes = response.take written := by
  obtain ⟨_ | _ | _ | _, response⟩ := answer
  · refine ⟨_, rfl, fun bytes => ?_⟩
    simp [eq_comm]
  · exact ⟨_, rfl, fun bytes => by simp⟩
  · exact ⟨_, rfl, fun bytes => by simp⟩
  · exact ⟨_, rfl, fun bytes => by simp⟩

/-- The last request: what it leads to is what its answer comes to. -/
theorem runOn_last (hr : r.backend.dispatch = attempting dispatch) (label : String) (request : List UInt8) (room : Nat)
    (w : Attempted σ) :
    ∃ outcome result world, (r.dispatch request room >>= fun answer =>
        Action.ofExcept (Host.concluded label answer)).runOn w =
          (result, ⟨world, w.attempts ++ [⟨request, room, outcome⟩]⟩) ∧
      ∀ bytes, result = .ok bytes ↔
        ∃ written response, outcome = .ok ⟨.completed written, response⟩ ∧ bytes = response.take written := by
  obtain ⟨stop | answer, world, hrun⟩ := runOn_dispatch hr request room w
  · exact ⟨_, _, world, run_bind_of_error hrun _, fun bytes => by simp⟩
  · obtain ⟨result, hlast, hresult⟩ := runOn_concluded label answer ⟨world, w.attempts ++ [⟨request, room, .ok answer⟩]⟩
    exact ⟨.ok answer, result, world, (run_bind_of_ok hrun _).trans hlast, fun bytes => by simp [hresult]⟩

theorem runOn_forward (hr : r.backend.dispatch = attempting dispatch) (g : Nat) (label : String) (request : List UInt8)
    (capacity : Nat) (w : Attempted σ) :
    ∃ sent result world, ((Host.ready g r).forward label request capacity).runOn w =
        (result, ⟨world, w.attempts ++ sent⟩) ∧ Tries request capacity sent ∧
      ∀ bytes, result = .ok bytes ↔ Completed sent bytes := by
  rw [Host.forward_ready]
  obtain ⟨stop | first, world, hfirst⟩ := runOn_dispatch hr request capacity w
  · exact ⟨_, _, world, run_bind_of_error hfirst _, .once nofun, fun bytes => by simp [Completed]⟩
  cases hasked : Host.askedRoom capacity first with
  | none =>
    -- Nothing asks for more room, and the first attempt is the last.
    obtain ⟨result, hlast, hresult⟩ :=
      runOn_concluded label first ⟨world, w.attempts ++ [⟨request, capacity, .ok first⟩]⟩
    refine ⟨[⟨request, capacity, .ok first⟩], result, world, (run_bind_of_ok hfirst _).trans ?_, .once ?_, ?_⟩
    · rw [hasked]
      exact hlast
    · rintro needed response ⟨⟩
      exact Nat.le_of_not_lt fun hroom => nomatch hasked.symm.trans (askedRoom_eq_some.mpr ⟨hroom, response, rfl⟩)
    · intro bytes
      rw [hresult, ← List.nil_append [_], completed_concat]
      simp
  | some needed =>
    -- The second attempt has the room that the first asked for, and there is no third.
    obtain ⟨hroom, response, rfl⟩ := askedRoom_eq_some.mp hasked
    obtain ⟨outcome, result, world', hlast, hresult⟩ := runOn_last hr label request needed
      ⟨world, w.attempts ++ [⟨request, capacity, .ok ⟨.bufferTooSmall needed, response⟩⟩]⟩
    refine ⟨[⟨request, capacity, .ok ⟨.bufferTooSmall needed, response⟩⟩, ⟨request, needed, outcome⟩], result, world',
      (run_bind_of_ok hfirst _).trans ?_, .again hroom, ?_⟩
    · rw [hasked]
      exact hlast.trans (by simp)
    · intro bytes
      rw [hresult, ← List.singleton_append, completed_concat]

end

/-! ### Calls -/

namespace ManagedMethod

/-- What a call with these arguments comes to, and what becomes of them, when the request ended so. -/
def routed (m : ManagedMethod) (args : List Value) :
    Except (Stop HostError) (List UInt8) → Except (Stop HostError) Value × List Value
  | .error stop => (.error stop, args)
  | .ok response =>
    match Wire.decode Wire.response response with
    | .error fault => (.error (.failed (.marshal (.wire fault))), args)
    | .ok values =>
      if values.length = m.resultCount then (.ok (m.results values).1, replaced m.directions args (m.results values).2)
      else (.error (.failed (.marshal (.resultCount m.name m.resultCount values.length))), args)

theorem settles_routed {m : ManagedMethod} {args : List Value} {sent : List Attempt}
    {result : Except (Stop HostError) (List UInt8)} (hargs : args.length = m.directions.length)
    (hcompleted : ∀ bytes, result = .ok bytes ↔ Completed sent bytes) :
    m.Settles args sent (m.routed args result).1 (m.routed args result).2 := by
  cases result with
  | error stop => exact .failed fun vs ⟨bytes, hbytes, _⟩ => nomatch (hcompleted bytes).mpr hbytes
  | ok response =>
    have hlast : Completed sent response := (hcompleted response).mp rfl
    have honly : ∀ {vs}, m.Answers sent vs →
        Wire.decode Wire.response response = .ok vs ∧ vs.length = m.resultCount := by
      rintro vs ⟨bytes, hbytes, hholds, hcount⟩
      cases (hcompleted bytes).mpr hbytes
      exact ⟨Wire.decode_response.mpr hholds, hcount.trans m.resultCount_eq.symm⟩
    cases hdecode : Wire.decode Wire.response response with
    | error fault =>
      simp only [routed, hdecode]
      refine .failed fun vs h => ?_
      cases hdecode.symm.trans (honly h).1
    | ok values =>
      simp only [routed, hdecode]
      by_cases hcount : values.length = m.resultCount
      · rw [if_pos hcount]
        exact settles_answered hargs ⟨response, hlast, Wire.decode_response.mp hdecode, hcount.trans m.resultCount_eq⟩
      · rw [if_neg hcount]
        refine .failed fun vs h => ?_
        cases hdecode.symm.trans (honly h).1
        exact hcount (honly h).2

end ManagedMethod

namespace Host
variable {σ β ρ : Type} {h : Host σ β ρ} {m : ManagedMethod} {c : CallState σ}

theorem runOn_callManaged_miscounted (hcount : c.args.length ≠ m.directions.length) : (h.callManaged m).runOn c =
    (.error (.failed (.marshal (.argumentCount m.name m.directions.length c.args.length))), c) := by
  have hget : (get : Call σ (CallState σ)).run.run c = (.ok c, c) := rfl
  refine (run_bind_of_ok hget _).trans ?_
  dsimp only
  rw [if_pos hcount]
  exact run_bind_of_error rfl _

theorem runOn_callManaged {result : Except (Stop HostError) (List UInt8)} {world : σ}
    (hcount : c.args.length = m.directions.length)
    (hforward : (h.forward m.name (Wire.requestBytes m.name c.args) firstCapacity).runOn c.world = (result, world)) :
    (h.callManaged m).runOn c = ((m.routed c.args result).1, ⟨world, (m.routed c.args result).2⟩) := by
  have hget : (get : Call σ (CallState σ)).run.run c = (.ok c, c) := rfl
  have hinWorld : (Call.inWorld (h.forward m.name (Wire.requestBytes m.name c.args) firstCapacity)).run.run c =
      (result, ⟨world, c.args⟩) :=
    congrArg (fun o : Except (Stop HostError) (List UInt8) × σ => (o.1, (⟨o.2, c.args⟩ : CallState σ))) hforward
  refine (run_bind_of_ok hget _).trans ?_
  dsimp only
  rw [if_neg (not_not.mpr hcount)]
  cases result with
  | error stop => exact run_bind_of_error hinWorld _
  | ok response =>
    refine (run_bind_of_ok hinWorld _).trans ?_
    dsimp only [ManagedMethod.routed]
    cases Wire.decode Wire.response response with
    | error fault => rfl
    | ok values =>
      dsimp only
      by_cases hresults : values.length = m.resultCount
      · rw [if_pos hresults, if_neg (not_not.mpr hresults)]
        rfl
      · rw [if_neg hresults, if_pos hresults]
        rfl

end Host

/-- A call of a managed method goes to the dispatcher once, or twice if it first lacks room; not at all if the arguments
are too many or too few. What it ends with is settled by the last answer. -/
theorem managed_results_routed {σ β ρ : Type} {dispatch : β → List UInt8 → Buffer → Action σ RuntimeError DispatchAnswer}
    {r : Runtime (Attempted σ) β ρ} (hr : r.backend.dispatch = attempting dispatch) (g : Nat) (m : ManagedMethod)
    (c : CallState (Attempted σ)) :
    ∃ sent result c', ((Host.ready g r).callManaged m).runOn c = (result, c') ∧
      c'.world.attempts = c.world.attempts ++ sent ∧
      (c.args.length ≠ m.directions.length → sent = []) ∧
      (c.args.length = m.directions.length →
        Tries (Wire.requestBytes m.name c.args) Host.firstCapacity sent) ∧
      m.Settles c.args sent result c'.args := by
  by_cases hcount : c.args.length = m.directions.length
  · obtain ⟨sent, result, world, hforward, htries, hcompleted⟩ :=
      runOn_forward hr g m.name (Wire.requestBytes m.name c.args) Host.firstCapacity c.world
    exact ⟨sent, _, _, Host.runOn_callManaged hcount hforward, rfl, fun h => absurd hcount h, fun _ => htries,
      ManagedMethod.settles_routed hcount hcompleted⟩
  · refine ⟨[], _, _, Host.runOn_callManaged_miscounted hcount, (List.append_nil _).symm, fun _ => rfl,
      fun h => absurd h hcount, .failed fun vs => ?_⟩
    rintro ⟨bytes, ⟨a, _, _, ha, _⟩, _⟩
    cases ha

namespace SampleManaged

/-- A dispatcher that answers with a truth value and a value of an enum, in a buffer of 300 bytes or more. -/
def dispatch (_ : Unit) (_ : List UInt8) (buffer : Buffer) : Action Unit RuntimeError DispatchAnswer :=
  if buffer.length < 300 then return ⟨.bufferTooSmall 300, buffer⟩
  else return ⟨.completed 15, buffer.patched 0 (Wire.valuesBytes [.bool true, .enum 5])⟩

def runtime : Runtime (Attempted Unit) Unit Unit where
  backend := ⟨fun _ => pure (), fun _ => pure (), fun _ => pure (), attempting dispatch, pure ()⟩
  state := ()
  reflection := ()
  direct := []

/-- A method with an argument that goes in and one that goes in and out. -/
def method : ManagedMethod := ⟨"Turn", [.inward, .inOut], true⟩

/-- Nothing was asked yet, and there are two arguments. -/
def call : CallState (Attempted Unit) := ⟨⟨(), []⟩, [.bool false, .enum 1]⟩

def outcome : Except (Stop HostError) Value × CallState (Attempted Unit) :=
  ((Host.ready 1 runtime).callManaged method).runOn call

end SampleManaged

set_option maxRecDepth 2000 in
open SampleManaged in
/-- The dispatcher is asked again, and its two values become the result and the second argument. -/
theorem managed_results_routed_again :
    runtime.backend.dispatch = attempting dispatch ∧ call.args.length = method.directions.length ∧
      ∃ sent c', outcome = (.ok (.bool true), c') ∧ c'.args = [.bool false, .enum 5] ∧
        c'.world.attempts = sent ∧ sent.map (·.room) = [256, 300] ∧
        Tries (Wire.requestBytes "Turn" call.args) 256 sent ∧ method.Settles call.args sent (.ok (.bool true)) c'.args := by
  have hresult : outcome.1 = .ok (.bool true) := rfl
  have hargs : outcome.2.args = [.bool false, .enum 5] := rfl
  have hrooms : outcome.2.world.attempts.map (·.room) = [256, 300] := rfl
  have hdispatch : runtime.backend.dispatch = attempting dispatch := rfl
  obtain ⟨sent, result, c', hrun, hsent, -, htries, hsettles⟩ := managed_results_routed hdispatch 1 method call
  have hrun : outcome = (result, c') := hrun
  rw [hrun] at hresult hargs hrooms
  obtain rfl : result = .ok (.bool true) := hresult
  have hsent : c'.world.attempts = sent := hsent
  exact ⟨hdispatch, rfl, sent, c', hrun, hargs, hsent, hsent ▸ hrooms, htries rfl, hsettles⟩

end EngineBridge
