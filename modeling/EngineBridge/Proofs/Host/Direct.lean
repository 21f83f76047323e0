import EngineBridge.Proofs.Host.Packing

/-! Calls of trampolines.

Nothing is called or changed unless all arguments that go in can be stored. `DirectInvocable.Faithful` says what
a call comes to in every case. -/

namespace EngineBridge

namespace Call
variable {σ : Type} {c : CallState σ} {function : String} {expected : Nat}

theorem checkCount_ok (h : c.args.length = expected) :
    (checkCount function expected : Call σ Unit).runOn c = (.ok (), c) := by
  show (if c.args.length ≠ expected then _ else _ : Call σ Unit).runOn c = _
  rw [if_neg (not_not.mpr h)]
  rfl

theorem checkCount_error (h : c.args.length ≠ expected) :
    (checkCount function expected : Call σ Unit).runOn c =
      (.error (.failed (.marshal (.argumentCount function expected c.args.length))), c) := by
  show (if c.args.length ≠ expected then _ else _ : Call σ Unit).runOn c = _
  rw [if_pos h]
  rfl

end Call

/-- What a call gives back that left `ret` as the returned value's bytes. -/
def FrameLayout.Returns (l : FrameLayout) (ret : Buffer) (result : Value) : Prop :=
  match l.ret with
  | some r => (Buffer.read 0 r).runOn ret = (.ok result, ret)
  | none => result = .void

namespace DirectInvocable
open Outcome
variable {σ : Type}

/-- What the trampoline does when it is called with a frame, once. -/
def answer (call : DirectInvocable σ) (world : σ) (frame : Buffer) : TrampolineAnswer × σ :=
  (call.trampoline frame call.layout.argCount (.zeroed call.layout.returnSize)).run world

/-- After a status other than zero a call fails with it and its arguments stay; otherwise exactly the arguments
that go out are replaced by what the trampoline left in their slots. -/
structure Finishes (call : DirectInvocable σ) (c : CallState σ) (frame : Buffer) : Prop where
  failed : (call.answer c.world frame).1.status ≠ 0 → call.invoke.runOn c =
    (.error (.failed (.nativeCallFailed call.id (call.answer c.world frame).1.status)),
      { c with world := (call.answer c.world frame).2 })
  returned : (call.answer c.world frame).1.status = 0 → ∃ result args,
    call.invoke.runOn c = (.ok result, ⟨(call.answer c.world frame).2, args⟩) ∧
      List.Forall₂ (fun x v => x.1.Becomes (frame.kept (call.answer c.world frame).1.frame) x.2 v)
        (call.layout.slots.zip c.args) args ∧
      call.layout.Returns ((Buffer.zeroed call.layout.returnSize).kept (call.answer c.world frame).1.ret) result

/-- What a call comes to. A wrong number of arguments and an argument that cannot be stored end it before
anything is called or changed, as does memory that cannot be had; otherwise the trampoline is called with a
frame that holds the arguments. -/
structure Faithful (call : DirectInvocable σ) (c : CallState σ) : Prop where
  miscounted : c.args.length ≠ call.layout.argCount → call.invoke.runOn c =
    (.error (.failed (.marshal (.argumentCount call.id.display call.layout.argCount c.args.length))), c)
  refused : c.args.length = call.layout.argCount → call.layout.size ≤ Buffer.sizeLimit →
    ¬ call.layout.Storable c.args → ∃ x ∈ FrameLayout.incoming call.layout.slots c.args, ∃ e,
      (x.1.storedAlone call.layout.size x.2).1 = .error (.failed e) ∧
      call.invoke.runOn c = (.error (.failed (.marshal (.argument call.id x.1.name e))), c)
  called : c.args.length = call.layout.argCount → call.layout.size ≤ Buffer.sizeLimit →
    call.layout.returnSize ≤ Buffer.sizeLimit → call.layout.Storable c.args →
    ∃ frame, call.layout.Packs c.args frame ∧ call.Finishes c frame
  exhausted : c.args.length = call.layout.argCount →
    Buffer.sizeLimit < call.layout.size ∨
      (call.layout.Storable c.args ∧ Buffer.sizeLimit < call.layout.returnSize) →
    call.invoke.runOn c = (.error .crashed, c)

/-! ### Calls -/

section
variable {call : DirectInvocable σ} {c : CallState σ} {args : List Value}

theorem frame_ok {m : Marks} (hsize : call.layout.size ≤ Buffer.sizeLimit)
    (h : Buffer.Stores (pack call.id call.layout.slots args) call.layout.size (.ok m)) :
    (call.frame args).runOn c = (.ok ((Buffer.zeroed call.layout.size).marked m), c) := by
  have hpack := h.zeroed_ok (Buffer.le_addressLimit hsize)
  refine (run_bind_of_ok (Buffer.allocated_ok hsize c) _).trans ?_
  simp only [hpack]
  rfl

theorem frame_error {e : HostError} (hsize : call.layout.size ≤ Buffer.sizeLimit)
    (h : Buffer.Stores (pack call.id call.layout.slots args) call.layout.size (.error e)) :
    (call.frame args).runOn c = (.error (.failed e), c) := by
  obtain ⟨b, hpack⟩ := h.zeroed_error (Buffer.le_addressLimit hsize)
  refine (run_bind_of_ok (Buffer.allocated_ok hsize c) _).trans ?_
  simp only [hpack]
  rfl

theorem frame_crash (hsize : Buffer.sizeLimit < call.layout.size) :
    (call.frame args).runOn c = (.error .crashed, c) :=
  run_bind_of_error (Buffer.allocated_crash hsize c) _

theorem invoke_of_count (h : c.args.length = call.layout.argCount) : call.invoke.runOn c = (do
    let frame ← call.frame c.args
    let ret ← Buffer.allocated call.layout.returnSize
    let answer ← Call.outside (call.trampoline frame call.layout.argCount ret)
    if answer.status ≠ 0 then Action.fail (.nativeCallFailed call.id answer.status)
    unpack (frame.kept answer.frame) 0 call.layout.slots
    match call.layout.ret with
    | some r => (ret.kept answer.ret).load 0 r
    | none => return .void : Call σ Value).runOn c :=
  run_bind_of_ok (Call.checkCount_ok h) _

/-- A call up to the trampoline, whose frame could be packed. -/
theorem invoke_of_frame {frame : Buffer} (hcount : c.args.length = call.layout.argCount)
    (hret : call.layout.returnSize ≤ Buffer.sizeLimit) (hframe : (call.frame c.args).runOn c = (.ok frame, c)) :
    call.invoke.runOn c = (do
      if (call.answer c.world frame).1.status ≠ 0 then
        Action.fail (.nativeCallFailed call.id (call.answer c.world frame).1.status)
      unpack (frame.kept (call.answer c.world frame).1.frame) 0 call.layout.slots
      match call.layout.ret with
      | some r => ((Buffer.zeroed call.layout.returnSize).kept (call.answer c.world frame).1.ret).load 0 r
      | none => return .void : Call σ Value).runOn { c with world := (call.answer c.world frame).2 } := by
  have houtside : (Call.outside (call.trampoline frame call.layout.argCount (.zeroed call.layout.returnSize))).runOn c =
      (.ok (call.answer c.world frame).1, { c with world := (call.answer c.world frame).2 }) := rfl
  rw [invoke_of_count hcount]
  have hreturned := Buffer.allocated_ok hret c
  exact (run_bind_of_ok hframe _).trans ((run_bind_of_ok hreturned _).trans (run_bind_of_ok houtside _))

theorem load_result {ret : Buffer} (hret : ∀ r, call.layout.ret = some r → r.Sound)
    (hlength : ret.length = call.layout.returnSize) (hlimit : ret.length ≤ Buffer.addressLimit) (c : CallState σ) :
    ∃ result, (match call.layout.ret with
      | some r => ret.load 0 r
      | none => return .void : Call σ Value).runOn c = (.ok result, c) ∧ call.layout.Returns ret result := by
  unfold FrameLayout.Returns
  unfold FrameLayout.returnSize at hlength
  cases hr : call.layout.ret with
  | none => exact ⟨.void, rfl, rfl⟩
  | some r =>
    rw [hr] at hlength
    obtain ⟨v, hv⟩ := Buffer.loads_read r (hret r hr) ret (by rw [hlength, Nat.zero_add]) hlimit
    exact ⟨v, Buffer.load_ok hv c, hv⟩

theorem finishes (hsound : call.layout.Sound) (hcount : c.args.length = call.layout.argCount)
    (hsize : call.layout.size ≤ Buffer.sizeLimit) (hret : call.layout.returnSize ≤ Buffer.sizeLimit) {frame : Buffer}
    (hlength : frame.length = call.layout.size) (hframe : (call.frame c.args).runOn c = (.ok frame, c)) :
    call.Finishes c frame := by
  have hrun := invoke_of_frame hcount hret hframe
  refine ⟨fun hstatus => ?_, fun hstatus => ?_⟩
  · rw [hrun, if_pos hstatus]
    rfl
  · rw [hrun, if_neg (not_not.mpr hstatus)]
    generalize call.answer c.world frame = answered
    have hkept : (frame.kept answered.1.frame).length = call.layout.size := Buffer.length_kept.trans hlength
    obtain ⟨args, hunpack, hbecome⟩ := unpack_ok (frame.kept answered.1.frame) call.layout.slots
      (hkept.symm ▸ Buffer.le_addressLimit hsize)
      (fun s hs => ⟨hsound.slots s hs, hkept.symm ▸ hsound.inside s hs⟩) answered.2 [] hcount
    have hretlength : ((Buffer.zeroed call.layout.returnSize).kept answered.1.ret).length = call.layout.returnSize :=
      Buffer.length_kept.trans (Buffer.length_zeroed _)
    obtain ⟨result, hresult, hreturns⟩ := load_result hsound.ret hretlength
      (hretlength.symm ▸ Buffer.le_addressLimit hret) (⟨answered.2, args⟩ : CallState σ)
    exact ⟨result, args, (run_bind_of_ok hunpack _).trans hresult, hbecome, hreturns⟩

/-- Calls are faithful whose slots and returned value lie as they should. -/
theorem faithful (hsound : call.layout.Sound) (c : CallState σ) : call.Faithful c := by
  obtain ⟨outcome, hstores, hpacks⟩ := pack_stores call.id call.layout.slots c.args
    (fun s hs => ⟨hsound.slots s hs, hsound.inside s hs⟩) hsound.disjoint
  refine ⟨fun hcount => ?_, fun hcount hsize hrefused => ?_, fun hcount hsize hret hstorable => ?_,
    fun hcount hlimit => ?_⟩
  · exact run_bind_of_error (Call.checkCount_error hcount) _
  · -- The arguments are stored before anything is called, and the first that does not fit ends the call.
    rw [invoke_of_count hcount]
    cases outcome with
    | ok m => exact absurd (packs_of_packsAs (Buffer.le_addressLimit hsize) hpacks).1 hrefused
    | error e =>
      obtain ⟨x, hx, e', he', rfl⟩ := refused_of_packsAs (Buffer.le_addressLimit hsize) hpacks
      exact ⟨x, hx, e', he', run_bind_of_error (frame_error hsize hstores) _⟩
  · cases outcome with
    | ok m =>
      have hholds := (packs_of_packsAs (Buffer.le_addressLimit hsize) hpacks).2
      exact ⟨_, hholds, finishes hsound hcount hsize hret hholds.length (frame_ok hsize hstores)⟩
    | error e => exact absurd hstorable (not_storable_of_packsAs (Buffer.le_addressLimit hsize) hpacks)
  · rw [invoke_of_count hcount]
    by_cases hsize : call.layout.size ≤ Buffer.sizeLimit
    · obtain hlarge | ⟨hstorable, hlarge⟩ := hlimit
      · exact absurd hsize (Nat.not_le.mpr hlarge)
      · cases outcome with
        | ok m =>
          have hcrash := Buffer.allocated_crash hlarge c
          exact (run_bind_of_ok (frame_ok hsize hstores) _).trans (run_bind_of_error hcrash _)
        | error e => exact absurd hstorable (not_storable_of_packsAs (Buffer.le_addressLimit hsize) hpacks)
    · exact run_bind_of_error (frame_crash (Nat.not_le.mp hsize)) _

end

end DirectInvocable

/-- A direct call of a function of a valid document is faithful and all or nothing, whatever its arguments are
and whatever its trampoline does. -/
theorem direct_calls_faithful {σ : Type} (d : Document) (hd : d.validate = .ok ()) (owner : TypeRecord)
    (howner : owner ∈ d.types) (f : FunctionRecord) (hf : f ∈ owner.functions) (call : DirectInvocable σ)
    (hlayout : FrameLayout.ofFunction d owner f = .ok call.layout) (c : CallState σ) : call.Faithful c :=
  DirectInvocable.faithful (FrameLayout.sound_ofFunction (Document.validate_eq_ok.mp hd) howner hf hlayout) c

namespace HitDocument

/-- A trampoline that counts its calls, puts a nine into the last slot and returns the truth. -/
def trampoline : Trampoline Nat := fun frame _ _ => do
  modify (· + 1)
  return ⟨0, frame.patched 64 [9, 0, 0, 0], [1]⟩

/-- A receiver, and one argument for each parameter of the function. -/
def args (count : Value) : List Value := [.handle 16, .bool true, .void, count]

end HitDocument

open HitDocument in
/-- The function of the document is called with a number and not called with a text. -/
theorem direct_calls_faithful_trace : ∃ call : DirectInvocable Nat,
    FrameLayout.ofFunction document actor trace = .ok call.layout ∧ call.trampoline = trampoline ∧
      (∀ c, call.Faithful c) ∧
      (call.invoke.runOn ⟨0, args (.integer (.ofBits .int32 7))⟩).2.args =
        [.handle 16, .bool true,
          .struct [.bool false, .struct [.double 0, .double 0, .double 0], .name 0 0, .integer (.ofBits .int16 0)],
          .integer (.ofBits .int32 9)] ∧
      call.invoke.runOn ⟨0, args (.string "seven")⟩ =
        (.error (.failed (.marshal (.argument ⟨"Actor", "Trace"⟩ "Count" (.cannotStore "string" "int32")))),
          ⟨0, args (.string "seven")⟩) := by
  refine ⟨⟨⟨"Actor", "Trace"⟩, "Actor_Trace", _, trampoline⟩, rfl, rfl, fun c => ?_, ?_, ?_⟩
  · exact direct_calls_faithful document rfl actor (by decide) trace (by decide) _ rfl c
  · set_option maxRecDepth 4000 in rfl
  · rfl

end EngineBridge
