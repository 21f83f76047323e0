import EngineBridge.Host.Direct
import EngineBridge.Proofs.Memory.Values
import Mathlib.Data.List.Forall2

/-! Arguments in frames.

The frame that a trampoline gets holds every argument as if it were the only one, because slots do not overlap:
`Packs` says so byte by byte. What a trampoline left in the slots that go out is loaded from there again, slot
by slot. -/

namespace EngineBridge

namespace FrameSlot

/-- Storing a value into the slot, in a frame of zeros that holds nothing else. -/
def storedAlone (s : FrameSlot) (frameSize : Nat) (v : Value) : Except (Stop BufferError) Unit × Buffer :=
  (Buffer.write s.offset s.repr v).runOn (.zeroed frameSize)

/-- What an argument becomes after a call that left `frame`: what is stored in its slot, if it goes out. -/
def Becomes (s : FrameSlot) (frame : Buffer) (before after : Value) : Prop :=
  if s.direction.writesBack then (Buffer.read s.offset s.repr).runOn frame = (.ok after, frame) else after = before

end FrameSlot

namespace FrameLayout

/-- The slots whose arguments go in, each with its argument. -/
def incoming (slots : List FrameSlot) (args : List Value) : List (FrameSlot × Value) :=
  (slots.zip args).filter fun x => x.1.direction.takesIn

/-- All arguments that go in can be stored. -/
def Storable (l : FrameLayout) (args : List Value) : Prop :=
  ∀ x ∈ incoming l.slots args, (x.1.storedAlone l.size x.2).1 = .ok ()

/-- Every slot whose argument goes in holds the bytes that its argument alone would put there, and all bytes
that belong to no such argument are zero. -/
structure Packs (l : FrameLayout) (args : List Value) (frame : Buffer) : Prop where
  length : frame.length = l.size
  slots : ∀ x ∈ incoming l.slots args,
    frame.slice x.1.offset x.1.repr.size = (x.1.storedAlone l.size x.2).2.slice x.1.offset x.1.repr.size
  zero : ∀ i < l.size, (∀ x ∈ incoming l.slots args, ¬ x.1.repr.Covers x.1.offset i) → frame[i]? = some 0

end FrameLayout

namespace Buffer

theorem load_ok {τ : Type} {b : Buffer} {offset : Nat} {r : NativeRepr} {v : Value}
    (h : (read offset r).runOn b = (.ok v, b)) (t : τ) : (b.load offset r).runOn t = (.ok v, t) := by
  unfold load
  rw [h]
  rfl

theorem allocated_ok {τ : Type} {size : Nat} (h : size ≤ sizeLimit) (t : τ) :
    (allocated size : Action τ HostError Buffer).runOn t = (.ok (.zeroed size), t) := by
  unfold allocated
  rw [if_neg (Nat.not_lt.mpr h)]
  rfl

theorem allocated_crash {τ : Type} {size : Nat} (h : sizeLimit < size) (t : τ) :
    (allocated size : Action τ HostError Buffer).runOn t = (.error .crashed, t) := by
  unfold allocated
  rw [if_pos h]
  rfl

/-- Memory that can be had is within the addresses. -/
theorem le_addressLimit {size : Nat} (h : size ≤ sizeLimit) : size ≤ addressLimit :=
  Nat.le_trans h (by decide)

end Buffer

namespace DirectInvocable
open Outcome
variable {σ : Type}

/-! ### Packing -/

/-- What packing puts down, or why it does not: every slot whose argument goes in holds what is stored there
alone, and nothing else is touched. -/
def PacksAs (id : FunctionId) (size : Nat) (xs : List (FrameSlot × Value)) : Except HostError Marks → Prop
  | .ok m =>
    (∀ x ∈ xs, ∃ alone, Buffer.Stores (Buffer.write x.1.offset x.1.repr x.2) size (.ok alone) ∧
      ∀ i, x.1.offset ≤ i → i < x.1.offset + x.1.repr.size → m i = alone i) ∧
    ∀ i, (m i).isSome = true → ∃ x ∈ xs, x.1.repr.Covers x.1.offset i
  | .error e => ∃ x ∈ xs, ∃ e', Buffer.Stores (Buffer.write x.1.offset x.1.repr x.2) size (.error e') ∧
    e = .marshal (.argument id x.1.name e')

theorem incoming_cons {s : FrameSlot} {ss : List FrameSlot} {v : Value} {vs : List Value} :
    FrameLayout.incoming (s :: ss) (v :: vs) =
      if s.direction.takesIn then (s, v) :: FrameLayout.incoming ss vs else FrameLayout.incoming ss vs := by
  unfold FrameLayout.incoming
  rw [List.zip_cons_cons, List.filter_cons]

theorem mem_slots_of_incoming {ss : List FrameSlot} {vs : List Value} {x : FrameSlot × Value}
    (hx : x ∈ FrameLayout.incoming ss vs) : x.1 ∈ ss :=
  (List.of_mem_zip (List.mem_filter.mp hx).1).1

/-- A slot in front of the others does not reach into them, nor they into it. -/
theorem packsAs_cons {id : FunctionId} {size : Nat} {s : FrameSlot} {v : Value} {xs : List (FrameSlot × Value)}
    {m : Marks} {outcome : Except HostError Marks} (hs : s.repr.Sound)
    (hstores : Buffer.Stores (Buffer.write s.offset s.repr v) size (.ok m))
    (hplaces : ∀ i, (m i).isSome = true ↔ s.repr.Covers s.offset i)
    (hxs : ∀ x ∈ xs, x.1.repr.Sound ∧ s.offset + s.repr.size ≤ x.1.offset) (h : PacksAs id size xs outcome) :
    PacksAs id size ((s, v) :: xs) (outcome.map m.andThen) := by
  cases outcome with
  | error e =>
    obtain ⟨x, hx, e', hrefused, he⟩ := h
    exact ⟨x, List.mem_cons_of_mem _ hx, e', hrefused, he⟩
  | ok next =>
    obtain ⟨hslots, hcovered⟩ := h
    -- No byte of the slot in front belongs to a later one.
    have hfront : ∀ i, i < s.offset + s.repr.size → next i = none := by
      intro i hi
      rw [← Option.not_isSome_iff_eq_none]
      intro hsome
      obtain ⟨x, hx, hcovers⟩ := hcovered i hsome
      obtain ⟨hsound, hle⟩ := hxs x hx
      have hbounds := hsound.covers_lt hcovers
      omega
    -- No byte of a later slot belongs to the one in front.
    have hback : ∀ i, s.offset + s.repr.size ≤ i → m i = none := by
      intro i hi
      rw [← Option.not_isSome_iff_eq_none]
      intro hsome
      have hbounds := hs.covers_lt ((hplaces i).mp hsome)
      omega
    refine ⟨fun x hx => ?_, fun i hi => ?_⟩
    · rcases List.mem_cons.mp hx with rfl | hx
      · exact ⟨m, hstores, fun i _ hi => Marks.andThen_of_right_none (hfront i hi)⟩
      · obtain ⟨alone, halone, hagrees⟩ := hslots x hx
        refine ⟨alone, halone, fun i hle hlt => ?_⟩
        rw [Marks.andThen_of_left_none (hback i (Nat.le_trans (hxs x hx).2 hle))]
        exact hagrees i hle hlt
    · rcases Marks.isSome_andThen.mp hi with hi | hi
      · exact ⟨(s, v), List.mem_cons_self, (hplaces i).mp hi⟩
      · obtain ⟨x, hx, hcovers⟩ := hcovered i hi
        exact ⟨x, List.mem_cons_of_mem _ hx, hcovers⟩

/-- Slots in which values can be stored, within a size and one behind the other, are packed without disturbing
each other. -/
theorem pack_stores (id : FunctionId) {size : Nat} (ss : List FrameSlot) (vs : List Value)
    (hsound : ∀ s ∈ ss, s.repr.Sound ∧ s.offset + s.repr.size ≤ size)
    (hdisjoint : ss.Pairwise fun s t => s.offset + s.repr.size ≤ t.offset) :
    ∃ outcome, Buffer.Stores (pack id ss vs) size outcome ∧ PacksAs id size (FrameLayout.incoming ss vs) outcome := by
  induction ss generalizing vs with
  | nil => exact ⟨.ok .blank, Buffer.stores_pure, fun x hx => (nomatch hx), fun i hi => (nomatch hi)⟩
  | cons s ss ih =>
    cases vs with
    | nil => exact ⟨.ok .blank, Buffer.stores_pure, fun x hx => (nomatch hx), fun i hi => (nomatch hi)⟩
    | cons v vs =>
      rw [List.forall_mem_cons] at hsound
      obtain ⟨⟨hs, hstop⟩, hsound⟩ := hsound
      obtain ⟨hbefore, hdisjoint⟩ := List.pairwise_cons.mp hdisjoint
      obtain ⟨outcome, hstores, hpacks⟩ := ih vs hsound hdisjoint
      rw [incoming_cons, pack]
      have hlater : ∀ x ∈ FrameLayout.incoming ss vs, x.1.repr.Sound ∧ s.offset + s.repr.size ≤ x.1.offset :=
        fun x hx => ⟨(hsound x.1 (mem_slots_of_incoming hx)).1, hbefore x.1 (mem_slots_of_incoming hx)⟩
      split
      · obtain ⟨first, hfirst, hplaces⟩ := (Buffer.storesOn_write s.repr v hs).mono hstop
        cases first with
        | error e =>
          exact ⟨_, (hfirst.mapError _).bind_error _, (s, v), List.mem_cons_self, e, hfirst, rfl⟩
        | ok m => exact ⟨_, (hfirst.mapError _).bind hstores, packsAs_cons hs hfirst (hplaces m rfl) hlater hpacks⟩
      · exact ⟨outcome, hstores, hpacks⟩

section
variable {s : FrameSlot} {size : Nat} {v : Value} (hlimit : size ≤ Buffer.addressLimit)
include hlimit

theorem storedAlone_ok {m : Marks} (h : Buffer.Stores (Buffer.write s.offset s.repr v) size (.ok m)) :
    s.storedAlone size v = (.ok (), (Buffer.zeroed size).marked m) :=
  h.zeroed_ok hlimit

theorem storedAlone_error {e : BufferError} (h : Buffer.Stores (Buffer.write s.offset s.repr v) size (.error e)) :
    (s.storedAlone size v).1 = .error (.failed e) := by
  obtain ⟨b, hb⟩ := h.zeroed_error hlimit
  unfold FrameSlot.storedAlone
  rw [hb]

end

theorem packs_of_packsAs {id : FunctionId} {l : FrameLayout} {args : List Value} {m : Marks}
    (hlimit : l.size ≤ Buffer.addressLimit) (h : PacksAs id l.size (FrameLayout.incoming l.slots args) (.ok m)) :
    l.Storable args ∧ l.Packs args ((Buffer.zeroed l.size).marked m) := by
  obtain ⟨hslots, hcovered⟩ := h
  refine ⟨fun x hx => ?_, ⟨?_, fun x hx => ?_, fun i hi hnone => ?_⟩⟩
  · obtain ⟨alone, hstores, -⟩ := hslots x hx
    rw [storedAlone_ok hlimit hstores]
  · rw [Buffer.length_marked, Buffer.length_zeroed]
  · obtain ⟨alone, hstores, hagrees⟩ := hslots x hx
    rw [storedAlone_ok hlimit hstores]
    exact Buffer.slice_marked_congr hagrees
  · have hblank : m i = none := by
      rw [← Option.not_isSome_iff_eq_none]
      intro hsome
      obtain ⟨x, hx, hcovers⟩ := hcovered i hsome
      exact hnone x hx hcovers
    rw [Buffer.getElem?_marked, hblank, Buffer.zeroed, List.getElem?_replicate_of_lt hi]
    rfl

section
variable {id : FunctionId} {l : FrameLayout} {args : List Value} {e : HostError} (hlimit : l.size ≤ Buffer.addressLimit)
  (h : PacksAs id l.size (FrameLayout.incoming l.slots args) (.error e))
include hlimit h

theorem refused_of_packsAs : ∃ x ∈ FrameLayout.incoming l.slots args, ∃ e',
    (x.1.storedAlone l.size x.2).1 = .error (.failed e') ∧ e = .marshal (.argument id x.1.name e') := by
  obtain ⟨x, hx, e', hstores, he⟩ := h
  exact ⟨x, hx, e', storedAlone_error hlimit hstores, he⟩

theorem not_storable_of_packsAs : ¬ l.Storable args := by
  intro hstorable
  obtain ⟨x, hx, e', he', -⟩ := refused_of_packsAs hlimit h
  rw [hstorable x hx] at he'
  cases he'

end

/-! ### Unpacking -/

/-- The arguments behind those that were dealt with already are replaced one by one. -/
theorem unpack_ok (frame : Buffer) (ss : List FrameSlot) (hlimit : frame.length ≤ Buffer.addressLimit)
    (hsound : ∀ s ∈ ss, s.repr.Sound ∧ s.offset + s.repr.size ≤ frame.length) (world : σ) (done : List Value)
    {args : List Value} (hargs : args.length = ss.length) :
    ∃ args', (unpack frame done.length ss).runOn ⟨world, done ++ args⟩ = (.ok (), ⟨world, done ++ args'⟩) ∧
      List.Forall₂ (fun x v => x.1.Becomes frame x.2 v) (ss.zip args) args' := by
  induction ss generalizing done args with
  | nil =>
    obtain rfl := List.length_eq_zero_iff.mp hargs
    exact ⟨[], rfl, .nil⟩
  | cons s ss ih =>
    obtain ⟨v, args, rfl⟩ := List.exists_of_length_succ _ hargs
    -- The argument of this slot stands behind those in `done`, so that their number is its index.
    rw [List.forall_mem_cons] at hsound
    obtain ⟨⟨hs, hstop⟩, hss⟩ := hsound
    have hrest : args.length = ss.length := Nat.succ.inj hargs
    rw [unpack]
    split
    · next hout =>
      obtain ⟨v', hv'⟩ := Buffer.loads_read s.repr hs frame hstop hlimit
      obtain ⟨args', hrun, hbecome⟩ := ih hss (done ++ [v']) hrest
      have hreplace : (Call.replace done.length v').runOn (⟨world, done ++ v :: args⟩ : CallState σ) =
          (.ok (), ⟨world, done ++ [v'] ++ args⟩) := by
        show (Except.ok (), CallState.mk world ((done ++ v :: args).set done.length v')) = _
        simp
      refine ⟨v' :: args', ?_, .cons ?_ hbecome⟩
      · rw [List.append_cons done v' args', ← hrun, List.length_append]
        exact (run_bind_of_ok (Buffer.load_ok hv' _) _).trans (run_bind_of_ok hreplace _)
      · unfold FrameSlot.Becomes
        rw [if_pos hout]
        exact hv'
    · next hin =>
      obtain ⟨args', hrun, hbecome⟩ := ih hss (done ++ [v]) hrest
      refine ⟨v :: args', ?_, .cons ?_ hbecome⟩
      · rw [List.append_cons, List.append_cons done v args', ← hrun, List.length_append]
        rfl
      · unfold FrameSlot.Becomes
        rw [if_neg hin]

end DirectInvocable
end EngineBridge
