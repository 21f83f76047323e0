import EngineBridge.Host.Buffer
import EngineBridge.Proofs.Outcome

/-! What actions put down in memory.

`Marks` are bytes for some places. An action `Stores` marks if it puts them over whatever the memory holds, and
stops for one reason whatever the memory holds otherwise; so what it does is known without the memory it does it
to. -/

namespace EngineBridge

/-- Bytes for some places of memory. -/
abbrev Marks := Nat → Option UInt8

namespace Marks

/-- No bytes. -/
def blank : Marks := fun _ => none

/-- Bytes one behind the other. -/
def ofBytes (offset : Nat) (bytes : List UInt8) : Marks := fun i => if offset ≤ i then bytes[i - offset]? else none

/-- The bytes of both, those of `next` where both have one. -/
def andThen (m next : Marks) : Marks := fun i => (next i).or (m i)

theorem isSome_ofBytes {offset i : Nat} {bytes : List UInt8} :
    (ofBytes offset bytes i).isSome = true ↔ offset ≤ i ∧ i < offset + bytes.length := by
  unfold ofBytes
  split
  · rw [isSome_getElem?]
    omega
  · simp
    omega

theorem isSome_andThen {m next : Marks} {i : Nat} :
    (m.andThen next i).isSome = true ↔ (m i).isSome = true ∨ (next i).isSome = true := by
  unfold andThen
  cases next i <;> simp

theorem andThen_of_left_none {m next : Marks} {i : Nat} (h : m i = none) : m.andThen next i = next i := by
  unfold andThen
  rw [h, Option.or_none]

theorem andThen_of_right_none {m next : Marks} {i : Nat} (h : next i = none) : m.andThen next i = m i := by
  unfold andThen
  rw [h, Option.none_or]

end Marks

namespace Buffer
open Outcome
variable {b : Buffer} {offset size i : Nat} {m next : Marks}

/-- The buffer with bytes put over some of its own. -/
def marked (b : Buffer) (m : Marks) : Buffer := b.mapIdx fun i x => (m i).getD x

@[simp] theorem length_marked : (b.marked m).length = b.length := List.length_mapIdx

theorem getElem?_marked : (b.marked m)[i]? = b[i]?.map fun x => (m i).getD x := List.getElem?_mapIdx

theorem marked_blank : b.marked .blank = b := by
  refine List.ext_getElem? fun i => ?_
  rw [getElem?_marked]
  cases b[i]? <;> rfl

theorem marked_marked : (b.marked m).marked next = b.marked (m.andThen next) := by
  refine List.ext_getElem? fun i => ?_
  rw [getElem?_marked, getElem?_marked, getElem?_marked, Option.map_map]
  cases b[i]? with
  | none => rfl
  | some x =>
    unfold Marks.andThen
    cases next i <;> simp

theorem getElem?_slice : (b.slice offset size)[i]? = if i < size then b[offset + i]? else none := by
  unfold slice
  rw [List.getElem?_take, List.getElem?_drop]

theorem slice_marked_congr {m' : Marks} (h : ∀ i, offset ≤ i → i < offset + size → m i = m' i) :
    (b.marked m).slice offset size = (b.marked m').slice offset size := by
  refine List.ext_getElem? fun i => ?_
  rw [getElem?_slice, getElem?_slice]
  split
  · rw [getElem?_marked, getElem?_marked, h (offset + i) (by omega) (by omega)]
  · rfl

theorem length_slice (h : offset + size ≤ b.length) : (b.slice offset size).length = size := by
  unfold slice
  rw [List.length_take, List.length_drop]
  omega

theorem patched_eq_marked {bytes : List UInt8} (h : offset + bytes.length ≤ b.length) :
    b.patched offset bytes = b.marked (.ofBytes offset bytes) := by
  refine List.ext_getElem? fun i => ?_
  have htake : (b.take offset).length = offset := by
    rw [List.length_take]
    omega
  rw [patched, List.append_assoc, getElem?_marked, Marks.ofBytes]
  by_cases hfront : i < offset
  · rw [List.getElem?_append_left (by omega), List.getElem?_take_of_lt hfront, if_neg (by omega)]
    cases b[i]? <;> rfl
  · rw [List.getElem?_append_right (by omega), htake, if_pos (by omega)]
    by_cases hin : i - offset < bytes.length
    · have hb : i < b.length := by omega
      rw [List.getElem?_append_left hin, List.getElem?_eq_getElem hin, List.getElem?_eq_getElem hb]
      rfl
    · have hi : offset + bytes.length + (i - offset - bytes.length) = i := by omega
      rw [List.getElem?_append_right (by omega), List.getElem?_drop, List.getElem?_eq_none (l := bytes) (by omega), hi]
      cases b[i]? <;> rfl

theorem length_patched {bytes : List UInt8} (h : offset + bytes.length ≤ b.length) :
    (b.patched offset bytes).length = b.length := by
  rw [patched_eq_marked h, length_marked]

theorem length_zeroed (size : Nat) : (zeroed size).length = size := List.length_replicate

theorem length_kept {changed : Buffer} : (b.kept changed).length = b.length := by
  unfold kept
  rw [List.length_append, List.length_take, List.length_drop]
  omega

/-! ### Actions that store -/

/-- On all memory that reaches so far the action does the same: it puts down these bytes, or stops for this
reason. -/
def Stores {ε : Type} (a : Action Buffer ε Unit) (reach : Nat) : Except ε Marks → Prop
  | .ok m => ∀ b : Buffer, reach ≤ b.length → b.length ≤ addressLimit → a.runOn b = (.ok (), b.marked m)
  | .error e => ∀ b : Buffer, reach ≤ b.length → b.length ≤ addressLimit → ∃ b', a.runOn b = (.error (.failed e), b')

section
variable {ε δ : Type} {a a' : Action Buffer ε Unit} {reach : Nat} {outcome : Except ε Marks}

theorem stores_pure : Stores (pure () : Action Buffer ε Unit) reach (.ok .blank) := by
  intro b _ _
  rw [marked_blank]
  rfl

theorem stores_fail (e : ε) : Stores (Action.fail e : Action Buffer ε Unit) reach (.error e) :=
  fun b _ _ => ⟨b, rfl⟩

theorem Stores.mono {reach' : Nat} (h : Stores a reach outcome) (hle : reach ≤ reach') : Stores a reach' outcome := by
  cases outcome with
  | ok m => exact fun b hb hlimit => h b (Nat.le_trans hle hb) hlimit
  | error e => exact fun b hb hlimit => h b (Nat.le_trans hle hb) hlimit

theorem Stores.zeroed_ok (h : Stores a size (.ok m)) (hlimit : size ≤ addressLimit) :
    a.runOn (.zeroed size) = (.ok (), (zeroed size).marked m) :=
  h (.zeroed size) (Nat.le_of_eq (length_zeroed size).symm) (by rwa [length_zeroed])

theorem Stores.zeroed_error {e : ε} (h : Stores a size (.error e)) (hlimit : size ≤ addressLimit) :
    ∃ b, a.runOn (.zeroed size) = (.error (.failed e), b) :=
  h (.zeroed size) (Nat.le_of_eq (length_zeroed size).symm) (by rwa [length_zeroed])

theorem Stores.bind (h : Stores a reach (.ok m)) (h' : Stores a' reach outcome) :
    Stores (a >>= fun _ => a') reach (outcome.map m.andThen) := by
  have hrun : ∀ b : Buffer, reach ≤ b.length → b.length ≤ addressLimit →
      (a >>= fun _ => a').runOn b = a'.runOn (b.marked m) := fun b hb hlimit => run_bind_of_ok (h b hb hlimit) _
  cases outcome with
  | ok m' =>
    intro b hb hlimit
    rw [hrun b hb hlimit, h' _ (by rwa [length_marked]) (by rwa [length_marked]), marked_marked]
  | error e =>
    intro b hb hlimit
    rw [hrun b hb hlimit]
    exact h' _ (by rwa [length_marked]) (by rwa [length_marked])

theorem Stores.bind_error {e : ε} (h : Stores a reach (.error e)) (f : Unit → Action Buffer ε Unit) :
    Stores (a >>= f) reach (.error e) := by
  intro b hb hlimit
  obtain ⟨b', hb'⟩ := h b hb hlimit
  exact ⟨b', run_bind_of_error hb' f⟩

/-- A step in front that changes nothing. -/
theorem Stores.after {α : Type} {x : Action Buffer ε α} {f : α → Action Buffer ε Unit} {r : α}
    (hx : ∀ b : Buffer, reach ≤ b.length → b.length ≤ addressLimit → x.runOn b = (.ok r, b))
    (h : Stores (f r) reach outcome) : Stores (x >>= f) reach outcome := by
  have hrun : ∀ b : Buffer, reach ≤ b.length → b.length ≤ addressLimit → (x >>= f).runOn b = (f r).runOn b :=
    fun b hb hlimit => run_bind_of_ok (hx b hb hlimit) _
  cases outcome with
  | ok m =>
    intro b hb hlimit
    rw [hrun b hb hlimit]
    exact h b hb hlimit
  | error e =>
    intro b hb hlimit
    rw [hrun b hb hlimit]
    exact h b hb hlimit

theorem Stores.mapError (h : Stores a reach outcome) (f : ε → δ) :
    Stores (Action.mapError f a) reach (outcome.mapError f) := by
  cases outcome with
  | ok m =>
    intro b hb hlimit
    show ((a.runOn b).1.mapError _, (a.runOn b).2) = _
    rw [h b hb hlimit]
    rfl
  | error e =>
    intro b hb hlimit
    obtain ⟨b', hb'⟩ := h b hb hlimit
    refine ⟨b', ?_⟩
    show ((a.runOn b).1.mapError _, (a.runOn b).2) = _
    rw [hb']
    rfl

end

theorem checkPlace_ok (h : offset + size ≤ b.length) : (checkPlace offset size).runOn b = (.ok (), b) := by
  show (if b.length < offset + size then _ else _ : BufferAction Unit).runOn b = _
  rw [if_neg (Nat.not_lt.mpr h)]
  rfl

theorem put_ok {bytes : List UInt8} (h : offset + bytes.length ≤ b.length) :
    (put offset bytes).runOn b = (.ok (), b.patched offset bytes) := by
  have hrequire : (require offset bytes.length).runOn b = (.ok (), b) := by
    show (if b.length < offset + bytes.length then _ else _ : BufferAction Unit).runOn b = _
    rw [if_neg (Nat.not_lt.mpr h)]
    rfl
  exact run_bind_of_ok hrequire _

theorem stores_put {bytes : List UInt8} {reach : Nat} (h : offset + bytes.length ≤ reach) :
    Stores (put offset bytes) reach (.ok (.ofBytes offset bytes)) := by
  intro b hb _
  have hle : offset + bytes.length ≤ b.length := Nat.le_trans h hb
  rw [put_ok hle, patched_eq_marked hle]

theorem partOffset_ok {inner : Nat} (h : offset + inner < addressLimit) :
    (partOffset offset inner).runOn b = (.ok (offset + inner), b) := by
  unfold partOffset
  rw [if_pos h]
  rfl

end Buffer
end EngineBridge
