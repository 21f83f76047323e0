import EngineBridge.Host.Wire
import EngineBridge.Proofs.Outcome
import EngineBridge.Proofs.Text.Utf8

/-! What readers do with bytes that were written for them.

`Reads r bytes a` says that a reader takes exactly these bytes, whatever follows them, and `GivesUp` that it
finds them nested too deeply. Both are told of the parts of a reader and put together at each bind. -/

namespace EngineBridge
namespace Wire
open Outcome
variable {α β : Type}

/-- The reader takes exactly these bytes, whatever follows, and gives `a`. -/
def Reads (r : Reader α) (bytes : List UInt8) (a : α) : Prop :=
  ∀ position rest, r.run.run ⟨position, bytes ++ rest⟩ = (.ok a, ⟨position + bytes.length, rest⟩)

/-- The reader comes to a value below the last level within these bytes, whatever follows. -/
def GivesUp (r : Reader α) (bytes : List UInt8) : Prop :=
  ∀ position rest, (r.run.run ⟨position, bytes ++ rest⟩).1 = .error .tooDeep

section
variable {r : Reader α} {f : α → Reader β} {a : α} {b : β} {bytes more : List UInt8}

theorem reads_pure (a : α) : Reads (pure a) [] a := fun _ _ => rfl

theorem Reads.bind (hr : Reads r bytes a) (hf : Reads (f a) more b) : Reads (r >>= f) (bytes ++ more) b := by
  intro position rest
  rw [run_bind, List.append_assoc, hr, List.length_append, ← Nat.add_assoc]
  exact hf _ _

theorem Reads.toPure (hr : Reads r bytes a) (hf : f a = pure b) : Reads (r >>= f) bytes b := by
  have h : Reads (f a) [] b := hf ▸ reads_pure b
  have h := hr.bind h
  rwa [List.append_nil] at h

theorem Reads.map (hr : Reads r bytes a) (g : α → β) : Reads (do return g (← r)) bytes (g a) :=
  hr.toPure rfl

theorem GivesUp.bind (hr : GivesUp r bytes) (f : α → Reader β) (more : List UInt8) :
    GivesUp (r >>= f) (bytes ++ more) := by
  intro position rest
  rw [run_bind, List.append_assoc]
  have h := hr position (more ++ rest)
  rcases hx : r.run.run ⟨position, bytes ++ (more ++ rest)⟩ with ⟨x, c⟩
  rw [hx] at h
  subst h
  rfl

theorem GivesUp.andThen (hr : GivesUp r bytes) (f : α → Reader β) : GivesUp (r >>= f) bytes := by
  have h := hr.bind f []
  rwa [List.append_nil] at h

theorem Reads.bind_givesUp (hr : Reads r bytes a) (hf : GivesUp (f a) more) : GivesUp (r >>= f) (bytes ++ more) := by
  intro position rest
  rw [run_bind, List.append_assoc, hr]
  exact hf _ _

end

/-! ### Numbers and texts -/

theorem reads_take (bytes : List UInt8) : Reads (take bytes.length) bytes bytes := by
  intro position rest
  have hle : bytes.length ≤ (bytes ++ rest).length := by simp
  show (if bytes.length ≤ (bytes ++ rest).length then _ else _ : Reader (List UInt8)).run.run _ = _
  rw [if_pos hle]
  show (Except.ok ((bytes ++ rest).take bytes.length), Cursor.mk _ ((bytes ++ rest).drop bytes.length)) = _
  rw [List.take_left, List.drop_left]

theorem reads_number (bytes : List UInt8) : Reads (number bytes.length) bytes (numberOf bytes) :=
  (reads_take bytes).map numberOf

theorem reads_bytesOf {width n : Nat} (h : n < byteSpan width) : Reads (number width) (bytesOf width n) n := by
  have hr := reads_number (bytesOf width n)
  rwa [length_bytesOf, numberOf_bytesOf, Nat.mod_eq_of_lt h] at hr

theorem reads_word (n : UInt32) : Reads (number 4) (bytesOf 4 n.toNat) n.toNat := reads_bytesOf n.toNat_lt

theorem reads_doubleWord (n : UInt64) : Reads (number 8) (bytesOf 8 n.toNat) n.toNat := reads_bytesOf n.toNat_lt

theorem reads_tag (t : UInt8) : Reads (number 1) [t] t.toNat := reads_number [t]

/-- A length is read where at least as many bytes follow it. -/
theorem run_length {n : Nat} (hn : n < UInt32.size) (position : Nat) {rest : List UInt8} (hrest : n ≤ rest.length) :
    length.run.run ⟨position, lengthBytes n ++ rest⟩ = (.ok n, ⟨position + 4, rest⟩) := by
  have hnumber : Reads (number 4) (lengthBytes n) n := reads_bytesOf hn
  unfold length
  rw [run_bind, hnumber, lengthBytes, length_bytesOf]
  show (if rest.length < n then _ else _ : Reader Nat).run.run _ = _
  rw [if_neg (Nat.not_lt.mpr hrest)]
  rfl

section
variable {f : Nat → Reader β} {n : Nat} {bytes : List UInt8} {b : β}

theorem Reads.after_length (hn : n < UInt32.size) (hle : n ≤ bytes.length) (h : Reads (f n) bytes b) :
    Reads (length >>= f) (lengthBytes n ++ bytes) b := by
  intro position rest
  rw [run_bind, List.append_assoc, run_length hn position (by rw [List.length_append]; omega), List.length_append,
    lengthBytes, length_bytesOf, ← Nat.add_assoc]
  exact h _ _

theorem GivesUp.after_length (hn : n < UInt32.size) (hle : n ≤ bytes.length) (h : GivesUp (f n) bytes) :
    GivesUp (length >>= f) (lengthBytes n ++ bytes) := by
  intro position rest
  rw [run_bind, List.append_assoc, run_length hn position (by rw [List.length_append]; omega)]
  exact h _ _

end

/-- The length of a text goes into four bytes. -/
def TextFits (s : String) : Prop := (Utf8.encode s).length < UInt32.size

theorem reads_text {s : String} (h : TextFits s) : Reads text (textBytes s) s := by
  refine Reads.after_length h (Nat.le_refl _) ((reads_take (Utf8.encode s)).toPure ?_)
  simp only [Utf8.decode_encode]

end Wire
end EngineBridge
