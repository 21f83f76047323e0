import EngineBridge.Proofs.Memory.Crashes

/-! What storing keeps, and what loading does not refuse, in memory of any size.

Whatever becomes of it, storing a value leaves the memory as long as it was. Loading a value from a place that has the size
of its representation is never refused; at most it breaks off. -/

namespace EngineBridge
namespace Buffer
open Outcome

/-! ### Storing -/

/-- The action leaves the memory as long as it was. -/
def KeepsLength {α : Type} (a : BufferAction α) : Prop := ∀ b : Buffer, (a.runOn b).2.length = b.length

section
variable {α β : Type} {x : BufferAction α} {f : α → BufferAction β} {offset size : Nat}

theorem Idle.keepsLength (h : Idle x) : KeepsLength x := fun b => congrArg List.length (h b)

theorem KeepsLength.bind (hx : KeepsLength x) (hf : ∀ a, KeepsLength (f a)) : KeepsLength (x >>= f) := by
  intro b
  have hb := hx b
  rw [runOn_bind]
  rcases hrun : x.runOn b with ⟨stop | a, b'⟩ <;> rw [hrun] at hb
  · exact hb
  · exact (hf a b').trans hb

theorem keepsLength_put {bytes : List UInt8} : KeepsLength (put offset bytes) := by
  intro b
  by_cases hplace : offset + bytes.length ≤ b.length
  · rw [put_ok hplace]
    exact length_patched hplace
  · have hcrash : (require offset bytes.length).runOn b = (.error .crashed, b) := by
      show (if b.length < offset + bytes.length then _ else _ : BufferAction Unit).runOn b = _
      rw [if_pos (Nat.lt_of_not_le hplace)]
      rfl
    show ((require offset bytes.length >>= fun _ => modify (·.patched offset bytes)).runOn b).2.length = b.length
    rw [runOn_bind, hcrash]

theorem keepsLength_writeScalar {kind : ScalarKind} {nativeType : String} {v : Value} :
    KeepsLength (writeScalar kind size nativeType offset v) := by
  obtain ⟨e, hwrite⟩ | ⟨bytes, -, hwrite⟩ | ⟨rfl, index, number, rfl⟩ := writeScalar_cases kind size nativeType v
  · rw [hwrite]
    exact (idle_fail e).keepsLength
  · rw [hwrite]
    exact keepsLength_put
  · refine keepsLength_put.bind fun _ => ?_
    split
    · exact idle_crash.keepsLength.bind fun _ => keepsLength_put
    · exact keepsLength_put

mutual
theorem keepsLength_write : ∀ (r : NativeRepr) (v : Value) {offset : Nat}, KeepsLength (write offset r v)
  | .scalar _ _ _ _, _, _ => idle_checkPlace.keepsLength.bind fun _ => keepsLength_writeScalar
  | .aggregate _ fields _ _ _, v, offset => by
    refine idle_checkPlace.keepsLength.bind fun _ => ?_
    split
    · next values =>
      split
      · exact keepsLength_writeFields fields values
      · exact (idle_fail _).keepsLength
    · exact (idle_fail _).keepsLength

theorem keepsLength_writeFields : ∀ (fields : List (Placed NativeRepr)) (values : List Value) {offset : Nat},
    KeepsLength (writeFields offset fields values)
  | ⟨_, _, r⟩ :: fs, v :: vs, _ =>
    idle_partOffset.keepsLength.bind fun _ => (keepsLength_write r v).bind fun _ => keepsLength_writeFields fs vs
  | [], _, _ => (idle_pure ()).keepsLength
  | _ :: _, [], _ => (idle_pure ()).keepsLength
end

end

/-! ### Loading -/

/-- The action is not refused. -/
def Proceeds {α : Type} (a : BufferAction α) (b : Buffer) : Prop := ∀ e, (a.runOn b).1 ≠ .error (.failed e)

section
variable {α β : Type} {x : BufferAction α} {f : α → BufferAction β} {b : Buffer}

theorem proceeds_pure (a : α) : Proceeds (pure a : BufferAction α) b := nofun

theorem Proceeds.bind (hidle : Idle x) (hx : Proceeds x b) (hf : ∀ a, Proceeds (f a) b) : Proceeds (x >>= f) b := by
  intro e
  rw [runOn_bind]
  rcases hrun : x.runOn b with ⟨stop | a, b'⟩
  · have hstop := hx e
    rw [hrun] at hstop
    simpa using hstop
  · obtain rfl := hidle.eq hrun
    exact hf a e

theorem proceeds_checkPlace {offset size : Nat} (h : offset + size ≤ b.length) : Proceeds (checkPlace offset size) b := by
  intro e
  rw [checkPlace_ok h]
  nofun

theorem proceeds_partOffset {offset inner : Nat} : Proceeds (partOffset offset inner) b := by
  unfold partOffset
  split <;> exact nofun

mutual
theorem proceeds_read : ∀ (r : NativeRepr) {offset : Nat}, r.Sound → offset + r.size ≤ b.length → Proceeds (read offset r) b
  | .scalar kind size _ _, offset, h, hplace => by
    refine Proceeds.bind idle_checkPlace (proceeds_checkPlace hplace) fun _ e => ?_
    have hsize : kind.HasSize (b.slice offset size).length := (length_slice hplace).symm ▸ h.scalar
    obtain ⟨v, hv⟩ := readScalar_ok hsize b
    show ((readScalar kind (b.slice offset size)).runOn b).1 ≠ _
    rw [hv]
    nofun
  | .aggregate _ fields size _ _, offset, h, hplace =>
    Proceeds.bind idle_checkPlace (proceeds_checkPlace hplace) fun _ =>
      Proceeds.bind (idle_readFields fields)
        (proceeds_readFields fields fun _ hp => ⟨h.field hp, Nat.le_trans (Nat.add_le_add_left (h.stop_le hp) _) hplace⟩)
        fun _ => proceeds_pure _

theorem proceeds_readFields : ∀ (fields : List (Placed NativeRepr)) {offset : Nat},
    (∀ p ∈ fields, p.repr.Sound ∧ offset + p.stop ≤ b.length) → Proceeds (readFields offset fields) b
  | [], _, _ => proceeds_pure _
  | ⟨name, inner, r⟩ :: fs, offset, h => by
    rw [List.forall_mem_cons] at h
    obtain ⟨⟨hsound, hstop⟩, hfs⟩ := h
    intro e
    by_cases hreached : offset + inner < addressLimit
    · have hplace : offset + inner + r.size ≤ b.length := by rwa [Nat.add_assoc]
      have hfirst : Proceeds (read (offset + inner) r) b := proceeds_read r hsound hplace
      have hrest : Proceeds (readFields offset fs) b := proceeds_readFields fs hfs
      have hfields := Proceeds.bind (idle_read r) hfirst fun v =>
        Proceeds.bind (idle_readFields fs) hrest fun vs => proceeds_pure (v :: vs)
      show ((partOffset offset inner >>= _).runOn b).1 ≠ _
      rw [runOn_bind, partOffset_ok hreached]
      exact hfields e
    · have hcrash : Crashes (readFields offset (⟨name, inner, r⟩ :: fs)) b :=
        crashes_readFields_cons.mpr (.inl (Nat.not_lt.mp hreached))
      rw [hcrash]
      nofun
end

end
end Buffer
end EngineBridge
