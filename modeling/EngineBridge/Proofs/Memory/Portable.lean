import EngineBridge.Proofs.Memory.Values

/-! Values that are stored elsewhere.

Storing a value puts down the same bytes wherever it is stored, and is refused for the same reason. So what lies in a
slot of a larger memory is what the value alone would fill a memory of its size with. -/

namespace EngineBridge

namespace Marks
variable {m next : Marks} {offset inner : Nat}

/-- The same bytes, so much further on. -/
def shifted (offset : Nat) (m : Marks) : Marks := fun i => if offset ≤ i then m (i - offset) else none

theorem shifted_blank : blank.shifted offset = blank := by
  funext i
  exact ite_self none

theorem shifted_ofBytes {bytes : List UInt8} : (ofBytes inner bytes).shifted offset = ofBytes (offset + inner) bytes := by
  funext i
  unfold shifted ofBytes
  by_cases hi : offset + inner ≤ i
  · rw [if_pos (by omega), if_pos (by omega), if_pos hi, Nat.sub_sub]
  · rw [if_neg hi]
    split
    · rw [if_neg (by omega)]
    · rfl

theorem shifted_andThen : (m.andThen next).shifted offset = (m.shifted offset).andThen (next.shifted offset) := by
  funext i
  unfold andThen shifted
  dsimp only
  split <;> rfl

theorem shifted_shifted : (m.shifted inner).shifted offset = m.shifted (offset + inner) := by
  funext i
  unfold shifted
  by_cases hi : offset + inner ≤ i
  · rw [if_pos (by omega), if_pos (by omega), if_pos hi, Nat.sub_sub]
  · rw [if_neg hi]
    split
    · rw [if_neg (by omega)]
    · rfl

end Marks

namespace Buffer
open NativeRepr Outcome

/-- Done at any offset, the action comes to the same within its reach from there. -/
def Portable (a : Nat → BufferAction Unit) (reach : Nat) : Prop :=
  ∃ outcome : Except BufferError Marks, ∀ offset, Stores (a offset) (offset + reach) (outcome.map (Marks.shifted offset))

section
variable {a a' : Nat → BufferAction Unit} {reach size inner : Nat} {bytes : List UInt8}

theorem portable_fail (e : BufferError) : Portable (fun _ => Action.fail e) reach :=
  ⟨.error e, fun _ => stores_fail e⟩

theorem portable_pure : Portable (fun _ => pure ()) reach := by
  refine ⟨.ok .blank, fun offset => ?_⟩
  show Stores _ _ (.ok (Marks.shifted offset .blank))
  rw [Marks.shifted_blank]
  exact stores_pure

theorem portable_put (inner : Nat) (h : inner + bytes.length ≤ reach) :
    Portable (fun offset => put (offset + inner) bytes) reach := by
  refine ⟨.ok (.ofBytes inner bytes), fun offset => ?_⟩
  show Stores _ _ (.ok (Marks.shifted offset (.ofBytes inner bytes)))
  rw [Marks.shifted_ofBytes]
  exact stores_put (by omega)

theorem Portable.bind (h : Portable a reach) (h' : Portable a' reach) :
    Portable (fun offset => a offset >>= fun _ => a' offset) reach := by
  obtain ⟨outcome, hstores⟩ := h
  cases outcome with
  | error e => exact ⟨.error e, fun offset => (hstores offset).bind_error _⟩
  | ok m =>
    obtain ⟨outcome', hstores'⟩ := h'
    refine ⟨outcome'.map m.andThen, fun offset => ?_⟩
    have hboth := (hstores offset).bind (hstores' offset)
    cases outcome' with
    | error e => exact hboth
    | ok m' =>
      show Stores _ _ (.ok (Marks.shifted offset (m.andThen m')))
      rw [Marks.shifted_andThen]
      exact hboth

/-- A step in front that changes nothing. -/
theorem Portable.after {α : Type} {x : Nat → BufferAction α} {f : Nat → α → BufferAction Unit} {r : Nat → α}
    (hx : ∀ offset, ∀ b : Buffer, offset + reach ≤ b.length → b.length ≤ addressLimit → (x offset).runOn b = (.ok (r offset), b))
    (h : Portable (fun offset => f offset (r offset)) reach) : Portable (fun offset => x offset >>= f offset) reach := by
  obtain ⟨outcome, hstores⟩ := h
  exact ⟨outcome, fun offset => (hstores offset).after (hx offset)⟩

/-- An action on a part of a place. -/
theorem Portable.part (h : Portable a size) (hle : inner + size ≤ reach) :
    Portable (fun offset => a (offset + inner)) reach := by
  obtain ⟨outcome, hstores⟩ := h
  refine ⟨outcome.map (Marks.shifted inner), fun offset => ?_⟩
  have hreach : offset + inner + size ≤ offset + reach := by omega
  have hinner := (hstores (offset + inner)).mono hreach
  cases outcome with
  | error e => exact hinner
  | ok m =>
    show Stores _ _ (.ok (Marks.shifted offset (m.shifted inner)))
    rw [Marks.shifted_shifted]
    exact hinner

end

section
variable {size : Nat} {v : Value}

theorem portable_writeScalar {kind : ScalarKind} (hsize : kind.HasSize size) (nativeType : String) (v : Value) :
    Portable (fun offset => writeScalar kind size nativeType offset v) size := by
  obtain ⟨e, hwrite⟩ | ⟨bytes, hlength, hwrite⟩ | ⟨rfl, index, number, rfl⟩ := writeScalar_cases kind size nativeType v
  · simp only [hwrite]
    exact portable_fail e
  · simp only [hwrite]
    exact portable_put 0 (by rw [hlength hsize, Nat.zero_add])
  · cases hsize
    have hfront : Portable (fun offset => put (offset + 0) (bytesOf 4 index.toNat)) 8 :=
      portable_put 0 (by rw [length_bytesOf]; decide)
    have hback : Portable (fun offset => put (offset + 4) (bytesOf 4 number.toNat)) 8 :=
      portable_put 4 (by rw [length_bytesOf])
    exact hfront.bind hback

end

mutual
/-- A value is stored in the same way everywhere. -/
theorem portable_write : ∀ (r : NativeRepr) (v : Value), r.Sound → Portable (fun offset => write offset r v) r.size
  | .scalar kind size align nativeType, v, h => by
    have hscalar : Portable (fun offset => writeScalar kind size nativeType offset v) size :=
      portable_writeScalar h.scalar nativeType v
    exact Portable.after (fun offset b hb _ => checkPlace_ok hb) hscalar
  | .aggregate type fields size align nativeType, v, h => by
    refine Portable.after (fun offset b (hb : offset + size ≤ b.length) _ => checkPlace_ok hb) ?_
    cases v with
    | struct values =>
      by_cases hlength : values.length = fields.length
      · simp only [if_pos hlength]
        exact portable_writeFields fields values hlength fun p hp => ⟨h.field hp, h.stop_le hp⟩
      · simp only [if_neg hlength]
        exact portable_fail _
    | _ => exact portable_fail _

theorem portable_writeFields : ∀ (fields : List (Placed NativeRepr)) (values : List Value) {size : Nat},
    values.length = fields.length → (∀ p ∈ fields, p.repr.Sound ∧ p.stop ≤ size) →
    Portable (fun offset => writeFields offset fields values) size
  | [], [], size, _, _ => portable_pure
  | ⟨name, inner, r⟩ :: fs, v :: vs, size, hlength, h => by
    rw [List.forall_mem_cons] at h
    obtain ⟨⟨hsound, hstop⟩, hfs⟩ := h
    have hplace : inner + r.size ≤ size := hstop
    have hfirst : Portable (fun offset => write (offset + inner) r v) size := (portable_write r v hsound).part hplace
    have hrest : Portable (fun offset => writeFields offset fs vs) size :=
      portable_writeFields fs vs (Nat.succ.inj hlength) hfs
    have hpart : ∀ offset, ∀ b : Buffer, offset + size ≤ b.length → b.length ≤ addressLimit →
        (partOffset offset inner).runOn b = (.ok (offset + inner), b) := by
      intro offset b hb hlimit
      have hpos := hsound.size_pos (.whole r)
      exact partOffset_ok (by omega)
    exact Portable.after hpart (hfirst.bind hrest)
end

/-- What was stored somewhere is what the value alone fills its own memory with. -/
theorem write_alone {r : NativeRepr} {v : Value} {offset size : Nat} (hr : r.Sound) (hstop : offset + r.size ≤ size)
    (hlimit : size ≤ addressLimit) (h : ((write offset r v).runOn (zeroed size)).1 = .ok ()) :
    (write 0 r v).runOn (zeroed r.size) = (.ok (), ((write offset r v).runOn (zeroed size)).2.slice offset r.size) := by
  obtain ⟨outcome, hstores⟩ := portable_write r v hr
  have hlength := length_zeroed size
  cases outcome with
  | error e =>
    obtain ⟨b, hb⟩ := hstores offset (zeroed size) (by rwa [hlength]) (by rwa [hlength])
    rw [hb] at h
    cases h
  | ok m =>
    have hthere : (write offset r v).runOn (zeroed size) = (.ok (), (zeroed size).marked (m.shifted offset)) :=
      hstores offset (zeroed size) (by rwa [hlength]) (by rwa [hlength])
    have hhere : (write 0 r v).runOn (zeroed r.size) = (.ok (), (zeroed r.size).marked (m.shifted 0)) :=
      hstores 0 (zeroed r.size) (by rw [length_zeroed, Nat.zero_add]) (by rw [length_zeroed]; omega)
    rw [hthere, hhere]
    refine congrArg (Prod.mk _) (List.ext_getElem? fun i => ?_)
    rw [getElem?_slice, getElem?_marked]
    by_cases hi : i < r.size
    · have hshifted : m.shifted offset (offset + i) = m.shifted 0 i := by
        unfold Marks.shifted
        rw [if_pos (by omega), if_pos (by omega), Nat.add_sub_cancel_left, Nat.sub_zero]
      rw [if_pos hi, getElem?_marked, hshifted, zeroed, zeroed, List.getElem?_replicate_of_lt hi,
        List.getElem?_replicate_of_lt (by omega)]
    · rw [if_neg hi, List.getElem?_eq_none (by rw [length_zeroed]; omega)]
      rfl

theorem writeScalar_void {kind : ScalarKind} {size offset : Nat} {nativeType : String} :
    writeScalar kind size nativeType offset .void = Action.fail (.cannotStore "void" nativeType) := by
  cases kind <;> rfl

/-- What is void is stored nowhere. -/
theorem write_void {r : NativeRepr} {offset : Nat} {b : Buffer} : ((write offset r .void).runOn b).1 ≠ .ok () := by
  have hplace : ∀ size e, ((checkPlace offset size >>= fun _ => Action.fail e).runOn b).1 ≠ .ok () := by
    intro size e
    unfold Action.runOn
    rw [run_bind]
    split
    · exact fun h => nomatch h
    · exact fun h => nomatch h
  cases r with
  | scalar kind size align nativeType =>
    rw [write, writeScalar_void]
    exact hplace size _
  | aggregate type fields size align nativeType =>
    rw [write]
    · exact hplace size _
    · exact fun values h => nomatch h

end Buffer
end EngineBridge
