import EngineBridge.Proofs.Layout.Sizes
import EngineBridge.Proofs.Memory.Marks

/-! Values in memory.

Where a representation is sound, storing a value there is refused whatever the memory holds or puts bytes on all
of its scalars and on nothing else, and loading always gives a value. Both by induction on the representation,
with the fields of a struct beside it. -/

namespace EngineBridge
namespace Buffer
open NativeRepr Outcome

/-- The action stores, and if it is not refused, then on exactly these places. -/
def StoresOn (a : BufferAction Unit) (reach : Nat) (places : Nat → Prop) : Prop :=
  ∃ outcome, Stores a reach outcome ∧ ∀ m, outcome = .ok m → ∀ i, (m i).isSome = true ↔ places i

section
variable {a a' : BufferAction Unit} {reach : Nat} {places places' : Nat → Prop} {offset size : Nat}

theorem storesOn_fail (e : BufferError) : StoresOn (Action.fail e) reach places :=
  ⟨.error e, stores_fail e, fun _ h => (nomatch h)⟩

theorem storesOn_put {bytes : List UInt8} (hsize : bytes.length = size) (h : offset + size ≤ reach) :
    StoresOn (put offset bytes) reach (fun i => offset ≤ i ∧ i < offset + size) := by
  subst hsize
  refine ⟨_, stores_put h, fun m hm i => ?_⟩
  cases hm
  exact Marks.isSome_ofBytes

theorem StoresOn.bind (h : StoresOn a reach places) (h' : StoresOn a' reach places') :
    StoresOn (a >>= fun _ => a') reach (fun i => places i ∨ places' i) := by
  obtain ⟨outcome, hstores, hplaces⟩ := h
  cases outcome with
  | error e => exact ⟨.error e, hstores.bind_error _, fun _ h => (nomatch h)⟩
  | ok m =>
    obtain ⟨outcome', hstores', hplaces'⟩ := h'
    refine ⟨_, hstores.bind hstores', fun joined hjoined i => ?_⟩
    cases outcome' with
    | error e => cases hjoined
    | ok m' =>
      cases hjoined
      rw [Marks.isSome_andThen, hplaces m rfl, hplaces' m' rfl]

theorem StoresOn.after {α : Type} {x : BufferAction α} {f : α → BufferAction Unit} {r : α}
    (hx : ∀ b : Buffer, reach ≤ b.length → b.length ≤ addressLimit → x.runOn b = (.ok r, b))
    (h : StoresOn (f r) reach places) : StoresOn (x >>= f) reach places := by
  obtain ⟨outcome, hstores, hplaces⟩ := h
  exact ⟨outcome, hstores.after hx, hplaces⟩

theorem StoresOn.mono {reach' : Nat} (h : StoresOn a reach places) (hle : reach ≤ reach') :
    StoresOn a reach' places := by
  obtain ⟨outcome, hstores, hplaces⟩ := h
  exact ⟨outcome, hstores.mono hle, hplaces⟩

theorem StoresOn.congr (h : StoresOn a reach places) (hiff : ∀ i, places i ↔ places' i) : StoresOn a reach places' := by
  obtain ⟨outcome, hstores, hplaces⟩ := h
  exact ⟨outcome, hstores, fun m hm i => (hplaces m hm i).trans (hiff i)⟩

end

theorem length_integerBytes? {signed : Bool} {size : Nat} {n : Int} {bytes : List UInt8}
    (h : integerBytes? signed size n = some bytes) : bytes.length = size := by
  unfold integerBytes? at h
  obtain ⟨type, -, h⟩ := Option.bind_eq_some_iff.mp h
  split at h
  · cases h
    exact length_bytesOf _ _
  · cases h

/-- Whether a scalar is refused and which bytes it is put down with does not depend on the place. A name is put down in
two halves. -/
theorem writeScalar_cases (kind : ScalarKind) (size : Nat) (nativeType : String) (v : Value) :
    (∃ e, ∀ offset, writeScalar kind size nativeType offset v = Action.fail e) ∨
      (∃ bytes, (kind.HasSize size → bytes.length = size) ∧
        ∀ offset, writeScalar kind size nativeType offset v = put offset bytes) ∨
      kind = .name ∧ ∃ index number, v = .name index number := by
  cases kind with
  | bool =>
    cases v with
    | bool b => exact .inr (.inl ⟨[if b then 1 else 0], Eq.symm, fun _ => rfl⟩)
    | _ => exact .inl ⟨_, fun _ => rfl⟩
  | integer signed | enum _ signed =>
    cases hn : storable? v with
    | none => exact .inl ⟨.cannotStore v.typeName nativeType, fun _ => by simp only [writeScalar, hn]⟩
    | some n =>
      cases hbytes : integerBytes? signed size n with
      | none => exact .inl ⟨.doesNotFit n nativeType, fun _ => by simp only [writeScalar, hn, hbytes]⟩
      | some bytes =>
        exact .inr (.inl ⟨bytes, fun _ => length_integerBytes? hbytes, fun _ => by simp only [writeScalar, hn, hbytes]⟩)
  | float =>
    cases hv : v.double? with
    | none => exact .inl ⟨.cannotStore v.typeName nativeType, fun _ => by simp only [writeScalar, hv]⟩
    | some bits =>
      by_cases h4 : size = 4
      · subst h4
        exact .inr (.inl ⟨bytesOf 4 (narrowed bits).toNat, fun _ => length_bytesOf _ _, fun _ => by simp only [writeScalar, hv]⟩)
      by_cases h8 : size = 8
      · subst h8
        exact .inr (.inl ⟨bytesOf 8 bits.toNat, fun _ => length_bytesOf _ _, fun _ => by simp only [writeScalar, hv]⟩)
      · exact .inl ⟨.floatWidth size, fun _ => by simp only [writeScalar, hv]⟩
  | objectHandle =>
    cases v with
    | handle address =>
      cases hbytes : integerBytes? false size address.toNat with
      | none => exact .inl ⟨.handleTooWide, fun _ => by simp only [writeScalar, hbytes]⟩
      | some bytes =>
        exact .inr (.inl ⟨bytes, fun _ => length_integerBytes? hbytes, fun _ => by simp only [writeScalar, hbytes]⟩)
    | _ => exact .inl ⟨_, fun _ => rfl⟩
  | name =>
    cases v with
    | name index number => exact .inr (.inr ⟨rfl, index, number, rfl⟩)
    | _ => exact .inl ⟨_, fun _ => rfl⟩

theorem storesOn_writeScalar {kind : ScalarKind} {size offset : Nat} (hsize : kind.HasSize size) (nativeType : String)
    (v : Value) :
    StoresOn (writeScalar kind size nativeType offset v) (offset + size) (fun i => offset ≤ i ∧ i < offset + size) := by
  obtain ⟨e, hwrite⟩ | ⟨bytes, hlength, hwrite⟩ | ⟨rfl, index, number, rfl⟩ := writeScalar_cases kind size nativeType v
  · rw [hwrite]
    exact storesOn_fail e
  · rw [hwrite]
    exact storesOn_put (hlength hsize) (Nat.le_refl _)
  · cases hsize
    -- A name is put down in two halves, which meet in the middle.
    have hfront : StoresOn (put offset (bytesOf 4 index.toNat)) (offset + 8) _ :=
      storesOn_put (length_bytesOf _ _) (by omega)
    have hback : StoresOn (put (offset + 4) (bytesOf 4 number.toNat)) (offset + 8) _ :=
      storesOn_put (length_bytesOf _ _) (by omega)
    refine StoresOn.congr (hfront.bind hback) fun i => ?_
    omega

mutual
/-- A value is stored on the scalars of its representation. -/
theorem storesOn_write : ∀ (r : NativeRepr) (v : Value) {offset : Nat}, r.Sound →
    StoresOn (write offset r v) (offset + r.size) (r.Covers offset)
  | .scalar kind size align nativeType, v, offset, h => by
    have hscalar : StoresOn (writeScalar kind size nativeType offset v) (offset + size) _ :=
      storesOn_writeScalar h.scalar nativeType v
    refine (StoresOn.after (fun b hb _ => checkPlace_ok hb) hscalar).congr fun i => ?_
    rw [covers_scalar]
  | .aggregate type fields size align nativeType, v, offset, h => by
    refine StoresOn.after (fun b hb _ => checkPlace_ok hb) ?_
    split
    · next values =>
      split
      · next hlength =>
        have hfields : StoresOn (writeFields offset fields values) (offset + size) _ :=
          storesOn_writeFields fields values hlength (fun p hp => ⟨h.field hp, h.stop_le hp⟩)
        exact hfields.congr fun i => covers_aggregate.symm
      · exact storesOn_fail _
    · exact storesOn_fail _

theorem storesOn_writeFields : ∀ (fields : List (Placed NativeRepr)) (values : List Value) {offset size : Nat},
    values.length = fields.length → (∀ p ∈ fields, p.repr.Sound ∧ p.stop ≤ size) →
    StoresOn (writeFields offset fields values) (offset + size)
      (fun i => ∃ p ∈ fields, p.repr.Covers (offset + p.offset) i)
  | [], [], offset, size, _, _ => by
    refine ⟨.ok .blank, stores_pure, fun m hm i => ?_⟩
    cases hm
    simp [Marks.blank]
  | ⟨name, inner, r⟩ :: fs, v :: vs, offset, size, hlength, h => by
    rw [List.forall_mem_cons] at h
    obtain ⟨⟨hsound, hstop⟩, hfs⟩ := h
    have hplace : offset + inner + r.size ≤ offset + size := by
      have : inner + r.size ≤ size := hstop
      omega
    have hfirst : StoresOn (write (offset + inner) r v) (offset + size) _ := (storesOn_write r v hsound).mono hplace
    have hrest : StoresOn (writeFields offset fs vs) (offset + size) _ :=
      storesOn_writeFields fs vs (Nat.succ.inj hlength) hfs
    have hpart : ∀ b : Buffer, offset + size ≤ b.length → b.length ≤ addressLimit →
        (partOffset offset inner).runOn b = (.ok (offset + inner), b) := by
      intro b hb hlimit
      have hpos := hsound.size_pos (.whole r)
      exact partOffset_ok (by omega)
    refine (StoresOn.after hpart (hfirst.bind hrest)).congr fun i => ?_
    rw [List.exists_mem_cons_iff]
end

/-! ### Loading -/

/-- On memory that reaches so far the action gives a value and changes nothing. -/
def Loads {α : Type} (a : BufferAction α) (reach : Nat) : Prop :=
  ∀ b : Buffer, reach ≤ b.length → b.length ≤ addressLimit → ∃ v, a.runOn b = (.ok v, b)

theorem Loads.mono {α : Type} {a : BufferAction α} {reach reach' : Nat} (h : Loads a reach) (hle : reach ≤ reach') :
    Loads a reach' :=
  fun b hb hlimit => h b (Nat.le_trans hle hb) hlimit

theorem exists_integerType? {signed : Bool} {size : Nat} (h : size ∈ [1, 2, 4, 8]) :
    ∃ t, integerType? signed size = some t := by
  simp only [List.mem_cons, List.not_mem_nil, or_false] at h
  rcases h with rfl | rfl | rfl | rfl <;> cases signed <;> exact ⟨_, rfl⟩

theorem readInteger_of_type {signed : Bool} {t : IntegerType} {bytes : List UInt8}
    (ht : integerType? signed bytes.length = some t) (b : Buffer) :
    (readInteger signed bytes).runOn b = (.ok (.ofBits t (numberOf bytes)), b) := by
  unfold readInteger
  rw [ht]
  rfl

theorem readInteger_ok {signed : Bool} {bytes : List UInt8} (h : bytes.length ∈ [1, 2, 4, 8]) (b : Buffer) :
    ∃ i, (readInteger signed bytes).runOn b = (.ok i, b) := by
  obtain ⟨t, ht⟩ : ∃ t, integerType? signed bytes.length = some t := exists_integerType? h
  exact ⟨.ofBits t (numberOf bytes), readInteger_of_type ht b⟩

/-- The bytes of a scalar always stand for a value. -/
theorem readScalar_ok {kind : ScalarKind} {bytes : List UInt8} (h : kind.HasSize bytes.length) (b : Buffer) :
    ∃ v, (readScalar kind bytes).runOn b = (.ok v, b) := by
  unfold readScalar
  cases kind with
  | bool =>
    cases bytes with
    | nil => cases h
    | cons x xs => exact ⟨_, rfl⟩
  | integer signed =>
    obtain ⟨i, hi⟩ := readInteger_ok h b
    exact ⟨_, run_bind_of_ok hi _⟩
  | enum type signed =>
    obtain ⟨i, hi⟩ := readInteger_ok h b
    exact ⟨_, run_bind_of_ok hi _⟩
  | float =>
    simp only [ScalarKind.HasSize, List.mem_cons, List.not_mem_nil, or_false] at h
    rcases h with h | h <;> simp only [h] <;> exact ⟨_, rfl⟩
  | objectHandle =>
    have hlength : bytes.length ∈ [1, 2, 4, 8] := by
      rw [show bytes.length = 8 from h]
      decide
    obtain ⟨i, hi⟩ := readInteger_ok hlength b
    exact ⟨_, run_bind_of_ok hi _⟩
  | name =>
    simp only [show bytes.length = 8 from h]
    exact ⟨_, rfl⟩

mutual
/-- A value is loaded wherever its representation fits. -/
theorem loads_read : ∀ (r : NativeRepr) {offset : Nat}, r.Sound → Loads (read offset r) (offset + r.size)
  | .scalar kind size align nativeType, offset, h => by
    intro b hb _
    have hlength : (b.slice offset size).length = size := length_slice hb
    have hsize : kind.HasSize (b.slice offset size).length := hlength.symm ▸ h.scalar
    obtain ⟨v, hv⟩ := readScalar_ok hsize b
    exact ⟨v, (run_bind_of_ok (checkPlace_ok hb) _).trans hv⟩
  | .aggregate type fields size align nativeType, offset, h => by
    intro b hb hlimit
    have hfields : Loads (readFields offset fields) (offset + size) :=
      loads_readFields fields (fun p hp => ⟨h.field hp, h.stop_le hp⟩)
    obtain ⟨vs, hvs⟩ := hfields b hb hlimit
    exact ⟨.struct vs, (run_bind_of_ok (checkPlace_ok hb) _).trans (run_bind_of_ok hvs _)⟩

theorem loads_readFields : ∀ (fields : List (Placed NativeRepr)) {offset size : Nat},
    (∀ p ∈ fields, p.repr.Sound ∧ p.stop ≤ size) → Loads (readFields offset fields) (offset + size)
  | [], _, _, _ => fun _ _ _ => ⟨[], rfl⟩
  | ⟨name, inner, r⟩ :: fs, offset, size, h => by
    intro b hb hlimit
    rw [List.forall_mem_cons] at h
    obtain ⟨⟨hsound, hstop⟩, hfs⟩ := h
    have hplace : offset + inner + r.size ≤ b.length := by
      have : inner + r.size ≤ size := hstop
      omega
    have hpos := hsound.size_pos (.whole r)
    have hpart : (partOffset offset inner).runOn b = (.ok (offset + inner), b) := partOffset_ok (by omega)
    obtain ⟨v, hv⟩ := loads_read r hsound b hplace hlimit
    obtain ⟨vs, hvs⟩ := loads_readFields fs hfs b hb hlimit
    refine ⟨v :: vs, ?_⟩
    exact (run_bind_of_ok hpart _).trans ((run_bind_of_ok hv _).trans (run_bind_of_ok hvs _))
end

end Buffer
end EngineBridge
