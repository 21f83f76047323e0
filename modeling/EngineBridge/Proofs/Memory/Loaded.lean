import EngineBridge.Proofs.Memory.Stored

/-! Values that are stored where they were loaded.

What is loaded has the form of its slot, and so it comes back as it was once it is stored. But an enum holds its number
in 64 bits with a sign, whatever integer type is behind it: of the larger numbers of an unsigned type only the lowest
bits are loaded, which are a negative number, and this the slot does not take. -/

namespace EngineBridge

namespace NativeRepr

/-- `Yields r v`: the value has the form in which values of `r` are loaded. -/
inductive Yields : NativeRepr → Value → Prop
  | bool {size align : Nat} {nativeType : String} {b : Bool} : Yields (.scalar .bool size align nativeType) (.bool b)
  | handle {size align : Nat} {nativeType : String} {address : UInt64} :
      Yields (.scalar .objectHandle size align nativeType) (.handle address)
  | name {size align : Nat} {nativeType : String} {index number : UInt32} :
      Yields (.scalar .name size align nativeType) (.name index number)
  | float {align : Nat} {nativeType : String} {bits : UInt32} :
      Yields (.scalar .float 4 align nativeType) (.float bits)
  | double {align : Nat} {nativeType : String} {bits : UInt64} :
      Yields (.scalar .float 8 align nativeType) (.double bits)
  | integer {signed : Bool} {size align : Nat} {nativeType : String} {i : TypedInteger}
      (ht : Buffer.integerType? signed size = some i.type) :
      Yields (.scalar (.integer signed) size align nativeType) (.integer i)
  | enum {type : String} {signed : Bool} {size align : Nat} {nativeType : String} {m : Int64} :
      Yields (.scalar (.enum type signed) size align nativeType) (.enum m)
  | struct {type : String} {fields : List (Placed NativeRepr)} {size align : Nat} {nativeType : String}
      {vs : List Value} (h : List.Forall₂ (fun p v => Yields p.repr v) fields vs) :
      Yields (.aggregate type fields size align nativeType) (.struct vs)

/-- Every enum of a value that lies at `offset` has the size of an integer type and holds a number that 64 bits with a
sign can hold. -/
def EnumsFit (r : NativeRepr) (offset : Nat) (b : Buffer) : Prop :=
  ∀ {k type signed size align nativeType}, r.Holds k (.scalar (.enum type signed) size align nativeType) →
    ∃ t, Buffer.integerType? signed size = some t ∧
      TypedInteger.wrapped t (numberOf (b.slice (offset + k) size)) ≤ Int64.maxValue.toInt

section
variable {kind : ScalarKind} {type nativeType : String} {signed : Bool} {fields : List (Placed NativeRepr)}
  {size align offset : Nat} {b : Buffer}

theorem enumsFit_scalar (h : ∀ type signed, kind ≠ .enum type signed) :
    (scalar kind size align nativeType).EnumsFit offset b := by
  intro k type signed size align nativeType hpart
  cases (holds_scalar hpart).2
  exact absurd rfl (h type signed)

theorem enumsFit_enum : (scalar (.enum type signed) size align nativeType).EnumsFit offset b ↔
    ∃ t, Buffer.integerType? signed size = some t ∧
      TypedInteger.wrapped t (numberOf (b.slice offset size)) ≤ Int64.maxValue.toInt := by
  constructor
  · exact fun h => h (.whole _)
  · rintro h k _ _ _ _ _ hpart
    obtain ⟨rfl, heq⟩ := holds_scalar hpart
    cases heq
    exact h

theorem enumsFit_aggregate : (aggregate type fields size align nativeType).EnumsFit offset b ↔
    ∀ p ∈ fields, p.repr.EnumsFit (offset + p.offset) b := by
  constructor
  · intro h p hp k type signed size align nativeType hpart
    rw [Nat.add_assoc]
    exact h (.inField hp hpart)
  · rintro h _ _ _ _ _ _ ⟨⟩
    rename_i p k hp hpart
    rw [← Nat.add_assoc]
    exact h p hp hpart

end

/-! ### The form of what is loaded -/

theorem integer_eq {i j : TypedInteger} (htype : i.type = j.type) (hvalue : i.value = j.value) : i = j := by
  obtain ⟨t, n, hn⟩ := i
  obtain ⟨t', n', hn'⟩ := j
  obtain rfl : t = t' := htype
  obtain rfl : n = n' := hvalue
  rfl

theorem alike_of_scalar {kind : ScalarKind} {size align : Nat} {nativeType : String} {v v' : Value}
    (hv : (scalar kind size align nativeType).Yields v) (h : (scalar kind size align nativeType).Returns v v') :
    v.Alike v' := by
  cases hv with
  | float =>
    cases h with
    | float h => exact h
  | @integer _ _ _ _ i ht =>
    cases h with
    | @integer _ _ _ _ _ j ht' hv =>
      have htype : i.type = j.type := by simpa [ht] using ht'
      have hvalue : i.value = j.value := by simpa [Value.number?] using hv
      rw [integer_eq htype hvalue]
      exact .same _
  | @enum _ _ _ _ _ m =>
    cases h with
    | @enum _ _ _ _ _ _ n m' hv hm =>
      obtain rfl : m.toInt = n := by simpa [Value.number?] using hv
      have hlt := m.toInt_lt
      rw [Int64.toInt_inj.mp (hm (by show m.toInt ≤ 9223372036854775807; omega))]
      exact .same _
  | bool | handle | name | double =>
    cases h
    exact .same _

mutual
/-- A value of a slot's own form comes back as it was. -/
theorem Returns.alike : ∀ {r : NativeRepr} {v v' : Value}, r.Returns v v' → r.Yields v → v.Alike v'
  | .scalar _ _ _ _, _, _, h, hv => alike_of_scalar hv h
  | .aggregate _ _ _ _ _, _, _, .struct h, .struct hvs => .struct (alike_of_fields hvs h)

theorem alike_of_fields : ∀ {fields : List (Placed NativeRepr)} {vs vs' : List Value},
    List.Forall₂ (fun p v => p.repr.Yields v) fields vs →
    List.Forall₂ (fun x v' => x.1.repr.Returns x.2 v') (fields.zip vs) vs' → List.Forall₂ Value.Alike vs vs'
  | [], [], [], .nil, .nil => .nil
  | ⟨_, _, _⟩ :: _, _ :: _, _ :: _, .cons hv hvs, .cons h hs => .cons (h.alike hv) (alike_of_fields hvs hs)
end

theorem accepts_of_yields {kind : ScalarKind} {size align : Nat} {nativeType : String} {v : Value}
    (hkind : ∀ type signed, kind ≠ .enum type signed) (hv : (scalar kind size align nativeType).Yields v) :
    (scalar kind size align nativeType).Accepts v := by
  cases hv with
  | bool => exact .bool
  | handle => exact .handle
  | name => exact .name
  | float => exact .float
  | double => exact .double
  | @integer _ _ _ _ i ht => exact .integer ht rfl i.fits
  | enum => exact absurd rfl (hkind _ _)

end NativeRepr

/-- Of a number that an integer type has, the enum holds one that the type has again if it can hold the number. -/
theorem IntegerType.holds_ofInt_iff {t : IntegerType} {n : Int} (h : t.holds n = true) :
    t.holds (Int64.ofInt n).toInt = true ↔ n ≤ Int64.maxValue.toInt := by
  have hmax : Int64.maxValue.toInt = 9223372036854775807 := rfl
  have hbounds := bounds_of_holds h
  rw [hmax]
  constructor
  · intro hwrapped
    by_contra hlarge
    have htoInt : (Int64.ofInt n).toInt = n - 18446744073709551616 := by
      rw [Int64.toInt_ofInt, Int.bmod_def]
      simp only [Int64.size]
      omega
    rw [htoInt] at hwrapped
    cases t <;> simp [holds, least, greatest, IntegerType.signed, count] at h hwrapped <;> omega
  · intro hle
    rwa [Int64.toInt_ofInt_of_le hbounds.1 (by omega)]

namespace Buffer
open NativeRepr Outcome
variable {b : Buffer} {offset : Nat}

theorem accepts_enum_iff {type nativeType : String} {signed : Bool} {size align : Nat} {t : IntegerType} {n : Int}
    (ht : integerType? signed size = some t) (hn : t.holds n = true) :
    (scalar (.enum type signed) size align nativeType).Accepts (.enum (Int64.ofInt n)) ↔ n ≤ Int64.maxValue.toInt := by
  rw [← IntegerType.holds_ofInt_iff hn, accepts_enum]
  simp [ht, Value.number?]

/-- A scalar of a size of its kind is always loaded, in its own form. -/
theorem readScalar_yields {kind : ScalarKind} {bytes : List UInt8} {size : Nat} (hlength : bytes.length = size)
    (h : kind.HasSize size) (align : Nat) (nativeType : String) (b : Buffer) :
    ∃ v, (readScalar kind bytes).runOn b = (.ok v, b) ∧ (scalar kind size align nativeType).Yields v ∧
      ∀ type signed, kind = .enum type signed → ((scalar kind size align nativeType).Accepts v ↔
        ∃ t, integerType? signed size = some t ∧ TypedInteger.wrapped t (numberOf bytes) ≤ Int64.maxValue.toInt) := by
  subst hlength
  cases kind with
  | bool =>
    cases bytes with
    | nil => cases h
    | cons x xs => exact ⟨_, rfl, .bool, by simp⟩
  | integer signed =>
    obtain ⟨t, ht⟩ : ∃ t, integerType? signed bytes.length = some t := exists_integerType? h
    exact ⟨_, run_bind_of_ok (readInteger_of_type ht b) _, .integer ht, by simp⟩
  | enum type signed =>
    obtain ⟨t, ht⟩ : ∃ t, integerType? signed bytes.length = some t := exists_integerType? h
    refine ⟨_, run_bind_of_ok (readInteger_of_type ht b) _, .enum, ?_⟩
    rintro _ _ ⟨⟩
    -- Of all scalars only an enum may give a value that is not stored again.
    refine (accepts_enum_iff ht (TypedInteger.holds_wrapped t _)).trans ?_
    simp [ht]
  | float =>
    unfold readScalar
    simp only [ScalarKind.HasSize, List.mem_cons, List.not_mem_nil, or_false] at h
    rcases h with h | h <;> simp only [h]
    · exact ⟨_, rfl, .float, by simp⟩
    · exact ⟨_, rfl, .double, by simp⟩
  | objectHandle =>
    have ht : integerType? false bytes.length = some .uint64 := by
      rw [show bytes.length = 8 from h]
      rfl
    exact ⟨_, run_bind_of_ok (readInteger_of_type ht b) _, .handle, by simp⟩
  | name =>
    unfold readScalar
    simp only [show bytes.length = 8 from h]
    exact ⟨_, rfl, .name, by simp⟩

mutual
/-- A value is loaded in the form of its representation, which takes it back if its enums fit. -/
theorem read_yields : ∀ (r : NativeRepr) {offset : Nat}, r.Sound → offset + r.size ≤ b.length → b.length ≤ addressLimit →
    ∃ v, (read offset r).runOn b = (.ok v, b) ∧ r.Yields v ∧ (r.Accepts v ↔ r.EnumsFit offset b)
  | .scalar kind size align nativeType, offset, h, hb, _ => by
    obtain ⟨v, hv, hyields, henum⟩ := readScalar_yields (length_slice hb) h.scalar align nativeType b
    refine ⟨v, (run_bind_of_ok (checkPlace_ok hb) _).trans hv, hyields, ?_⟩
    by_cases hkind : ∀ type signed, kind ≠ .enum type signed
    · exact iff_of_true (accepts_of_yields hkind hyields) (enumsFit_scalar hkind)
    · push Not at hkind
      obtain ⟨type, signed, rfl⟩ := hkind
      exact (henum type signed rfl).trans enumsFit_enum.symm
  | .aggregate type fields size align nativeType, offset, h, hb, hlimit => by
    obtain ⟨vs, hvs, hyields, henums⟩ := readFields_yields fields hb hlimit fun p hp => ⟨h.field hp, h.stop_le hp⟩
    refine ⟨.struct vs, (run_bind_of_ok (checkPlace_ok hb) _).trans (run_bind_of_ok hvs _), .struct hyields, ?_⟩
    rw [enumsFit_aggregate, ← henums]
    constructor
    · rintro ⟨⟩
      assumption
    · exact .struct

theorem readFields_yields : ∀ (fields : List (Placed NativeRepr)) {offset size : Nat}, offset + size ≤ b.length →
    b.length ≤ addressLimit → (∀ p ∈ fields, p.repr.Sound ∧ p.stop ≤ size) →
    ∃ vs, (readFields offset fields).runOn b = (.ok vs, b) ∧ List.Forall₂ (fun p v => p.repr.Yields v) fields vs ∧
      (List.Forall₂ (fun p v => p.repr.Accepts v) fields vs ↔ ∀ p ∈ fields, p.repr.EnumsFit (offset + p.offset) b)
  | [], offset, size, _, _, _ => ⟨[], rfl, .nil, by simp⟩
  | ⟨name, inner, r⟩ :: fs, offset, size, hb, hlimit, h => by
    rw [List.forall_mem_cons] at h
    obtain ⟨⟨hsound, hstop⟩, hfs⟩ := h
    have hplace : offset + inner + r.size ≤ b.length := by
      have : inner + r.size ≤ size := hstop
      omega
    have hpos := hsound.size_pos (.whole r)
    have hpart : (partOffset offset inner).runOn b = (.ok (offset + inner), b) := partOffset_ok (by omega)
    obtain ⟨v, hv, hyields, henums⟩ := read_yields r hsound hplace hlimit
    obtain ⟨vs, hvs, hyields', henums'⟩ := readFields_yields fs hb hlimit hfs
    refine ⟨v :: vs, ?_, .cons hyields hyields', ?_⟩
    · exact (run_bind_of_ok hpart _).trans ((run_bind_of_ok hv _).trans (run_bind_of_ok hvs _))
    · rw [List.forall₂_cons, List.forall_mem_cons, henums, henums']
end

/-- An enum of a size that no integer has is not loaded. -/
theorem read_of_odd {r : NativeRepr} (hodd : r.IsOdd) (hb : offset + r.size ≤ b.length) :
    ∃ e, (read offset r).runOn b = (.error (.failed e), b) := by
  obtain ⟨type, signed, size, align, nativeType, rfl, hnone⟩ := hodd
  have hlength : (b.slice offset size).length = size := length_slice hb
  have hfail : (readInteger signed (b.slice offset size)).runOn b = (.error (.failed (.integerWidth size)), b) := by
    unfold readInteger
    rw [hlength, hnone]
    rfl
  exact ⟨_, (run_bind_of_ok (checkPlace_ok hb) _).trans (run_bind_of_error hfail _)⟩

end Buffer

open Buffer in
/-- What is loaded can be stored in its place and is loaded from there again, exactly if its enums hold numbers that are
values of enums. -/
theorem loaded_values_stored_iff (d : Document) (hd : d.validate = .ok ()) (t : TypeRef) (r : NativeRepr)
    (hr : d.nativeRepr t = .ok r) (b : Buffer) (hlimit : b.length ≤ addressLimit) (offset : Nat)
    (hfits : offset + r.size ≤ b.length) :
    (d.Resolves t → ∃ v, (read offset r).runOn b = (.ok v, b)) ∧
      ((∃ v b' v', (read offset r).runOn b = (.ok v, b) ∧ (write offset r v).runOn b = (.ok (), b') ∧
        (read offset r).runOn b' = (.ok v', b') ∧ v.Alike v') ↔ r.EnumsFit offset b) := by
  have hconsistent := Document.validate_eq_ok.mp hd
  refine ⟨fun ht => ?_, ?_⟩
  · obtain ⟨v, hv, -⟩ := read_yields r (hconsistent.nativeRepr_sound ht hr) hfits hlimit
    exact ⟨v, hv⟩
  rcases hconsistent.tidy_or_odd hr with htidy | hodd
  · obtain ⟨v, hv, hyields, henums⟩ := read_yields r htidy.toSound hfits hlimit
    rw [← henums]
    rcases hconsistent.write_cases hr hfits hlimit v with
      ⟨haccepts, b', hrun, -, -, v', hv', hreturns⟩ | ⟨hrefused, e, b', hrun⟩
    · exact iff_of_true ⟨v, b', v', hv, hrun, hv', hreturns.alike hyields⟩ haccepts
    · refine iff_of_false ?_ hrefused
      rintro ⟨v', b', _, hv', hwrite, -⟩
      rw [hv] at hv'
      cases hv'
      rw [hrun] at hwrite
      cases hwrite
  · obtain ⟨e, hfail⟩ := read_of_odd hodd hfits
    refine iff_of_false ?_ fun h => ?_
    · rintro ⟨v, b', v', hv, -⟩
      rw [hfail] at hv
      cases hv
    · obtain ⟨type, signed, size, align, nativeType, rfl, hnone⟩ := hodd
      obtain ⟨t, ht, -⟩ := NativeRepr.enumsFit_enum.mp h
      simp [hnone] at ht

namespace SampleDocument

/-- Memory with a truth value that is not written as one, a signaling "not a number" and a small number. -/
def tame : Buffer := List.replicate 8 255 ++ [7, 0, 0, 0, 1, 0, 160, 127, 5, 0, 0, 0, 0, 0, 0, 0]

end SampleDocument

open SampleDocument in
/-- The values come back, though the bytes are not the same afterwards. -/
theorem loaded_values_stored_iff_tame :
    document.validate = .ok () ∧ document.nativeRepr (.struct "Sample") = .ok repr ∧
      tame.length ≤ Buffer.addressLimit ∧ 8 + repr.size ≤ tame.length ∧ repr.EnumsFit 8 tame ∧
      ∃ v b' v', (Buffer.read 8 repr).runOn tame = (.ok v, tame) ∧
        v = .struct [.bool true, .float 0x7FA00001, .enum 5] ∧ (Buffer.write 8 repr v).runOn tame = (.ok (), b') ∧
        b' = List.replicate 8 255 ++ [1, 0, 0, 0, 1, 0, 224, 127, 5, 0, 0, 0, 0, 0, 0, 0] ∧
        (Buffer.read 8 repr).runOn b' = (.ok v', b') ∧ v.Alike v' := by
  have hfit : repr.EnumsFit 8 tame := by
    rw [SampleDocument.repr, NativeRepr.enumsFit_aggregate]
    have hmode : (NativeRepr.scalar (.enum "Mode" false) 8 8 "EMode").EnumsFit 16 tame :=
      NativeRepr.enumsFit_enum.mpr ⟨.uint64, rfl, by decide⟩
    simp only [List.forall_mem_cons]
    exact ⟨NativeRepr.enumsFit_scalar (by simp), NativeRepr.enumsFit_scalar (by simp), hmode, by simp⟩
  obtain ⟨v, b', v', hload, hstore, hagain, halike⟩ := (loaded_values_stored_iff document rfl (.struct "Sample") repr rfl
    tame (by decide) 8 (by decide)).2.mpr hfit
  have hvalue : v = .struct [.bool true, .float 0x7FA00001, .enum 5] := by
    cases hload
    rfl
  subst hvalue
  have hbytes : b' = List.replicate 8 255 ++ [1, 0, 0, 0, 1, 0, 224, 127, 5, 0, 0, 0, 0, 0, 0, 0] := by
    cases hstore
    rfl
  exact ⟨rfl, rfl, by decide, by decide, hfit, _, b', v', hload, rfl, hstore, hbytes, hagain, halike⟩

open SampleDocument in
/-- The greatest number of an unsigned type is loaded as an enum with the number minus one, which is not stored. -/
theorem wide_enum_not_stored :
    document.validate = .ok () ∧ document.nativeRepr (.struct "Sample") = .ok repr ∧ 8 + repr.size ≤ memory.length ∧
      (Buffer.read 8 repr).runOn memory = (.ok (.struct [.bool true, .float 0xFFFFFFFF, .enum (-1)]), memory) ∧
      ((Buffer.write 8 repr (.struct [.bool true, .float 0xFFFFFFFF, .enum (-1)])).runOn memory).1 =
        .error (.failed (.doesNotFit (-1) "EMode")) ∧
      ¬ ∃ v b', (Buffer.read 8 repr).runOn memory = (.ok v, memory) ∧
        (Buffer.write 8 repr v).runOn memory = (.ok (), b') := by
  refine ⟨rfl, rfl, by decide, rfl, rfl, ?_⟩
  rintro ⟨v, b', hload, hstore⟩
  cases hload
  cases hstore

end EngineBridge
