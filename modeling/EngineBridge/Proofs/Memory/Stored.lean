import EngineBridge.Proofs.Memory.Values
import EngineBridge.Proofs.Number.Binary
import EngineBridge.Proofs.Value.Integer
import Mathlib.Data.List.Forall2

/-! Values that are loaded from where they were stored.

`Accepts` says which values go into a representation and `Returns` what comes out again. Both follow from what is put
down: the bytes of a value are the same whatever lies around them, and a load that finds these bytes, in whatever
memory, gives the value. Fields of a struct do not overlap, so that each still finds its own bytes when all of them are
stored. -/

namespace EngineBridge

/-- The number that the value is, as an integer or as a value of an enum. -/
def Value.number? : Value → Option Int
  | .integer i => some i.value
  | .enum n => some n.toInt
  | _ => none

/-- The values are the same, except that all numbers of 32 bits that are no number are alike. -/
inductive Value.Alike : Value → Value → Prop
  | same (v : Value) : Alike v v
  | notNumber {bits bits' : UInt32} (h : BinaryFormat.single.IsNotNumber bits.toNat)
      (h' : BinaryFormat.single.IsNotNumber bits'.toNat) : Alike (.float bits) (.float bits')
  | struct {vs vs' : List Value} (h : List.Forall₂ Alike vs vs') : Alike (.struct vs) (.struct vs')

namespace NativeRepr

/-- The value has the shape of the representation, and a number is one of the slot's integer type. -/
inductive Accepts : NativeRepr → Value → Prop
  | bool {size align : Nat} {nativeType : String} {b : Bool} : Accepts (.scalar .bool size align nativeType) (.bool b)
  | handle {size align : Nat} {nativeType : String} {address : UInt64} :
      Accepts (.scalar .objectHandle size align nativeType) (.handle address)
  | name {size align : Nat} {nativeType : String} {index number : UInt32} :
      Accepts (.scalar .name size align nativeType) (.name index number)
  | float {size align : Nat} {nativeType : String} {bits : UInt32} :
      Accepts (.scalar .float size align nativeType) (.float bits)
  | double {size align : Nat} {nativeType : String} {bits : UInt64} :
      Accepts (.scalar .float size align nativeType) (.double bits)
  | integer {signed : Bool} {size align : Nat} {nativeType : String} {t : IntegerType} {v : Value} {n : Int}
      (ht : Buffer.integerType? signed size = some t) (hv : v.number? = some n) (hn : t.holds n = true) :
      Accepts (.scalar (.integer signed) size align nativeType) v
  | enum {type : String} {signed : Bool} {size align : Nat} {nativeType : String} {t : IntegerType} {v : Value}
      {n : Int} (ht : Buffer.integerType? signed size = some t) (hv : v.number? = some n) (hn : t.holds n = true) :
      Accepts (.scalar (.enum type signed) size align nativeType) v
  | struct {type : String} {fields : List (Placed NativeRepr)} {size align : Nat} {nativeType : String}
      {vs : List Value} (h : List.Forall₂ (fun p v => Accepts p.repr v) fields vs) :
      Accepts (.aggregate type fields size align nativeType) (.struct vs)

/-- `Returns r v v'`: where `v` was stored as `r` says, `v'` is loaded. -/
inductive Returns : NativeRepr → Value → Value → Prop
  | bool {size align : Nat} {nativeType : String} {b : Bool} :
      Returns (.scalar .bool size align nativeType) (.bool b) (.bool b)
  | handle {size align : Nat} {nativeType : String} {address : UInt64} :
      Returns (.scalar .objectHandle size align nativeType) (.handle address) (.handle address)
  | name {size align : Nat} {nativeType : String} {index number : UInt32} :
      Returns (.scalar .name size align nativeType) (.name index number) (.name index number)
  | float {align : Nat} {nativeType : String} {bits : UInt32} {v' : Value} (h : (Value.float bits).Alike v') :
      Returns (.scalar .float 4 align nativeType) (.float bits) v'
  | narrowed {align : Nat} {nativeType : String} {bits : UInt64} :
      Returns (.scalar .float 4 align nativeType) (.double bits) (.float (EngineBridge.narrowed bits))
  | double {align : Nat} {nativeType : String} {bits : UInt64} :
      Returns (.scalar .float 8 align nativeType) (.double bits) (.double bits)
  | widened {align : Nat} {nativeType : String} {bits : UInt32} :
      Returns (.scalar .float 8 align nativeType) (.float bits) (.double (EngineBridge.widened bits))
  | integer {signed : Bool} {size align : Nat} {nativeType : String} {v : Value} {i : TypedInteger}
      (ht : Buffer.integerType? signed size = some i.type) (hv : v.number? = some i.value) :
      Returns (.scalar (.integer signed) size align nativeType) v (.integer i)
  /-- Beyond the numbers of 64 bits with a sign an enum has none. -/
  | enum {type : String} {signed : Bool} {size align : Nat} {nativeType : String} {v : Value} {n : Int} {m : Int64}
      (hv : v.number? = some n) (hm : n ≤ Int64.maxValue.toInt → m.toInt = n) :
      Returns (.scalar (.enum type signed) size align nativeType) v (.enum m)
  | struct {type : String} {fields : List (Placed NativeRepr)} {size align : Nat} {nativeType : String}
      {vs vs' : List Value} (h : List.Forall₂ (fun x v' => Returns x.1.repr x.2 v') (fields.zip vs) vs') :
      Returns (.aggregate type fields size align nativeType) (.struct vs) (.struct vs')

/-- A sound representation in which no field of a struct overlaps another. -/
structure Tidy (r : NativeRepr) : Prop extends r.Sound where
  apart : ∀ {k type fields size align nativeType}, r.Holds k (.aggregate type fields size align nativeType) →
    fields.Pairwise fun p q => p.stop ≤ q.offset

theorem Tidy.field {type nativeType : String} {fields : List (Placed NativeRepr)} {size align : Nat}
    (h : (aggregate type fields size align nativeType).Tidy) {p : Placed NativeRepr} (hp : p ∈ fields) : p.repr.Tidy :=
  ⟨h.toSound.field hp, fun hpart => h.apart (.inField hp hpart)⟩

end NativeRepr

/-! ### Numbers -/

section
variable {signed : Bool} {size : Nat} {n : Int} {t : IntegerType} {bytes : List UInt8}

theorem Buffer.bytes_of_integerType? (h : integerType? signed size = some t) : t.bytes = size := by
  unfold integerType? at h
  split at h <;> cases h <;> rfl

theorem Buffer.integerBytes?_eq_some (h : integerType? signed size = some t) (hn : t.holds n = true) :
    integerBytes? signed size n = some (bytesOf size (n % t.count).toNat) := by
  simp [integerBytes?, h, hn]

theorem Buffer.exists_of_integerBytes? (h : integerBytes? signed size n = some bytes) :
    ∃ t, integerType? signed size = some t ∧ t.holds n = true ∧ bytes = bytesOf size (n % t.count).toNat := by
  unfold integerBytes? at h
  obtain ⟨t, ht, h⟩ := Option.bind_eq_some_iff.mp h
  split at h
  · next hn =>
    cases h
    exact ⟨t, ht, hn, rfl⟩
  · cases h

theorem IntegerType.bounds_of_holds (h : t.holds n = true) : -2 ^ 63 ≤ n ∧ n < 2 ^ 64 := by
  cases t <;> simp [holds, least, greatest, IntegerType.signed, count] at h ⊢ <;> omega

theorem IntegerType.holds_natCast {m : Nat} (ht : t.signed = false) (h : m < t.count) : t.holds m = true := by
  simp only [holds, least, greatest, ht]
  simp
  omega

theorem TypedInteger.value_ofBits_bytesOf (hn : t.holds n = true) (hsize : t.bytes = size) :
    (ofBits t (numberOf (bytesOf size (n % t.count).toNat))).value = n := by
  have hlt : (n % t.count).toNat < byteSpan size := by
    rw [← hsize, ← IntegerType.count_eq]
    have hpos : 0 < (t.count : Int) := by cases t <;> decide
    have := Int.emod_lt_of_pos n hpos
    omega
  rw [numberOf_bytesOf, Nat.mod_eq_of_lt hlt]
  exact wrapped_emod hn

end

namespace Buffer
open NativeRepr Outcome

/-- The memory holds the bytes. -/
def Has (b : Buffer) (m : Marks) : Prop := ∀ i x, m i = some x → b[i]? = some x

section
variable {b : Buffer} {m m' : Marks} {offset reach size : Nat} {bytes : List UInt8}

theorem slice_of_has (h : b.Has (.ofBytes offset bytes)) : b.slice offset bytes.length = bytes := by
  refine List.ext_getElem? fun i => ?_
  rw [getElem?_slice]
  split
  · next hi =>
    rw [List.getElem?_eq_getElem hi]
    refine h (offset + i) _ ?_
    rw [Marks.ofBytes, if_pos (Nat.le_add_right _ _), Nat.add_sub_cancel_left, List.getElem?_eq_getElem hi]
  · next hi => exact (List.getElem?_eq_none (Nat.not_lt.mp hi)).symm

theorem has_marked (h : ∀ i, (m i).isSome = true → i < b.length) : (b.marked m).Has m := by
  intro i x hx
  have hi := h i (by rw [hx]; rfl)
  rw [getElem?_marked, List.getElem?_eq_getElem hi, hx]
  rfl

/-- Bytes on places apart from each other are held one and all. -/
theorem Has.parts (h : b.Has (m.andThen m')) (happart : ∀ i, (m i).isSome = true → m' i = none) : b.Has m ∧ b.Has m' := by
  refine ⟨fun i x hx => h i x ?_, fun i x hx => h i x ?_⟩
  · rw [Marks.andThen_of_right_none (happart i (by rw [hx]; rfl)), hx]
  · rw [Marks.andThen, hx, Option.some_or]

theorem ofBytes_append {front back : List UInt8} :
    (Marks.ofBytes offset front).andThen (.ofBytes (offset + front.length) back) = .ofBytes offset (front ++ back) := by
  funext i
  simp only [Marks.andThen, Marks.ofBytes, List.getElem?_append]
  by_cases hfront : i < offset + front.length
  · rw [if_neg (by omega), Option.none_or]
    split
    · rw [if_pos (by omega)]
    · rfl
  · have hpast : front[i - offset]? = none := List.getElem?_eq_none (by omega)
    rw [if_pos (by omega), if_pos (by omega), if_pos (by omega), if_neg (by omega), hpast, Option.or_none, Nat.sub_add_eq]

end

/-! ### What is put down -/

/-- The bytes on these places are those of the value: it is accepted, and any memory that holds them gives it back. -/
structure Written (r : NativeRepr) (offset : Nat) (v : Value) (m : Marks) : Prop where
  accepts : r.Accepts v
  within : ∀ i, (m i).isSome = true → offset ≤ i ∧ i < offset + r.size
  loads : ∃ v', r.Returns v v' ∧ ∀ b : Buffer, offset + r.size ≤ b.length → b.length ≤ addressLimit → b.Has m →
    (read offset r).runOn b = (.ok v', b)

/-- What storing a value comes to. -/
def Settles (r : NativeRepr) (offset : Nat) (v : Value) : Except BufferError Marks → Prop
  | .ok m => Written r offset v m
  | .error _ => ¬ r.Accepts v

section
variable {kind : ScalarKind} {signed : Bool} {size align offset : Nat} {type nativeType : String} {v v' : Value}

theorem written_bytes {bytes : List UInt8} (hlength : bytes.length = size)
    (hv : (scalar kind size align nativeType).Accepts v) (hv' : (scalar kind size align nativeType).Returns v v')
    (hread : ∀ b : Buffer, (readScalar kind bytes).runOn b = (.ok v', b)) :
    Written (scalar kind size align nativeType) offset v (.ofBytes offset bytes) := by
  subst hlength
  refine ⟨hv, fun i hi => Marks.isSome_ofBytes.mp hi, v', hv', fun b hb _ hhas => ?_⟩
  have hslice : (readScalar kind (b.slice offset bytes.length)).runOn b = (.ok v', b) := by
    rw [slice_of_has hhas]
    exact hread b
  exact (run_bind_of_ok (checkPlace_ok hb) _).trans hslice

/-- Bytes that stand for the value are put down. -/
theorem settles_put {bytes : List UInt8} (hlength : bytes.length = size)
    (hv : (scalar kind size align nativeType).Accepts v) (hv' : (scalar kind size align nativeType).Returns v v')
    (hread : ∀ b : Buffer, (readScalar kind bytes).runOn b = (.ok v', b)) :
    ∃ outcome, Stores (put offset bytes) (offset + size) outcome ∧
      Settles (scalar kind size align nativeType) offset v outcome :=
  ⟨_, stores_put (by rw [hlength]), written_bytes hlength hv hv' hread⟩

theorem settles_fail {r : NativeRepr} {reach : Nat} (e : BufferError) (h : ¬ r.Accepts v) :
    ∃ outcome, Stores (Action.fail e) reach outcome ∧ Settles r offset v outcome :=
  ⟨_, stores_fail e, h⟩

theorem StoresOn.spares {a : BufferAction Unit} {reach i : Nat} {places : Nat → Prop} {b b' : Buffer}
    (h : StoresOn a reach places) (hb : reach ≤ b.length) (hlimit : b.length ≤ addressLimit)
    (hrun : a.runOn b = (.ok (), b')) (hi : ¬ places i) : b'[i]? = b[i]? := by
  obtain ⟨outcome, hstores, hplaces⟩ := h
  cases outcome with
  | error e =>
    obtain ⟨rest, hrest⟩ := hstores b hb hlimit
    rw [hrest] at hrun
    cases hrun
  | ok m =>
    rw [hstores b hb hlimit] at hrun
    cases hrun
    have hnone : m i = none := by rwa [← Option.not_isSome_iff_eq_none, hplaces m rfl]
    rw [getElem?_marked, hnone]
    exact Option.map_id'

theorem ofInt_toNat (address : UInt64) : UInt64.ofInt (address.toNat : Int) = address := by
  have hlt := address.toNat_lt
  rw [UInt64.ofInt, Int.emod_eq_of_lt (by omega) (by omega), Int.toNat_natCast, UInt64.ofNat_toNat]

theorem storable?_eq_number? : storable? v = v.number? := by cases v <;> rfl

/-- A number goes into a slot of an integer type that has it, whether the slot is an integer or an enum. -/
theorem settles_number (haccepts : (scalar kind size align nativeType).Accepts v ↔
      ∃ t n, integerType? signed size = some t ∧ v.number? = some n ∧ t.holds n = true)
    (hread : ∀ {t n} {bytes : List UInt8}, bytes.length = size → integerType? signed size = some t →
      v.number? = some n → (TypedInteger.ofBits t (numberOf bytes)).value = n →
      ∃ v', (scalar kind size align nativeType).Returns v v' ∧ ∀ b : Buffer, (readScalar kind bytes).runOn b = (.ok v', b)) :
    ∃ outcome, Stores (match storable? v with
        | none => Action.fail (.cannotStore v.typeName nativeType)
        | some n =>
          match integerBytes? signed size n with
          | some bytes => put offset bytes
          | none => Action.fail (.doesNotFit n nativeType)) (offset + size) outcome ∧
      Settles (scalar kind size align nativeType) offset v outcome := by
  rw [storable?_eq_number?]
  cases hv : v.number? with
  | none =>
    refine settles_fail _ fun h => ?_
    obtain ⟨t, n, -, hn, -⟩ := haccepts.mp h
    simp [hv] at hn
  | some n =>
    dsimp only
    cases hbytes : integerBytes? signed size n with
    | none =>
      refine settles_fail _ fun h => ?_
      obtain ⟨t, n', ht, hn', hholds⟩ := haccepts.mp h
      obtain rfl : n = n' := by simpa [hv] using hn'
      simp [integerBytes?_eq_some ht hholds] at hbytes
    | some bytes =>
      obtain ⟨t, ht, hholds, rfl⟩ := exists_of_integerBytes? hbytes
      have hvalue := TypedInteger.value_ofBits_bytesOf hholds (bytes_of_integerType? ht)
      obtain ⟨v', hv', hload⟩ := hread (length_bytesOf _ _) ht hv hvalue
      exact settles_put (length_bytesOf _ _) (haccepts.mpr ⟨t, n, ht, hv, hholds⟩) hv' hload

theorem accepts_integer : (scalar (.integer signed) size align nativeType).Accepts v ↔
    ∃ t n, integerType? signed size = some t ∧ v.number? = some n ∧ t.holds n = true := by
  constructor
  · rintro ⟨⟩
    exact ⟨_, _, ‹_›, ‹_›, ‹_›⟩
  · rintro ⟨t, n, ht, hn, hholds⟩
    exact .integer ht hn hholds

theorem accepts_enum : (scalar (.enum type signed) size align nativeType).Accepts v ↔
    ∃ t n, integerType? signed size = some t ∧ v.number? = some n ∧ t.holds n = true := by
  constructor
  · rintro ⟨⟩
    exact ⟨_, _, ‹_›, ‹_›, ‹_›⟩
  · rintro ⟨t, n, ht, hn, hholds⟩
    exact .enum ht hn hholds

theorem settles_float (hsize : size ∈ [4, 8]) :
    ∃ outcome, Stores (writeScalar .float size nativeType offset v) (offset + size) outcome ∧
      Settles (scalar .float size align nativeType) offset v outcome := by
  have h4 (bits : UInt32) (b : Buffer) :
      (readScalar .float (bytesOf 4 bits.toNat)).runOn b = (.ok (.float bits), b) := by
    have hbits : numberOf (bytesOf 4 bits.toNat) = bits.toNat := by
      rw [numberOf_bytesOf]
      exact Nat.mod_eq_of_lt bits.toNat_lt
    have hread : (readScalar .float (bytesOf 4 bits.toNat)).runOn b =
        (.ok (.float (.ofNat (numberOf (bytesOf 4 bits.toNat)))), b) := rfl
    rw [hread, hbits, UInt32.ofNat_toNat]
  have h8 (bits : UInt64) (b : Buffer) :
      (readScalar .float (bytesOf 8 bits.toNat)).runOn b = (.ok (.double bits), b) := by
    have hbits : numberOf (bytesOf 8 bits.toNat) = bits.toNat := by
      rw [numberOf_bytesOf]
      exact Nat.mod_eq_of_lt bits.toNat_lt
    have hread : (readScalar .float (bytesOf 8 bits.toNat)).runOn b =
        (.ok (.double (.ofNat (numberOf (bytesOf 8 bits.toNat)))), b) := rfl
    rw [hread, hbits, UInt64.ofNat_toNat]
  cases v with
  | float bits =>
    rcases List.mem_pair.mp hsize with rfl | rfl
    · refine settles_put (length_bytesOf _ _) .float (.float ?_) (h4 _)
      rcases narrowed_widened bits with heq | ⟨hbits, hbits'⟩
      · rw [heq]
        exact .same _
      · exact .notNumber hbits hbits'
    · exact settles_put (length_bytesOf _ _) .float .widened (h8 _)
  | double bits =>
    rcases List.mem_pair.mp hsize with rfl | rfl
    · exact settles_put (length_bytesOf _ _) .double .narrowed (h4 _)
    · exact settles_put (length_bytesOf _ _) .double .double (h8 _)
  | _ => exact settles_fail _ (by rintro ⟨⟩)

/-- A name is put down in two halves. -/
theorem settles_name (align : Nat) (index number : UInt32) :
    ∃ outcome, Stores (writeScalar .name 8 nativeType offset (.name index number)) (offset + 8) outcome ∧
      Settles (scalar .name 8 align nativeType) offset (.name index number) outcome := by
  have hfront : Stores (put offset (bytesOf 4 index.toNat)) (offset + 8) _ := stores_put (by rw [length_bytesOf]; omega)
  have hback : Stores (put (offset + 4) (bytesOf 4 number.toNat)) (offset + 8) _ :=
    stores_put (by rw [length_bytesOf])
  have hboth := hfront.bind hback
  refine ⟨.ok (.ofBytes offset (bytesOf 4 index.toNat ++ bytesOf 4 number.toNat)), ?_, ?_⟩
  · rw [← ofBytes_append]
    exact hboth
  · refine written_bytes rfl .name .name fun b => ?_
    have hbits (bits : UInt32) : numberOf (bytesOf 4 bits.toNat) = bits.toNat := by
      rw [numberOf_bytesOf]
      exact Nat.mod_eq_of_lt bits.toNat_lt
    have hread : (readScalar .name (bytesOf 4 index.toNat ++ bytesOf 4 number.toNat)).runOn b =
        (.ok (.name (.ofNat (numberOf (bytesOf 4 index.toNat))) (.ofNat (numberOf (bytesOf 4 number.toNat)))), b) := rfl
    rw [hread, hbits, hbits, UInt32.ofNat_toNat, UInt32.ofNat_toNat]

theorem settles_writeScalar (hsize : kind.HasSize size) (align : Nat) (nativeType : String) (v : Value)
    (offset : Nat) :
    ∃ outcome, Stores (writeScalar kind size nativeType offset v) (offset + size) outcome ∧
      Settles (scalar kind size align nativeType) offset v outcome := by
  cases kind with
  | bool =>
    cases hsize
    cases v with
    | bool b => exact settles_put rfl .bool .bool fun _ => by cases b <;> rfl
    | _ => exact settles_fail _ (by rintro ⟨⟩)
  | integer signed =>
    refine settles_number accepts_integer fun {t n bytes} hlength ht hn hvalue => ?_
    refine ⟨.integer (.ofBits t (numberOf bytes)), .integer ht (by rw [hn, hvalue]), fun b => ?_⟩
    exact run_bind_of_ok (readInteger_of_type (hlength ▸ ht) b) _
  | enum type signed =>
    refine settles_number accepts_enum fun {t n bytes} hlength ht hn hvalue => ?_
    refine ⟨.enum (Int64.ofInt n), .enum hn fun hle => ?_, fun b => ?_⟩
    · have hlow := IntegerType.bounds_of_holds (TypedInteger.ofBits t (numberOf bytes)).fits
      rw [hvalue] at hlow
      exact Int64.toInt_ofInt_of_le hlow.1 (Int.lt_of_le_of_lt hle (by decide))
    · rw [← hvalue]
      exact run_bind_of_ok (readInteger_of_type (hlength ▸ ht) b) _
  | float => exact settles_float hsize
  | objectHandle =>
    cases hsize
    cases v with
    | handle address =>
      -- A handle is stored as a number without a sign, and there is room for all of them.
      have hholds : IntegerType.uint64.holds address.toNat = true := IntegerType.holds_natCast rfl address.toNat_lt
      have ht : integerType? false 8 = some .uint64 := rfl
      have hbytes := integerBytes?_eq_some ht hholds
      have hvalue := TypedInteger.value_ofBits_bytesOf hholds (bytes_of_integerType? ht)
      rw [writeScalar, hbytes]
      refine settles_put (length_bytesOf _ _) .handle .handle fun b => ?_
      refine (run_bind_of_ok (readInteger_of_type (t := .uint64) (by rw [length_bytesOf]; rfl) b) _).trans ?_
      rw [hvalue, ofInt_toNat]
      rfl
    | _ => exact settles_fail _ (by rintro ⟨⟩)
  | name =>
    cases hsize
    cases v with
    | name index number => exact settles_name align index number
    | _ => exact settles_fail _ (by rintro ⟨⟩)

end

/-! ### Structs -/

/-- The bytes on these places are those of the fields. -/
structure FieldsWritten (reach offset : Nat) (fields : List (Placed NativeRepr)) (vs : List Value) (m : Marks) :
    Prop where
  accepts : List.Forall₂ (fun p v => p.repr.Accepts v) fields vs
  within : ∀ i, (m i).isSome = true → ∃ p ∈ fields, offset + p.offset ≤ i ∧ i < offset + p.stop
  loads : ∃ vs', List.Forall₂ (fun x v' => x.1.repr.Returns x.2 v') (fields.zip vs) vs' ∧
    ∀ b : Buffer, reach ≤ b.length → b.length ≤ addressLimit → b.Has m →
      (readFields offset fields).runOn b = (.ok vs', b)

def SettlesFields (reach offset : Nat) (fields : List (Placed NativeRepr)) (vs : List Value) :
    Except BufferError Marks → Prop
  | .ok m => FieldsWritten reach offset fields vs m
  | .error _ => ¬ List.Forall₂ (fun p v => p.repr.Accepts v) fields vs

section
variable {reach offset inner size align : Nat} {name type nativeType : String} {r : NativeRepr} {v : Value}
  {vs : List Value}
  {fs fields : List (Placed NativeRepr)} {m m' : Marks}

theorem fieldsWritten_cons (hfirst : Written r (offset + inner) v m) (hrest : FieldsWritten reach offset fs vs m')
    (hpos : 1 ≤ r.size) (hreach : offset + inner + r.size ≤ reach)
    (hbehind : ∀ p ∈ fs, inner + r.size ≤ p.offset) :
    FieldsWritten reach offset (⟨name, inner, r⟩ :: fs) (v :: vs) (m.andThen m') := by
  obtain ⟨v', hv', hload⟩ := hfirst.loads
  obtain ⟨vs', hvs', hloads⟩ := hrest.loads
  refine ⟨.cons hfirst.accepts hrest.accepts, fun i hi => ?_, v' :: vs', .cons hv' hvs', fun b hb hlimit hhas => ?_⟩
  · rcases Marks.isSome_andThen.mp hi with hi | hi
    · obtain ⟨hle, hlt⟩ := hfirst.within i hi
      exact ⟨_, List.mem_cons_self, hle, by rw [Placed.stop]; dsimp only; omega⟩
    · obtain ⟨p, hp, hplace⟩ := hrest.within i hi
      exact ⟨p, List.mem_cons_of_mem _ hp, hplace⟩
  · -- The later fields lie behind the first, so that none of their bytes is over one of its.
    have happart : ∀ i, (m i).isSome = true → m' i = none := by
      intro i hi
      rw [← Option.not_isSome_iff_eq_none]
      intro hi'
      have hlt := (hfirst.within i hi).2
      obtain ⟨p, hp, hle, -⟩ := hrest.within i hi'
      have := hbehind p hp
      omega
    obtain ⟨hhere, hthere⟩ := hhas.parts happart
    have hpart : (partOffset offset inner).runOn b = (.ok (offset + inner), b) := partOffset_ok (by omega)
    have hv := hload b (by omega) hlimit hhere
    have hvs := hloads b hb hlimit hthere
    exact (run_bind_of_ok hpart _).trans ((run_bind_of_ok hv _).trans (run_bind_of_ok hvs _))

theorem written_struct (h : FieldsWritten (offset + size) offset fields vs m) (hstop : ∀ p ∈ fields, p.stop ≤ size) :
    Written (aggregate type fields size align nativeType) offset (.struct vs) m := by
  obtain ⟨vs', hvs', hloads⟩ := h.loads
  refine ⟨.struct h.accepts, fun i hi => ?_, .struct vs', .struct hvs', fun b hb hlimit hhas => ?_⟩
  · obtain ⟨p, hp, hle, hlt⟩ := h.within i hi
    have := hstop p hp
    show offset ≤ i ∧ i < offset + size
    omega
  · exact (run_bind_of_ok (checkPlace_ok hb) _).trans (run_bind_of_ok (hloads b hb hlimit hhas) _)

end

mutual
/-- Storing a value puts down its bytes if the representation accepts it, and fails otherwise. -/
theorem settles_write : ∀ (r : NativeRepr) (v : Value) (offset : Nat), r.Tidy →
    ∃ outcome, Stores (write offset r v) (offset + r.size) outcome ∧ Settles r offset v outcome
  | .scalar kind size align nativeType, v, offset, h => by
    obtain ⟨outcome, hstores, hsettles⟩ := settles_writeScalar h.scalar align nativeType v offset
    exact ⟨outcome, hstores.after fun b hb _ => checkPlace_ok hb, hsettles⟩
  | .aggregate type fields size align nativeType, v, offset, h => by
    have hstop : ∀ p ∈ fields, p.stop ≤ size := fun p hp => h.toSound.stop_le hp
    cases v with
    | struct vs =>
      -- The values are counted before any of them is stored.
      by_cases hlength : vs.length = fields.length
      · obtain ⟨outcome, hstores, hsettles⟩ := settles_writeFields fields vs offset hlength
          (fun p hp => ⟨h.field hp, hstop p hp⟩) (h.apart (.whole _))
        have hinner : Stores (if vs.length = fields.length then writeFields offset fields vs
            else Action.fail (.fieldCount type fields.length vs.length)) (offset + size) outcome := by rwa [if_pos hlength]
        refine ⟨outcome, hinner.after fun b hb _ => checkPlace_ok hb, ?_⟩
        cases outcome with
        | ok m => exact written_struct hsettles hstop
        | error e =>
          rintro ⟨⟩
          exact hsettles ‹_›
      · have hinner : Stores (if vs.length = fields.length then writeFields offset fields vs
            else Action.fail (.fieldCount type fields.length vs.length)) (offset + size)
            (.error (.fieldCount type fields.length vs.length)) := by
          rw [if_neg hlength]
          exact stores_fail _
        refine ⟨_, hinner.after fun b hb _ => checkPlace_ok hb, ?_⟩
        rintro ⟨⟩
        rename_i hfields
        exact hlength hfields.length_eq.symm
    | _ => exact ⟨_, (stores_fail _).after fun b hb _ => checkPlace_ok hb, fun hv => nomatch hv⟩

theorem settles_writeFields : ∀ (fields : List (Placed NativeRepr)) (vs : List Value) (offset : Nat) {size : Nat},
    vs.length = fields.length → (∀ p ∈ fields, p.repr.Tidy ∧ p.stop ≤ size) →
    fields.Pairwise (fun p q => p.stop ≤ q.offset) →
    ∃ outcome, Stores (writeFields offset fields vs) (offset + size) outcome ∧
      SettlesFields (offset + size) offset fields vs outcome
  | [], [], offset, size, _, _, _ => by
    refine ⟨.ok .blank, stores_pure, .nil, fun i hi => ?_, [], .nil, fun b _ _ _ => rfl⟩
    cases hi
  | ⟨name, inner, r⟩ :: fs, v :: vs, offset, size, hlength, h, hapart => by
    rw [List.forall_mem_cons] at h
    obtain ⟨⟨htidy, hstop⟩, hfs⟩ := h
    obtain ⟨hbehind, hapart⟩ := List.pairwise_cons.mp hapart
    have hpos : 1 ≤ r.size := htidy.size_pos (.whole r)
    have hplace : offset + inner + r.size ≤ offset + size := by
      have : inner + r.size ≤ size := hstop
      omega
    have hpart : ∀ b : Buffer, offset + size ≤ b.length → b.length ≤ addressLimit →
        (partOffset offset inner).runOn b = (.ok (offset + inner), b) :=
      fun b hb hlimit => partOffset_ok (by omega)
    obtain ⟨outcome, hstores, hsettles⟩ := settles_write r v (offset + inner) htidy
    cases outcome with
    | error e =>
      refine ⟨.error e, Stores.after hpart ((hstores.mono hplace).bind_error _), ?_⟩
      rintro ⟨⟩
      exact hsettles ‹_›
    | ok m =>
      obtain ⟨outcome', hstores', hsettles'⟩ :=
        settles_writeFields fs vs offset (Nat.succ.inj hlength) hfs hapart
      refine ⟨_, Stores.after hpart ((hstores.mono hplace).bind hstores'), ?_⟩
      cases outcome' with
      | error e =>
        rintro ⟨⟩
        exact hsettles' ‹_›
      | ok m' => exact fieldsWritten_cons hsettles hsettles' hpos hplace hbehind
end

end Buffer

/-! ### Types of documents -/

namespace NativeRepr
variable {kind : ScalarKind} {size align : Nat} {nativeType : String}

theorem tidy_scalar (h : kind.HasSize size) : (scalar kind size align nativeType).Tidy where
  size_pos hpart := by
    cases (holds_scalar hpart).2
    show 1 ≤ size
    cases kind <;> simp [ScalarKind.HasSize] at h <;> omega
  sized hpart := by
    cases (holds_scalar hpart).2
    exact h
  inside hpart := by cases (holds_scalar hpart).2
  apart hpart := by cases (holds_scalar hpart).2

/-- An enum whose type is no enum of the document may have a size that no integer has. -/
def IsOdd (r : NativeRepr) : Prop :=
  ∃ type signed size align nativeType, r = .scalar (.enum type signed) size align nativeType ∧
    Buffer.integerType? signed size = none

theorem IsOdd.not_accepts {r : NativeRepr} (h : r.IsOdd) (v : Value) : ¬ r.Accepts v := by
  obtain ⟨type, signed, size, align, nativeType, rfl, hnone⟩ := h
  intro hv
  obtain ⟨t, n, ht, -⟩ := Buffer.accepts_enum.mp hv
  simp [hnone] at ht

end NativeRepr

namespace Document
open NativeRepr
variable {d : Document} {t : TypeRef} {r : NativeRepr}

theorem Consistent.nativeRepr_tidy (hd : d.Consistent) (ht : d.Resolves t) (h : d.nativeRepr t = .ok r) : r.Tidy :=
  ⟨hd.nativeRepr_sound ht h, fun hpart => ((nativeRepr_isCLayout h).structs hpart).laidOut.disjoint⟩

/-- Only the type itself may name something that is not what it is taken for; within structs every name is checked. -/
theorem Consistent.tidy_or_odd (hd : d.Consistent) (h : d.nativeRepr t = .ok r) : r.Tidy ∨ r.IsOdd := by
  obtain ⟨fuel, hfuel⟩ := exists_nativeRepr_eq d
  have hrepr : d.reprWithin (fuel + 1) [] t = .ok r := (hfuel t).symm.trans h
  cases t with
  | bool | integer | float | double | name => exact .inl (hd.nativeRepr_tidy (fun _ hx => absurd hx List.not_mem_nil) h)
  | object type =>
    obtain ⟨record, -, rfl⟩ := reprWithin_object.mp hrepr
    exact .inl (tidy_scalar rfl)
  | classOf type =>
    cases hrepr
    exact .inl (tidy_scalar rfl)
  | struct type =>
    obtain ⟨-, record, hrecord, hkind, -⟩ := reprWithin_struct.mp hrepr
    refine .inl (hd.nativeRepr_tidy (fun x hx => ?_) h)
    obtain rfl := List.mem_singleton.mp hx
    exact kind?_eq_some.mpr ⟨record, hrecord, hkind⟩
  | enum type =>
    obtain ⟨record, -, underlying, -, rfl⟩ := reprWithin_enum.mp hrepr
    cases hnone : Buffer.integerType? underlying.isSignedInteger underlying.size with
    | none => exact .inr ⟨_, _, _, _, _, rfl, hnone⟩
    | some i =>
      have hsize := hasSize_integer i
      rw [Buffer.bytes_of_integerType? hnone] at hsize
      exact .inl (tidy_scalar hsize)
  | string | text | softObject | array | set | map | delegate => cases hrepr

theorem Consistent.settles_write (hd : d.Consistent) (h : d.nativeRepr t = .ok r) (offset : Nat) (v : Value) :
    ∃ outcome, Buffer.Stores (Buffer.write offset r v) (offset + r.size) outcome ∧ Buffer.Settles r offset v outcome := by
  rcases hd.tidy_or_odd h with htidy | ⟨type, signed, size, align, nativeType, rfl, hnone⟩
  · exact Buffer.settles_write r v offset htidy
  · have hscalar : ∃ outcome,
        Buffer.Stores (Buffer.writeScalar (.enum type signed) size nativeType offset v) (offset + size) outcome ∧
          Buffer.Settles (.scalar (.enum type signed) size align nativeType) offset v outcome :=
      Buffer.settles_number Buffer.accepts_enum (fun _ ht => by simp [hnone] at ht)
    obtain ⟨outcome, hstores, hsettles⟩ := hscalar
    exact ⟨outcome, hstores.after fun b hb _ => Buffer.checkPlace_ok hb, hsettles⟩

variable {b : Buffer} {offset : Nat}

/-- What is stored changes no byte but those of its scalars. -/
theorem Consistent.write_spares (hd : d.Consistent) (h : d.nativeRepr t = .ok r) (hb : offset + r.size ≤ b.length)
    (hlimit : b.length ≤ Buffer.addressLimit) {b' : Buffer} {i : Nat} {v : Value} (hv : r.Accepts v)
    (hrun : (Buffer.write offset r v).runOn b = (.ok (), b')) (hi : ¬ r.Covers offset i) : b'[i]? = b[i]? := by
  rcases hd.tidy_or_odd h with htidy | hodd
  · exact (Buffer.storesOn_write r v htidy.toSound).spares hb hlimit hrun hi
  · exact absurd hv (hodd.not_accepts v)

/-- A value is stored and comes back, or it is refused. -/
theorem Consistent.write_cases (hd : d.Consistent) (h : d.nativeRepr t = .ok r) (hb : offset + r.size ≤ b.length)
    (hlimit : b.length ≤ Buffer.addressLimit) (v : Value) :
    (r.Accepts v ∧ ∃ b', (Buffer.write offset r v).runOn b = (.ok (), b') ∧ b'.length = b.length ∧
      (∀ i, ¬ r.Covers offset i → b'[i]? = b[i]?) ∧
      ∃ v', (Buffer.read offset r).runOn b' = (.ok v', b') ∧ r.Returns v v') ∨
    (¬ r.Accepts v ∧ ∃ e b', (Buffer.write offset r v).runOn b = (.error (.failed e), b')) := by
  obtain ⟨outcome, hstores, hsettles⟩ := hd.settles_write h offset v
  cases outcome with
  | error e =>
    obtain ⟨rest, hrun⟩ := hstores b hb hlimit
    exact .inr ⟨hsettles, e, rest, hrun⟩
  | ok m =>
    have hrun := hstores b hb hlimit
    have hlength : (b.marked m).length = b.length := Buffer.length_marked
    obtain ⟨v', hv', hload⟩ := hsettles.loads
    have hhas : (b.marked m).Has m := Buffer.has_marked fun i hi => by
      have := (hsettles.within i hi).2
      omega
    exact .inl ⟨hsettles.accepts, _, hrun, hlength, fun i => hd.write_spares h hb hlimit hsettles.accepts hrun, v',
      hload _ (hlength ▸ hb) (hlength ▸ hlimit) hhas, hv'⟩

end Document

open Buffer in
/-- A value is stored exactly if the representation accepts it. Then no byte but those of its scalars changes, and the
value is loaded from there again. -/
theorem stored_values_come_back (d : Document) (hd : d.validate = .ok ()) (t : TypeRef) (r : NativeRepr)
    (hr : d.nativeRepr t = .ok r) (b : Buffer) (hlimit : b.length ≤ addressLimit) (offset : Nat)
    (hfits : offset + r.size ≤ b.length) (v : Value) :
    (((write offset r v).runOn b).1 = .ok () ↔ r.Accepts v) ∧
      (¬ r.Accepts v → ∃ e, ((write offset r v).runOn b).1 = .error (.failed e)) ∧
      ∀ b', (write offset r v).runOn b = (.ok (), b') →
        b'.length = b.length ∧ (∀ i, ¬ r.Covers offset i → b'[i]? = b[i]?) ∧
          ∃ v', (read offset r).runOn b' = (.ok v', b') ∧ r.Returns v v' := by
  have hconsistent := Document.validate_eq_ok.mp hd
  rcases hconsistent.write_cases hr hfits hlimit v with ⟨hv, b₁, hrun, hstored⟩ | ⟨hv, e, b₁, hrun⟩
  · rw [hrun]
    refine ⟨iff_of_true rfl hv, absurd hv, ?_⟩
    rintro b' ⟨⟩
    exact hstored
  · rw [hrun]
    refine ⟨iff_of_false (fun h => nomatch h) hv, fun _ => ⟨e, rfl⟩, ?_⟩
    rintro b' ⟨⟩

namespace SampleDocument

/-- An enum over the largest numbers that there are. -/
def mode : TypeRecord :=
  { TypeRecord.bare "Mode" "Game" .enumKind with
    enumValues := [⟨"Off", 0⟩, ⟨"On", 5⟩], underlyingType? := some (.integer .uint64) }

/-- A struct with three bytes of padding behind its first field. -/
def sample : TypeRecord :=
  { TypeRecord.bare "Sample" "Game" .structKind with
    properties := [⟨"Active", .bool, .empty⟩, ⟨"Weight", .float, .empty⟩, ⟨"Mode", .enum "Mode", .empty⟩] }

def document : Document := ⟨"5.4", .empty, [mode, sample]⟩

def repr : NativeRepr :=
  .aggregate "Sample" [⟨"Active", 0, .scalar .bool 1 1 "bool"⟩, ⟨"Weight", 4, .scalar .float 4 4 "float"⟩,
    ⟨"Mode", 8, .scalar (.enum "Mode" false) 8 8 "EMode"⟩] 16 8 "FSample"

/-- Memory that is full of ones. -/
def memory : Buffer := List.replicate 24 255

/-- One and a half, with the number of a value of the enum. -/
def value : Value := .struct [.bool true, .float 0x3FC00000, .integer (.ofBits .int32 5)]

end SampleDocument

open SampleDocument in
/-- Where a struct was stored its padding and the bytes in front are as they were. -/
theorem stored_values_come_back_sample :
    document.validate = .ok () ∧ document.nativeRepr (.struct "Sample") = .ok repr ∧
      memory.length ≤ Buffer.addressLimit ∧ 8 + repr.size ≤ memory.length ∧ repr.Accepts value ∧
      ∃ b' v', (Buffer.write 8 repr value).runOn memory = (.ok (), b') ∧
        b' = List.replicate 8 255 ++ [1, 255, 255, 255, 0, 0, 192, 63, 5, 0, 0, 0, 0, 0, 0, 0] ∧
        (Buffer.read 8 repr).runOn b' = (.ok v', b') ∧ v' = .struct [.bool true, .float 0x3FC00000, .enum 5] ∧
        repr.Returns value v' := by
  obtain ⟨haccepts, -, hstored⟩ := stored_values_come_back document rfl (.struct "Sample") repr rfl memory (by decide) 8
    (by decide) value
  have hrun : (Buffer.write 8 repr value).runOn memory = (.ok (), _) := rfl
  obtain ⟨-, -, v', hload, hreturns⟩ := hstored _ hrun
  have hvalue : v' = .struct [.bool true, .float 0x3FC00000, .enum 5] := by
    cases hload
    rfl
  exact ⟨rfl, rfl, by decide, by decide, haccepts.mp rfl, _, v', hrun, rfl, hload, hvalue, hreturns⟩

end EngineBridge
