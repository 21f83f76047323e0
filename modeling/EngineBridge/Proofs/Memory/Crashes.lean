import EngineBridge.Proofs.Export.Index
import EngineBridge.Proofs.Memory.Loaded

/-! Where storing and loading break off.

Sizes and offsets from a file are taken as they are. A truth value without a byte, a name of another size than a name's
and a field beyond the last address are not refused: whoever gets to them breaks off. `LoadBreaks` and `StoreBreaks` say
when that is, and nothing else breaks off. -/

namespace EngineBridge

/-- Every truth value within has a byte, every name the size of one, and all fields of a value that lies at `offset`
have addresses. -/
structure NativeRepr.Guarded (r : NativeRepr) (offset : Nat) : Prop where
  bool : ∀ {k size align nativeType}, r.Holds k (.scalar .bool size align nativeType) → size ≠ 0
  name : ∀ {k size align nativeType}, r.Holds k (.scalar .name size align nativeType) → size = 8
  reached : ∀ {k type fields size align nativeType}, r.Holds k (.aggregate type fields size align nativeType) →
    ∀ p ∈ fields, offset + k + p.offset < Buffer.addressLimit

namespace NativeRepr
variable {type nativeType : String} {fields : List (Placed NativeRepr)} {size align offset : Nat}

theorem Guarded.field (h : (aggregate type fields size align nativeType).Guarded offset) {p : Placed NativeRepr}
    (hp : p ∈ fields) : p.repr.Guarded (offset + p.offset) where
  bool := fun hpart => h.bool (.inField hp hpart)
  name := fun hpart => h.name (.inField hp hpart)
  reached := fun hpart q hq => by
    have := h.reached (.inField hp hpart) q hq
    omega

theorem Guarded.field_lt (h : (aggregate type fields size align nativeType).Guarded offset) {p : Placed NativeRepr}
    (hp : p ∈ fields) : offset + p.offset < Buffer.addressLimit :=
  h.reached (.whole _) p hp

theorem Sound.part {r part : NativeRepr} {k : Nat} (h : r.Sound) (hpart : r.Holds k part) : part.Sound := by
  induction hpart with
  | whole r => exact h
  | inField hp hpart ih => exact ih (h.field hp)

theorem fits_scalar {kind : ScalarKind} (hsize : size < UInt64.size) (halign : align < UInt64.size) :
    (scalar kind size align nativeType).Fits where
  size := fun hpart => by
    rw [(holds_scalar hpart).2]
    exact hsize
  align := fun hpart => by
    rw [(holds_scalar hpart).2]
    exact halign
  offset := fun hpart => nomatch (holds_scalar hpart).2

theorem fits_aggregate (hsize : size < UInt64.size) (halign : align < UInt64.size)
    (hfields : ∀ p ∈ fields, p.offset < UInt64.size ∧ p.repr.Fits) :
    (aggregate type fields size align nativeType).Fits where
  size := fun
    | .whole _ => hsize
    | .inField hp hpart => (hfields _ hp).2.size hpart
  align := fun
    | .whole _ => halign
    | .inField hp hpart => (hfields _ hp).2.align hpart
  offset := fun
    | .whole _ => fun p hp => (hfields p hp).1
    | .inField hp hpart => (hfields _ hp).2.offset hpart

/-- What a sound representation describes is guarded wherever there is room for it. -/
theorem Sound.guarded {r : NativeRepr} (h : r.Sound) (hroom : offset + r.size ≤ Buffer.addressLimit) :
    r.Guarded offset where
  bool := fun hpart => by
    have hone : _ = 1 := h.sized hpart
    omega
  name := fun hpart => h.sized hpart
  reached := fun {k _ _ whole _ _} hpart p hp => by
    have hstop : p.offset + p.repr.size ≤ whole := h.inside hpart p hp
    have hreach : k + whole ≤ r.size := h.holds_le hpart
    have hpos := ((h.part hpart).field hp).size_pos (.whole p.repr)
    omega

end NativeRepr

namespace Buffer
open NativeRepr Outcome

/-- Loading a value breaks off: what it gets to first that it does not refuse is a truth value without a byte, a name
without four, or a field beyond the last address. -/
inductive LoadBreaks (b : Buffer) : Nat → NativeRepr → Prop
  | bool {offset align : Nat} {nativeType : String} (hplace : offset ≤ b.length) :
      LoadBreaks b offset (.scalar .bool 0 align nativeType)
  | name {offset size align : Nat} {nativeType : String} (hplace : offset + size ≤ b.length) (hsize : size < 4) :
      LoadBreaks b offset (.scalar .name size align nativeType)
  | beyond {type nativeType : String} {front back : List (Placed NativeRepr)} {p : Placed NativeRepr}
      {offset size align : Nat} {vs : List Value} (hplace : offset + size ≤ b.length)
      (hfront : (readFields offset front).runOn b = (.ok vs, b)) (h : addressLimit ≤ offset + p.offset) :
      LoadBreaks b offset (.aggregate type (front ++ p :: back) size align nativeType)
  | field {type nativeType : String} {front back : List (Placed NativeRepr)} {p : Placed NativeRepr}
      {offset size align : Nat} {vs : List Value} (hplace : offset + size ≤ b.length)
      (hfront : (readFields offset front).runOn b = (.ok vs, b)) (hreached : offset + p.offset < addressLimit)
      (h : LoadBreaks b (offset + p.offset) p.repr) :
      LoadBreaks b offset (.aggregate type (front ++ p :: back) size align nativeType)

/-- Storing a value breaks off: what it gets to first that it does not refuse is a truth value behind the last byte, a
name of another size than a name's, or a field beyond the last address. -/
inductive StoreBreaks : Buffer → Nat → NativeRepr → Value → Prop
  | bool {b : Buffer} {align : Nat} {nativeType : String} {x : Bool} :
      StoreBreaks b b.length (.scalar .bool 0 align nativeType) (.bool x)
  | name {b : Buffer} {offset size align : Nat} {nativeType : String} {index number : UInt32}
      (hplace : offset + size ≤ b.length) (hsize : size ≠ 8) :
      StoreBreaks b offset (.scalar .name size align nativeType) (.name index number)
  | beyond {b b' : Buffer} {type nativeType : String} {front back : List (Placed NativeRepr)} {p : Placed NativeRepr}
      {offset size align : Nat} {v : Value} {vs ws : List Value} (hplace : offset + size ≤ b.length)
      (hvs : vs.length = front.length) (hws : ws.length = back.length)
      (hfront : (writeFields offset front vs).runOn b = (.ok (), b')) (h : addressLimit ≤ offset + p.offset) :
      StoreBreaks b offset (.aggregate type (front ++ p :: back) size align nativeType) (.struct (vs ++ v :: ws))
  | field {b b' : Buffer} {type nativeType : String} {front back : List (Placed NativeRepr)} {p : Placed NativeRepr}
      {offset size align : Nat} {v : Value} {vs ws : List Value} (hplace : offset + size ≤ b.length)
      (hvs : vs.length = front.length) (hws : ws.length = back.length)
      (hfront : (writeFields offset front vs).runOn b = (.ok (), b')) (hreached : offset + p.offset < addressLimit)
      (h : StoreBreaks b' (offset + p.offset) p.repr v) :
      StoreBreaks b offset (.aggregate type (front ++ p :: back) size align nativeType) (.struct (vs ++ v :: ws))

/-! ### Breaking off -/

/-- The action breaks off. -/
def Crashes {α : Type} (a : BufferAction α) (b : Buffer) : Prop := (a.runOn b).1 = .error .crashed

section
variable {α β : Type} {x : BufferAction α} {f : α → BufferAction β} {b : Buffer} {offset size inner : Nat}

theorem crashes_bind : Crashes (x >>= f) b ↔
    Crashes x b ∨ ∃ a b', x.runOn b = (.ok a, b') ∧ Crashes (f a) b' := by
  unfold Crashes
  rw [runOn_bind]
  rcases x.runOn b with ⟨stop | a, b'⟩ <;> simp

theorem crashes_of_ok {a : α} {b' : Buffer} (hx : x.runOn b = (.ok a, b')) :
    Crashes (x >>= f) b ↔ Crashes (f a) b' := by
  rw [crashes_bind]
  simp [Crashes, hx]

theorem not_crashes_pure (a : α) : ¬ Crashes (pure a : BufferAction α) b := nofun

theorem not_crashes_fail (e : BufferError) : ¬ Crashes (Action.fail e : BufferAction α) b := nofun

theorem crashes_checkPlace {f : Unit → BufferAction β} :
    Crashes (checkPlace offset size >>= f) b ↔ offset + size ≤ b.length ∧ Crashes (f ()) b := by
  by_cases hplace : offset + size ≤ b.length
  · rw [crashes_of_ok (checkPlace_ok hplace)]
    simp [hplace]
  · have hfail : (checkPlace offset size).runOn b = (.error (.failed (.overrun size offset b.length)), b) := by
      show (if b.length < offset + size then _ else _ : BufferAction Unit).runOn b = _
      rw [if_pos (Nat.lt_of_not_le hplace)]
      rfl
    rw [crashes_bind]
    simp [Crashes, hfail, hplace]

theorem crashes_partOffset {f : Nat → BufferAction β} : Crashes (partOffset offset inner >>= f) b ↔
    addressLimit ≤ offset + inner ∨ offset + inner < addressLimit ∧ Crashes (f (offset + inner)) b := by
  by_cases hreached : offset + inner < addressLimit
  · rw [crashes_of_ok (partOffset_ok hreached)]
    simp [hreached, Nat.not_le.mpr hreached]
  · have hcrash : (partOffset offset inner).runOn b = (.error .crashed, b) := by
      unfold partOffset
      rw [if_neg hreached]
      rfl
    rw [crashes_bind]
    simp [Crashes, hcrash, Nat.not_lt.mp hreached]

theorem partOffset_eq_ok {n : Nat} {b' : Buffer} : (partOffset offset inner).runOn b = (.ok n, b') ↔
    offset + inner < addressLimit ∧ n = offset + inner ∧ b' = b := by
  by_cases hreached : offset + inner < addressLimit
  · rw [partOffset_ok hreached]
    simp [hreached, eq_comm]
  · unfold partOffset
    rw [if_neg hreached]
    exact iff_of_false nofun fun h => hreached h.1

theorem crashes_put {bytes : List UInt8} : Crashes (put offset bytes) b ↔ b.length < offset + bytes.length := by
  by_cases hplace : b.length < offset + bytes.length
  · refine iff_of_true (crashes_bind.mpr (.inl ?_)) hplace
    show ((if b.length < offset + bytes.length then _ else _ : BufferAction Unit).runOn b).1 = _
    rw [if_pos hplace]
    rfl
  · refine iff_of_false ?_ hplace
    rw [Crashes, put_ok (Nat.not_lt.mp hplace)]
    nofun

end

/-! ### Loading -/

section
variable {b : Buffer} {offset : Nat}

theorem not_crashes_integer {β : Type} {signed : Bool} {bytes : List UInt8} {f : TypedInteger → BufferAction β}
    (hf : ∀ i, ¬ Crashes (f i) b) : ¬ Crashes (readInteger signed bytes >>= f) b := by
  unfold readInteger
  cases integerType? signed bytes.length with
  | none => nofun
  | some t => exact hf _

theorem crashes_readScalar {kind : ScalarKind} {bytes : List UInt8} : Crashes (readScalar kind bytes) b ↔
    kind = .bool ∧ bytes.length = 0 ∨ kind = .name ∧ bytes.length < 4 := by
  cases kind with
  | bool =>
    cases bytes with
    | nil => exact iff_of_true rfl (.inl ⟨rfl, rfl⟩)
    | cons x xs => exact iff_of_false (not_crashes_pure _) (by simp)
  | integer signed => exact iff_of_false (not_crashes_integer fun _ => not_crashes_pure _) (by simp)
  | enum type signed => exact iff_of_false (not_crashes_integer fun _ => not_crashes_pure _) (by simp)
  | objectHandle => exact iff_of_false (not_crashes_integer fun _ => not_crashes_pure _) (by simp)
  | float =>
    refine iff_of_false ?_ (by simp)
    dsimp only [readScalar]
    split
    · exact not_crashes_pure _
    · exact not_crashes_pure _
    · exact not_crashes_fail _
  | name =>
    dsimp only [readScalar]
    split
    · next hshort => exact iff_of_true rfl (.inr ⟨rfl, hshort⟩)
    · next hlong =>
      refine iff_of_false ?_ (by simp [hlong])
      split
      · exact not_crashes_fail _
      · exact not_crashes_pure _

end

/-- The action leaves the memory as it is. -/
def Idle {α : Type} (a : BufferAction α) : Prop := ∀ b : Buffer, (a.runOn b).2 = b

section
variable {α β : Type} {x : BufferAction α} {f : α → BufferAction β} {b b' : Buffer} {offset : Nat}

theorem idle_pure (a : α) : Idle (pure a : BufferAction α) := fun _ => rfl

theorem idle_fail (e : BufferError) : Idle (Action.fail e : BufferAction α) := fun _ => rfl

theorem idle_crash : Idle (Action.crash : BufferAction α) := fun _ => rfl

theorem Idle.eq {result : Except (Stop BufferError) α} (hx : Idle x) (hrun : x.runOn b = (result, b')) : b' = b := by
  have hb := hx b
  rwa [hrun] at hb

theorem Idle.bind (hx : Idle x) (hf : ∀ a, Idle (f a)) : Idle (x >>= f) := by
  intro b
  rw [runOn_bind]
  rcases hrun : x.runOn b with ⟨stop | a, b'⟩
  · exact hx.eq hrun
  · exact (hf a b').trans (hx.eq hrun)

theorem idle_checkPlace {size : Nat} : Idle (checkPlace offset size) := by
  intro b
  show ((if b.length < offset + size then _ else _ : BufferAction Unit).runOn b).2 = b
  split <;> rfl

theorem idle_partOffset {inner : Nat} : Idle (partOffset offset inner) := by
  unfold partOffset
  split
  · exact fun _ => rfl
  · exact idle_crash

theorem idle_readInteger {signed : Bool} {bytes : List UInt8} : Idle (readInteger signed bytes) := by
  unfold readInteger
  split
  · exact idle_pure _
  · exact idle_fail _

theorem idle_readScalar {kind : ScalarKind} {bytes : List UInt8} : Idle (readScalar kind bytes) := by
  cases kind with
  | bool => cases bytes <;> exact fun _ => rfl
  | integer signed => exact idle_readInteger.bind fun _ => idle_pure _
  | enum type signed => exact idle_readInteger.bind fun _ => idle_pure _
  | objectHandle => exact idle_readInteger.bind fun _ => idle_pure _
  | float =>
    dsimp only [readScalar]
    split
    · exact idle_pure _
    · exact idle_pure _
    · exact idle_fail _
  | name =>
    dsimp only [readScalar]
    split
    · exact idle_crash
    · split
      · exact idle_fail _
      · exact idle_pure _

mutual
theorem idle_read : ∀ (r : NativeRepr) {offset : Nat}, Idle (read offset r)
  | .scalar _ _ _ _, _ => idle_checkPlace.bind fun _ => Idle.bind (fun _ => rfl) fun _ => idle_readScalar
  | .aggregate _ fields _ _ _, _ => idle_checkPlace.bind fun _ => (idle_readFields fields).bind fun _ => idle_pure _

theorem idle_readFields : ∀ (fields : List (Placed NativeRepr)) {offset : Nat}, Idle (readFields offset fields)
  | [], _ => idle_pure _
  | ⟨_, _, r⟩ :: fs, _ =>
    idle_partOffset.bind fun _ => (idle_read r).bind fun _ => (idle_readFields fs).bind fun _ => idle_pure _
end

end

section
variable {b : Buffer} {offset : Nat}

/-- Past the first field, which is loaded, the rest of a struct is loaded. -/
theorem crashes_readFields_cons {p : Placed NativeRepr} {fs : List (Placed NativeRepr)} :
    Crashes (readFields offset (p :: fs)) b ↔ addressLimit ≤ offset + p.offset ∨ offset + p.offset < addressLimit ∧
      (Crashes (read (offset + p.offset) p.repr) b ∨
        ∃ v, (read (offset + p.offset) p.repr).runOn b = (.ok v, b) ∧ Crashes (readFields offset fs) b) := by
  obtain ⟨name, inner, r⟩ := p
  refine crashes_partOffset.trans (or_congr_right (and_congr_right fun _ => crashes_bind.trans (or_congr_right ?_)))
  have hlast : ∀ {b v}, Crashes (readFields offset fs >>= fun vs => pure (v :: vs)) b ↔
      Crashes (readFields offset fs) b :=
    crashes_bind.trans (by simp [not_crashes_pure])
  constructor
  · rintro ⟨v, b', hv, h⟩
    obtain rfl := (idle_read r).eq hv
    exact ⟨v, hv, hlast.mp h⟩
  · rintro ⟨v, hv, h⟩
    exact ⟨v, b, hv, hlast.mpr h⟩

theorem readFields_cons_ok {p : Placed NativeRepr} {fs : List (Placed NativeRepr)} {vs : List Value} :
    (readFields offset (p :: fs)).runOn b = (.ok vs, b) ↔ offset + p.offset < addressLimit ∧
      ∃ v ws, (read (offset + p.offset) p.repr).runOn b = (.ok v, b) ∧ (readFields offset fs).runOn b = (.ok ws, b) ∧
        vs = v :: ws := by
  obtain ⟨name, inner, r⟩ := p
  constructor
  · intro h
    obtain ⟨_, _, hpart, hfields⟩ := runOn_bind_eq_ok.mp h
    obtain ⟨hreached, rfl, rfl⟩ := partOffset_eq_ok.mp hpart
    obtain ⟨v, b', hv, hrest⟩ := runOn_bind_eq_ok.mp hfields
    obtain rfl := (idle_read r).eq hv
    obtain ⟨ws, b', hws, hlast⟩ := runOn_bind_eq_ok.mp hrest
    cases hlast
    exact ⟨hreached, v, ws, hv, hws, rfl⟩
  · rintro ⟨hreached, v, ws, hv, hws, rfl⟩
    refine runOn_bind_eq_ok.mpr ⟨_, b, partOffset_ok hreached, ?_⟩
    exact runOn_bind_eq_ok.mpr ⟨v, b, hv, runOn_bind_eq_ok.mpr ⟨ws, b, hws, rfl⟩⟩

theorem crashes_read_aggregate {type nativeType : String} {fields : List (Placed NativeRepr)} {size align : Nat} :
    Crashes (read offset (.aggregate type fields size align nativeType)) b ↔
      offset + size ≤ b.length ∧ Crashes (readFields offset fields) b := by
  refine crashes_checkPlace.trans (and_congr_right fun _ => crashes_bind.trans (or_iff_left ?_))
  rintro ⟨_, _, -, h⟩
  exact not_crashes_pure _ h

/-- Behind fields that are loaded it depends on the others whether a struct breaks off. -/
theorem crashes_behind {front back : List (Placed NativeRepr)} {vs : List Value}
    (hfront : (readFields offset front).runOn b = (.ok vs, b)) (h : Crashes (readFields offset back) b) :
    Crashes (readFields offset (front ++ back)) b := by
  induction front generalizing vs with
  | nil => exact h
  | cons p fs ih =>
    obtain ⟨hreached, v, ws, hv, hws, -⟩ := readFields_cons_ok.mp hfront
    exact crashes_readFields_cons.mpr (.inr ⟨hreached, .inr ⟨v, hv, ih hws⟩⟩)

mutual
theorem loadBreaks_of_crashes : ∀ (r : NativeRepr) {offset : Nat}, Crashes (read offset r) b → LoadBreaks b offset r
  | .scalar kind size align nativeType, offset, h => by
    obtain ⟨hplace, h⟩ := crashes_checkPlace.mp h
    have hlength : (b.slice offset size).length = size := length_slice hplace
    rcases crashes_readScalar.mp h with ⟨rfl, hempty⟩ | ⟨rfl, hshort⟩
    · obtain rfl : size = 0 := by rwa [hlength] at hempty
      exact .bool hplace
    · exact .name hplace (by rwa [hlength] at hshort)
  | .aggregate type fields size align nativeType, offset, h => by
    obtain ⟨hplace, hfields⟩ := crashes_read_aggregate.mp h
    obtain ⟨front, p, back, vs, rfl, hfront, hbeyond | ⟨hreached, hfield⟩⟩ := exists_of_crashes fields hfields
    · exact .beyond hplace hfront hbeyond
    · exact .field hplace hfront hreached hfield

/-- It is one of the fields that breaks off, behind fields that are loaded. -/
theorem exists_of_crashes : ∀ (fields : List (Placed NativeRepr)) {offset : Nat}, Crashes (readFields offset fields) b →
    ∃ front p back vs, fields = front ++ p :: back ∧ (readFields offset front).runOn b = (.ok vs, b) ∧
      (addressLimit ≤ offset + p.offset ∨ offset + p.offset < addressLimit ∧ LoadBreaks b (offset + p.offset) p.repr)
  | [], _, h => absurd h (not_crashes_pure _)
  | ⟨name, inner, r⟩ :: fs, offset, h => by
    rcases crashes_readFields_cons.mp h with hbeyond | ⟨hreached, hfield | ⟨v, hv, hrest⟩⟩
    · exact ⟨[], _, fs, [], rfl, rfl, .inl hbeyond⟩
    · exact ⟨[], _, fs, [], rfl, rfl, .inr ⟨hreached, loadBreaks_of_crashes r hfield⟩⟩
    · obtain ⟨front, p, back, vs, rfl, hfront, hp⟩ := exists_of_crashes fs hrest
      exact ⟨_ :: front, p, back, v :: vs, rfl, readFields_cons_ok.mpr ⟨hreached, v, vs, hv, hfront, rfl⟩, hp⟩
end

theorem crashes_of_loadBreaks {r : NativeRepr} (h : LoadBreaks b offset r) : Crashes (read offset r) b := by
  induction h with
  | bool hplace => exact crashes_checkPlace.mpr ⟨hplace, crashes_readScalar.mpr (.inl ⟨rfl, length_slice hplace⟩)⟩
  | name hplace hsize =>
    refine crashes_checkPlace.mpr ⟨hplace, crashes_readScalar.mpr (.inr ⟨rfl, ?_⟩)⟩
    rwa [length_slice hplace]
  | beyond hplace hfront hbeyond =>
    refine crashes_read_aggregate.mpr ⟨hplace, crashes_behind hfront ?_⟩
    exact crashes_readFields_cons.mpr (.inl hbeyond)
  | field hplace hfront hreached _ ih =>
    refine crashes_read_aggregate.mpr ⟨hplace, crashes_behind hfront ?_⟩
    exact crashes_readFields_cons.mpr (.inr ⟨hreached, .inl ih⟩)

end

/-! ### Storing -/

section
variable {b b' : Buffer} {offset size : Nat} {nativeType : String} {v : Value}

theorem not_crashes_bytes {signed : Bool} {n : Int} (hplace : offset + size ≤ b.length) (e : BufferError) :
    ¬ Crashes (match integerBytes? signed size n with
      | some bytes => put offset bytes
      | none => Action.fail e) b := by
  split
  · next hbytes =>
    rw [crashes_put, length_integerBytes? hbytes]
    exact Nat.not_lt.mpr hplace
  · exact not_crashes_fail e

theorem not_crashes_number {signed : Bool} (hplace : offset + size ≤ b.length) :
    ¬ Crashes (match storable? v with
      | none => Action.fail (.cannotStore v.typeName nativeType)
      | some n =>
        match integerBytes? signed size n with
        | some bytes => put offset bytes
        | none => Action.fail (.doesNotFit n nativeType)) b := by
  split
  · exact not_crashes_fail _
  · exact not_crashes_bytes hplace _

theorem crashes_name {index number : UInt32} (hplace : offset + size ≤ b.length) :
    Crashes (writeScalar .name size nativeType offset (.name index number)) b ↔ size ≠ 8 := by
  by_cases hsize : size = 8
  · subst hsize
    have hfront : (put offset (bytesOf 4 index.toNat)).runOn b = (.ok (), b.patched offset (bytesOf 4 index.toNat)) :=
      put_ok (by rw [length_bytesOf]; omega)
    refine iff_of_false ?_ (by simp)
    show ¬ Crashes (put offset (bytesOf 4 index.toNat) >>= _) b
    rw [crashes_of_ok hfront]
    show ¬ Crashes (put (offset + 4) (bytesOf 4 number.toNat)) _
    rw [crashes_put, length_patched (by rw [length_bytesOf]; omega), length_bytesOf]
    omega
  · refine iff_of_true (crashes_bind.mpr ?_) hsize
    by_cases hfront : offset + (bytesOf 4 index.toNat).length ≤ b.length
    · refine .inr ⟨(), _, put_ok hfront, ?_⟩
      rw [if_pos hsize]
      rfl
    · exact .inl (crashes_put.mpr (Nat.lt_of_not_le hfront))

/-- Within its place a scalar is stored or refused, except for the two that look at no size. -/
theorem crashes_writeScalar {kind : ScalarKind} (hplace : offset + size ≤ b.length) :
    Crashes (writeScalar kind size nativeType offset v) b ↔
      (kind = .bool ∧ ∃ x, v = .bool x) ∧ offset = b.length ∨
      (kind = .name ∧ ∃ index number, v = .name index number) ∧ size ≠ 8 := by
  by_cases hname : kind = .name ∧ ∃ index number, v = .name index number
  · obtain ⟨rfl, index, number, rfl⟩ := hname
    simpa using crashes_name hplace
  unfold writeScalar
  split
  · -- A truth value takes one byte, whatever size the scalar has.
    rw [crashes_put]
    simp
    omega
  · exact iff_of_false (not_crashes_number hplace) (by simp)
  · exact iff_of_false (not_crashes_number hplace) (by simp)
  · refine iff_of_false ?_ (by simp)
    split
    · exact not_crashes_fail _
    · rw [crashes_put, length_bytesOf]
      omega
    · rw [crashes_put, length_bytesOf]
      omega
    · exact not_crashes_fail _
  · exact iff_of_false (not_crashes_bytes hplace _) (by simp)
  · exact absurd ⟨rfl, _, _, rfl⟩ hname
  · next hbool _ _ =>
    refine iff_of_false (not_crashes_fail _) ?_
    rintro (⟨⟨rfl, x, rfl⟩, -⟩ | ⟨h, -⟩)
    · exact hbool _ rfl rfl
    · exact hname h

/-- Past the first field, which is stored, the rest of a struct is stored. -/
theorem crashes_writeFields_cons {p : Placed NativeRepr} {fs : List (Placed NativeRepr)} {vs : List Value} :
    Crashes (writeFields offset (p :: fs) (v :: vs)) b ↔ addressLimit ≤ offset + p.offset ∨
      offset + p.offset < addressLimit ∧ (Crashes (write (offset + p.offset) p.repr v) b ∨
        ∃ b', (write (offset + p.offset) p.repr v).runOn b = (.ok (), b') ∧ Crashes (writeFields offset fs vs) b') := by
  obtain ⟨name, inner, r⟩ := p
  refine crashes_partOffset.trans (or_congr_right (and_congr_right fun _ => crashes_bind.trans (or_congr_right ?_)))
  constructor
  · rintro ⟨⟨⟩, b', hfirst, h⟩
    exact ⟨b', hfirst, h⟩
  · rintro ⟨b', hfirst, h⟩
    exact ⟨(), b', hfirst, h⟩

theorem writeFields_cons_ok {p : Placed NativeRepr} {fs : List (Placed NativeRepr)} {vs : List Value} :
    (writeFields offset (p :: fs) (v :: vs)).runOn b = (.ok (), b') ↔ offset + p.offset < addressLimit ∧
      ∃ b₁, (write (offset + p.offset) p.repr v).runOn b = (.ok (), b₁) ∧
        (writeFields offset fs vs).runOn b₁ = (.ok (), b') := by
  obtain ⟨name, inner, r⟩ := p
  constructor
  · intro h
    obtain ⟨_, _, hpart, hfields⟩ := runOn_bind_eq_ok.mp h
    obtain ⟨hreached, rfl, rfl⟩ := partOffset_eq_ok.mp hpart
    obtain ⟨⟨⟩, b₁, hfirst, hrest⟩ := runOn_bind_eq_ok.mp hfields
    exact ⟨hreached, b₁, hfirst, hrest⟩
  · rintro ⟨hreached, b₁, hfirst, h⟩
    exact runOn_bind_eq_ok.mpr ⟨_, b, partOffset_ok hreached, runOn_bind_eq_ok.mpr ⟨(), b₁, hfirst, h⟩⟩

theorem crashes_write_aggregate {type : String} {fields : List (Placed NativeRepr)} {align : Nat} :
    Crashes (write offset (.aggregate type fields size align nativeType) v) b ↔ offset + size ≤ b.length ∧
      ∃ vs, v = .struct vs ∧ vs.length = fields.length ∧ Crashes (writeFields offset fields vs) b := by
  refine crashes_checkPlace.trans (and_congr_right fun _ => ?_)
  split
  · next vs =>
    split
    · next hcount => simp [hcount]
    · next hcount => exact iff_of_false (not_crashes_fail _) (by simp [hcount])
  · next hshape =>
    refine iff_of_false (not_crashes_fail _) ?_
    rintro ⟨vs, rfl, -⟩
    exact hshape vs rfl

/-- Behind fields that are stored it depends on the others. -/
theorem crashes_stored_behind {front back : List (Placed NativeRepr)} {vs ws : List Value}
    (hvs : vs.length = front.length) (hfront : (writeFields offset front vs).runOn b = (.ok (), b'))
    (h : Crashes (writeFields offset back ws) b') : Crashes (writeFields offset (front ++ back) (vs ++ ws)) b := by
  induction front generalizing vs b with
  | nil =>
    cases List.length_eq_zero_iff.mp hvs
    cases hfront
    exact h
  | cons p fs ih =>
    obtain ⟨v, vs, rfl⟩ := List.exists_cons_of_length_eq_add_one hvs
    obtain ⟨hreached, b₁, hfirst, hrest⟩ := writeFields_cons_ok.mp hfront
    exact crashes_writeFields_cons.mpr (.inr ⟨hreached, .inr ⟨b₁, hfirst, ih (Nat.succ.inj hvs) hrest⟩⟩)

mutual
theorem storeBreaks_of_crashes : ∀ (r : NativeRepr) (v : Value) {b : Buffer} {offset : Nat},
    Crashes (write offset r v) b → StoreBreaks b offset r v
  | .scalar kind size align nativeType, v, b, offset, h => by
    obtain ⟨hplace, h⟩ := crashes_checkPlace.mp h
    rcases (crashes_writeScalar hplace).mp h with ⟨⟨rfl, x, rfl⟩, rfl⟩ | ⟨⟨rfl, index, number, rfl⟩, hsize⟩
    · obtain rfl : size = 0 := by omega
      exact .bool
    · exact .name hplace hsize
  | .aggregate type fields size align nativeType, v, b, offset, h => by
    obtain ⟨hplace, values, rfl, hcount, hfields⟩ := crashes_write_aggregate.mp h
    obtain ⟨front, p, back, vs, v, ws, b', rfl, rfl, hvs, hfront, hbeyond | ⟨hreached, hfield⟩⟩ :=
      exists_of_crashes_write fields values hcount hfields
    · exact .beyond hplace hvs (by simpa [hvs] using hcount) hfront hbeyond
    · exact .field hplace hvs (by simpa [hvs] using hcount) hfront hreached hfield

/-- It is one of the fields that breaks off, behind fields that are stored. -/
theorem exists_of_crashes_write : ∀ (fields : List (Placed NativeRepr)) (values : List Value) {b : Buffer} {offset : Nat},
    values.length = fields.length → Crashes (writeFields offset fields values) b →
    ∃ front p back vs v ws b', fields = front ++ p :: back ∧ values = vs ++ v :: ws ∧ vs.length = front.length ∧
      (writeFields offset front vs).runOn b = (.ok (), b') ∧ (addressLimit ≤ offset + p.offset ∨
        offset + p.offset < addressLimit ∧ StoreBreaks b' (offset + p.offset) p.repr v)
  | [], [], _, _, _, h => absurd h (not_crashes_pure _)
  | ⟨name, inner, r⟩ :: fs, v :: values, b, offset, hcount, h => by
    rcases crashes_writeFields_cons.mp h with hbeyond | ⟨hreached, hfield | ⟨b₁, hfirst, hrest⟩⟩
    · exact ⟨[], _, fs, [], v, values, b, rfl, rfl, rfl, rfl, .inl hbeyond⟩
    · exact ⟨[], _, fs, [], v, values, b, rfl, rfl, rfl, rfl, .inr ⟨hreached, storeBreaks_of_crashes r v hfield⟩⟩
    · obtain ⟨front, p, back, vs, v', ws, b', rfl, rfl, hvs, hfront, hp⟩ :=
        exists_of_crashes_write fs values (Nat.succ.inj hcount) hrest
      exact ⟨_ :: front, p, back, v :: vs, v', ws, b', rfl, rfl, congrArg Nat.succ hvs,
        writeFields_cons_ok.mpr ⟨hreached, b₁, hfirst, hfront⟩, hp⟩
end

theorem crashes_of_storeBreaks {r : NativeRepr} (h : StoreBreaks b offset r v) : Crashes (write offset r v) b := by
  induction h with
  | bool =>
    have hplace : ∀ b : Buffer, b.length + 0 ≤ b.length := fun _ => Nat.le_refl _
    exact crashes_checkPlace.mpr ⟨hplace _, (crashes_writeScalar (hplace _)).mpr (.inl ⟨⟨rfl, _, rfl⟩, rfl⟩)⟩
  | name hplace hsize =>
    exact crashes_checkPlace.mpr ⟨hplace, (crashes_writeScalar hplace).mpr (.inr ⟨⟨rfl, _, _, rfl⟩, hsize⟩)⟩
  | beyond hplace hvs hws hfront hbeyond =>
    refine crashes_write_aggregate.mpr ⟨hplace, _, rfl, by simp [hvs, hws], crashes_stored_behind hvs hfront ?_⟩
    exact crashes_writeFields_cons.mpr (.inl hbeyond)
  | field hplace hvs hws hfront hreached _ ih =>
    refine crashes_write_aggregate.mpr ⟨hplace, _, rfl, by simp [hvs, hws], crashes_stored_behind hvs hfront ?_⟩
    exact crashes_writeFields_cons.mpr (.inr ⟨hreached, .inl ih⟩)

end

/-! ### What is guarded -/

theorem LoadBreaks.not_guarded {b : Buffer} {r : NativeRepr} {offset : Nat} (h : LoadBreaks b offset r) :
    ¬ r.Guarded offset := by
  intro hguarded
  induction h with
  | bool => exact hguarded.bool (.whole _) rfl
  | name _ hsize =>
    have := hguarded.name (.whole _)
    omega
  | @beyond _ _ _ _ p _ _ _ _ _ _ hbeyond =>
    exact Nat.not_le.mpr (hguarded.field_lt (List.mem_append_right _ List.mem_cons_self)) hbeyond
  | field _ _ _ _ ih => exact ih (hguarded.field (List.mem_append_right _ List.mem_cons_self))

theorem StoreBreaks.not_guarded {b : Buffer} {r : NativeRepr} {offset : Nat} {v : Value} (h : StoreBreaks b offset r v) :
    ¬ r.Guarded offset := by
  intro hguarded
  induction h with
  | bool => exact hguarded.bool (.whole _) rfl
  | name _ hsize => exact hsize (hguarded.name (.whole _))
  | beyond _ _ _ _ hbeyond =>
    exact Nat.not_le.mpr (hguarded.field_lt (List.mem_append_right _ List.mem_cons_self)) hbeyond
  | field _ _ _ _ _ _ ih => exact ih (hguarded.field (List.mem_append_right _ List.mem_cons_self))

end Buffer

open Buffer in
/-- Storing and loading break off in the cases that are told, whatever the representation, the memory and the value. With
a guarded representation none of them arises. -/
theorem marshaling_crashes_iff (r : NativeRepr) (b : Buffer) (offset : Nat) :
    (((read offset r).runOn b).1 = .error .crashed ↔ LoadBreaks b offset r) ∧
      (∀ v, ((write offset r v).runOn b).1 = .error .crashed ↔ StoreBreaks b offset r v) ∧
      (r.Guarded offset → ((read offset r).runOn b).1 ≠ .error .crashed ∧
        ∀ v, ((write offset r v).runOn b).1 ≠ .error .crashed) := by
  have hload : Crashes (read offset r) b ↔ LoadBreaks b offset r := ⟨loadBreaks_of_crashes r, crashes_of_loadBreaks⟩
  have hstore : ∀ v, Crashes (write offset r v) b ↔ StoreBreaks b offset r v :=
    fun v => ⟨storeBreaks_of_crashes r v, crashes_of_storeBreaks⟩
  refine ⟨hload, hstore, fun hguarded => ⟨fun h => ?_, fun v h => ?_⟩⟩
  · exact (hload.mp h).not_guarded hguarded
  · exact ((hstore v).mp h).not_guarded hguarded

open SampleDocument in
/-- What a document describes is guarded: neither a value of another shape nor memory that is too short makes it break
off. -/
theorem marshaling_crashes_iff_sample :
    repr.Guarded 8 ∧ ((Buffer.read 8 repr).runOn (.zeroed 16)).1 ≠ .error .crashed ∧
      ((Buffer.write 8 repr (.struct [.bool true, .name 1 2, .enum 5])).runOn memory).1 ≠ .error .crashed := by
  have hconsistent := Document.validate_eq_ok.mp (show document.validate = .ok () from rfl)
  have hresolves : document.Resolves (.struct "Sample") := by
    simp [Document.Resolves, TypeRef.references]
    rfl
  have hsound : repr.Sound := hconsistent.nativeRepr_sound hresolves rfl
  have hguarded : repr.Guarded 8 := hsound.guarded (by decide)
  have hload := ((marshaling_crashes_iff repr (.zeroed 16) 8).2.2 hguarded).1
  have hstore := ((marshaling_crashes_iff repr memory 8).2.2 hguarded).2 (.struct [.bool true, .name 1 2, .enum 5])
  exact ⟨hguarded, hload, hstore⟩

namespace UnguardedIndex

/-- A truth value without a byte. -/
def emptyBool : NativeRepr := .scalar .bool 0 1 "bool"

/-- A name that is half as long as names are. -/
def shortName : NativeRepr := .scalar .name 4 4 "FName"

/-- A struct whose field lies just below the last address. -/
def farField : NativeRepr :=
  .aggregate "Far" [⟨"Value", 18446744073709551615, .scalar (.integer true) 1 1 "int8"⟩] 1 1 "FFar"

def layout : FrameLayout :=
  ⟨false, [⟨"flag", 0, .inOut, emptyBool⟩, ⟨"name", 0, .inOut, shortName⟩, ⟨"far", 1, .inOut, farField⟩], 8, 8, none⟩

/-- An index that no pass writes, but that can be read. -/
def index : TrampolineManifest := ⟨"5.4", [⟨⟨"Actor", "Take"⟩, "SharpBind_Actor_Take", layout⟩]⟩

end UnguardedIndex

open UnguardedIndex in
/-- The representations of an index that is read are taken for true: one of each kind that is not guarded breaks off. -/
theorem unguarded_index_crashes :
    TrampolineManifest.ofText? index.toText = some index ∧
      ((Buffer.read 0 emptyBool).runOn (.zeroed 8)).1 = .error .crashed ∧
      ((Buffer.write 0 shortName (.name 1 2)).runOn (.zeroed 8)).1 = .error .crashed ∧
      ((Buffer.read 1 farField).runOn (.zeroed 8)).1 = .error .crashed ∧
      ((Buffer.write 1 farField (.struct [.integer (.ofBits .int8 0)])).runOn (.zeroed 8)).1 = .error .crashed := by
  refine ⟨TrampolineManifest.ofText?_toText ?_ ?_, rfl, rfl, rfl, rfl⟩
  · rintro e he
    obtain rfl := List.mem_singleton.mp he
    have hbool : emptyBool.Fits := NativeRepr.fits_scalar (by decide) (by decide)
    have hname : shortName.Fits := NativeRepr.fits_scalar (by decide) (by decide)
    have hfield : (NativeRepr.scalar (.integer true) 1 1 "int8").Fits := NativeRepr.fits_scalar (by decide) (by decide)
    have hfar : farField.Fits := NativeRepr.fits_aggregate (by decide) (by decide)
      (List.forall_mem_singleton.mpr ⟨by decide, hfield⟩)
    exact ⟨by decide, by decide, by decide, by simpa [layout] using ⟨hbool, hname, hfar⟩, nofun⟩
  · decide

end EngineBridge
