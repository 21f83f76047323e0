import EngineBridge.Proofs.Layout.Frame
import EngineBridge.Proofs.Model.Validity

/-! Representations that values can be stored in.

A representation may come from a file, and then its sizes may be any. Those of a consistent document have the
sizes that their kinds of values need, and their fields within them. -/

namespace EngineBridge

/-- Values of the kind have that size. -/
def ScalarKind.HasSize : ScalarKind → Nat → Prop
  | .bool, size => size = 1
  | .integer _, size | .enum _ _, size => size ∈ [1, 2, 4, 8]
  | .float, size => size ∈ [4, 8]
  | .objectHandle, size | .name, size => size = 8

namespace NativeRepr

/-- Every part takes room, every scalar within the representation has a size of its kind, and every struct
reaches around its fields. -/
structure Sound (r : NativeRepr) : Prop where
  size_pos : ∀ {k part}, r.Holds k part → 1 ≤ part.size
  sized : ∀ {k kind size align nativeType}, r.Holds k (.scalar kind size align nativeType) → kind.HasSize size
  inside : ∀ {k type fields size align nativeType}, r.Holds k (.aggregate type fields size align nativeType) →
    ∀ p ∈ fields, p.stop ≤ size

/-- The byte at `i` belongs to a scalar within a value that lies at `offset`. The other bytes of the value are
padding. -/
def Covers (r : NativeRepr) (offset i : Nat) : Prop :=
  ∃ k kind size align nativeType,
    r.Holds k (.scalar kind size align nativeType) ∧ offset + k ≤ i ∧ i < offset + k + size

section
variable {kind : ScalarKind} {type nativeType : String} {fields : List (Placed NativeRepr)} {size align offset i : Nat}

theorem Sound.scalar (h : (scalar kind size align nativeType).Sound) : kind.HasSize size := h.sized (.whole _)

theorem Sound.field (h : (aggregate type fields size align nativeType).Sound) {p : Placed NativeRepr}
    (hp : p ∈ fields) : p.repr.Sound :=
  ⟨fun hpart => h.size_pos (.inField hp hpart), fun hpart => h.sized (.inField hp hpart),
    fun hpart => h.inside (.inField hp hpart)⟩

theorem Sound.stop_le (h : (aggregate type fields size align nativeType).Sound) {p : Placed NativeRepr}
    (hp : p ∈ fields) : p.stop ≤ size :=
  h.inside (.whole _) p hp

theorem covers_scalar : (scalar kind size align nativeType).Covers offset i ↔ offset ≤ i ∧ i < offset + size := by
  constructor
  · rintro ⟨k, _, _, _, _, hpart, hle, hlt⟩
    obtain ⟨rfl, h⟩ := holds_scalar hpart
    cases h
    exact ⟨hle, hlt⟩
  · rintro ⟨hle, hlt⟩
    exact ⟨0, kind, size, align, nativeType, .whole _, hle, hlt⟩

theorem covers_aggregate : (aggregate type fields size align nativeType).Covers offset i ↔
    ∃ p ∈ fields, p.repr.Covers (offset + p.offset) i := by
  constructor
  · rintro ⟨_, kind, n, a, t, hpart, hle, hlt⟩
    cases hpart with
    | @inField _ _ _ _ _ p k _ hp hpart => exact ⟨p, hp, k, kind, n, a, t, hpart, by omega, by omega⟩
  · rintro ⟨p, hp, k, kind, n, a, t, hpart, hle, hlt⟩
    exact ⟨p.offset + k, kind, n, a, t, .inField hp hpart, by omega, by omega⟩

/-- What is within a value does not reach behind it. -/
theorem Sound.holds_le {r part : NativeRepr} {k : Nat} (h : r.Sound) (hpart : r.Holds k part) :
    k + part.size ≤ r.size := by
  induction hpart with
  | whole r => exact Nat.le_of_eq (Nat.zero_add _)
  | @inField _ _ whole _ _ p k part hp hpart ih =>
    have hfield : k + part.size ≤ p.repr.size := ih (h.field hp)
    have hstop : p.offset + p.repr.size ≤ whole := h.stop_le hp
    show p.offset + k + part.size ≤ whole
    omega

theorem Sound.covers_lt {r : NativeRepr} (h : r.Sound) (hi : r.Covers offset i) :
    offset ≤ i ∧ i < offset + r.size := by
  obtain ⟨k, kind, size, align, nativeType, hpart, hle, hlt⟩ := hi
  have hstop : k + size ≤ r.size := h.holds_le hpart
  omega

end

end NativeRepr

namespace Document
open NativeRepr
variable {d : Document} {r : NativeRepr}

/-- The type behind an enum of a consistent document is an integer type. -/
theorem Consistent.enum_underlying (hd : d.Consistent) {type : String} {record : TypeRecord}
    (ht : d.Resolves (.enum type)) (hrecord : d.type? type = some record) : ∃ i, record.underlying = .integer i := by
  obtain ⟨record', hrecord', hkind⟩ := kind?_eq_some.mp (ht _ List.mem_cons_self)
  rw [hrecord] at hrecord'
  cases hrecord'
  obtain ⟨i, hi, -⟩ := (hd.accepts record (type?_mem hrecord).1).underlying hkind
  exact ⟨i, hi⟩

theorem hasSize_integer (i : IntegerType) : (ScalarKind.integer i.signed).HasSize i.bytes := by
  cases i <;> simp [ScalarKind.HasSize, IntegerType.bytes]

/-- All scalars within a representation of a consistent document have a size of their kind. -/
theorem reprWithin_sized (hd : d.Consistent) {fuel : Nat} {inside : List String} {t : TypeRef} (ht : d.Resolves t)
    (hfuel : fuel ≤ (d.types.length + 1) * (d.types.length + 2)) (h : d.reprWithin fuel inside t = .ok r)
    {k : Nat} {kind : ScalarKind} {size align : Nat} {nativeType : String}
    (hpart : r.Holds k (.scalar kind size align nativeType)) : kind.HasSize size := by
  induction fuel generalizing inside t r k with
  | zero => cases h
  | succ fuel ih =>
    have hfuel' : fuel ≤ (d.types.length + 1) * (d.types.length + 2) := Nat.le_of_succ_le hfuel
    cases t with
    | bool | float | double | name | classOf =>
      cases h
      cases (holds_scalar hpart).2
      simp [ScalarKind.HasSize, pointerSize]
    | integer i =>
      cases h
      cases (holds_scalar hpart).2
      exact hasSize_integer i
    | object type =>
      obtain ⟨record, -, rfl⟩ := reprWithin_object.mp h
      cases (holds_scalar hpart).2
      rfl
    | enum type =>
      obtain ⟨record, hrecord, underlying, hunderlying, rfl⟩ := reprWithin_enum.mp h
      obtain ⟨i, hi⟩ := hd.enum_underlying ht hrecord
      cases (holds_scalar hpart).2
      -- The check lets only integers stand behind an enum.
      rw [hi] at hunderlying
      obtain ⟨_, rfl⟩ := reprWithin_integer hunderlying
      exact hasSize_integer i
    | struct type =>
      obtain ⟨record, fields, _, _, hrecord, rfl, hmade⟩ := reprWithin_fields hfuel' h
      have haccepts := hd.accepts record (type?_mem hrecord).1
      cases hpart with
      | inField hp hpart =>
        obtain ⟨property, hproperty, r, n, hr, rfl⟩ := Paired.exists_left hmade hp
        exact ih (haccepts.property hproperty) hfuel' hr hpart
    | string | text | softObject | array | set | map | delegate => cases h

/-- Values can be stored in the representations of a consistent document. -/
theorem Consistent.nativeRepr_sound (hd : d.Consistent) {t : TypeRef} (ht : d.Resolves t) (h : d.nativeRepr t = .ok r) :
    r.Sound where
  size_pos hpart := ((nativeRepr_isCLayout h).aligned hpart).size_pos
  sized := reprWithin_sized hd ht (Nat.le_refl _) h
  inside hpart := ((nativeRepr_isCLayout h).structs hpart).laidOut.inside

theorem handle_sound (nativeName : String) : (handle nativeName).Sound where
  size_pos hpart := by
    cases (holds_scalar hpart).2
    show 1 ≤ pointerSize
    decide
  sized hpart := by
    cases (holds_scalar hpart).2
    rfl
  inside hpart := by cases (holds_scalar hpart).2

end Document

namespace FrameLayout
open NativeRepr
variable {d : Document} {owner : TypeRecord} {f : FunctionRecord} {l : FrameLayout}

/-- Slots that lie one behind the other within a frame, in which values can be stored, as in what is returned. -/
structure Sound (l : FrameLayout) : Prop where
  slots : ∀ s ∈ l.slots, s.repr.Sound
  inside : ∀ s ∈ l.slots, s.offset + s.repr.size ≤ l.size
  disjoint : l.slots.Pairwise fun s t => s.offset + s.repr.size ≤ t.offset
  ret : ∀ r, l.ret = some r → r.Sound

theorem sound_ofFunction (hd : d.Consistent) (howner : owner ∈ d.types) (hf : f ∈ owner.functions)
    (h : ofFunction d owner f = .ok l) : l.Sound := by
  have hframe := isCFrame_ofFunction h
  have hresolves : ∀ type ∈ f.types, d.Resolves type := fun _ => (hd.accepts owner howner).function hf
  refine ⟨?_, fun s hs => hframe.laidOut.inside _ (List.mem_map_of_mem hs),
    List.pairwise_map.mp hframe.laidOut.disjoint, ?_⟩
  · have hparams : ∀ s ∈ l.params, s.repr.Sound := by
      intro s hs
      obtain ⟨p, hp, -, -, hrepr⟩ := Paired.exists_left hframe.params hs
      have hp' : p.type ∈ f.types := List.mem_append_left _ (List.mem_map_of_mem hp)
      exact hd.nativeRepr_sound (hresolves _ hp') hrepr
    rw [hframe.receiver_slot]
    split
    · exact hparams
    · rw [List.forall_mem_cons]
      exact ⟨Document.handle_sound _, hparams⟩
  · intro r hr
    have hret := hframe.ret
    rw [hr] at hret
    cases htype : f.returnType with
    | none =>
      rw [htype] at hret
      cases hret
    | some type =>
      rw [htype] at hret
      cases hret with
      | some hret =>
        have hmem : type ∈ f.types := List.mem_append_right _ (by simp [htype])
        exact hd.nativeRepr_sound (hresolves type hmem) hret.1

end FrameLayout
end EngineBridge
