import EngineBridge.Host.Foreign
import EngineBridge.Proofs.Layout.Representable
import EngineBridge.Proofs.Layout.Sizes

/-! The types of native calls lie as the representations they are made of.

A native call lays out its records by itself: it places the fields one after the other and rounds the size up, as the
layout of a struct does. The two come to the same places, level by level. What parts them is that a struct without
properties still has a byte in memory, and none in a call. -/

namespace EngineBridge

/-- There is only one first multiple. -/
theorem IsNextMultiple.alignTo_eq {start align n : Nat} (h : IsNextMultiple start align n) (halign : 0 < align) :
    alignTo start align = n :=
  (alignTo_isNextMultiple start halign).unique h

namespace ForeignType

/-- Where fields lie that are placed behind `start`. -/
def placesFrom (start : Nat) : List ForeignType → Option (List Nat)
  | [] => some []
  | f :: fs => f.extent?.bind fun e =>
    (placesFrom (alignTo start e.align + e.size) fs).map (alignTo start e.align :: ·)

end ForeignType

namespace NativeRepr
variable {r inner innermost : NativeRepr} {k k' : Nat}

theorem Holds.trans (h : r.Holds k inner) (h' : inner.Holds k' innermost) : r.Holds (k + k') innermost := by
  induction h with
  | whole r =>
    rw [Nat.zero_add]
    exact h'
  | inField hp _ ih =>
    rw [Nat.add_assoc]
    exact .inField hp (ih h')

/-- A native call lays out what the representation describes in the same way: the whole and each part within it, at any
depth, is as large and aligned alike, and each struct has its fields at the same places. -/
structure LiesAlike (r : NativeRepr) : Prop where
  extent : ∀ k part, r.Holds k part → part.foreignType.extent? = some ⟨part.size, part.align⟩
  places : ∀ k type fields size align nativeType, r.Holds k (.aggregate type fields size align nativeType) →
    ForeignType.placesFrom 0 (foreignTypes fields) = some (fields.map (·.offset))

/-- The scalars within are laid out alike, and each struct within has fields, which lie as in C. -/
structure Filled (r : NativeRepr) : Prop where
  scalars : ∀ {k kind size align nativeType}, r.Holds k (.scalar kind size align nativeType) →
    (scalarForeignType kind size).extent? = some ⟨size, align⟩
  structs : ∀ {k type fields size align nativeType}, r.Holds k (.aggregate type fields size align nativeType) →
    fields ≠ [] ∧ LaidOut fields size align
  positive : ∀ {k part}, r.Holds k part → 0 < part.align

theorem Filled.part (h : r.Filled) (hpart : r.Holds k inner) : inner.Filled where
  scalars h' := h.scalars (hpart.trans h')
  structs h' := h.structs (hpart.trans h')
  positive h' := h.positive (hpart.trans h')

/-! ### Fields -/

section
variable {fields : List (Placed NativeRepr)} {start widest' : Nat}
  (halike : ∀ p ∈ fields, p.repr.foreignType.extent? = some ⟨p.repr.size, p.repr.align⟩)
  (hpositive : ∀ p ∈ fields, 0 < p.repr.align) (hpacked : PackedFrom start fields)
include halike hpositive hpacked

/-- Fields that are laid out alike reach as far in a call as they do in memory. -/
theorem fieldsExtent?_of_packed (hwidest : 1 ≤ widest') :
    ForeignType.fieldsExtent? ⟨start, widest'⟩ (foreignTypes fields) =
      some ⟨endFrom start fields, max widest' (widest fields)⟩ := by
  induction fields generalizing start widest' with
  | nil =>
    rw [foreignTypes, ForeignType.fieldsExtent?, widest, Nat.max_eq_left hwidest]
    rfl
  | cons p fields ih =>
    rw [List.forall_mem_cons] at halike hpositive
    have hoffset : alignTo start p.repr.align = p.offset := hpacked.1.alignTo_eq hpositive.1
    rw [foreignTypes, ForeignType.fieldsExtent?, halike.1]
    dsimp only
    rw [hoffset]
    have hrest : ForeignType.fieldsExtent? ⟨p.stop, max widest' p.repr.align⟩ (foreignTypes fields) =
        some ⟨endFrom p.stop fields, max (max widest' p.repr.align) (widest fields)⟩ :=
      ih halike.2 hpositive.2 hpacked.2 (Nat.le_trans hwidest (Nat.le_max_left _ _))
    rw [Nat.max_assoc] at hrest
    exact hrest

theorem placesFrom_of_packed : ForeignType.placesFrom start (foreignTypes fields) = some (fields.map (·.offset)) := by
  induction fields generalizing start with
  | nil => rfl
  | cons p fields ih =>
    rw [List.forall_mem_cons] at halike hpositive
    have hoffset : alignTo start p.repr.align = p.offset := hpacked.1.alignTo_eq hpositive.1
    have hrest : ForeignType.placesFrom p.stop (foreignTypes fields) = some (fields.map (·.offset)) :=
      ih halike.2 hpositive.2 hpacked.2
    rw [foreignTypes, ForeignType.placesFrom, halike.1, Option.bind_some, hoffset]
    dsimp only
    rw [show p.offset + p.repr.size = p.stop from rfl, hrest]
    rfl

end

/-- The record of a struct is as large as the struct. -/
theorem extent?_aggregate {type nativeType : String} {fields : List (Placed NativeRepr)} {size align : Nat}
    (halike : ∀ p ∈ fields, p.repr.foreignType.extent? = some ⟨p.repr.size, p.repr.align⟩)
    (hpositive : ∀ p ∈ fields, 0 < p.repr.align) (hne : fields ≠ []) (hlaid : LaidOut fields size align)
    (halign : 0 < align) :
    (aggregate type fields size align nativeType).foreignType.extent? = some ⟨size, align⟩ := by
  have hfields := fieldsExtent?_of_packed halike hpositive hlaid.packed (Nat.le_refl 1)
  have hwidest : max 1 (widest fields) = align := by
    rw [← hlaid.align_eq]
    exact Nat.max_eq_right halign
  have hsize : alignTo (endFrom 0 fields) align = size := (hlaid.size_next hne).alignTo_eq halign
  obtain ⟨p, fields, rfl⟩ := List.exists_cons_of_ne_nil hne
  rw [foreignType]
  rw [foreignTypes] at hfields ⊢
  rw [ForeignType.extent?, hfields, hwidest, Option.map_some, hsize]

mutual
/-- What is filled is as large in a call as it is in memory. -/
theorem Filled.extent?_eq : ∀ (r : NativeRepr), r.Filled → r.foreignType.extent? = some ⟨r.size, r.align⟩
  | .scalar _ _ _ _, h => h.scalars (.whole _)
  | .aggregate _ fields _ _ _, h =>
    have hfields : ∀ p ∈ fields, p.repr.Filled := fun _ hp => h.part (.inField hp (.whole _))
    have hlaid := h.structs (.whole _)
    extent?_aggregate (extents_eq fields hfields) (fun p hp => (hfields p hp).positive (.whole _)) hlaid.1 hlaid.2
      (h.positive (.whole _))

theorem Filled.extents_eq : ∀ (fields : List (Placed NativeRepr)), (∀ p ∈ fields, p.repr.Filled) →
    ∀ p ∈ fields, p.repr.foreignType.extent? = some ⟨p.repr.size, p.repr.align⟩
  | [], _ => List.forall_mem_nil _
  | ⟨_, _, r⟩ :: fields, h =>
    List.forall_mem_cons.mpr ⟨extent?_eq r (List.forall_mem_cons.mp h).1, extents_eq fields (List.forall_mem_cons.mp h).2⟩
end

/-! ### What a call takes -/

theorem isCallable_of_fieldsExtent {fields : List (Placed NativeRepr)} {e e' : ForeignType.Extent}
    (h : ForeignType.fieldsExtent? e (foreignTypes fields) = some e') :
    ∀ p ∈ fields, p.repr.foreignType.isCallable = true := by
  induction fields generalizing e with
  | nil => exact List.forall_mem_nil _
  | cons p fields ih =>
    rw [foreignTypes, ForeignType.fieldsExtent?] at h
    cases hp : p.repr.foreignType.extent? with
    | none =>
      rw [hp] at h
      cases h
    | some g =>
      rw [hp] at h
      exact List.forall_mem_cons.mpr ⟨Option.isSome_iff_exists.mpr ⟨g, hp⟩, ih h⟩

/-- A call that takes the whole takes each part. -/
theorem isCallable_part (h : r.foreignType.isCallable = true) (hpart : r.Holds k inner) :
    inner.foreignType.isCallable = true := by
  induction hpart with
  | whole => exact h
  | @inField _ fields _ _ _ p _ _ hp _ ih =>
    refine ih ?_
    cases fields with
    | nil => cases hp
    | cons q fields =>
      rw [ForeignType.isCallable, foreignType, foreignTypes, ForeignType.extent?, Option.isSome_map] at h
      obtain ⟨e, he⟩ := Option.isSome_iff_exists.mp h
      have hfields : ForeignType.fieldsExtent? ⟨0, 1⟩ (foreignTypes (q :: fields)) = some e := he
      exact isCallable_of_fieldsExtent hfields p hp

theorem LiesAlike.isCallable (h : r.LiesAlike) : r.foreignType.isCallable = true :=
  Option.isSome_iff_exists.mpr ⟨_, h.extent 0 r (.whole r)⟩

theorem Filled.liesAlike (h : r.Filled) : r.LiesAlike where
  extent _ part hpart := extent?_eq part (h.part hpart)
  places _ _ fields _ _ _ hpart := by
    have hfields : ∀ p ∈ fields, p.repr.Filled := fun _ hp => (h.part hpart).part (.inField hp (.whole _))
    exact placesFrom_of_packed (extents_eq fields hfields) (fun p hp => (hfields p hp).positive (.whole _))
      (h.structs hpart).2.packed

end NativeRepr

namespace Document
open NativeRepr
variable {d : Document} {fuel : Nat} {inside : List String} {t u : TypeRef} {r part : NativeRepr} {k : Nat}

/-! ### Parts and the types they belong to -/

theorem eq_struct_of_aggregate {type nativeType : String} {fields : List (Placed NativeRepr)} {size align : Nat}
    (h : d.nativeRepr t = .ok (.aggregate type fields size align nativeType)) : t = .struct type := by
  obtain ⟨fuel, hfuel⟩ := exists_nativeRepr_eq d
  rw [hfuel] at h
  cases t with
  | struct name =>
    obtain ⟨-, record, -, -, rs, -, heq⟩ := reprWithin_struct.mp h
    cases heq
    rfl
  | object name =>
    obtain ⟨record, -, heq⟩ := reprWithin_object.mp h
    cases heq
  | enum name =>
    obtain ⟨record, -, underlying, -, heq⟩ := reprWithin_enum.mp h
    cases heq
  | bool | integer | float | double | name | classOf | string | text | softObject | array | set | map | delegate => cases h

/-- Each part of a representation is that of a type that lies in the type. -/
theorem reaches_of_holds (h : d.nativeRepr t = .ok r) (hpart : r.Holds k part) :
    ∃ u, d.Reaches t u ∧ d.nativeRepr u = .ok part := by
  induction hpart generalizing t with
  | whole r => exact ⟨t, .self, h⟩
  | inField hp _ ih =>
    obtain ⟨record, hrecord, -, hfields⟩ := ((nativeRepr_isCLayout h).structs (.whole _)).record
    obtain rfl := eq_struct_of_aggregate h
    obtain ⟨property, hproperty, -, hrepr⟩ := Paired.exists_left hfields hp
    obtain ⟨u, hu, hrepr'⟩ := ih hrepr
    have hfield : d.HasField _ property.type := ⟨record, hrecord, property, hproperty, rfl⟩
    exact ⟨u, hfield.reaches.trans hu, hrepr'⟩

theorem nativeRepr_struct {s : String} (h : d.nativeRepr (.struct s) = .ok r) :
    ∃ fields size align nativeType, r = .aggregate s fields size align nativeType := by
  obtain ⟨fuel, hfuel⟩ := exists_nativeRepr_eq d
  rw [hfuel] at h
  obtain ⟨-, record, -, -, rs, -, rfl⟩ := reprWithin_struct.mp h
  exact ⟨_, _, _, _, rfl⟩

theorem nativeRepr_enum {e : String} (h : d.nativeRepr (.enum e) = .ok r) :
    ∃ signed size align nativeType, r = .scalar (.enum e signed) size align nativeType := by
  obtain ⟨fuel, hfuel⟩ := exists_nativeRepr_eq d
  rw [hfuel] at h
  obtain ⟨record, -, underlying, -, rfl⟩ := reprWithin_enum.mp h
  exact ⟨_, _, _, _, rfl⟩

/-- Whatever lies in a type has its representation within that of the type. -/
theorem holds_of_reaches (h : d.nativeRepr t = .ok r) (hu : d.Reaches t u) :
    ∃ k part, r.Holds k part ∧ d.nativeRepr u = .ok part := by
  induction hu with
  | self => exact ⟨0, r, .whole r, h⟩
  | @field s u _ hfield ih =>
    obtain ⟨k, whole, hpart, hrepr⟩ := ih
    obtain ⟨fields, size, align, nativeType, rfl⟩ := nativeRepr_struct hrepr
    obtain ⟨record, hrecord, -, hfields⟩ := ((nativeRepr_isCLayout hrepr).structs (.whole _)).record
    obtain ⟨record', hrecord', property, hproperty, rfl⟩ := hfield
    obtain rfl := Option.some.inj (hrecord.symm.trans hrecord')
    obtain ⟨p, hp, -, hprepr⟩ := Paired.exists_right hfields hproperty
    exact ⟨_, p.repr, hpart.trans (.inField hp (.whole _)), hprepr⟩

/-- Every struct in the type has a property. -/
def FullStructs (d : Document) (t : TypeRef) : Prop := ∀ s, d.Reaches t (.struct s) → ∃ u, d.HasField s u

theorem fields_ne_nil_iff {s : String} {fields : List (Placed NativeRepr)} {size align : Nat}
    (h : StructLaidOut d s fields size align) : fields ≠ [] ↔ ∃ u, d.HasField s u := by
  obtain ⟨record, hrecord, -, hfields⟩ := h.record
  constructor
  · intro hne
    obtain ⟨p, hp⟩ := List.exists_mem_of_ne_nil _ hne
    obtain ⟨property, hproperty, -⟩ := Paired.exists_left hfields hp
    exact ⟨property.type, record, hrecord, property, hproperty, rfl⟩
  · rintro ⟨u, record', hrecord', property, hproperty, -⟩ rfl
    obtain rfl := Option.some.inj (hrecord.symm.trans hrecord')
    obtain ⟨p, hp, -⟩ := Paired.exists_right hfields hproperty
    cases hp

/-! ### Scalars -/

/-- An integer type is laid out as itself. -/
theorem extent?_integer {signed : Bool} {size : Nat} (h : size ∈ [1, 2, 4, 8]) :
    (ForeignType.integer ((Buffer.integerType? signed size).getD .uint64)).extent? = some ⟨size, size⟩ := by
  simp only [List.mem_cons, List.not_mem_nil, or_false] at h
  rcases h with rfl | rfl | rfl | rfl <;> cases signed <;> rfl

section
variable (hd : d.Consistent)
include hd

/-- An enum of a document is as large as it is aligned, for it is an integer. -/
theorem Consistent.enum_natural {e : String} (ht : d.kind? e = some .enumKind)
    (h : d.reprWithin fuel inside (.enum e) = .ok r) : r.size = r.align := by
  cases fuel with
  | zero => cases h
  | succ fuel =>
    obtain ⟨record, hrecord, underlying, hunderlying, rfl⟩ := reprWithin_enum.mp h
    have hresolves : d.Resolves (.enum e) := fun x hx => by
      rw [List.mem_singleton.mp hx]
      exact ht
    obtain ⟨i, hi⟩ := hd.enum_underlying hresolves hrecord
    rw [hi] at hunderlying
    obtain ⟨_, rfl⟩ := reprWithin_integer hunderlying
    rfl

theorem Consistent.scalar_extent (hfuel : fuel ≤ (d.types.length + 1) * (d.types.length + 2))
    (h : d.reprWithin fuel inside t = .ok r) (henum : ∀ e, t = .enum e → r.size = r.align)
    {kind : ScalarKind} {size align : Nat} {nativeType : String} (hpart : r.Holds k (.scalar kind size align nativeType)) :
    (scalarForeignType kind size).extent? = some ⟨size, align⟩ := by
  induction fuel generalizing inside t r k with
  | zero => cases h
  | succ fuel ih =>
    have hfuel' : fuel ≤ (d.types.length + 1) * (d.types.length + 2) := Nat.le_of_succ_le hfuel
    cases t with
    | bool | float | double | name | classOf =>
      cases h
      cases (holds_scalar hpart).2
      rfl
    | integer i =>
      cases h
      cases (holds_scalar hpart).2
      exact extent?_integer (by cases i <;> decide)
    | object type =>
      obtain ⟨record, -, rfl⟩ := reprWithin_object.mp h
      cases (holds_scalar hpart).2
      rfl
    | enum type =>
      have haligned := (reprWithin_isCLayout hfuel h).aligned (.whole _)
      obtain ⟨record, -, underlying, -, rfl⟩ := reprWithin_enum.mp h
      cases (holds_scalar hpart).2
      -- The size of an enum is that of the type behind it, which need not be a natural one by itself.
      have hnatural : underlying.size = underlying.align := henum type rfl
      have hmem : underlying.align ∈ [1, 2, 4, 8] := haligned.align_mem
      rw [hnatural]
      exact extent?_integer hmem
    | struct type =>
      obtain ⟨record, fields, _, _, hrecord, rfl, hmade⟩ := reprWithin_fields hfuel' h
      have haccepts := hd.accepts record (type?_mem hrecord).1
      cases hpart with
      | inField hp hpart =>
        obtain ⟨property, hproperty, r, n, hr, rfl⟩ := Paired.exists_left hmade hp
        -- Within a struct it is the check of the document that keeps enums natural.
        refine ih hfuel' hr (fun e he => ?_) hpart
        have hresolves := haccepts.property hproperty
        rw [he] at hresolves hr
        exact hd.enum_natural (hresolves (.toEnum, e) (by simp [TypeRef.references])) hr
    | string | text | softObject | array | set | map | delegate => cases h

end

/-! ### Which types lie alike -/

theorem Consistent.filled (hd : d.Consistent) (h : d.nativeRepr t = .ok r) (hstructs : d.FullStructs t)
    (henum : ∀ e, t = .enum e → r.size = r.align) : r.Filled where
  scalars := hd.scalar_extent (Nat.le_refl _) h henum
  structs hpart := by
    obtain ⟨u, hu, hrepr⟩ := reaches_of_holds h hpart
    obtain rfl := eq_struct_of_aggregate hrepr
    have hlaid := (nativeRepr_isCLayout h).structs hpart
    exact ⟨(fields_ne_nil_iff hlaid).mpr (hstructs _ hu), hlaid.laidOut⟩
  positive hpart := ((nativeRepr_isCLayout h).aligned hpart).align_pos

theorem fields_ne_nil_of_callable {type nativeType : String} {fields : List (Placed NativeRepr)} {size align : Nat}
    (h : (aggregate type fields size align nativeType).foreignType.isCallable = true) : fields ≠ [] := by
  rintro rfl
  rw [foreignType, foreignTypes, ForeignType.isCallable, ForeignType.extent?] at h
  cases h

/-- If a call takes the type, every struct in it has a property. -/
theorem fullStructs_of_callable (h : d.nativeRepr t = .ok r) (hcallable : r.foreignType.isCallable = true) :
    d.FullStructs t := by
  intro s hs
  obtain ⟨k, part, hpart, hrepr⟩ := holds_of_reaches h hs
  obtain ⟨fields, size, align, nativeType, rfl⟩ := nativeRepr_struct hrepr
  exact (fields_ne_nil_iff ((nativeRepr_isCLayout h).structs hpart)).mp
    (fields_ne_nil_of_callable (isCallable_part hcallable hpart))

end Document
end EngineBridge
