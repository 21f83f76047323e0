import EngineBridge.Proofs.Layout.Parts
import EngineBridge.Proofs.Lists

/-! Representations of a document's types lie as in C.

`reprWithin` is inverted once for each kind of type that refers to others. A representation that is found stays
the same with more fuel and within fewer structs, so that a field is represented as its type is anywhere else. -/

namespace EngineBridge
namespace Document
open NativeRepr Outcome
variable {d : Document} {fuel : Nat} {inside : List String} {type : String} {r : NativeRepr}

theorem layoutType_eq_ok {record : TypeRecord} : d.layoutType type = .ok record ↔ d.type? type = some record := by
  unfold layoutType
  cases d.type? type <;> simp

/-- The field that a property becomes at an offset. -/
def fieldAt (p : PropertyRecord) (r : NativeRepr) (offset : Nat) : Placed NativeRepr := ⟨p.name, offset, r⟩

/-- The fields of a struct whose properties have the given representations. -/
def fieldPacking (record : TypeRecord) (rs : List NativeRepr) : Packing (Placed NativeRepr) :=
  Packing.addAll fieldAt .empty (record.properties.zip rs)

theorem reprWithin_struct : d.reprWithin (fuel + 1) inside (.struct type) = .ok r ↔
    type ∉ inside ∧ ∃ record, d.type? type = some record ∧ record.kind = .structKind ∧ ∃ rs,
      List.Forall₂ (fun p r => d.reprWithin fuel (type :: inside) p.type = .ok r) record.properties rs ∧
      r = .aggregate type (fieldPacking record rs).placed
        (alignTo (max (fieldPacking record rs).offset 1) (fieldPacking record rs).align) (fieldPacking record rs).align
        record.nativeName := by
  rw [reprWithin]
  by_cases hin : inside.contains type = true
  · have hmem : type ∈ inside := List.contains_iff_mem.mp hin
    simp only [hin, ↓reduceIte]
    exact ⟨fun h => (nomatch h), fun h => absurd hmem h.1⟩
  · have hmem : type ∉ inside := fun h => hin (List.contains_iff_mem.mpr h)
    simp only [hin, Bool.false_eq_true, ↓reduceIte, hmem, not_false_eq_true, true_and]
    constructor
    · intro h
      obtain ⟨record, hrecord, h⟩ := bind_eq_ok.mp h
      by_cases hkind : record.kind = .structKind
      · simp only [hkind, ne_eq, not_true_eq_false, ↓reduceIte] at h
        obtain ⟨packing, hpacking, h⟩ := bind_eq_ok.mp h
        obtain ⟨rs, hrs, rfl⟩ := Packing.foldlM_add_eq_ok.mp hpacking
        cases h
        exact ⟨record, layoutType_eq_ok.mp hrecord, hkind, rs, hrs, rfl⟩
      · simp only [hkind, ne_eq, not_false_eq_true, ↓reduceIte] at h
        cases h
    · rintro ⟨record, hrecord, hkind, rs, hrs, rfl⟩
      refine bind_eq_ok.mpr ⟨record, layoutType_eq_ok.mpr hrecord, ?_⟩
      simp only [hkind, ne_eq, not_true_eq_false, ↓reduceIte]
      exact bind_eq_ok.mpr ⟨_, Packing.foldlM_add_eq_ok.mpr ⟨rs, hrs, rfl⟩, rfl⟩

theorem reprWithin_enum : d.reprWithin (fuel + 1) inside (.enum type) = .ok r ↔
    ∃ record, d.type? type = some record ∧ ∃ underlying, d.reprWithin fuel inside record.underlying = .ok underlying ∧
      r = .scalar (.enum type underlying.isSignedInteger) underlying.size underlying.align record.nativeName := by
  rw [reprWithin]
  constructor
  · intro h
    obtain ⟨record, hrecord, h⟩ := bind_eq_ok.mp h
    obtain ⟨underlying, hunderlying, h⟩ := bind_eq_ok.mp h
    cases h
    exact ⟨record, layoutType_eq_ok.mp hrecord, underlying, hunderlying, rfl⟩
  · rintro ⟨record, hrecord, underlying, hunderlying, rfl⟩
    exact bind_eq_ok.mpr ⟨record, layoutType_eq_ok.mpr hrecord, bind_eq_ok.mpr ⟨underlying, hunderlying, rfl⟩⟩

theorem reprWithin_object : d.reprWithin (fuel + 1) inside (.object type) = .ok r ↔
    ∃ record, d.type? type = some record ∧ r = .handle record.nativeName := by
  rw [reprWithin]
  constructor
  · intro h
    obtain ⟨record, hrecord, h⟩ := bind_eq_ok.mp h
    cases h
    exact ⟨record, layoutType_eq_ok.mp hrecord, rfl⟩
  · rintro ⟨record, hrecord, rfl⟩
    exact bind_eq_ok.mpr ⟨record, layoutType_eq_ok.mpr hrecord, rfl⟩

theorem reprWithin_integer {i : IntegerType} (h : d.reprWithin fuel inside (.integer i) = .ok r) :
    ∃ nativeType, r = .number (.integer i.signed) i.bytes nativeType := by
  cases fuel with
  | zero => cases h
  | succ fuel =>
    cases h
    exact ⟨_, rfl⟩

/-- More fuel and fewer structs around a type do not change its representation. -/
theorem reprWithin_mono {t : TypeRef} {fuel' : Nat} {inside' : List String} (hfuel : fuel ≤ fuel')
    (hinside : inside' ⊆ inside) (h : d.reprWithin fuel inside t = .ok r) : d.reprWithin fuel' inside' t = .ok r := by
  induction fuel generalizing fuel' inside inside' t r with
  | zero => cases h
  | succ fuel ih =>
    obtain ⟨fuel', rfl⟩ : ∃ n, fuel' = n + 1 := ⟨fuel' - 1, by omega⟩
    have hfuel' : fuel ≤ fuel' := Nat.le_of_succ_le_succ hfuel
    cases t with
    | struct type =>
      obtain ⟨hmem, record, hrecord, hkind, rs, hrs, rfl⟩ := reprWithin_struct.mp h
      refine reprWithin_struct.mpr ⟨fun hm => hmem (hinside hm), record, hrecord, hkind, rs, ?_, rfl⟩
      refine hrs.imp fun p r hp => ?_
      exact ih hfuel' (List.cons_subset_cons _ hinside) hp
    | enum type =>
      obtain ⟨record, hrecord, underlying, hunderlying, rfl⟩ := reprWithin_enum.mp h
      exact reprWithin_enum.mpr ⟨record, hrecord, underlying, ih hfuel' hinside hunderlying, rfl⟩
    | _ => exact h

/-- A representation is looked for with some fuel. -/
theorem exists_nativeRepr_eq (d : Document) : ∃ fuel, ∀ t, d.nativeRepr t = d.reprWithin (fuel + 1) [] t :=
  ⟨(d.types.length + 1) * (d.types.length + 2) - 1, fun t => by
    rw [Nat.sub_add_cancel (Nat.mul_pos (Nat.succ_pos _) (Nat.succ_pos _))]
    rfl⟩

theorem nativeRepr_of_within {t : TypeRef} (hfuel : fuel ≤ (d.types.length + 1) * (d.types.length + 2))
    (h : d.reprWithin fuel inside t = .ok r) : d.nativeRepr t = .ok r :=
  reprWithin_mono hfuel (List.nil_subset _) h

theorem fieldPacking_sound {R : PropertyRecord → NativeRepr → Prop} (hpos : ∀ p r, R p r → 0 < r.align)
    {record : TypeRecord} {rs : List NativeRepr} (hrs : List.Forall₂ R record.properties rs) :
    (fieldPacking record rs).Sound id ∧
      List.Forall₂ (fun p f => ∃ r n, R p r ∧ f = fieldAt p r n) record.properties (fieldPacking record rs).placed := by
  obtain ⟨hsound, added, hplaced, hadded⟩ :=
    Packing.addAll_sound id fieldAt (fun _ _ _ => rfl) (fun _ _ _ => rfl) hpos hrs Packing.sound_empty
  replace hplaced : (fieldPacking record rs).placed = added := hplaced
  exact ⟨hsound, hplaced ▸ hadded⟩

/-- The size of a struct is the end of its fields rounded up, or one byte if it has none. -/
theorem isNextMultiple_structSize {ps : List (Placed NativeRepr)} (hpacked : PackedFrom 0 ps)
    (h : ∀ p ∈ ps, p.repr.Aligned) :
    IsNextMultiple (max (endFrom 0 ps) 1) (widest ps) (alignTo (max (endFrom 0 ps) 1) (widest ps)) ∧
      (ps ≠ [] → max (endFrom 0 ps) 1 = endFrom 0 ps) :=
  ⟨alignTo_isNextMultiple _ (widest_pos h), fun hne => Nat.max_eq_left (endFrom_pos hpacked h hne)⟩

/-- A struct whose fields lie as in C lies as in C. -/
theorem isCLayout_struct {record : TypeRecord} {rs : List NativeRepr} (hrecord : d.type? type = some record)
    (hkind : record.kind = .structKind)
    (hrs : List.Forall₂ (fun p r => d.nativeRepr p.type = .ok r ∧ r.IsCLayout d) record.properties rs) :
    (aggregate type (fieldPacking record rs).placed
      (alignTo (max (fieldPacking record rs).offset 1) (fieldPacking record rs).align) (fieldPacking record rs).align
      record.nativeName).IsCLayout d := by
  obtain ⟨⟨hpacked, hoffset, halign⟩, hmade⟩ := fieldPacking_sound (fun _ _ h => (h.2.aligned (.whole _)).align_pos) hrs
  rw [List.map_id] at hpacked hoffset halign
  rw [hoffset, halign]
  generalize (fieldPacking record rs).placed = fields at hpacked hmade
  have hfields : ∀ p ∈ fields, p.repr.IsCLayout d := by
    intro p hp
    obtain ⟨-, -, r, n, ⟨-, hr⟩, rfl⟩ := Paired.exists_left hmade hp
    exact hr
  have haligned : ∀ p ∈ fields, p.repr.Aligned := fun p hp => (hfields p hp).aligned (.whole _)
  obtain ⟨hsize, hmax⟩ := isNextMultiple_structSize hpacked haligned
  refine isCLayout_aggregate hfields ⟨widest_mem haligned, ?_, hsize.dvd⟩ ⟨?_, ?_, ?_⟩
  · exact Nat.le_trans (Nat.le_max_right _ _) hsize.le
  · refine ⟨record, hrecord, hkind, hmade.imp ?_⟩
    rintro p f ⟨r, n, ⟨hr, -⟩, rfl⟩
    exact ⟨rfl, hr⟩
  · have hend : endFrom 0 fields ≤ alignTo (max (endFrom 0 fields) 1) (widest fields) :=
      Nat.le_trans (Nat.le_max_left _ _) hsize.le
    exact ⟨hpacked, hpacked.pairwise, fun p hp => Nat.le_trans (hpacked.stop_le_endFrom hp) hend, rfl,
      fun hne => by rw [hmax hne] at hsize ⊢; exact hsize⟩
  · rintro rfl
    rfl

/-- Whatever is found, with any fuel and within any structs, lies as in C. -/
theorem reprWithin_isCLayout {t : TypeRef} (hfuel : fuel ≤ (d.types.length + 1) * (d.types.length + 2))
    (h : d.reprWithin fuel inside t = .ok r) : r.IsCLayout d := by
  induction fuel generalizing inside t r with
  | zero => cases h
  | succ fuel ih =>
    have hfuel' : fuel ≤ (d.types.length + 1) * (d.types.length + 2) := Nat.le_of_succ_le hfuel
    cases t with
    | bool | float | double =>
      cases h
      exact (aligned_number (by decide)).isCLayout_scalar
    | integer i =>
      cases h
      exact (aligned_number (by cases i <;> decide)).isCLayout_scalar
    | name =>
      cases h
      exact Aligned.isCLayout_scalar ⟨by decide, by decide, by decide⟩
    | object type =>
      obtain ⟨record, -, rfl⟩ := reprWithin_object.mp h
      exact (aligned_number (by decide)).isCLayout_scalar
    | classOf type =>
      cases h
      exact (aligned_number (by decide)).isCLayout_scalar
    | enum type =>
      -- An enum is a scalar of the size of whatever type is behind it, even a struct.
      obtain ⟨record, -, underlying, hunderlying, rfl⟩ := reprWithin_enum.mp h
      obtain ⟨halign, hsize, hdvd⟩ := (ih hfuel' hunderlying).aligned (.whole _)
      exact Aligned.isCLayout_scalar ⟨halign, hsize, hdvd⟩
    | struct type =>
      -- Fields are found within their struct and with less fuel, but `FieldsOf` names them by `nativeRepr`.
      obtain ⟨-, record, hrecord, hkind, rs, hrs, rfl⟩ := reprWithin_struct.mp h
      exact isCLayout_struct hrecord hkind (hrs.imp fun p r hp => ⟨nativeRepr_of_within hfuel' hp, ih hfuel' hp⟩)
    | string | text | softObject | array | set | map | delegate => cases h

/-- The fields of a struct are its properties, each as it is found within the struct. -/
theorem reprWithin_fields (hfuel : fuel ≤ (d.types.length + 1) * (d.types.length + 2))
    (h : d.reprWithin (fuel + 1) inside (.struct type) = .ok r) :
    ∃ record fields size align, d.type? type = some record ∧ r = .aggregate type fields size align record.nativeName ∧
      List.Forall₂ (fun p f => ∃ r n, d.reprWithin fuel (type :: inside) p.type = .ok r ∧ f = fieldAt p r n)
        record.properties fields := by
  obtain ⟨-, record, hrecord, -, rs, hrs, rfl⟩ := reprWithin_struct.mp h
  obtain ⟨-, hmade⟩ := fieldPacking_sound (fun _ _ hr => ((reprWithin_isCLayout hfuel hr).aligned (.whole _)).align_pos) hrs
  exact ⟨record, _, _, _, hrecord, rfl, hmade⟩

theorem nativeRepr_isCLayout {t : TypeRef} (h : d.nativeRepr t = .ok r) : r.IsCLayout d :=
  reprWithin_isCLayout (Nat.le_refl _) h

end Document
end EngineBridge
