import EngineBridge.Proofs.Layout.Packing
import EngineBridge.Proofs.Outcome

/-! The parts of a representation.

A struct holds its fields, these may be structs again, and so on; `Holds` reaches all of them with their
distance from the front. `nativeRepr_parts` says how each of them lies: at any depth, as a C compiler lays it
out. -/

namespace EngineBridge
namespace NativeRepr

/-- `Holds r k part`: a value of `r` has a value of `part` within it, `k` bytes behind its front. -/
inductive Holds : NativeRepr → Nat → NativeRepr → Prop
  | whole (r : NativeRepr) : Holds r 0 r
  | inField {type : String} {fields : List (Placed NativeRepr)} {size align : Nat} {nativeType : String}
      {p : Placed NativeRepr} {k : Nat} {part : NativeRepr} (hp : p ∈ fields) (h : Holds p.repr k part) :
      Holds (aggregate type fields size align nativeType) (p.offset + k) part

/-- The alignment is that of a machine word or a part of one, and the size fills whole multiples of it. -/
structure Aligned (r : NativeRepr) : Prop where
  align_mem : r.align ∈ [1, 2, 4, 8]
  size_pos : 1 ≤ r.size
  align_dvd : r.align ∣ r.size

theorem Aligned.align_pos {r : NativeRepr} (h : r.Aligned) : 0 < r.align := by
  have := h.align_mem
  simp only [List.mem_cons, List.not_mem_nil, or_false] at this
  omega

theorem aligned_number {kind : ScalarKind} {size : Nat} {nativeType : String} (h : size ∈ [1, 2, 4, 8]) :
    (number kind size nativeType).Aligned := by
  refine ⟨h, ?_, Nat.dvd_refl _⟩
  simp only [List.mem_cons, List.not_mem_nil, or_false] at h
  show 1 ≤ size
  omega

end NativeRepr

/-- Parts in `size` bytes as a C compiler lays them out: each at the first multiple of its alignment behind the
part before it, none over another, and all within the size, which is the end of the last rounded up to the
largest alignment. -/
structure LaidOut (parts : List (Placed NativeRepr)) (size align : Nat) : Prop where
  packed : PackedFrom 0 parts
  disjoint : parts.Pairwise fun p q => p.stop ≤ q.offset
  inside : ∀ p ∈ parts, p.stop ≤ size
  align_eq : align = widest parts
  size_next : parts ≠ [] → IsNextMultiple (endFrom 0 parts) align size

/-- The fields of a struct are the properties of its type, in their order. -/
def FieldsOf (d : Document) (record : TypeRecord) (fields : List (Placed NativeRepr)) : Prop :=
  List.Forall₂ (fun p f => f.name = p.name ∧ d.nativeRepr p.type = .ok f.repr) record.properties fields

/-- A struct of the document, laid out as C does it; without fields it still takes one byte. -/
structure StructLaidOut (d : Document) (type : String) (fields : List (Placed NativeRepr)) (size align : Nat) :
    Prop where
  record : ∃ record, d.type? type = some record ∧ record.kind = .structKind ∧ FieldsOf d record fields
  laidOut : LaidOut fields size align
  size_empty : fields = [] → size = 1

/-- Every part at any depth lies as in C: at a multiple of its alignment, within the whole, and with its own fields
laid out. -/
structure NativeRepr.IsCLayout (d : Document) (r : NativeRepr) : Prop where
  aligned : ∀ {k part}, r.Holds k part → part.Aligned
  align_dvd : ∀ {k part}, r.Holds k part → part.align ∣ r.align
  place : ∀ {k part}, r.Holds k part → part.align ∣ k ∧ k + part.size ≤ r.size
  structs : ∀ {k type fields size align nativeType}, r.Holds k (.aggregate type fields size align nativeType) →
    StructLaidOut d type fields size align

/-! ### Putting layouts together -/

/-- The alignments are powers of two, so that the smaller divides the larger. -/
theorem align_dvd_of_le {a b : Nat} (ha : a ∈ [1, 2, 4, 8]) (hb : b ∈ [1, 2, 4, 8]) (h : a ≤ b) : a ∣ b := by
  simp only [List.mem_cons, List.not_mem_nil, or_false] at ha hb
  rcases ha with rfl | rfl | rfl | rfl <;> rcases hb with rfl | rfl | rfl | rfl <;> omega

section
variable {ps : List (Placed NativeRepr)}

theorem widest_mem (h : ∀ p ∈ ps, p.repr.Aligned) : widest ps ∈ [1, 2, 4, 8] := by
  rcases widest_eq ps with h1 | ⟨p, hp, hw⟩
  · rw [h1]
    decide
  · rw [hw]
    exact (h p hp).align_mem

theorem align_dvd_widest (h : ∀ p ∈ ps, p.repr.Aligned) {p : Placed NativeRepr} (hp : p ∈ ps) :
    p.repr.align ∣ widest ps :=
  align_dvd_of_le (h p hp).align_mem (widest_mem h) (align_le_widest hp)

theorem widest_pos (h : ∀ p ∈ ps, p.repr.Aligned) : 0 < widest ps := by
  have := widest_mem h
  simp only [List.mem_cons, List.not_mem_nil, or_false] at this
  omega

theorem endFrom_pos (hpacked : PackedFrom 0 ps) (h : ∀ p ∈ ps, p.repr.Aligned) (hne : ps ≠ []) : 1 ≤ endFrom 0 ps := by
  obtain ⟨p, hp⟩ := List.exists_mem_of_ne_nil ps hne
  exact Nat.le_trans (Nat.le_trans (h p hp).size_pos (Nat.le_add_left _ _)) (hpacked.stop_le_endFrom hp)

theorem laidOut_of_packed {size : Nat} (hpacked : PackedFrom 0 ps)
    (hsize : IsNextMultiple (endFrom 0 ps) (widest ps) size) : LaidOut ps size (widest ps) where
  packed := hpacked
  disjoint := hpacked.pairwise
  inside _ hp := Nat.le_trans (hpacked.stop_le_endFrom hp) hsize.le
  align_eq := rfl
  size_next _ := hsize

end

namespace NativeRepr
variable {d : Document}

theorem holds_scalar {kind : ScalarKind} {size align k : Nat} {nativeType : String} {part : NativeRepr}
    (h : Holds (scalar kind size align nativeType) k part) : k = 0 ∧ part = scalar kind size align nativeType := by
  cases h
  exact ⟨rfl, rfl⟩

theorem Aligned.isCLayout_scalar {kind : ScalarKind} {size align : Nat} {nativeType : String}
    (h : (scalar kind size align nativeType).Aligned) : (scalar kind size align nativeType).IsCLayout d where
  aligned hp := by
    obtain ⟨-, rfl⟩ := holds_scalar hp
    exact h
  align_dvd hp := by
    obtain ⟨-, rfl⟩ := holds_scalar hp
    exact Nat.dvd_refl _
  place hp := by
    obtain ⟨rfl, rfl⟩ := holds_scalar hp
    exact ⟨Nat.dvd_zero _, Nat.le_of_eq (Nat.zero_add _)⟩
  structs hp := by cases (holds_scalar hp).2

/-- Wherever the whole lies at a multiple of its alignment, each part lies at a multiple of its own. -/
theorem IsCLayout.place_from {r part : NativeRepr} {k offset size : Nat} (h : r.IsCLayout d) (hp : r.Holds k part)
    (hoffset : r.align ∣ offset) (hstop : offset + r.size ≤ size) :
    part.align ∣ offset + k ∧ offset + k + part.size ≤ size := by
  obtain ⟨hdvd, hin⟩ := h.place hp
  exact ⟨Nat.dvd_add (Nat.dvd_trans (h.align_dvd hp) hoffset) hdvd, by omega⟩

theorem isCLayout_aggregate {type nativeType : String} {fields : List (Placed NativeRepr)} {size align : Nat}
    (hfields : ∀ p ∈ fields, p.repr.IsCLayout d) (hself : (aggregate type fields size align nativeType).Aligned)
    (h : StructLaidOut d type fields size align) : (aggregate type fields size align nativeType).IsCLayout d where
  aligned hp := by
    cases hp with
    | whole => exact hself
    | inField hp hpart => exact (hfields _ hp).aligned hpart
  align_dvd hp := by
    cases hp with
    | whole => exact Nat.dvd_refl _
    | inField hp hpart =>
      have hwide := align_dvd_widest (fun p hp => (hfields p hp).aligned (.whole _)) hp
      exact Nat.dvd_trans ((hfields _ hp).align_dvd hpart) (h.laidOut.align_eq ▸ hwide)
  place hp := by
    cases hp with
    | whole => exact ⟨Nat.dvd_zero _, Nat.le_of_eq (Nat.zero_add _)⟩
    | inField hp hpart =>
      exact (hfields _ hp).place_from hpart (h.laidOut.packed.dvd_offset hp) (h.laidOut.inside _ hp)
  structs hp := by
    cases hp with
    | whole => exact h
    | inField hp hpart => exact (hfields _ hp).structs hpart

end NativeRepr
end EngineBridge
