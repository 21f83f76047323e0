import EngineBridge.Layout.Frame
import Mathlib.Data.List.Forall2
import Mathlib.Order.Bounds.Basic

/-! Parts placed one after the other.

A C compiler puts each part at the first multiple of its alignment behind the part before it. `PackedFrom` says
this of a list of parts without saying how the places are found, and `Packing.Sound` is what the loops over
fields and parameters keep. -/

namespace EngineBridge

/-- `n` is the first multiple of `align` that is not below `start`. -/
def IsNextMultiple (start align n : Nat) : Prop := IsLeast {m | start ≤ m ∧ align ∣ m} n

namespace IsNextMultiple
variable {start align n : Nat}

theorem le (h : IsNextMultiple start align n) : start ≤ n := h.1.1

theorem dvd (h : IsNextMultiple start align n) : align ∣ n := h.1.2

end IsNextMultiple

theorem alignTo_isNextMultiple (start : Nat) {align : Nat} (h : 0 < align) :
    IsNextMultiple start align (alignTo start align) := by
  have hdiv := Nat.div_add_mod (start + align - 1) align
  have hmod := Nat.mod_lt (start + align - 1) h
  rw [Nat.mul_comm] at hdiv
  refine ⟨⟨?_, Nat.dvd_mul_left _ _⟩, ?_⟩
  · unfold alignTo
    omega
  · rintro m ⟨hle, k, rfl⟩
    have hk : (start + align - 1) / align ≤ k := by
      rw [← Nat.lt_succ_iff, Nat.div_lt_iff_lt_mul h, Nat.succ_mul, Nat.mul_comm k]
      omega
    calc alignTo start align ≤ k * align := Nat.mul_le_mul_right align hk
      _ = align * k := Nat.mul_comm _ _

/-- Where a part ends. -/
def Placed.stop (p : Placed NativeRepr) : Nat := p.offset + p.repr.size

/-- A slot as a part of its frame. -/
def FrameSlot.placed (s : FrameSlot) : Placed NativeRepr := ⟨s.name, s.offset, s.repr⟩

/-- Each part lies at the first multiple of its alignment behind the part before it, the first of them behind
`start`. -/
def PackedFrom : Nat → List (Placed NativeRepr) → Prop
  | _, [] => True
  | start, p :: ps => IsNextMultiple start p.repr.align p.offset ∧ PackedFrom p.stop ps

/-- Where the last part ends; `start` if there is none. -/
def endFrom : Nat → List (Placed NativeRepr) → Nat
  | start, [] => start
  | _, p :: ps => endFrom p.stop ps

/-- The largest alignment of the parts; one if there is none. -/
def widest : List (Placed NativeRepr) → Nat
  | [] => 1
  | p :: ps => max p.repr.align (widest ps)

section
variable {start : Nat} {p q : Placed NativeRepr} {ps : List (Placed NativeRepr)}

theorem packedFrom_concat : PackedFrom start (ps ++ [q]) ↔
    PackedFrom start ps ∧ IsNextMultiple (endFrom start ps) q.repr.align q.offset := by
  induction ps generalizing start with
  | nil => simp [PackedFrom, endFrom]
  | cons p ps ih => simp [PackedFrom, endFrom, ih, and_assoc]

theorem endFrom_concat : endFrom start (ps ++ [q]) = q.stop := by
  induction ps generalizing start with
  | nil => rfl
  | cons p ps ih => exact ih

theorem widest_concat : widest (ps ++ [q]) = max (widest ps) q.repr.align := by
  induction ps with
  | nil => simp [widest, max_comm]
  | cons p ps ih => simp [widest, ih, max_assoc]

theorem PackedFrom.le_offset (h : PackedFrom start ps) (hp : p ∈ ps) : start ≤ p.offset := by
  induction ps generalizing start with
  | nil => cases hp
  | cons q ps ih =>
    rcases List.mem_cons.mp hp with rfl | hp
    · exact h.1.le
    · have hq : q.offset ≤ p.offset := Nat.le_trans (Nat.le_add_right _ _) (ih h.2 hp)
      exact Nat.le_trans h.1.le hq

theorem PackedFrom.dvd_offset (h : PackedFrom start ps) (hp : p ∈ ps) : p.repr.align ∣ p.offset := by
  induction ps generalizing start with
  | nil => cases hp
  | cons q ps ih =>
    rcases List.mem_cons.mp hp with rfl | hp
    · exact h.1.dvd
    · exact ih h.2 hp

theorem PackedFrom.le_endFrom (h : PackedFrom start ps) : start ≤ endFrom start ps := by
  induction ps generalizing start with
  | nil => exact Nat.le_refl _
  | cons q ps ih => exact Nat.le_trans (Nat.le_trans h.1.le (Nat.le_add_right _ _)) (ih h.2)

theorem PackedFrom.stop_le_endFrom (h : PackedFrom start ps) (hp : p ∈ ps) : p.stop ≤ endFrom start ps := by
  induction ps generalizing start with
  | nil => cases hp
  | cons q ps ih =>
    rcases List.mem_cons.mp hp with rfl | hp
    · exact h.2.le_endFrom
    · exact ih h.2 hp

theorem PackedFrom.pairwise (h : PackedFrom start ps) : ps.Pairwise fun p q => p.stop ≤ q.offset := by
  induction ps generalizing start with
  | nil => exact List.Pairwise.nil
  | cons q ps ih => exact List.Pairwise.cons (fun _ hp => h.2.le_offset hp) (ih h.2)

theorem align_le_widest (hp : p ∈ ps) : p.repr.align ≤ widest ps := by
  induction ps with
  | nil => cases hp
  | cons q ps ih =>
    rcases List.mem_cons.mp hp with rfl | hp
    · exact Nat.le_max_left _ _
    · exact Nat.le_trans (ih hp) (Nat.le_max_right _ _)

theorem widest_eq (ps : List (Placed NativeRepr)) : widest ps = 1 ∨ ∃ p ∈ ps, widest ps = p.repr.align := by
  induction ps with
  | nil => exact Or.inl rfl
  | cons q ps ih =>
    rcases Nat.le_total (widest ps) q.repr.align with h | h
    · exact Or.inr ⟨q, List.mem_cons_self, Nat.max_eq_left h⟩
    · have hw : widest (q :: ps) = widest ps := Nat.max_eq_right h
      rw [hw]
      rcases ih with h1 | ⟨p, hp, hp'⟩
      · exact Or.inl h1
      · exact Or.inr ⟨p, List.mem_cons_of_mem _ hp, hp'⟩

end

/-! ### The loops that place parts -/

namespace Packing
variable {α ι : Type} {view : α → Placed NativeRepr}

/-- The packing holds its parts as a C compiler places them, and knows where they end and how they are aligned. -/
structure Sound (view : α → Placed NativeRepr) (p : Packing α) : Prop where
  packed : PackedFrom 0 (p.placed.map view)
  offset_eq : p.offset = endFrom 0 (p.placed.map view)
  align_eq : p.align = widest (p.placed.map view)

theorem sound_empty : Sound view (.empty : Packing α) := ⟨trivial, rfl, rfl⟩

theorem Sound.add {p : Packing α} {r : NativeRepr} {make : Nat → α} (h : p.Sound view) (hr : 0 < r.align)
    (hoffset : ∀ n, (view (make n)).offset = n) (hrepr : ∀ n, (view (make n)).repr = r) :
    (p.add r make).Sound view := by
  have hplaced : (p.add r make).placed.map view = p.placed.map view ++ [view (make (alignTo p.offset r.align))] :=
    List.map_append
  refine ⟨?_, ?_, ?_⟩
  · rw [hplaced, packedFrom_concat, hoffset, hrepr, ← h.offset_eq]
    exact ⟨h.packed, alignTo_isNextMultiple _ hr⟩
  · rw [hplaced, endFrom_concat, Placed.stop, hoffset, hrepr]
    rfl
  · rw [hplaced, widest_concat, hrepr, ← h.align_eq]
    rfl

/-- Places parts one after the other. -/
def addAll (make : ι → NativeRepr → Nat → α) (p : Packing α) (parts : List (ι × NativeRepr)) : Packing α :=
  parts.foldl (fun p x => p.add x.2 (make x.1 x.2)) p

/-- The loop that finds a representation for each item and places it ends if every item has one. -/
theorem foldlM_add_eq_ok {reprOf : ι → Except LayoutError NativeRepr} {make : ι → NativeRepr → Nat → α} {xs : List ι}
    {p q : Packing α} :
    xs.foldlM (fun p x => do let r ← reprOf x; return p.add r (make x r)) p = .ok q ↔
      ∃ rs, List.Forall₂ (fun x r => reprOf x = .ok r) xs rs ∧ q = addAll make p (xs.zip rs) := by
  induction xs generalizing p with
  | nil => simp [addAll, pure, Except.pure, eq_comm]
  | cons x xs ih =>
    rw [List.foldlM_cons]
    cases hx : reprOf x with
    | error e =>
      constructor
      · intro h
        cases h
      · rintro ⟨_, h, -⟩
        cases h with
        | cons h1 _ => rw [hx] at h1; cases h1
    | ok r =>
      refine Iff.trans (ih (p := p.add r (make x r))) ⟨?_, ?_⟩
      · rintro ⟨rs, hrs, rfl⟩
        exact ⟨r :: rs, .cons hx hrs, rfl⟩
      · rintro ⟨_, h, rfl⟩
        cases h with
        | cons h1 hrs =>
          rw [hx] at h1
          cases h1
          exact ⟨_, hrs, rfl⟩

/-- What placing parts leaves behind: each item is placed once, in order, and the packing stays sound. -/
theorem addAll_sound (view : α → Placed NativeRepr) (make : ι → NativeRepr → Nat → α)
    (hoffset : ∀ x r n, (view (make x r n)).offset = n) (hrepr : ∀ x r n, (view (make x r n)).repr = r)
    {R : ι → NativeRepr → Prop} (hpos : ∀ x r, R x r → 0 < r.align)
    {xs : List ι} {rs : List NativeRepr} (hR : List.Forall₂ R xs rs) {p : Packing α} (h : p.Sound view) :
    (p.addAll make (xs.zip rs)).Sound view ∧
      ∃ added, (p.addAll make (xs.zip rs)).placed = p.placed ++ added ∧
        List.Forall₂ (fun x a => ∃ r n, R x r ∧ a = make x r n) xs added := by
  induction hR generalizing p with
  | nil => exact ⟨h, [], (List.append_nil _).symm, .nil⟩
  | @cons x r xs rs hx _ ih =>
    obtain ⟨hsound, added, hplaced, hall⟩ := ih (h.add (hpos x r hx) (hoffset x r) (hrepr x r))
    refine ⟨hsound, make x r (alignTo p.offset r.align) :: added, ?_, .cons ⟨r, _, hx, rfl⟩ hall⟩
    show (addAll make (p.add r (make x r)) (xs.zip rs)).placed = _
    rw [hplaced]
    exact List.append_assoc _ _ _

end Packing
end EngineBridge
