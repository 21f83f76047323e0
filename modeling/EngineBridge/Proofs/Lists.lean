import Mathlib.Data.List.Forall2

/-! Lists whose items belong together: two lists item by item, and the parts of a list that belong to the items of
another. -/

namespace EngineBridge
namespace Paired
variable {α β : Type} {R : α → β → Prop} {xs : List α} {ys : List β}

theorem exists_left (h : List.Forall₂ R xs ys) {y : β} (hy : y ∈ ys) : ∃ x ∈ xs, R x y := by
  induction h with
  | nil => cases hy
  | @cons a b xs ys hab _ ih =>
    rcases List.mem_cons.mp hy with rfl | hy
    · exact ⟨a, List.mem_cons_self, hab⟩
    · obtain ⟨x, hx, hR⟩ := ih hy
      exact ⟨x, List.mem_cons_of_mem _ hx, hR⟩

theorem exists_right (h : List.Forall₂ R xs ys) {x : α} (hx : x ∈ xs) : ∃ y ∈ ys, R x y := by
  obtain ⟨y, hy, hR⟩ := exists_left h.flip hx
  exact ⟨y, hy, hR⟩

end Paired

namespace Labelled
variable {α β κ : Type} [BEq κ] [LawfulBEq κ] {key : α → κ} {label : β → κ} {g : α → List β} {xs : List α} {x : α}

theorem filter_eq_nil {k : κ} (hg : ∀ x ∈ xs, ∀ y ∈ g x, label y = key x) (hk : k ∉ xs.map key) :
    (xs.flatMap g).filter (fun y => label y == k) = [] := by
  rw [List.filter_eq_nil_iff]
  intro y hy hlabel
  obtain ⟨x, hx, hyx⟩ := List.mem_flatMap.mp hy
  have hkey : key x = k := (hg x hx y hyx).symm.trans (beq_iff_eq.mp hlabel)
  exact hk (List.mem_map.mpr ⟨x, hx, hkey⟩)

/-- Where every item has a key of its own, and what is made of an item is labelled with its key, the label finds
what was made of the item. -/
theorem filter_flatMap (key : α → κ) (hnodup : (xs.map key).Nodup)
    (hg : ∀ x ∈ xs, ∀ y ∈ g x, label y = key x) (hx : x ∈ xs) :
    (xs.flatMap g).filter (fun y => label y == key x) = g x := by
  induction xs with
  | nil => cases hx
  | cons z xs ih =>
    rw [List.map_cons, List.nodup_cons] at hnodup
    rw [List.forall_mem_cons] at hg
    obtain ⟨hz, hg⟩ := hg
    rw [List.flatMap_cons, List.filter_append]
    rcases List.mem_cons.mp hx with rfl | hx
    · have hself : (g x).filter (fun y => label y == key x) = g x :=
        List.filter_eq_self.mpr fun y hy => beq_iff_eq.mpr (hz y hy)
      rw [hself, filter_eq_nil hg hnodup.1, List.append_nil]
    · have hother : (g z).filter (fun y => label y == key x) = [] := by
        rw [List.filter_eq_nil_iff]
        intro y hy hlabel
        have hkey : key z = key x := (hz y hy).symm.trans (beq_iff_eq.mp hlabel)
        exact hnodup.1 (hkey ▸ List.mem_map_of_mem hx)
      rw [hother, List.nil_append]
      exact ih hnodup.2 hg hx

omit [BEq κ] [LawfulBEq κ] in
theorem flatMap_filter {p : α → Bool} (h : ∀ x, p x = false → g x = []) : (xs.filter p).flatMap g = xs.flatMap g := by
  induction xs with
  | nil => rfl
  | cons x xs ih =>
    rw [List.filter_cons, List.flatMap_cons]
    split
    · rw [List.flatMap_cons, ih]
    · next hx => rw [ih, h x (Bool.eq_false_iff.mpr hx), List.nil_append]

omit [BEq κ] [LawfulBEq κ] in
theorem filterMap_if {p : α → Bool} {f : α → β} :
    (xs.filterMap fun x => if p x then some (f x) else none) = (xs.filter p).map f := by
  induction xs with
  | nil => rfl
  | cons x xs ih => cases hx : p x <;> simp [hx, ih]

omit [LawfulBEq κ] in
theorem eraseDupsBy_eq_self (key : α → κ) (h : xs.Pairwise fun a b => (key b == key a) = false) :
    xs.eraseDupsBy (fun a b => key a == key b) = xs := by
  induction xs with
  | nil => rfl
  | cons x xs ih =>
    obtain ⟨hx, hxs⟩ := List.pairwise_cons.mp h
    have hrest : (xs.filter fun b => (key b == key x) = false) = xs :=
      List.filter_eq_self.mpr fun b hb => decide_eq_true (hx b hb)
    rw [List.eraseDupsBy_cons, hrest, ih hxs]

/-- What is left of a list without its repetitions has none. -/
theorem nodup_eraseDups (ks : List κ) : ks.eraseDups.Nodup :=
  match ks with
  | [] => List.nodup_nil
  | k :: ks => by
    rw [List.eraseDups_cons]
    refine List.nodup_cons.mpr ⟨fun hk => ?_, nodup_eraseDups (ks.filter fun k' => !k' == k)⟩
    rw [List.mem_eraseDups, List.mem_filter, beq_self_eq_true] at hk
    exact Bool.false_ne_true hk.2
termination_by ks.length
decreasing_by exact Nat.lt_succ_of_le (List.length_filter_le _ _)

omit [BEq κ] [LawfulBEq κ] in
theorem map_filterMap_eq {γ : Type} {f : α → Option β} {g : β → γ} {k : α → γ} (h : ∀ x y, f x = some y → g y = k x) :
    (xs.filterMap f).map g = (xs.filter fun x => (f x).isSome).map k := by
  induction xs with
  | nil => rfl
  | cons x xs ih =>
    cases hx : f x with
    | none => simpa [hx] using ih
    | some y => simpa [hx, h x y hx] using ih

omit [BEq κ] [LawfulBEq κ] in
theorem filterMap_sublist_map {f : α → Option β} {k : α → β} (h : ∀ x y, f x = some y → y = k x) :
    List.Sublist (xs.filterMap f) (xs.map k) := by
  rw [← List.map_id (xs.filterMap f), map_filterMap_eq (g := id) h]
  exact List.filter_sublist.map k

/-- A pair is found by its first part, if that is the first part of no other. -/
theorem lookup_of_mem {xs : List (κ × β)} {k : κ} {b : β} (hnodup : (xs.map Prod.fst).Nodup) (h : (k, b) ∈ xs) :
    xs.lookup k = some b := by
  induction xs with
  | nil => cases h
  | cons x xs ih =>
    obtain ⟨hx, hnodup⟩ := List.nodup_cons.mp hnodup
    rcases List.mem_cons.mp h with rfl | h
    · exact List.lookup_cons_self
    · have hne : k ≠ x.1 := fun heq => hx (heq ▸ List.mem_map_of_mem h)
      rw [List.lookup_cons, beq_eq_false_iff_ne.mpr hne]
      exact ih hnodup h

/-- Where pairs are kept by their first parts, the others are not found any more. -/
theorem lookup_filter {p : κ → Bool} {xs : List (κ × β)} {k : κ} :
    (xs.filter fun x => p x.1).lookup k = if p k then xs.lookup k else none := by
  induction xs with
  | nil => simp
  | cons x xs ih =>
    obtain ⟨k', b⟩ := x
    by_cases hk : k = k'
    · subst hk
      cases hp : p k
      · simpa [List.filter_cons, hp] using ih
      · simp [hp]
    · have hne : (k == k') = false := beq_eq_false_iff_ne.mpr hk
      cases hp : p k' <;> simp [hp, List.lookup_cons, hne, ih]

end Labelled
end EngineBridge
