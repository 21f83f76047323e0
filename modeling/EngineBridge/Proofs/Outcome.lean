import EngineBridge.Host.Action
import Mathlib.Data.List.Forall2
import Mathlib.Data.List.Perm.Basic

/-! When a computation that may fail ends well, step by step; and how one that also changes a state runs. -/

namespace EngineBridge
namespace Outcome
variable {ε α β : Type}

theorem bind_eq_ok {x : Except ε α} {f : α → Except ε β} {b : β} :
    x >>= f = .ok b ↔ ∃ a, x = .ok a ∧ f a = .ok b := by
  cases x with
  | error e => simp [bind, Except.bind]
  | ok a => simp [bind, Except.bind]

theorem bind_eq_error {x : Except ε α} {f : α → Except ε β} {e : ε} :
    x >>= f = .error e ↔ x = .error e ∨ ∃ a, x = .ok a ∧ f a = .error e := by
  cases x with
  | error e' => simp [bind, Except.bind]
  | ok a => simp [bind, Except.bind]

theorem map_eq_ok {x : Except ε α} {f : α → β} {b : β} : x.map f = .ok b ↔ ∃ a, x = .ok a ∧ f a = b := by
  cases x <;> simp [Except.map]

theorem map_eq_error {x : Except ε α} {f : α → β} {e : ε} : x.map f = .error e ↔ x = .error e := by
  cases x <;> simp [Except.map]

theorem mapM_eq_ok {f : α → Except ε β} {xs : List α} {ys : List β} :
    xs.mapM f = .ok ys ↔ List.Forall₂ (fun x y => f x = .ok y) xs ys := by
  induction xs generalizing ys with
  | nil => simp [pure, Except.pure, eq_comm]
  | cons x xs ih =>
    rw [List.mapM_cons, List.forall₂_cons_left_iff]
    constructor
    · intro h
      obtain ⟨y, hy, h⟩ := bind_eq_ok.mp h
      obtain ⟨zs, hzs, h⟩ := bind_eq_ok.mp h
      cases h
      exact ⟨y, zs, hy, ih.mp hzs, rfl⟩
    · rintro ⟨y, zs, hy, hzs, rfl⟩
      exact bind_eq_ok.mpr ⟨y, hy, bind_eq_ok.mpr ⟨zs, ih.mpr hzs, rfl⟩⟩

theorem mapM_congr {f g : α → Except ε β} {xs : List α} (h : ∀ x ∈ xs, f x = g x) : xs.mapM f = xs.mapM g := by
  induction xs with
  | nil => rfl
  | cons x xs ih =>
    rw [List.forall_mem_cons] at h
    rw [List.mapM_cons, List.mapM_cons, h.1, ih h.2]

/-- A step for what may be there ends well if it is not there, or the step does. -/
theorem option_mapM_eq_ok {f : α → Except ε β} {o : Option α} {o' : Option β} :
    o.mapM f = .ok o' ↔ Option.Rel (fun a b => f a = .ok b) o o' := by
  cases o with
  | none =>
    constructor
    · rintro ⟨⟩
      exact .none
    · rintro ⟨⟩
      rfl
  | some a =>
    constructor
    · intro h
      obtain ⟨b, hb, h⟩ := map_eq_ok.mp h
      subst h
      exact .some hb
    · rintro ⟨hb⟩
      exact map_eq_ok.mpr ⟨_, hb, rfl⟩

theorem forM_eq_ok {f : α → Except ε Unit} {xs : List α} :
    xs.forM f = .ok () ↔ ∀ x ∈ xs, f x = .ok () := by
  induction xs with
  | nil => simp [List.forM, pure, Except.pure]
  | cons x xs ih =>
    rw [List.forM, List.forall_mem_cons]
    constructor
    · intro h
      obtain ⟨⟨⟩, hx, h⟩ := bind_eq_ok.mp h
      exact ⟨hx, ih.mp h⟩
    · rintro ⟨hx, h⟩
      exact bind_eq_ok.mpr ⟨⟨⟩, hx, ih.mpr h⟩

/-- Where one of the steps fails, it is one of them that tells why. -/
theorem exists_of_forM_eq_error {f : α → Except ε Unit} {xs : List α} {e : ε} (h : xs.forM f = .error e) :
    ∃ x ∈ xs, f x = .error e := by
  induction xs with
  | nil => cases h
  | cons x xs ih =>
    rcases bind_eq_error.mp h with hx | ⟨-, -, h⟩
    · exact ⟨x, List.mem_cons_self, hx⟩
    · obtain ⟨y, hy, hfail⟩ := ih h
      exact ⟨y, List.mem_cons_of_mem _ hy, hfail⟩

theorem exists_of_mapM_eq_error {f : α → Except ε β} {xs : List α} {e : ε} (h : xs.mapM f = .error e) :
    ∃ x ∈ xs, f x = .error e := by
  induction xs with
  | nil => cases h
  | cons x xs ih =>
    rw [List.mapM_cons] at h
    rcases bind_eq_error.mp h with hx | ⟨y, -, h⟩
    · exact ⟨x, List.mem_cons_self, hx⟩
    rcases bind_eq_error.mp h with h | ⟨ys, -, h⟩
    · obtain ⟨y, hy, hfail⟩ := ih h
      exact ⟨y, List.mem_cons_of_mem _ hy, hfail⟩
    · cases h

theorem mapM_perm {f : α → Except ε β} {xs xs' : List α} {ys : List β} (hxs : xs'.Perm xs) (h : xs.mapM f = .ok ys) :
    ∃ ys', xs'.mapM f = .ok ys' ∧ ys'.Perm ys := by
  obtain ⟨ys', hforall, hys⟩ := List.perm_comp_forall₂ hxs (mapM_eq_ok.mp h)
  exact ⟨ys', mapM_eq_ok.mpr hforall, hys⟩

/-- A failing step is the last one, and the state it left stays. -/
theorem run_bind {σ : Type} (x : ExceptT ε (StateM σ) α) (f : α → ExceptT ε (StateM σ) β) (s : σ) :
    (x >>= f).run.run s =
      match x.run.run s with
      | (.ok a, s) => (f a).run.run s
      | (.error e, s) => (.error e, s) := by
  rw [ExceptT.run_bind, StateT.run_bind]
  show (match x.run.run s with | (a, s) => _) = _
  rcases x.run.run s with ⟨e | a, s⟩ <;> rfl

section
variable {σ : Type} {x : ExceptT ε (StateM σ) α} {s t : σ}

theorem run_bind_of_ok {a : α} (h : x.run.run s = (.ok a, t)) (f : α → ExceptT ε (StateM σ) β) :
    (x >>= f).run.run s = (f a).run.run t := by
  rw [run_bind, h]

theorem run_bind_of_error {e : ε} (h : x.run.run s = (.error e, t)) (f : α → ExceptT ε (StateM σ) β) :
    (x >>= f).run.run s = (.error e, t) := by
  rw [run_bind, h]

end

section
variable {σ : Type} {x : Action σ ε α} {f : α → Action σ ε β} {s t : σ}

theorem runOn_bind : (x >>= f).runOn s =
    match x.runOn s with
    | (.ok a, s) => (f a).runOn s
    | (.error stop, s) => (.error stop, s) := by
  rcases hx : x.runOn s with ⟨stop | a, t⟩
  · exact run_bind_of_error hx f
  · exact run_bind_of_ok hx f

/-- An action that ends well went through all its steps. -/
theorem runOn_bind_eq_ok {b : β} :
    (x >>= f).runOn s = (.ok b, t) ↔ ∃ a u, x.runOn s = (.ok a, u) ∧ (f a).runOn u = (.ok b, t) := by
  rw [runOn_bind]
  rcases x.runOn s with ⟨stop | a, u⟩ <;> simp

theorem eq_ok_of_ofExcept {y : Except ε α} {a : α} (h : (Action.ofExcept y : Action σ ε α).runOn s = (.ok a, t)) :
    y = .ok a := by
  cases y with
  | ok y =>
    cases h
    rfl
  | error e => cases h

end

end Outcome
end EngineBridge
