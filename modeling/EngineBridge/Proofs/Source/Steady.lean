import EngineBridge.Proofs.Text.Progress
import EngineBridge.Proofs.Source.Ahead
import Mathlib.Tactic.FinCases

/-! Parsers in front of a block whose inside changes.

A text is read up to a block, and the inside of the block is replaced. What was read before must be read again. A parser that
succeeds in front of the block does so again unless something it tried before in vain now succeeds, so each choice has to be
made in front of the block, by the character ahead of it. -/

namespace EngineBridge.Source
open EngineBridge.Parser

variable {α β : Type}

/-! ### The change -/

/-- What stands behind the opening brace of a block, before and after the change. -/
structure Swap where
  before : List Char
  after : List Char

namespace Swap
variable {s : Swap} {u u₁ r : List Char}

/-- The text with `u` in front of the block, before the change. -/
def old (s : Swap) (u : List Char) : List Char := u ++ '{' :: s.before

/-- The same text after the change. -/
def new (s : Swap) (u : List Char) : List Char := u ++ '{' :: s.after

theorem old_inj (h : s.old u = s.old u₁) : u = u₁ := List.append_cancel_right h

theorem head?_new (s : Swap) (u : List Char) : (s.new u).head? = (s.old u).head? := by
  cases u <;> rfl

/-- What lies between two texts that end in the block ends in the block too. -/
theorem between (h : s.old u₁ <:+ r) (h' : r <:+ s.old u) : ∃ u₂, r = s.old u₂ ∧ u₂ <:+ u := by
  obtain ⟨t, rfl⟩ := h
  obtain ⟨v, hv⟩ := h'
  have hu : v ++ (t ++ u₁) = u := s.old_inj (by simpa [old] using hv)
  exact ⟨t ++ u₁, by simp [old], v, hu⟩

/-- The change closes no comment that stood open in front of the block. -/
def Clear (s : Swap) (u : List Char) : Prop :=
  ∀ t, '/' :: '*' :: t <:+ u → ['*', '/'] <:+: s.new t → ['*', '/'] <:+: s.old t

theorem Clear.of_suffix (h : s.Clear u) (hu : u₁ <:+ u) : s.Clear u₁ := fun t ht => h t (ht.trans hu)

end Swap

/-! ### What parsers do in front of the block

Where a parser begins to read, the condition `pre` holds, and where it stops the condition `ok`. -/

def Anywhere : List Char → Prop := fun _ => True

/-- The next character is one of these. -/
def Front (P : Char → Prop) (cs : List Char) : Prop := ∃ c, cs.head? = some c ∧ P c

theorem Front.new {s : Swap} {P : Char → Prop} {u : List Char} (h : Front P (s.old u)) : Front P (s.new u) := by
  obtain ⟨c, hc, hP⟩ := h
  exact ⟨c, (s.head?_new u).trans hc, hP⟩

/-- No blanks or comments are ahead. -/
def Still (cs : List Char) : Prop := trivia.on cs = some ((), cs)

/-- What is read in front of the block is read again after the change. -/
def Steady (s : Swap) (pre ok : List Char → Prop) (p : Parser α) : Prop :=
  ∀ ⦃u a u₁⦄, s.Clear u → pre (s.old u) → ok (s.old u₁) → p.on (s.old u) = some (a, s.old u₁) →
    p.on (s.new u) = some (a, s.new u₁)

/-- What is refused in front of the block is refused again after the change. -/
def Firm (s : Swap) (pre ok : List Char → Prop) (p : Parser α) : Prop :=
  ∀ ⦃u⦄, s.Clear u → pre (s.old u) → ok (s.old u) → p.on (s.old u) = none → p.on (s.new u) = none

/-- What is read begins with one of these characters. -/
def Starts (pre : List Char → Prop) (P : Char → Prop) (p : Parser α) : Prop :=
  ∀ ⦃cs a r⦄, pre cs → p.on cs = some (a, r) → Front P cs

/-- The parser refuses no text. -/
def Total (p : Parser α) : Prop := ∀ cs, ∃ a r, p.on cs = some (a, r)

/-- The condition holds again where the parser stops. -/
class Leaves (pre : List Char → Prop) (p : Parser α) : Prop where
  after : ∀ {cs a r}, pre cs → p.on cs = some (a, r) → pre r

/-- The condition is not changed with the block. -/
class Carried (pre : List Char → Prop) : Prop where
  new : ∀ {s : Swap} {u}, s.Clear u → pre (s.old u) → pre (s.new u)

instance : Carried Anywhere := ⟨fun _ _ => trivial⟩

instance (p : Parser α) : Leaves Anywhere p := ⟨fun _ _ => trivial⟩

section Leaves
variable {pre : List Char → Prop} {p q : Parser α} {f : α → Parser β}

instance (a : α) : Leaves pre (pure a) := ⟨fun h heq => by
  cases heq
  exact h⟩

instance [Leaves pre p] [∀ a, Leaves pre (f a)] : Leaves pre (p >>= f) := ⟨fun h heq => by
  obtain ⟨a, mid, hp, hf⟩ := on_bind_eq_some heq
  exact Leaves.after (Leaves.after h hp) hf⟩

instance [Leaves pre p] [Leaves pre q] : Leaves pre (p <|> q) := ⟨fun h heq => by
  rcases on_orElse_eq_some heq with heq | ⟨-, heq⟩ <;> exact Leaves.after h heq⟩

instance [Leaves pre p] : Leaves pre (optional p) := ⟨fun h heq => by
  rcases on_optional_eq_some heq with ⟨_, -, heq⟩ | ⟨-, -, rfl⟩
  · exact Leaves.after h heq
  · exact h⟩

instance [Consumes p] [Leaves pre p] : Leaves pre (many p) where
  after {cs as r} h heq := by
    induction hn : cs.length using Nat.strongRecOn generalizing cs as with
    | _ n ih =>
      subst hn
      rcases on_many_eq_some heq with ⟨-, -, rfl⟩ | ⟨a, as', mid, -, hp, hlt, hmore⟩
      · exact h
      · exact ih _ hlt (Leaves.after h hp) hmore rfl

instance {f : List α → Parser β} [Consumes p] [Leaves pre p] [∀ as, Leaves pre (f as)] : Leaves pre (many p >>= f) :=
  ⟨fun h heq => by
    obtain ⟨as, mid, hp, hf⟩ := on_bind_eq_some heq
    exact Leaves.after (Leaves.after h hp) hf⟩

theorem leaves_unfolded {f : Parser α → Parser α} (h : ∀ p [Leaves pre p], Leaves pre (f p)) (n : Nat) :
    Leaves pre (unfolded f n) := by
  induction n with
  | zero => exact ⟨fun _ heq => nomatch heq⟩
  | succ n ih => exact ⟨fun hpre heq => (h (unfolded f n)).after hpre heq⟩

end Leaves

section Sequence
variable {s : Swap} {pre ok mid : List Char → Prop} {p q : Parser α} {f : α → Parser β} {P Q : Char → Prop}

/-! ### Steps without a choice -/

theorem steady_pure (a : α) : Steady s pre ok (pure a) := by
  intro u b u₁ _ _ _ h
  obtain ⟨rfl, hu⟩ := Prod.mk.inj (Option.some.inj h)
  rw [s.old_inj hu]
  rfl

theorem steady_fail : Steady s pre ok (fail : Parser α) := fun _ _ _ _ _ _ h => nomatch h

/-- Where the second parser begins, the first one must be allowed to stop. -/
theorem Steady.bind [Shrinks p] [∀ a, Shrinks (f a)] [Leaves pre p] (hp : Steady s pre mid p)
    (hf : ∀ a, Steady s pre ok (f a)) (hmid : ∀ {a cs b r}, pre cs → ok r → (f a).on cs = some (b, r) → mid cs) :
    Steady s pre ok (p >>= f) := by
  intro u b u₁ hclear hpre hok h
  obtain ⟨a, m, hread, hmore⟩ := on_bind_eq_some h
  obtain ⟨u₂, rfl, hsuffix⟩ := s.between (Shrinks.suffix hmore) (Shrinks.suffix hread)
  have hpre₂ := Leaves.after hpre hread
  rw [on_bind_of_some (hp hclear hpre (hmid hpre₂ hok hmore) hread)]
  exact hf a (hclear.of_suffix hsuffix) hpre₂ hok hmore

theorem Steady.seq [Shrinks p] [∀ a, Shrinks (f a)] [Leaves pre p] (hp : Steady s pre Anywhere p)
    (hf : ∀ a, Steady s pre ok (f a)) : Steady s pre ok (p >>= f) := hp.bind hf fun _ _ _ => trivial

theorem Steady.map [Shrinks p] [Leaves pre p] (hp : Steady s pre ok p) (g : α → β) :
    Steady s pre ok (do let a ← p; return g a) :=
  hp.bind (fun a => steady_pure (g a)) fun _ hok heq => by
    cases heq
    exact hok

theorem Steady.mono {pre' ok' : List Char → Prop} (hp : Steady s pre ok p) (hpre : ∀ {cs}, pre' cs → pre cs)
    (hok : ∀ {u}, ok' (s.old u) → ok (s.old u)) : Steady s pre' ok' p :=
  fun _ _ _ hclear h h' => hp hclear (hpre h) (hok h')

theorem steady_exactly (t : List Char) : Steady s pre ok (exactly t) := by
  intro u a u₁ _ _ _ h
  rw [on_exactly] at h
  split at h
  · rename_i hfront
    obtain ⟨r, hr⟩ := hfront
    rw [← hr, List.drop_left] at h
    cases h
    have hu : t ++ u₁ = u := s.old_inj (by simpa [Swap.old] using hr)
    rw [on_exactly, ← hu, if_pos (by simp [Swap.new])]
    simp [Swap.new]
  · cases h

theorem steady_satisfy (test : Char → Bool) : Steady s pre ok (satisfy test) := by
  intro u a u₁ _ _ _ h
  rw [on_satisfy] at h ⊢
  cases u with
  | nil =>
    dsimp only [Swap.old, List.nil_append] at h
    split at h
    · have hlength := congrArg (fun r => r.2.length) (Option.some.inj h)
      simp at hlength
      omega
    · cases h
  | cons c u =>
    dsimp only [Swap.old, Swap.new, List.cons_append] at h ⊢
    split at h
    · rename_i htest
      obtain ⟨rfl, hu⟩ := Prod.mk.inj (Option.some.inj h)
      rw [if_pos htest, s.old_inj hu]
    · cases h

theorem steady_run (test : Char → Bool) : Steady s pre ok (run test) := by
  intro u a u₁ _ _ _ h
  rw [on_run] at h
  obtain ⟨rfl, hleft⟩ := Prod.mk.inj (Option.some.inj h)
  have hsplit : (s.old u).takeWhile test ++ s.old u₁ = s.old u := by
    rw [← hleft]
    exact List.takeWhile_append_dropWhile
  have hu : (s.old u).takeWhile test ++ u₁ = u := s.old_inj (by simpa [Swap.old] using hsplit)
  have hread : ∀ c ∈ (s.old u).takeWhile test, test c = true := List.all_eq_true.mp List.all_takeWhile
  have hstop : ∀ c ∈ (s.new u₁).head?, test c = false := by
    intro c hc
    have hnot := List.head?_dropWhile_not test (s.old u)
    rw [s.head?_new, ← hleft] at hc
    rwa [Option.mem_def.mp hc] at hnot
  generalize (s.old u).takeWhile test = t at hu hread
  subst hu
  have hnew : s.new (t ++ u₁) = t ++ s.new u₁ := by simp [Swap.new]
  rw [hnew]
  exact on_run_append hread hstop

/-! ### Choices -/

theorem Firm.mono {ok' : List Char → Prop} (hp : Firm s pre ok p) (hok : ∀ {cs}, ok' cs → ok cs) : Firm s pre ok' p :=
  fun _ hclear h h' => hp hclear h (hok h')

/-- Where another character is ahead than those that it begins with, a parser reads nothing. -/
theorem Starts.on_eq_none {cs : List Char} (hp : Starts pre P p) (hpre : pre cs) (hcs : Front (fun c => ¬ P c) cs) :
    p.on cs = none := by
  rw [Option.eq_none_iff_forall_ne_some]
  rintro ⟨a, r⟩ hread
  obtain ⟨c, hc, hP⟩ := hp hpre hread
  obtain ⟨d, hd, hnot⟩ := hcs
  rw [hd] at hc
  cases hc
  exact hnot hP

theorem Starts.firm [Carried pre] (hp : Starts pre P p) (hok : ∀ {cs}, ok cs → Front (fun c => ¬ P c) cs) : Firm s pre ok p := by
  intro u hclear hpre hcs _
  exact hp.on_eq_none (Carried.new hclear hpre) (hok hcs).new

theorem Firm.bind_total (hp : Firm s pre ok p) (hf : ∀ a, Total (f a)) : Firm s pre ok (p >>= f) := by
  intro u hclear hpre hok h
  refine on_bind_of_none (hp hclear hpre hok ?_)
  rcases hread : p.on (s.old u) with _ | ⟨a, r⟩
  · rfl
  · obtain ⟨b, r', hmore⟩ := hf a r
    rw [on_bind_of_some hread, hmore] at h
    cases h

theorem Steady.orElse (hp : Steady s pre ok p) (hfirm : Firm s pre mid p) (hq : Steady s pre ok q)
    (hmid : ∀ {cs a r}, pre cs → p.on cs = none → q.on cs = some (a, r) → mid cs) : Steady s pre ok (p <|> q) := by
  intro u a u₁ hclear hpre hok h
  rcases on_orElse_eq_some h with h | ⟨hnone, h⟩
  · exact on_orElse_of_some (hp hclear hpre hok h)
  · rw [on_orElse_of_none (hfirm hclear hpre (hmid hpre hnone h) hnone)]
    exact hq hclear hpre hok h

theorem Steady.orElse_of_firm (hp : Steady s pre ok p) (hfirm : Firm s pre Anywhere p) (hq : Steady s pre ok q) :
    Steady s pre ok (p <|> q) := hp.orElse hfirm hq fun _ _ _ => trivial

theorem Firm.orElse (hp : Firm s pre ok p) (hq : Firm s pre ok q) : Firm s pre ok (p <|> q) := by
  intro u hclear hpre hok h
  rw [on_orElse, Option.or_eq_none_iff] at h ⊢
  exact ⟨hp hclear hpre hok h.1, hq hclear hpre hok h.2⟩

/-- Where the second parser reads something, the first one reads nothing. -/
def Excludes (pre : List Char → Prop) (q p : Parser α) : Prop :=
  ∀ ⦃cs a r⦄, pre cs → q.on cs = some (a, r) → p.on cs = none

theorem Steady.orElse_apart [Carried pre] (hp : Steady s pre ok p) (hq : Steady s pre ok q) (h : Excludes pre q p) :
    Steady s pre ok (p <|> q) := by
  intro u a u₁ hclear hpre hok hread
  rcases on_orElse_eq_some hread with hread | ⟨-, hread⟩
  · exact on_orElse_of_some (hp hclear hpre hok hread)
  · have hnew := hq hclear hpre hok hread
    rw [on_orElse_of_none (h (Carried.new hclear hpre) hnew)]
    exact hnew

theorem Excludes.orElse {q' : Parser α} (h : Excludes pre q p) (h' : Excludes pre q' p) : Excludes pre (q <|> q') p := by
  intro cs a r hpre hread
  rcases on_orElse_eq_some hread with hread | ⟨-, hread⟩
  · exact h hpre hread
  · exact h' hpre hread

theorem Starts.excludes (hp : Starts pre P p) (hq : Starts pre Q q) (hapart : ∀ c, Q c → ¬ P c) : Excludes pre q p := by
  intro cs a r hpre hread
  obtain ⟨c, hc, hQ⟩ := hq hpre hread
  exact hp.on_eq_none hpre ⟨c, hc, hapart c hQ⟩

theorem Steady.optional (hp : Steady s pre ok p) (hfirm : Firm s pre ok p) : Steady s pre ok (optional p) := by
  intro u a u₁ hclear hpre hok h
  rcases on_optional_eq_some h with ⟨a, rfl, hread⟩ | ⟨rfl, hnone, heq⟩
  · exact on_optional_of_some (hp hclear hpre hok hread)
  · rw [s.old_inj heq] at hok ⊢
    exact on_optional_of_none (hfirm hclear hpre hok hnone)

/-- Each value but the last stops where another one begins. -/
theorem Steady.many [Consumes p] [Leaves pre p] (hp : Steady s pre mid p) (hfirm : Firm s pre ok p)
    (hnext : ∀ {cs a r}, pre cs → p.on cs = some (a, r) → mid cs) (hend : ∀ {cs}, ok cs → mid cs) :
    Steady s pre ok (many p) := by
  intro u as u₁ hclear hpre hok h
  induction hn : u.length using Nat.strongRecOn generalizing u as with
  | _ n ih =>
    subst hn
    rcases on_many_eq_some h with ⟨rfl, hnone, heq⟩ | ⟨a, as', m, rfl, hread, -, hmore⟩
    · rw [s.old_inj heq] at hok ⊢
      exact on_many_of_none (hfirm hclear hpre hok hnone)
    · obtain ⟨u₂, rfl, hsuffix⟩ := s.between (Shrinks.suffix hmore) (Shrinks.suffix hread)
      have hpre₂ := Leaves.after hpre hread
      have hmid : mid (s.old u₂) := by
        rcases on_many_eq_some hmore with ⟨-, -, heq⟩ | ⟨_, _, _, -, hnextRead, -, -⟩
        · exact hend (heq ▸ hok)
        · exact hnext hpre₂ hnextRead
      have hnew := hp hclear hpre hmid hread
      have hlength := Consumes.length_lt hread
      have hlt : u₂.length < u.length := by simpa [Swap.old] using hlength
      exact on_many_of_some hnew (Consumes.length_lt hnew) (ih _ hlt (hclear.of_suffix hsuffix) hpre₂ hmore rfl)

theorem Steady.many_of_firm [Consumes p] [Leaves pre p] (hp : Steady s pre Anywhere p) (hfirm : Firm s pre ok p) :
    Steady s pre ok (Parser.many p) := hp.many hfirm (fun _ _ => trivial) fun _ => trivial

theorem Steady.recursive {f : Parser α → Parser α} [Guarded f]
    (h : ∀ n, Steady s pre ok (unfolded f n) → Steady s pre ok (f (unfolded f n))) : Steady s pre ok (recursive f) := by
  have hall : ∀ n, Steady s pre ok (unfolded f n) := by
    intro n
    induction n with
    | zero => exact steady_fail
    | succ n ih => exact h n ih
  intro u a u₁ hclear hpre hok hread
  have hold : (s.old u).length < (s.old u).length + (s.new u).length + 1 := by omega
  have hnew : (s.new u).length < (s.old u).length + (s.new u).length + 1 := by omega
  rw [on_recursive_eq_unfolded hold] at hread
  rw [on_recursive_eq_unfolded hnew]
  exact hall _ hclear hpre hok hread

/-! ### What parsers begin with -/

theorem Starts.mono (hp : Starts pre P p) (h : ∀ c, P c → Q c) : Starts pre Q p := by
  intro cs a r hpre hread
  obtain ⟨c, hc, hP⟩ := hp hpre hread
  exact ⟨c, hc, h c hP⟩

theorem Starts.bind (hp : Starts pre P p) : Starts pre P (p >>= f) := by
  intro cs a r hpre hread
  obtain ⟨a, m, hread, -⟩ := on_bind_eq_some hread
  exact hp hpre hread

theorem Starts.orElse (hp : Starts pre P p) (hq : Starts pre P q) : Starts pre P (p <|> q) := by
  intro cs a r hpre hread
  rcases on_orElse_eq_some hread with hread | ⟨-, hread⟩
  · exact hp hpre hread
  · exact hq hpre hread

theorem Starts.checked {check : α → Except String β} (hp : Starts pre P p) : Starts pre P (checked p check) := by
  intro cs a r hpre hread
  rw [on_checked] at hread
  obtain ⟨⟨a, m⟩, hread, -⟩ := Option.bind_eq_some_iff.mp hread
  exact hp hpre hread

theorem Starts.optional_bind {f : Option α → Parser β} (hp : Starts pre P p) (hf : ∀ a, Starts pre P (f a)) :
    Starts pre P (optional p >>= f) := by
  intro cs a r hpre hread
  obtain ⟨o, m, hread, hmore⟩ := on_bind_eq_some hread
  rcases on_optional_eq_some hread with ⟨a, -, hread⟩ | ⟨-, -, rfl⟩
  · exact hp hpre hread
  · exact hf o hpre hmore

theorem Starts.many_bind {f : List α → Parser β} [Consumes p] (hp : Starts pre P p) (hf : ∀ as, Starts pre P (f as)) :
    Starts pre P (many p >>= f) := by
  intro cs a r hpre hread
  obtain ⟨as, m, hread, hmore⟩ := on_bind_eq_some hread
  rcases on_many_eq_some hread with ⟨-, -, rfl⟩ | ⟨_, _, _, -, hread, -, -⟩
  · exact hf as hpre hmore
  · exact hp hpre hread

theorem starts_satisfy (test : Char → Bool) : Starts pre (test · = true) (satisfy test) := by
  intro cs a r _ h
  rw [on_satisfy] at h
  split at h
  · cases h
  · split at h <;> cases h
    exact ⟨_, rfl, ‹_›⟩

theorem starts_exactly (c : Char) (t : List Char) : Starts pre (· = c) (exactly (c :: t)) := by
  intro cs a r _ h
  rw [on_exactly] at h
  split at h
  · rename_i hfront
    obtain ⟨r, rfl⟩ := hfront
    exact ⟨c, rfl, rfl⟩
  · cases h

end Sequence

/-! ### Parsers that never look behind the brace -/

/-- What the parser does is settled by what stands in front of an opening brace. -/
def Settled (p : Parser α) : Prop :=
  ∀ u, ∃ o : Option (α × List Char), ∀ w, p.on (u ++ '{' :: w) = o.map fun r => (r.1, r.2 ++ '{' :: w)

namespace Settled
variable {s : Swap} {pre ok : List Char → Prop} {p q : Parser α} {f : α → Parser β}

theorem steady (h : Settled p) : Steady s pre ok p := by
  intro u a u₁ _ _ _ hread
  obtain ⟨o, ho⟩ := h u
  rw [Swap.old, ho] at hread
  obtain ⟨⟨b, u₂⟩, rfl, heq⟩ := Option.map_eq_some_iff.mp hread
  obtain ⟨rfl, hu⟩ := Prod.mk.inj heq
  rw [← s.old_inj hu, Swap.new, ho]
  rfl

theorem firm (h : Settled p) : Firm s pre ok p := by
  intro u _ _ _ hnone
  obtain ⟨o, ho⟩ := h u
  rw [Swap.old, ho, Option.map_eq_none_iff] at hnone
  rw [Swap.new, ho, hnone]
  rfl

theorem pure (a : α) : Settled (Pure.pure a : Parser α) := fun u => ⟨some (a, u), fun _ => rfl⟩

theorem bind (hp : Settled p) (hf : ∀ a, Settled (f a)) : Settled (p >>= f) := by
  intro u
  obtain ⟨_ | ⟨a, u₁⟩, ho⟩ := hp u
  · exact ⟨none, fun w => on_bind_of_none (ho w)⟩
  · obtain ⟨o', ho'⟩ := hf a u₁
    exact ⟨o', fun w => (on_bind_of_some (ho w)).trans (ho' w)⟩

theorem orElse (hp : Settled p) (hq : Settled q) : Settled (p <|> q) := by
  intro u
  obtain ⟨_ | r, ho⟩ := hp u
  · obtain ⟨o', ho'⟩ := hq u
    exact ⟨o', fun w => (on_orElse_of_none (ho w)).trans (ho' w)⟩
  · exact ⟨some r, fun w => on_orElse_of_some (ho w)⟩

theorem optional (hp : Settled p) : Settled (optional p) := by
  intro u
  obtain ⟨_ | ⟨a, u₁⟩, ho⟩ := hp u
  · exact ⟨some (none, u), fun w => on_optional_of_none (ho w)⟩
  · exact ⟨some (some a, u₁), fun w => on_optional_of_some (ho w)⟩

theorem many [Consumes p] (hp : Settled p) : Settled (many p) := by
  intro u
  induction hn : u.length using Nat.strongRecOn generalizing u with
  | _ n ih =>
    subst hn
    obtain ⟨_ | ⟨a, u₁⟩, ho⟩ := hp u
    · exact ⟨some ([], u), fun w => on_many_of_none (ho w)⟩
    · have hlength : ∀ w, (u₁ ++ '{' :: w).length < (u ++ '{' :: w).length := fun w => Consumes.length_lt (ho w)
      have hlt : u₁.length < u.length := by simpa using hlength []
      obtain ⟨o, ho'⟩ := ih _ hlt u₁ rfl
      refine ⟨o.map fun r => (a :: r.1, r.2), fun w => ?_⟩
      rw [on_many, ho w]
      dsimp only [Option.map_some]
      rw [if_pos (hlength w), ho' w]
      cases o <;> rfl

theorem checked (hp : Settled p) (check : α → Except String β) : Settled (checked p check) := by
  intro u
  obtain ⟨_ | ⟨a, u₁⟩, ho⟩ := hp u
  · exact ⟨none, fun w => by rw [on_checked, ho w]; rfl⟩
  · refine ⟨(check a).toOption.map fun b => (b, u₁), fun w => ?_⟩
    rw [on_checked, ho w]
    dsimp only [Option.map_some, Option.bind_some]
    cases (check a).toOption <;> rfl

theorem filtered (hp : Settled p) (test : α → Bool) : Settled (filtered p test) := by
  intro u
  obtain ⟨o, ho⟩ := hp u
  refine ⟨o.filter fun r => test r.1, fun w => ?_⟩
  rw [on_filtered, ho w]
  cases o with
  | none => rfl
  | some r => by_cases ht : test r.1 = true <;> simp [Option.filter, ht]

end Settled

theorem settled_satisfy {test : Char → Bool} (h : test '{' = false) : Settled (satisfy test) := by
  intro u
  cases u with
  | nil => exact ⟨none, fun w => by simp [on_satisfy, h]⟩
  | cons c u =>
    by_cases hc : test c = true
    · exact ⟨some (c, u), fun w => by simp [on_satisfy, hc]⟩
    · exact ⟨none, fun w => by simp [on_satisfy, hc]⟩

theorem settled_run {test : Char → Bool} (h : test '{' = false) : Settled (run test) := by
  intro u
  refine ⟨some (u.takeWhile test, u.dropWhile test), fun w => ?_⟩
  rw [on_run]
  induction u with
  | nil => simp [h]
  | cons c u ih =>
    by_cases hc : test c = true
    · simpa [hc] using ih
    · simp [hc]

theorem settled_exactly {t : List Char} (h : '{' ∉ t) : Settled (exactly t) := by
  induction t with
  | nil => exact .pure ()
  | cons c t ih =>
    rw [List.mem_cons, not_or] at h
    obtain ⟨hc, ht⟩ := h
    exact (settled_satisfy (by simpa using hc)).bind fun _ => ih ht

end EngineBridge.Source
