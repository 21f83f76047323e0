import EngineBridge.Proofs.Text.Parsing

/-! How far parsers get: what they leave is an end of what they were given, and a parser described in terms of
itself satisfies its description as soon as each use of itself comes behind a character. -/

namespace EngineBridge.Parser
variable {α β : Type} {p q : Parser α} {cs rest : List Char} {a : α}

/-! ### What is left -/

/-- The parser leaves an end of the text. -/
class Shrinks (p : Parser α) : Prop where
  suffix : ∀ {cs rest : List Char} {a : α}, p.on cs = some (a, rest) → rest <:+ cs

/-- The parser reads at least one character. -/
class Consumes (p : Parser α) : Prop extends Shrinks p where
  length_lt : ∀ {cs rest : List Char} {a : α}, p.on cs = some (a, rest) → rest.length < cs.length

theorem on_bind_eq_some {f : α → Parser β} {b : β} (h : (p >>= f).on cs = some (b, rest)) :
    ∃ a mid, p.on cs = some (a, mid) ∧ (f a).on mid = some (b, rest) := by
  rw [on_bind] at h
  obtain ⟨⟨a, mid⟩, hp, hf⟩ := Option.bind_eq_some_iff.mp h
  exact ⟨a, mid, hp, hf⟩

theorem on_map_eq_some {g : α → β} {b : β} (h : (do let a ← p; return g a : Parser β).on cs = some (b, rest)) :
    ∃ a, p.on cs = some (a, rest) ∧ b = g a := by
  obtain ⟨a, mid, hread, heq⟩ := on_bind_eq_some h
  obtain ⟨rfl, rfl⟩ := Prod.mk.inj (Option.some.inj heq)
  exact ⟨a, hread, rfl⟩

theorem on_orElse_eq_some (h : (p <|> q).on cs = some (a, rest)) :
    p.on cs = some (a, rest) ∨ p.on cs = none ∧ q.on cs = some (a, rest) := by
  rw [on_orElse] at h
  rcases hp : p.on cs with _ | r
  · rw [hp] at h
    exact .inr ⟨rfl, h⟩
  · rw [hp] at h
    exact .inl h

theorem on_optional_eq_some {o : Option α} (h : (optional p).on cs = some (o, rest)) :
    (∃ a, o = some a ∧ p.on cs = some (a, rest)) ∨ o = none ∧ p.on cs = none ∧ rest = cs := by
  rw [on_optional] at h
  rcases hp : p.on cs with _ | ⟨a, mid⟩ <;> rw [hp] at h <;> cases h
  · exact .inr ⟨rfl, rfl, rfl⟩
  · exact .inl ⟨a, rfl, rfl⟩

/-- A repetition stops, or reads one value and goes on. -/
theorem on_many_eq_some [Consumes p] {as : List α} (h : on (many p) cs = some (as, rest)) :
    (as = [] ∧ p.on cs = none ∧ rest = cs) ∨
      ∃ a as' mid, as = a :: as' ∧ p.on cs = some (a, mid) ∧ mid.length < cs.length ∧ on (many p) mid = some (as', rest) := by
  rw [on_many] at h
  rcases hp : p.on cs with _ | ⟨a, mid⟩ <;> rw [hp] at h
  · cases h
    exact .inl ⟨rfl, rfl, rfl⟩
  · have hlt := Consumes.length_lt hp
    dsimp only at h
    rw [if_pos hlt] at h
    obtain ⟨⟨as', rest'⟩, hmore, heq⟩ := Option.map_eq_some_iff.mp h
    cases heq
    exact .inr ⟨a, as', mid, rfl, rfl, hlt, hmore⟩

/-- Where a repetition stops, nothing more can be read. -/
theorem on_of_on_many [Consumes p] {as : List α} (h : on (many p) cs = some (as, rest)) : p.on rest = none := by
  induction hn : cs.length using Nat.strongRecOn generalizing cs as with
  | _ n ih =>
    subst hn
    rcases on_many_eq_some h with ⟨-, hnone, rfl⟩ | ⟨_, _, _, -, -, hlt, hmore⟩
    · exact hnone
    · exact ih _ hlt hmore rfl

section Instances
variable {f : α → Parser β}

instance (a : α) : Shrinks (pure a) := ⟨fun h => by
  cases h
  exact List.suffix_refl _⟩

instance : Shrinks (fail : Parser α) := ⟨fun h => nomatch h⟩

instance [Shrinks p] [∀ a, Shrinks (f a)] : Shrinks (p >>= f) := ⟨fun h => by
  obtain ⟨a, mid, hp, hf⟩ := on_bind_eq_some h
  exact (Shrinks.suffix hf).trans (Shrinks.suffix hp)⟩

instance [Shrinks p] [Shrinks q] : Shrinks (p <|> q) := ⟨fun h => by
  rcases on_orElse_eq_some h with h | ⟨-, h⟩ <;> exact Shrinks.suffix h⟩

instance (test : Char → Bool) : Consumes (satisfy test) where
  suffix {cs} _ _ h := by
    rw [on_satisfy] at h
    split at h
    · cases h
    · split at h <;> cases h
      exact List.suffix_cons _ _
  length_lt {cs} _ _ h := by
    rw [on_satisfy] at h
    split at h
    · cases h
    · split at h <;> cases h
      exact Nat.lt_succ_self _

instance (test : Char → Bool) : Shrinks (run test) := ⟨fun h => by
  rw [on_run] at h
  cases h
  exact List.dropWhile_suffix _⟩

instance (t : List Char) : Shrinks (exactly t) := ⟨fun h => by
  rw [on_exactly] at h
  split at h <;> cases h
  exact List.drop_suffix _ _⟩

instance (c : Char) (t : List Char) : Consumes (exactly (c :: t)) where
  length_lt h := by
    rw [on_exactly] at h
    split at h <;> cases h
    rename_i hfront
    have hle := hfront.length_le
    rw [List.length_cons] at hle
    rw [List.length_drop, List.length_cons]
    omega

instance [Shrinks p] : Shrinks (optional p) := ⟨fun h => by
  rcases on_optional_eq_some h with ⟨_, -, h⟩ | ⟨-, -, rfl⟩
  · exact Shrinks.suffix h
  · exact List.suffix_refl _⟩

instance [Shrinks p] : Shrinks (many p) where
  suffix {cs rest as} h := by
    induction hn : cs.length using Nat.strongRecOn generalizing cs as with
    | _ n ih =>
      subst hn
      rw [on_many] at h
      rcases hp : p.on cs with _ | ⟨a, mid⟩ <;> rw [hp] at h
      · cases h
        exact List.suffix_refl _
      dsimp only at h
      split at h
      · rename_i hlt
        obtain ⟨⟨as', rest'⟩, hmore, heq⟩ := Option.map_eq_some_iff.mp h
        cases heq
        exact (ih _ hlt hmore rfl).trans (Shrinks.suffix hp)
      · cases h
        exact Shrinks.suffix hp

/-- The instance for a repetition that something follows: its type is not seen to be one of parsers. -/
instance {f : List α → Parser β} [Shrinks p] [∀ as, Shrinks (f as)] : Shrinks (many p >>= f) := ⟨fun h => by
  obtain ⟨as, mid, hp, hf⟩ := on_bind_eq_some h
  exact (Shrinks.suffix hf).trans (Shrinks.suffix hp)⟩

instance [Shrinks p] (check : α → Except String β) : Shrinks (checked p check) := ⟨fun h => by
  rw [on_checked] at h
  obtain ⟨⟨a, mid⟩, hp, hcheck⟩ := Option.bind_eq_some_iff.mp h
  obtain ⟨b, -, heq⟩ := Option.map_eq_some_iff.mp hcheck
  cases heq
  exact Shrinks.suffix hp⟩

instance [Shrinks p] (test : α → Bool) : Shrinks (filtered p test) := ⟨fun h => by
  rw [on_filtered, Option.filter_eq_some_iff] at h
  exact Shrinks.suffix h.1⟩

instance : Shrinks (notHere p) := ⟨fun h => by
  rw [on_notHere] at h
  split at h <;> cases h
  exact List.suffix_refl _⟩

instance [Consumes p] [∀ a, Shrinks (f a)] : Consumes (p >>= f) where
  length_lt h := by
    obtain ⟨a, mid, hp, hf⟩ := on_bind_eq_some h
    exact Nat.lt_of_le_of_lt (Shrinks.suffix hf).length_le (Consumes.length_lt hp)

instance (priority := 900) [Shrinks p] [∀ a, Consumes (f a)] : Consumes (p >>= f) where
  length_lt h := by
    obtain ⟨a, mid, hp, hf⟩ := on_bind_eq_some h
    exact Nat.lt_of_lt_of_le (Consumes.length_lt hf) (Shrinks.suffix hp).length_le

instance [Consumes p] [Consumes q] : Consumes (p <|> q) where
  length_lt h := by
    rcases on_orElse_eq_some h with h | ⟨-, h⟩ <;> exact Consumes.length_lt h

instance [Consumes p] (check : α → Except String β) : Consumes (checked p check) where
  length_lt h := by
    rw [on_checked] at h
    obtain ⟨⟨a, mid⟩, hp, hcheck⟩ := Option.bind_eq_some_iff.mp h
    obtain ⟨b, -, heq⟩ := Option.map_eq_some_iff.mp hcheck
    cases heq
    exact Consumes.length_lt hp

instance [Consumes p] (test : α → Bool) : Consumes (filtered p test) where
  length_lt h := by
    rw [on_filtered, Option.filter_eq_some_iff] at h
    exact Consumes.length_lt h.1

instance [Shrinks p] {separator : Parser Unit} [Shrinks separator] : Shrinks (sepBy1 p separator) :=
  inferInstanceAs (Shrinks (p >>= _))

instance [Consumes p] {separator : Parser Unit} [Shrinks separator] : Consumes (sepBy1 p separator) :=
  inferInstanceAs (Consumes (p >>= _))

instance [Shrinks p] {separator : Parser Unit} [Shrinks separator] : Shrinks (sepEndBy p separator) :=
  inferInstanceAs (Shrinks (optional _ >>= _))

instance {opening closing : Parser Unit} [Shrinks opening] [Shrinks p] [Shrinks closing] :
    Shrinks (between opening closing p) := inferInstanceAs (Shrinks (opening >>= _))

instance {opening closing : Parser Unit} [Shrinks opening] [Shrinks p] [Shrinks closing] :
    Shrinks (between opening closing (many p)) := inferInstanceAs (Shrinks (opening >>= fun _ => many p >>= _))

end Instances

/-! ### Parsers in terms of themselves -/

/-- The parsers read the same from texts shorter than the bound. -/
def AgreeBelow (n : Nat) (p q : Parser α) : Prop := ∀ cs, cs.length < n → p.on cs = q.on cs

namespace AgreeBelow
variable {n : Nat} {f g : α → Parser β} {p' q' : Parser α}

theorem refl (p : Parser α) : AgreeBelow n p p := fun _ _ => rfl

theorem bind [Shrinks p] (h : AgreeBelow n p q) (hf : ∀ a, AgreeBelow n (f a) (g a)) :
    AgreeBelow n (p >>= f) (q >>= g) := by
  intro cs hcs
  rw [on_bind, on_bind, ← h cs hcs]
  rcases hp : p.on cs with _ | ⟨a, mid⟩
  · rfl
  · exact hf a mid (Nat.lt_of_le_of_lt (Shrinks.suffix hp).length_le hcs)

/-- Behind a character the texts are shorter. -/
theorem behind [Consumes p] (hf : ∀ a, AgreeBelow n (f a) (g a)) : AgreeBelow (n + 1) (p >>= f) (p >>= g) := by
  intro cs hcs
  rw [on_bind, on_bind]
  rcases hp : p.on cs with _ | ⟨a, mid⟩
  · rfl
  · exact hf a mid (Nat.lt_of_lt_of_le (Consumes.length_lt hp) (Nat.le_of_lt_succ hcs))

theorem orElse (h : AgreeBelow n p q) (h' : AgreeBelow n p' q') : AgreeBelow n (p <|> p') (q <|> q') := by
  intro cs hcs
  rw [on_orElse, on_orElse, h cs hcs, h' cs hcs]

theorem optional (h : AgreeBelow n p q) : AgreeBelow n (Parser.optional p) (Parser.optional q) := by
  intro cs hcs
  rw [on_optional, on_optional, h cs hcs]

theorem many (h : AgreeBelow n p q) : AgreeBelow n (Parser.many p) (Parser.many q) := by
  intro cs hcs
  induction hlen : cs.length using Nat.strongRecOn generalizing cs with
  | _ m ih =>
    subst hlen
    rw [on_many, on_many, h cs hcs]
    rcases q.on cs with _ | ⟨a, mid⟩
    · rfl
    · dsimp only
      split
      · rename_i hlt
        rw [ih _ hlt mid (Nat.lt_trans hlt hcs) rfl]
      · rfl

end AgreeBelow

/-- The description uses the parser behind a character only. -/
class Guarded (f : Parser α → Parser α) : Prop where
  agree : ∀ {n : Nat} {p q : Parser α} [Shrinks p] [Shrinks q], AgreeBelow n p q → AgreeBelow (n + 1) (f p) (f q)
  shrinks : ∀ (p : Parser α) [Shrinks p], Shrinks (f p)

section Recursive
variable {f : Parser α → Parser α} [Guarded f]

instance shrinks_unfolded (n : Nat) : Shrinks (unfolded f n) := by
  induction n with
  | zero => exact inferInstanceAs (Shrinks fail)
  | succ n ih => exact Guarded.shrinks (f := f) (unfolded f n)

instance shrinks_recursive : Shrinks (recursive f) :=
  ⟨fun {cs _ _} h => (shrinks_unfolded (f := f) (cs.length + 1)).suffix h⟩

theorem agreeBelow_unfolded {n m : Nat} (h : n ≤ m) : AgreeBelow n (unfolded f n) (unfolded f m) := by
  induction n generalizing m with
  | zero => exact fun cs hcs => absurd hcs (Nat.not_lt_zero _)
  | succ n ih =>
    obtain ⟨m, rfl⟩ := Nat.exists_eq_add_of_le' (Nat.le_trans (Nat.succ_le_succ (Nat.zero_le n)) h)
    exact Guarded.agree (ih (Nat.le_of_succ_le_succ h))

/-- Unfolding more often than there are characters makes no difference. -/
theorem on_recursive_eq_unfolded {n : Nat} (h : cs.length < n) : (recursive f).on cs = (unfolded f n).on cs :=
  agreeBelow_unfolded h cs (Nat.lt_succ_self _)

/-- The parser satisfies its description. -/
theorem on_recursive (cs : List Char) : (recursive f).on cs = (f (recursive f)).on cs := by
  have hagree : AgreeBelow cs.length (unfolded f cs.length) (recursive f) := fun _ hlt => (on_recursive_eq_unfolded hlt).symm
  exact Guarded.agree hagree cs (Nat.lt_succ_self _)

end Recursive

/-- What reads a whole text leaves nothing. -/
theorem on_of_parseAll_eq_ok (h : parseAll p cs = .ok a) : p.on cs = some (a, []) := by
  unfold parseAll at h
  dsimp only at h
  split at h
  · rename_i a' rest hresult
    cases h
    have hwhole : (do let a ← p; atEnd; return a : Parser α).on cs = some (a, rest.chars) := by
      rw [on, hresult]
      rfl
    obtain ⟨b, _ | ⟨c, mid⟩, hp, hmore⟩ := on_bind_eq_some hwhole
    · obtain rfl : b = a := congrArg Prod.fst (Option.some.inj hmore)
      exact hp
    · cases hmore
  · cases h

end EngineBridge.Parser
