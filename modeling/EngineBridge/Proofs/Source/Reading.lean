import EngineBridge.Proofs.Source.Spacing

/-! Parsers as readers of tokens, whatever gaps stand between them.

`Takes p ts a ts'` says that `p` reads `a` from any spelling of the tokens `ts` and leaves a spelling of `ts'`, and
`Refuses p ts` that it reads nothing. How parsers are put together is described here once, on tokens. -/

namespace EngineBridge.Source
open EngineBridge.Parser

variable {α β : Type}

/-- The parser reads the value off the tokens, at least one character for each, and leaves the others. -/
def Takes (p : Parser α) (ts : List Token) (a : α) (ts' : List Token) : Prop :=
  ∀ cs, Laid ts cs →
    ∃ rest, Laid ts' rest ∧ p.on cs = some (a, rest) ∧ rest.length + ts.length ≤ cs.length + ts'.length

/-- The parser reads nothing from the tokens. -/
def Refuses (p : Parser α) (ts : List Token) : Prop := ∀ cs, Laid ts cs → p.on cs = none

section Sequence
variable {p q : Parser α} {f : α → Parser β} {ts ts' ts'' : List Token} {a : α} {b : β}

theorem Takes.pure : Takes (pure a) ts a ts := fun cs h => ⟨cs, h, rfl, Nat.le_refl _⟩

theorem Takes.bind (hp : Takes p ts a ts') (hf : Takes (f a) ts' b ts'') : Takes (p >>= f) ts b ts'' := by
  intro cs hcs
  obtain ⟨mid, hmid, hread, hlength⟩ := hp cs hcs
  obtain ⟨rest, hrest, hread', hlength'⟩ := hf mid hmid
  refine ⟨rest, hrest, ?_, by omega⟩
  rw [on_bind, hread]
  exact hread'

theorem Refuses.bind (hp : Refuses p ts) : Refuses (p >>= f) ts := fun cs hcs => by
  rw [on_bind, hp cs hcs]
  rfl

theorem Takes.bind_refuses (hp : Takes p ts a ts') (hf : Refuses (f a) ts') : Refuses (p >>= f) ts := by
  intro cs hcs
  obtain ⟨mid, hmid, hread, -⟩ := hp cs hcs
  rw [on_bind, hread]
  exact hf mid hmid

theorem Takes.orElse (hp : Takes p ts a ts') : Takes (p <|> q) ts a ts' := by
  intro cs hcs
  obtain ⟨rest, hrest, hread, hlength⟩ := hp cs hcs
  exact ⟨rest, hrest, by rw [on_orElse, hread]; rfl, hlength⟩

theorem Refuses.orElse (hp : Refuses p ts) (hq : Takes q ts a ts') : Takes (p <|> q) ts a ts' := by
  intro cs hcs
  obtain ⟨rest, hrest, hread, hlength⟩ := hq cs hcs
  exact ⟨rest, hrest, by rw [on_orElse, hp cs hcs, hread]; rfl, hlength⟩

theorem Refuses.orElse_refuses (hp : Refuses p ts) (hq : Refuses q ts) : Refuses (p <|> q) ts := fun cs hcs => by
  rw [on_orElse, hp cs hcs, hq cs hcs]
  rfl

theorem Takes.optional (hp : Takes p ts a ts') : Takes (optional p) ts (some a) ts' := by
  intro cs hcs
  obtain ⟨rest, hrest, hread, hlength⟩ := hp cs hcs
  exact ⟨rest, hrest, by rw [on_optional, hread], hlength⟩

theorem Refuses.optional (hp : Refuses p ts) : Takes (optional p) ts none ts := fun cs hcs =>
  ⟨cs, hcs, by rw [on_optional, hp cs hcs], Nat.le_refl _⟩

theorem Takes.between {opening closing : Parser Unit} (hopening : Takes opening ts () ts') (hp : Takes p ts' a ts'')
    {us : List Token} (hclosing : Takes closing ts'' () us) : Takes (between opening closing p) ts a us :=
  hopening.bind (hp.bind (hclosing.bind .pure))

/-- There are at least as many characters as tokens, so the description may be unfolded once for each token. -/
theorem Takes.recursive {f : Parser α → Parser α} (h : ∀ n, ts.length ≤ n → Takes (f (unfolded f n)) ts a ts') :
    Takes (recursive f) ts a ts' := by
  intro cs hcs
  obtain ⟨rest, hrest, hread, hlength⟩ := h cs.length hcs.length_le cs hcs
  exact ⟨rest, hrest, hread, hlength⟩

theorem Refuses.recursive {f : Parser α → Parser α} (h : ∀ n, Refuses (f (unfolded f n)) ts) :
    Refuses (recursive f) ts := fun cs hcs => h cs.length cs hcs

end Sequence

/-! ### Repetition

What a value is spelled by is given as a function of an index `i`. A value may ask for something about the tokens
behind it: that is the condition `P`. -/

section Repetition
variable {ι : Type} {p : Parser α} {separator : Parser Unit} {ts ts' ts'' : List Token} {a : α} {as : List α}
  {P : List Token → Prop} {tokens : ι → List Token} {value : ι → α} {sep : Token} {i : ι} {is : List ι}

theorem Refuses.many (hp : Refuses p ts) : Takes (many p) ts [] ts := fun cs hcs =>
  ⟨cs, hcs, by rw [on_many, hp cs hcs], Nat.le_refl _⟩

theorem Takes.many_cons (hp : Takes p ts a ts') (hlength : ts'.length < ts.length) (hps : Takes (many p) ts' as ts'') :
    Takes (many p) ts (a :: as) ts'' := by
  intro cs hcs
  obtain ⟨mid, hmid, hread, hle⟩ := hp cs hcs
  obtain ⟨rest, hrest, hread', hle'⟩ := hps mid hmid
  refine ⟨rest, hrest, ?_, by omega⟩
  rw [on_many, hread]
  dsimp only
  rw [if_pos (by omega), hread']
  rfl

/-- The parser reads the value of each of the indices off its tokens, as long as the condition holds behind them. -/
def TakesEach (p : Parser α) (tokens : ι → List Token) (value : ι → α) (P : List Token → Prop) (is : List ι) : Prop :=
  ∀ i ∈ is, ∀ ts, P ts → Takes p (tokens i ++ ts) (value i) ts

theorem TakesEach.many (h : TakesEach p tokens value P is) (hne : ∀ i ∈ is, tokens i ≠ [])
    (hfollow : ∀ i ∈ is, ∀ ts, P (tokens i ++ ts)) (hts : P ts) (hend : Refuses p ts) :
    Takes (Parser.many p) (is.flatMap tokens ++ ts) (is.map value) ts := by
  induction is with
  | nil => exact hend.many
  | cons i is ih =>
    obtain ⟨hitem, hrest⟩ := List.forall_mem_cons.mp h
    obtain ⟨hfirst, hne⟩ := List.forall_mem_cons.mp hne
    have hbehind : P (is.flatMap tokens ++ ts) := by
      cases is with
      | nil => exact hts
      | cons j is =>
        rw [List.flatMap_cons, List.append_assoc]
        exact hfollow j (List.mem_cons_of_mem _ List.mem_cons_self) _
    rw [List.flatMap_cons, List.append_assoc, List.map_cons]
    refine (hitem _ hbehind).many_cons ?_ (ih hrest hne fun j hj => hfollow j (List.mem_cons_of_mem _ hj))
    have hpos := List.length_pos_iff.mpr hfirst
    simp only [List.length_append]
    omega

/-- Values with a separator between two. -/
def separated (sep : Token) (tokens : ι → List Token) : List ι → List Token
  | [] => []
  | i :: is => tokens i ++ is.flatMap fun j => sep :: tokens j

/-- A separator stands behind the last value too. -/
theorem separated_append (sep : Token) (tokens : ι → List Token) (i : ι) (is : List ι) :
    separated sep tokens (i :: is) ++ [sep] = (i :: is).flatMap fun j => tokens j ++ [sep] := by
  induction is generalizing i with
  | nil => simp [separated]
  | cons j is ih =>
    rw [List.flatMap_cons, ← ih j]
    simp [separated]

theorem length_le_separated (sep : Token) (tokens : ι → List Token) (h : i ∈ is) :
    (tokens i).length ≤ (separated sep tokens is).length := by
  cases is with
  | nil => cases h
  | cons j is =>
    rw [separated, List.length_append]
    rcases List.mem_cons.mp h with rfl | hmem
    · exact Nat.le_add_right _ _
    · have hsub : List.Sublist (sep :: tokens i) (is.flatMap fun j => sep :: tokens j) :=
        List.sublist_flatten_of_mem (List.mem_map_of_mem hmem)
      have hle := hsub.length_le
      rw [List.length_cons] at hle
      omega

theorem TakesEach.sepBy1 (h : TakesEach p tokens value P (i :: is)) (hsep : ∀ ts, Takes separator (sep :: ts) () ts)
    (hfollow : ∀ ts, P (sep :: ts)) (hts : P ts) (hend : Refuses (do separator; p) ts) :
    Takes (sepBy1 p separator) (separated sep tokens (i :: is) ++ ts) ((i :: is).map value) ts := by
  obtain ⟨hitem, hrest⟩ := List.forall_mem_cons.mp h
  have hmore : TakesEach (do separator; p) (fun j => sep :: tokens j) value P is := fun j hj ts hP =>
    (hsep _).bind (hrest j hj ts hP)
  have hbehind : P ((is.flatMap fun j => sep :: tokens j) ++ ts) := by
    cases is with
    | nil => exact hts
    | cons j is => exact hfollow _
  rw [separated, List.append_assoc]
  exact (hitem _ hbehind).bind
    ((hmore.many (fun _ _ => List.cons_ne_nil _ _) (fun _ _ _ => hfollow _) hts hend).bind .pure)

theorem TakesEach.sepEndBy (h : TakesEach p tokens value P is) (hsep : ∀ ts, Takes separator (sep :: ts) () ts)
    (hfollow : ∀ ts, P (sep :: ts)) (hts : P ts) (hp : is = [] → Refuses p ts) (hend : Refuses separator ts) :
    Takes (Parser.sepEndBy p separator) (separated sep tokens is ++ ts) (is.map value) ts := by
  cases is with
  | nil =>
    refine Takes.bind (hp rfl).bind.bind.optional ?_
    exact .pure
  | cons i is =>
    refine Takes.bind (Takes.optional ?_) .pure
    refine (h.sepBy1 hsep hfollow hts hend.bind).bind ?_
    exact hend.optional.bind .pure

/-- A separator behind each value, the last one included. -/
theorem TakesEach.sepEndBy_closed (h : TakesEach p tokens value P is)
    (hsep : ∀ ts, Takes separator (sep :: ts) () ts) (hfollow : ∀ ts, P (sep :: ts)) (hp : Refuses p ts) :
    Takes (Parser.sepEndBy p separator) ((is.flatMap fun i => tokens i ++ [sep]) ++ ts) (is.map value) ts := by
  cases is with
  | nil =>
    refine Takes.bind hp.bind.bind.optional ?_
    exact .pure
  | cons i is =>
    -- The last separator is first tried as one that a value follows, and then read as the optional one.
    have hmore : Refuses (do separator; p) (sep :: ts) := (hsep ts).bind_refuses hp
    rw [← separated_append, List.append_assoc]
    refine Takes.bind (Takes.optional ?_) .pure
    refine (h.sepBy1 hsep hfollow (hfollow _) hmore).bind ?_
    exact (hsep ts).optional.bind .pure

end Repetition

end EngineBridge.Source
