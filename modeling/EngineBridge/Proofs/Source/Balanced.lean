import EngineBridge.Proofs.Source.SteadyMembers

/-! Texts with balanced braces, and the blocks that hold them.

The reader of blocks knows comments and literals, but no escapes: a literal ends at the first quote of its own kind. -/

namespace EngineBridge.Source
open EngineBridge.Parser

/-! ### Balanced texts -/

/-- What may stand between two quotes on one line, where a backslash takes the character behind it along. -/
inductive Literal (escapes : Char → Prop) (quote : Char) : List Char → Prop
  | nil : Literal escapes quote []
  | plain {c : Char} {cs : List Char} (hquote : c ≠ quote) (hslash : c ≠ '\\') (hline : c ≠ '\n')
    (h : Literal escapes quote cs) : Literal escapes quote (c :: cs)
  | escape {c : Char} {cs : List Char} (hc : escapes c) (hline : c ≠ '\n') (h : Literal escapes quote cs) :
    Literal escapes quote ('\\' :: c :: cs)

/-- The braces of the text are balanced, those in comments and literals aside. Between two quotes, only these characters may be
    escaped. -/
inductive Balanced (escapes : Char → Char → Prop) : List Char → Prop
  | nil : Balanced escapes []
  | line {inside cs : List Char} (hinside : '\n' ∉ inside) (h : Balanced escapes cs) :
    Balanced escapes ('/' :: '/' :: inside ++ '\n' :: cs)
  | closed {inside cs : List Char} (hinside : ¬ ['*', '/'] <:+: inside) (h : Balanced escapes cs) :
    Balanced escapes ('/' :: '*' :: inside ++ '*' :: '/' :: cs)
  | literal {quote : Char} {inside cs : List Char} (hquote : quote = '"' ∨ quote = '\'')
    (hinside : Literal (escapes quote) quote inside) (h : Balanced escapes cs) : Balanced escapes (quote :: inside ++ quote :: cs)
  | block {inside cs : List Char} (hinside : Balanced escapes inside) (h : Balanced escapes cs) :
    Balanced escapes ('{' :: inside ++ '}' :: cs)
  | plain {c : Char} {cs : List Char} (hc : c ∉ ['{', '}', '"', '\'']) (hslash : c = '/' → ∀ d ∈ cs.head?, d ∉ ['/', '*'])
    (h : Balanced escapes cs) : Balanced escapes (c :: cs)

/-- Any character may be escaped. -/
def Escaped (_quote _c : Char) : Prop := True

/-- No literal escapes its own quote. -/
def Unescaped (quote c : Char) : Prop := c ≠ quote

section Balanced
variable {cs v r inside : List Char} {quote c : Char}

theorem Literal.free (h : Literal (Unescaped quote) quote inside) (hquote : quote ≠ '\\') : quote ∉ inside ∧ '\n' ∉ inside := by
  induction h with
  | nil => simp
  | plain hne _ hline _ ih => exact ⟨by simp [hne.symm, ih.1], by simp [hline.symm, ih.2]⟩
  | escape hc hline _ ih => exact ⟨by simp [hquote, Ne.symm hc, ih.1], by simp [hline.symm, ih.2]⟩

/-! ### Pieces of a block -/

theorem on_comment_line (h : '\n' ∉ inside) : comment.on ('/' :: '/' :: inside ++ '\n' :: cs) = some ((), '\n' :: cs) := by
  have hopen : (text "//").on ('/' :: '/' :: inside ++ '\n' :: cs) = some ((), inside ++ '\n' :: cs) := by
    rw [text, on_exactly]
    exact if_pos ⟨_, rfl⟩
  exact on_orElse_of_some ((on_bind_of_some hopen).trans (on_bind_of_some (on_restOfLine h)))

theorem on_comment_closed (h : ¬ ['*', '/'] <:+: inside) :
    comment.on ('/' :: '*' :: inside ++ '*' :: '/' :: cs) = some ((), cs) := by
  obtain ⟨_, hinside⟩ := many_until_closed cs h
  have hline : (text "//").on ('/' :: '*' :: inside ++ '*' :: '/' :: cs) = none := by
    rw [text, on_exactly]
    refine if_neg ?_
    rintro ⟨w, hw⟩
    cases hw
  have hopen : (text "/*").on ('/' :: '*' :: inside ++ '*' :: '/' :: cs) = some ((), inside ++ '*' :: '/' :: cs) := by
    rw [text, on_exactly]
    exact if_pos ⟨_, rfl⟩
  have hclose : (text "*/").on ('*' :: '/' :: cs) = some ((), cs) := by
    rw [text, on_exactly]
    exact if_pos ⟨_, rfl⟩
  exact (on_orElse_of_none (on_bind_of_none hline)).trans
    ((on_bind_of_some hopen).trans ((on_bind_of_some (p := many unclosed) hinside).trans hclose))

theorem on_comment_eq_none (h : c = '/' → ∀ d ∈ cs.head?, d ∉ ['/', '*']) : comment.on (c :: cs) = none := by
  by_cases hc : c = '/'
  · subst hc
    have hmark : ∀ d, d ∈ ['/', '*'] → ¬ ['/', d] <+: '/' :: cs := by
      rintro d hd ⟨w, hw⟩
      cases hw
      exact h rfl d rfl hd
    have hline : (text "//").on ('/' :: cs) = none := by
      rw [text, on_exactly]
      exact if_neg (hmark '/' (by simp))
    have hopen : (text "/*").on ('/' :: cs) = none := by
      rw [text, on_exactly]
      exact if_neg (hmark '*' (by simp))
    exact (on_orElse_of_none (on_bind_of_none hline)).trans (on_bind_of_none hopen)
  · exact starts_comment.on_eq_none trivial ⟨c, rfl, hc⟩

theorem on_quoted (h : quote ∉ inside) (hline : '\n' ∉ inside) :
    (quoted quote).on (quote :: inside ++ quote :: cs) = some ((), cs) := by
  have hopen : (exactly [quote]).on (quote :: inside ++ quote :: cs) = some ((), inside ++ quote :: cs) := by
    rw [on_exactly]
    exact if_pos ⟨_, rfl⟩
  have hinside : (run fun c => !([quote, '\n'].contains c)).on (inside ++ quote :: cs) = some (inside, quote :: cs) := by
    refine on_run_append (fun d hd => ?_) fun d hd => ?_
    · have hne : d ≠ quote ∧ d ≠ '\n' := ⟨fun heq => h (heq ▸ hd), fun heq => hline (heq ▸ hd)⟩
      simp [hne]
    · cases hd
      simp
  have hclose : (exactly [quote]).on (quote :: cs) = some ((), cs) := by
    rw [on_exactly]
    exact if_pos ⟨_, rfl⟩
  have hskip : (skipTo [quote, '\n']).on (inside ++ quote :: cs) = some ((), quote :: cs) := on_bind_of_some hinside
  exact (on_bind_of_some hopen).trans ((on_bind_of_some hskip).trans hclose)

theorem on_quoted_of_ne (h : c ≠ quote) : (quoted quote).on (c :: cs) = none :=
  (starts_quoted quote).on_eq_none trivial ⟨c, rfl, h⟩

theorem on_piece_of_comment (h : comment.on cs = some ((), r)) : (bodyPiece braces).on cs = some ((), r) := on_orElse_of_some h

theorem on_piece_of_quoted (hquote : quote = '"' ∨ quote = '\'') (h : (quoted quote).on (quote :: cs) = some ((), r)) :
    (bodyPiece braces).on (quote :: cs) = some ((), r) := by
  have hcomment : comment.on (quote :: cs) = none := on_comment_eq_none fun heq => by
    rcases hquote with rfl | rfl <;> cases heq
  refine (on_orElse_of_none hcomment).trans ?_
  rcases hquote with rfl | rfl
  · exact on_orElse_of_some h
  · exact (on_orElse_of_none (on_quoted_of_ne (by decide))).trans (on_orElse_of_some h)

/-- At an opening brace, a piece of a block is the block there. -/
theorem on_piece_of_brace (h : Front (· = '{') cs) : (bodyPiece braces).on cs = braces.on cs := by
  have hquoted : ∀ quote, '{' ≠ quote → (quoted quote).on cs = none := fun quote hne =>
    (starts_quoted quote).on_eq_none trivial (h.mono fun c hc => by rwa [hc])
  have hcomment : comment.on cs = none := starts_comment.on_eq_none trivial (h.not (by decide))
  have hplain : (do let _ ← satisfy fun c => c ∉ ['{', '}', '"', '\''] : Parser Unit).on cs = none :=
    starts_plain.on_eq_none trivial (h.mono fun c hc hnot => hnot (by simp [hc]))
  refine (on_orElse_of_none hcomment).trans ((on_orElse_of_none (hquoted '"' (by decide))).trans ?_)
  rw [on_orElse_of_none (hquoted '\'' (by decide)), on_orElse, hplain]
  exact Option.or_none

theorem on_piece_of_plain (hc : c ∉ ['{', '}', '"', '\'']) (hslash : c = '/' → ∀ d ∈ cs.head?, d ∉ ['/', '*']) :
    (bodyPiece braces).on (c :: cs) = some ((), cs) := by
  have hne : c ≠ '{' ∧ c ≠ '}' ∧ c ≠ '"' ∧ c ≠ '\'' := by simpa using hc
  have hbraces : braces.on (c :: cs) = none := starts_braces.on_eq_none trivial ⟨c, rfl, hne.1⟩
  have hplain : (satisfy fun c => c ∉ ['{', '}', '"', '\'']).on (c :: cs) = some (c, cs) := by
    rw [on_satisfy]
    exact if_pos (by simpa using hne)
  refine (on_orElse_of_none (on_comment_eq_none hslash)).trans ?_
  refine (on_orElse_of_none (on_quoted_of_ne hne.2.2.1)).trans ((on_orElse_of_none (on_quoted_of_ne hne.2.2.2)).trans ?_)
  exact (on_orElse_of_none hbraces).trans (on_bind_of_some hplain)

/-! ### Blocks -/

theorem on_many_cons {α : Type} {p : Parser α} [Consumes p] {a : α} (h : p.on cs = some (a, r))
    (hmore : ∃ as, on (many p) r = some (as, v)) : ∃ as, on (many p) cs = some (as, v) := by
  obtain ⟨as, hmore⟩ := hmore
  exact ⟨a :: as, on_many_of_some h (Consumes.length_lt h) hmore⟩

theorem on_braces (cs : List Char) : braces.on cs = (blockWith braces).on cs := on_recursive cs

theorem on_braces_of_pieces (h : ∃ as, on (many (bodyPiece braces)) cs = some (as, '}' :: v)) :
    braces.on ('{' :: cs) = some ((), v) := by
  obtain ⟨as, hinside⟩ := h
  have hopen : (exactly ['{']).on ('{' :: cs) = some ((), cs) := by
    rw [on_exactly]
    exact if_pos ⟨_, rfl⟩
  have hclose : (exactly ['}']).on ('}' :: v) = some ((), v) := by
    rw [on_exactly]
    exact if_pos ⟨_, rfl⟩
  have hpieces : (do let _ ← many (bodyPiece braces) : Parser Unit).on cs = some ((), '}' :: v) :=
    on_bind_of_some (p := many (bodyPiece braces)) hinside
  rw [on_braces]
  exact (on_bind_of_some hopen).trans ((on_bind_of_some hpieces).trans (on_bind_of_some hclose))

theorem on_braces_eq_some (h : braces.on ('{' :: cs) = some ((), v)) :
    ∃ as, on (many (bodyPiece braces)) cs = some (as, '}' :: v) := by
  rw [on_braces] at h
  obtain ⟨_, m, hopen, h⟩ := on_bind_eq_some h
  obtain ⟨_, m', hinside, h⟩ := on_bind_eq_some h
  obtain ⟨_, hclose, -⟩ := on_map_eq_some h
  obtain ⟨as, hpieces, -⟩ := on_map_eq_some (p := many (bodyPiece braces)) hinside
  obtain rfl : cs = m := (List.cons.inj (on_exactly_eq_some hopen)).2
  obtain rfl : m' = ['}'] ++ v := on_exactly_eq_some hclose
  exact ⟨as, hpieces⟩

/-- A balanced text is read up to the brace behind it. -/
theorem on_pieces (h : Balanced Unescaped cs) (v : List Char) :
    ∃ as, on (many (bodyPiece braces)) (cs ++ '}' :: v) = some (as, '}' :: v) := by
  induction h generalizing v with
  | nil =>
    have hnone : (bodyPiece braces).on ('}' :: v) = none :=
      (starts_bodyPiece starts_braces).on_eq_none trivial ⟨_, rfl, fun h => h rfl⟩
    exact ⟨[], on_many_of_none hnone⟩
  | line hinside _ ih =>
    -- The end of the line is a piece of its own.
    have hend := on_many_cons (on_piece_of_plain (c := '\n') (by simp) fun heq => absurd heq (by decide)) (ih v)
    have hline := on_many_cons (on_piece_of_comment (on_comment_line hinside)) hend
    simpa using hline
  | closed hinside _ ih =>
    have hcomment := on_many_cons (on_piece_of_comment (on_comment_closed hinside)) (ih v)
    simpa using hcomment
  | literal hquote hinside _ ih =>
    obtain ⟨hfree, hline⟩ := hinside.free (by rcases hquote with rfl | rfl <;> decide)
    have hliteral := on_many_cons (on_piece_of_quoted hquote (on_quoted hfree hline)) (ih v)
    simpa using hliteral
  | @block inside cs _ _ ihinside ih =>
    have hbraces := on_braces_of_pieces (ihinside (cs ++ '}' :: v))
    have hblock := on_many_cons ((on_piece_of_brace ⟨_, rfl, rfl⟩).trans hbraces) (ih v)
    simpa using hblock
  | @plain c cs hc hslash _ ih =>
    refine on_many_cons (on_piece_of_plain hc fun heq d hd => ?_) (ih v)
    cases cs with
    | nil =>
      cases hd
      simp
    | cons e cs => exact hslash heq d hd

/-- A balanced text between braces is a block. -/
theorem on_braces_of_balanced (h : Balanced Unescaped cs) (v : List Char) :
    braces.on ('{' :: (cs ++ '}' :: v)) = some ((), v) := on_braces_of_pieces (on_pieces h v)

end Balanced

end EngineBridge.Source
