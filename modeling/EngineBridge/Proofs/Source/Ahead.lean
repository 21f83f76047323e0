import EngineBridge.Proofs.Source.Words

/-! Parsers at a place in a text of which only the next words are known.

What stands behind these words need not be made of tokens, so what is read is said here of characters: the words that are
ahead, what ends them, and the rest. -/

namespace EngineBridge.Parser
variable {α β : Type} {p q : Parser α} {f : α → Parser β} {a : α} {cs rest : List Char}

theorem on_bind_of_some (h : p.on cs = some (a, rest)) : (p >>= f).on cs = (f a).on rest := by
  rw [on_bind, h]
  rfl

theorem on_bind_of_none (h : p.on cs = none) : (p >>= f).on cs = none := by
  rw [on_bind, h]
  rfl

theorem on_orElse_of_none (h : p.on cs = none) : (p <|> q).on cs = q.on cs := by
  rw [on_orElse, h]
  rfl

theorem on_orElse_of_some (h : p.on cs = some (a, rest)) : (p <|> q).on cs = some (a, rest) := by
  rw [on_orElse, h]
  rfl

theorem on_optional_of_none (h : p.on cs = none) : (optional p).on cs = some (none, cs) := by
  rw [on_optional, h]

theorem on_optional_of_some (h : p.on cs = some (a, rest)) : (optional p).on cs = some (some a, rest) := by
  rw [on_optional, h]

theorem on_many_of_none (h : p.on cs = none) : on (many p) cs = some ([], cs) := by
  rw [on_many, h]

theorem on_many_of_some {as : List α} {tail : List Char} (h : p.on cs = some (a, rest)) (hlength : rest.length < cs.length)
    (hrest : on (many p) rest = some (as, tail)) : on (many p) cs = some (a :: as, tail) := by
  rw [on_many, h]
  dsimp only
  rw [if_pos hlength, hrest]
  rfl

theorem on_exactly_cons {c d : Char} {t : List Char} (h : d ≠ c) : (exactly (c :: t)).on (d :: cs) = none := by
  rw [on_exactly, if_neg]
  rintro ⟨rest, hrest⟩
  exact h (List.cons.inj hrest).1.symm

/-- What leaves something unread does not read a whole text. -/
theorem parseAll_eq_error (h : ∀ a, p.on cs ≠ some (a, [])) : ∃ e, parseAll p cs = .error e := by
  have hnone : (do let a ← p; atEnd; return a : Parser α).on cs = none := by
    rcases hp : p.on cs with _ | ⟨a, _ | ⟨c, rest⟩⟩
    · exact on_bind_of_none hp
    · exact absurd hp (h a)
    · exact (on_bind_of_some hp).trans (on_bind_of_none rfl)
  rw [on, Option.map_eq_none_iff] at hnone
  unfold parseAll
  dsimp only
  rw [hnone]
  exact ⟨_, rfl⟩

end EngineBridge.Parser

namespace EngineBridge.Source
open EngineBridge.Parser

variable {α : Type} {p : Parser α} {t : Token} {a : α} {s k : String} {c d : Char} {gap cs rest : List Char}

/-! ### What ends a word -/

/-- The gap ends a word, and the rest begins with something else than a gap. -/
structure Ends (gap rest : List Char) : Prop where
  between : Gap gap
  solid : Solid rest
  breaks : Breaks (gap ++ rest)

theorem solid_cons (h : c ∉ gapStarts) : Solid (c :: cs) := fun d hd => by
  cases hd
  exact h

theorem Solid.append (h : Solid cs) (hne : cs ≠ []) : Solid (cs ++ rest) := by
  obtain ⟨c, cs, rfl⟩ := List.exists_cons_of_ne_nil hne
  exact solid_cons (h c rfl)

theorem solid_word (hs : IsIdentifier s) : Solid (s.toList ++ rest) := by
  obtain ⟨c, cs, hchars, hstart, -⟩ := isIdentifier_cons hs
  rw [hchars]
  exact solid_cons (Token.Begins.solid (t := .name s) hstart)

theorem gap_of_blanks (h : gap.all isBlank = true) : Gap gap := by
  induction gap with
  | nil => exact .none
  | cons c gap ih =>
    rw [List.all_cons, Bool.and_eq_true] at h
    exact .blank h.1 (ih h.2)

/-- A gap ends a word. -/
theorem Ends.of_gap (hgap : Gap gap) (hne : gap ≠ []) (hrest : Solid rest) : Ends gap rest := by
  refine ⟨hgap, hrest, fun d hd => ?_⟩
  obtain ⟨c, cs, rfl⟩ := List.exists_cons_of_ne_nil hne
  have hstart := hgap.starts d hd
  clear hd
  fin_cases hstart <;> decide

theorem Ends.blanks (h : (c :: gap).all isBlank = true) (hrest : Solid rest) : Ends (c :: gap) rest :=
  .of_gap (gap_of_blanks h) (List.cons_ne_nil _ _) hrest

/-- A mark ends a word. -/
theorem Ends.mark (hc : c ∈ marks) : Ends [] (c :: rest) := by
  have hbegins : (Token.mark c).Begins c := ⟨rfl, hc⟩
  refine ⟨.none, solid_cons hbegins.solid, fun d hd => ?_⟩
  cases hd
  exact hbegins.breaks id

/-! ### Words -/

theorem on_trivia_of_solid (hcs : Solid cs) : trivia.on cs = some ((), cs) := on_trivia .none hcs

theorem on_padded_of_none (hcs : Solid cs) (h : p.on cs = none) : (padded p).on cs = none :=
  (on_bind_of_some (on_trivia_of_solid hcs)).trans (on_bind_of_none h)

/-- A token that is ahead is read together with the gap behind it. -/
theorem Reads.on_padded (h : Reads p t a) (ht : t.Valid) (hgap : Gap gap) (hrest : Solid rest)
    (hbreaks : t.IsWord → Breaks (gap ++ rest)) : (Source.padded p).on (t.chars ++ (gap ++ rest)) = some (a, rest) := by
  have hsolid : Solid (t.chars ++ (gap ++ rest)) := by
    obtain ⟨c, cs, hchars, hbegins⟩ := ht.front
    rw [hchars]
    exact solid_cons hbegins.solid
  refine (on_bind_of_some (on_trivia_of_solid hsolid)).trans ((on_bind_of_some (h _ hbreaks)).trans ?_)
  exact on_bind_of_some (on_trivia hgap hrest)

theorem on_symbol (hs : s.toList = [c]) (hc : c ∈ marks) (hgap : Gap gap) (hrest : Solid rest) :
    (symbol s).on (c :: (gap ++ rest)) = some ((), rest) :=
  (reads_mark hs).on_padded hc hgap hrest fun hword => nomatch hword

theorem on_symbol_of_head (d : Char) {ds : List Char} (hs : s.toList = d :: ds) (hcs : Solid cs) (h : cs.head? ≠ some d) :
    (symbol s).on cs = none := by
  refine on_padded_of_none hcs ?_
  rw [text, hs]
  cases cs with
  | nil => rfl
  | cons c cs => exact on_exactly_cons fun heq => h (congrArg some heq)

theorem on_keyword (hk : IsIdentifier k) (h : Ends gap rest) : (keyword k).on (k.toList ++ (gap ++ rest)) = some ((), rest) :=
  (reads_keyword hk).on_padded hk.isPath h.between h.solid fun _ => h.breaks

/-- Another word is no keyword. -/
theorem on_keyword_of_ne (hs : IsIdentifier s) (h : s ≠ k) (hrest : Breaks rest) : (keyword k).on (s.toList ++ rest) = none := by
  refine on_padded_of_none (solid_word hs) (on_bind_of_none ?_)
  rw [on_filtered, on_word hs fun c hc => (hrest c hc).1]
  simp [h]

theorem on_word_of_mark (hc : isIdentifierStart c = false) : word.on (c :: cs) = none := by
  refine on_bind_of_none ?_
  simp [on_satisfy, hc]

theorem on_keyword_of_mark (hc : isIdentifierStart c = false) (hsolid : c ∉ gapStarts) : (keyword k).on (c :: cs) = none := by
  refine on_padded_of_none (solid_cons hsolid) (on_bind_of_none ?_)
  rw [on_filtered, on_word_of_mark hc]
  rfl

theorem on_identifier (hs : IsIdentifier s) (h : Ends gap rest) : identifier.on (s.toList ++ (gap ++ rest)) = some (s, rest) :=
  (reads_identifier hs).on_padded hs.isPath h.between h.solid fun _ => h.breaks

/-- An identifier may be marked with an at sign. -/
theorem on_identifier_marked (hs : IsIdentifier s) (h : Ends gap rest) :
    identifier.on ('@' :: (s.toList ++ (gap ++ rest))) = some (s, rest) := by
  have hmark : (text "@").on ('@' :: (s.toList ++ (gap ++ rest))) = some ((), s.toList ++ (gap ++ rest)) := by
    rw [text, on_exactly]
    simp
  have hword : word.on (s.toList ++ (gap ++ rest)) = some (s, gap ++ rest) := on_word hs fun c hc => (h.breaks c hc).1
  have hname : (do let _ ← optional (text "@"); word).on ('@' :: (s.toList ++ (gap ++ rest))) = some (s, gap ++ rest) :=
    (on_bind_of_some (on_optional_of_some hmark)).trans hword
  refine (on_bind_of_some (on_trivia_of_solid (solid_cons (by decide)))).trans ((on_bind_of_some hname).trans ?_)
  exact on_bind_of_some (on_trivia h.between h.solid)

theorem on_identifier_of_mark (hc : isIdentifierStart c = false) (hsolid : c ∉ gapStarts) (hat : c ≠ '@') :
    identifier.on (c :: cs) = none := by
  have hmark : (text "@").on (c :: cs) = none := on_exactly_cons hat
  exact on_padded_of_none (solid_cons hsolid) ((on_bind_of_some (on_optional_of_none hmark)).trans (on_word_of_mark hc))

theorem on_lastOfPath (hs : IsIdentifier s) (h : Ends gap rest) : lastOfPath.on (s.toList ++ (gap ++ rest)) = some (s, rest) :=
  on_bind_of_some ((reads_path_single hs).on_padded hs.isPath h.between h.solid fun _ => h.breaks)

theorem on_lastOfPath_of_mark (hc : isIdentifierStart c = false) (hsolid : c ∉ gapStarts) : lastOfPath.on (c :: cs) = none :=
  on_bind_of_none (on_padded_of_none (solid_cons hsolid) (on_bind_of_none (on_word_of_mark hc)))

/-! ### Modifiers, attributes and types -/

theorem on_modifiers_cons {ms : List String} {tail : List Char} (hs : IsIdentifier s) (hmem : s ∈ modifierWords)
    (h : Ends gap rest) (hrest : modifiers.on rest = some (ms, tail)) :
    modifiers.on (s.toList ++ (gap ++ rest)) = some (s :: ms, tail) := by
  have hfirst : modifier.on (s.toList ++ (gap ++ rest)) = some (s, rest) :=
    (reads_modifier hs hmem).on_padded hs.isPath h.between h.solid fun _ => h.breaks
  refine on_many_of_some hfirst ?_ hrest
  have hpos := Token.Valid.length_pos (t := .name s) hs.isPath
  simp only [Token.chars] at hpos
  simp only [List.length_append]
  omega

theorem on_modifiers_of_ne (hs : IsIdentifier s) (hmem : s ∉ modifierWords) (hrest : Breaks rest) :
    modifiers.on (s.toList ++ rest) = some ([], s.toList ++ rest) := by
  refine on_many_of_none (on_padded_of_none (solid_word hs) ?_)
  rw [on_checked, on_word hs fun c hc => (hrest c hc).1, Option.bind_some, if_neg (mt List.contains_iff_mem.mp hmem)]
  rfl

theorem on_modifiers_of_mark (hc : isIdentifierStart c = false) (hsolid : c ∉ gapStarts) :
    modifiers.on (c :: cs) = some ([], c :: cs) := by
  refine on_many_of_none (on_padded_of_none (solid_cons hsolid) ?_)
  rw [on_checked, on_word_of_mark hc]
  rfl

theorem on_attributes_of_head (hcs : Solid cs) (h : cs.head? ≠ some '[') : attributes.on cs = some ([], cs) :=
  on_bind_of_some (on_many_of_none (on_bind_of_none (on_symbol_of_head '[' rfl hcs h)))

/-- An attribute without arguments. -/
theorem on_attributes_single (hs : IsIdentifier s) (hgap : Gap gap) (hrest : Solid rest) (h : rest.head? ≠ some '[') :
    attributes.on ('[' :: (s.toList ++ ']' :: (gap ++ rest))) = some ([⟨s, []⟩], rest) := by
  have hclose : Solid (']' :: (gap ++ rest)) := solid_cons (by decide)
  have hname : oneAttribute.on (s.toList ++ ([] ++ ']' :: (gap ++ rest))) = some (⟨s, []⟩, ']' :: (gap ++ rest)) := by
    refine (on_bind_of_some (on_lastOfPath hs (.mark (by decide)))).trans ?_
    have hargs : attributeArguments.on (']' :: (gap ++ rest)) = none :=
      on_bind_of_none (on_bind_of_none (on_symbol_of_head '(' rfl hclose (by simp)))
    exact on_bind_of_some (on_optional_of_none hargs)
  have hnames : (sepBy1 oneAttribute (symbol ",")).on (s.toList ++ ([] ++ ']' :: (gap ++ rest))) =
      some ([⟨s, []⟩], ']' :: (gap ++ rest)) := by
    refine (on_bind_of_some hname).trans (on_bind_of_some (on_many_of_none (on_bind_of_none ?_)))
    exact on_symbol_of_head ',' rfl hclose (by simp)
  have hgroup : (between (symbol "[") (symbol "]") (sepBy1 oneAttribute (symbol ","))).on
      ('[' :: ([] ++ (s.toList ++ ([] ++ ']' :: (gap ++ rest))))) = some ([⟨s, []⟩], rest) := by
    refine (on_bind_of_some (on_symbol rfl (by decide) .none (solid_word hs))).trans ?_
    refine (on_bind_of_some hnames).trans (on_bind_of_some (on_symbol rfl (by decide) hgap hrest))
  have hend : (between (symbol "[") (symbol "]") (sepBy1 oneAttribute (symbol ","))).on rest = none :=
    on_bind_of_none (on_symbol_of_head '[' rfl hrest h)
  refine on_bind_of_some (on_many_of_some hgroup ?_ (on_many_of_none hend))
  simp only [List.length_cons, List.length_append]
  omega

theorem head_word (hs : IsIdentifier s) (hd : isIdentifierStart d = false) : (s.toList ++ rest).head? ≠ some d := by
  obtain ⟨c, cs, hchars, hstart, -⟩ := isIdentifier_cons hs
  rw [hchars]
  intro heq
  rw [Option.some.inj heq] at hstart
  rw [hd] at hstart
  cases hstart

/-- A name alone is a type. -/
theorem on_typeExpr (hs : IsIdentifier s) (h : Ends gap rest) (hrest : ∀ d ∈ ['<', '?', '['], rest.head? ≠ some d) :
    typeExpr.on (s.toList ++ (gap ++ rest)) = some (⟨s, []⟩, rest) := by
  have hargs : (symbol "<").on rest = none := on_symbol_of_head '<' rfl h.solid (hrest _ (by decide))
  have hnullable : (symbol "?").on rest = none := on_symbol_of_head '?' rfl h.solid (hrest _ (by decide))
  have hrank : (symbol "[]").on rest = none := on_symbol_of_head '[' rfl h.solid (hrest _ (by decide))
  refine (on_bind_of_some (on_lastOfPath hs h)).trans ?_
  refine (on_bind_of_some (on_optional_of_none (on_bind_of_none hargs))).trans ?_
  exact (on_bind_of_some (on_optional_of_none hnullable)).trans (on_bind_of_some (on_many_of_none hrank))

theorem on_typeExpr_of_mark (hc : isIdentifierStart c = false) (hsolid : c ∉ gapStarts) : typeExpr.on (c :: cs) = none :=
  on_bind_of_none (on_lastOfPath_of_mark hc hsolid)

/-! ### Members -/

section
variable {type name : String} {gap' : List Char} {as : List Attribute} {ms : List String} {e : TypeExpr} {m : MemberDecl}

/-- A parameter of a type without arguments. -/
theorem on_param (htype : IsIdentifier type) (hmark : type ∉ ["out", "ref", "in"]) (hname : IsIdentifier name)
    (h : Ends gap (name.toList ++ (gap' ++ rest))) (h' : Ends gap' rest) (hrest : rest.head? ≠ some '=') :
    param.on (type.toList ++ (gap ++ (name.toList ++ (gap' ++ rest)))) = some (⟨name, ⟨type, []⟩, none⟩, rest) := by
  have hkeyword : ∀ k ∈ ["out", "ref", "in"], (keyword k).on (type.toList ++ (gap ++ (name.toList ++ (gap' ++ rest)))) = none :=
    fun k hk => on_keyword_of_ne htype (fun heq => hmark (heq ▸ hk)) h.breaks
  have hmodifier : paramModifier.on (type.toList ++ (gap ++ (name.toList ++ (gap' ++ rest)))) = none := by
    refine (on_orElse_of_none (on_bind_of_none (hkeyword _ (by decide)))).trans ?_
    exact (on_orElse_of_none (on_bind_of_none (hkeyword _ (by decide)))).trans (on_bind_of_none (hkeyword _ (by decide)))
  have hend : ∀ d ∈ ['<', '?', '['], (name.toList ++ (gap' ++ rest)).head? ≠ some d := fun d hd =>
    head_word hname (by fin_cases hd <;> decide)
  have hdefault : (symbol "=").on rest = none := on_symbol_of_head '=' rfl h'.solid hrest
  refine (on_bind_of_some (on_attributes_of_head (solid_word htype) (head_word htype (by decide)))).trans ?_
  refine (on_bind_of_some (on_optional_of_none hmodifier)).trans ?_
  refine (on_bind_of_some (on_typeExpr htype h hend)).trans ?_
  exact (on_bind_of_some (on_identifier hname h')).trans (on_bind_of_some (on_optional_of_none (on_bind_of_none hdefault)))

/-- One parameter between the parentheses. -/
theorem on_params_single {cs : List Char} {x : ParamDecl} (hcs : Solid cs) (hparam : param.on cs = some (x, ')' :: (gap ++ rest)))
    (hgap : Gap gap) (hrest : Solid rest) : params.on ('(' :: cs) = some ([x], rest) := by
  have hcomma : (symbol ",").on (')' :: (gap ++ rest)) = none :=
    on_symbol_of_head ',' rfl (solid_cons (by decide)) (by simp)
  have hlist : (sepBy1 param (symbol ",")).on cs = some ([x], ')' :: (gap ++ rest)) :=
    (on_bind_of_some hparam).trans (on_bind_of_some (on_many_of_none (on_bind_of_none hcomma)))
  have hall : (sepEndBy param (symbol ",")).on cs = some ([x], ')' :: (gap ++ rest)) :=
    on_bind_of_some (on_optional_of_some ((on_bind_of_some hlist).trans (on_bind_of_some (on_optional_of_none hcomma))))
  refine (on_bind_of_some (on_symbol rfl (by decide) .none hcs)).trans ?_
  exact (on_bind_of_some hall).trans (on_bind_of_some (on_symbol rfl (by decide) hgap hrest))

/-- A colon begins no body. -/
theorem on_methodBody_colon : methodBody.on (':' :: rest) = none := by
  have hsolid : Solid (':' :: rest) := solid_cons (by decide)
  have harrow : arrowBody.on (':' :: rest) = none := on_padded_of_none hsolid (on_bind_of_none (on_exactly_cons (by decide)))
  have hblock : block.on (':' :: rest) = none := on_padded_of_none hsolid (on_bind_of_none (on_exactly_cons (by decide)))
  refine (on_orElse_of_none (on_symbol_of_head ';' rfl hsolid (by simp))).trans ?_
  exact (on_orElse_of_none harrow).trans hblock

/-- What is called as a type and has no name behind it is a constructor; without a body it is refused. -/
theorem on_memberAfter_of_constructor {mid : List Char} {ps : List ParamDecl} (hcs : Solid cs) (hhead : cs.head? ≠ some '~')
    (htype : ∀ e r, typeExpr.on cs = some (e, r) → identifier.on r = none) (hname : identifier.on cs = some (name, mid))
    (hparams : params.on mid = some (ps, rest)) (hbody : methodBody.on rest = none) : (memberAfter as ms).on cs = none := by
  have htyped : ∀ {β : Type} (f : TypeExpr → String → Parser β),
      (do let e ← typeExpr; let n ← identifier; f e n : Parser β).on cs = none := fun f => by
    rcases h : typeExpr.on cs with _ | ⟨e, r⟩
    · exact on_bind_of_none h
    · exact (on_bind_of_some h).trans (on_bind_of_none (htype e r h))
  refine (on_orElse_of_none (htyped _)).trans ((on_orElse_of_none (htyped _)).trans ?_)
  refine (on_bind_of_some (on_optional_of_none (on_symbol_of_head '~' rfl hcs hhead))).trans ?_
  exact (on_bind_of_some hname).trans ((on_bind_of_some hparams).trans (on_bind_of_none hbody))

theorem on_memberAfter_of_mark (hc : isIdentifierStart c = false) (hsolid : c ∉ gapStarts) (hat : c ≠ '@') (htilde : c ≠ '~') :
    (memberAfter as ms).on (c :: cs) = none := by
  have htype : typeExpr.on (c :: cs) = none := on_typeExpr_of_mark hc hsolid
  have hdestructor : (symbol "~").on (c :: cs) = none := on_symbol_of_head '~' rfl (solid_cons hsolid) (by simpa using htilde)
  refine (on_orElse_of_none (on_bind_of_none htype)).trans ((on_orElse_of_none (on_bind_of_none htype)).trans ?_)
  exact (on_bind_of_some (on_optional_of_none hdestructor)).trans (on_bind_of_none (on_identifier_of_mark hc hsolid hat))

theorem on_skipTo {body : List Char} (hfree : c ∉ body) : (skipTo [c]).on (body ++ c :: rest) = some ((), c :: rest) := by
  refine on_bind_of_some (on_run_append (fun d hd => ?_) fun d hd => ?_)
  · have hne : d ≠ c := fun heq => hfree (heq ▸ hd)
    simp [hne]
  · cases hd
    simp

/-- A field with a value that has no semicolon in it. -/
theorem on_memberAfter_field {value : List Char} (htype : IsIdentifier type) (hname : IsIdentifier name)
    (h : Ends gap (name.toList ++ ([' '] ++ '=' :: ([' '] ++ (value ++ ';' :: (gap' ++ rest))))))
    (hvalue : Solid value) (hne : value ≠ []) (hfree : ';' ∉ value) (hgap : Gap gap') (hrest : Solid rest) :
    (memberAfter as ms).on
      (type.toList ++ (gap ++ (name.toList ++ ([' '] ++ '=' :: ([' '] ++ (value ++ ';' :: (gap' ++ rest))))))) =
      some (some (.field ⟨name, ⟨type, []⟩, as, ms⟩), rest) := by
  have hsign : Solid ('=' :: ([' '] ++ (value ++ ';' :: (gap' ++ rest)))) := solid_cons (by decide)
  have hends : Ends [' '] ('=' :: ([' '] ++ (value ++ ';' :: (gap' ++ rest)))) := .blanks (by decide) hsign
  have hend : ∀ d ∈ ['<', '?', '['], (name.toList ++ ([' '] ++ '=' :: ([' '] ++ (value ++ ';' :: (gap' ++ rest))))).head? ≠
      some d := fun d hd => head_word hname (by fin_cases hd <;> decide)
  have hopen : params.on ('=' :: ([' '] ++ (value ++ ';' :: (gap' ++ rest)))) = none :=
    on_bind_of_none (on_symbol_of_head '(' rfl hsign (by simp))
  have hsolid : Solid (value ++ ';' :: (gap' ++ rest)) := hvalue.append hne
  have hskip : (skipTo [';']).on (value ++ ';' :: (gap' ++ rest)) = some ((), ';' :: (gap' ++ rest)) := on_skipTo hfree
  have hinitializer : initializer.on ('=' :: ([' '] ++ (value ++ ';' :: (gap' ++ rest)))) = some ((), ';' :: (gap' ++ rest)) :=
    (on_bind_of_some (on_symbol rfl (by decide) (gap_of_blanks (by decide)) hsolid)).trans hskip
  have htail : fieldTail.on ('=' :: ([' '] ++ (value ++ ';' :: (gap' ++ rest)))) = some ((), rest) :=
    on_orElse_of_some ((on_bind_of_some (on_optional_of_some hinitializer)).trans (on_symbol rfl (by decide) hgap hrest))
  have hfront : ∀ {β : Type} (f : TypeExpr → String → Parser β), (do let e ← typeExpr; let n ← identifier; f e n : Parser β).on
      (type.toList ++ (gap ++ (name.toList ++ ([' '] ++ '=' :: ([' '] ++ (value ++ ';' :: (gap' ++ rest))))))) =
        (f ⟨type, []⟩ name).on ('=' :: ([' '] ++ (value ++ ';' :: (gap' ++ rest)))) := fun f =>
    (on_bind_of_some (on_typeExpr htype h hend)).trans (on_bind_of_some (on_identifier hname hends))
  refine (on_orElse_of_none ((hfront _).trans (on_bind_of_none hopen))).trans ?_
  exact on_orElse_of_some ((hfront _).trans (on_bind_of_some htail))

/-! ### Declarations -/

/-- What is neither a record nor an enum behind its modifiers is no type. -/
theorem on_typeDecl_of_front {cs₁ cs₂ : List Char} (has : attributes.on cs = some (as, cs₁)) (hms : modifiers.on cs₁ = some (ms, cs₂))
    (hrecord : ∀ as ms, (do
      let kind ← (do keyword "class"; return TypeKind.classKind) <|> (do keyword "struct"; return .structKind)
      let name ← identifier
      let base ← base
      let members ← between openBrace closeBrace (many member)
      return { name, kind, base, attributes := as, modifiers := ms, module := none, nspace := none,
               members := members.filterMap id, variants := [] } : Parser TypeDecl).on cs₂ = none)
    (henum : (keyword "enum").on cs₂ = none) : typeDecl.on cs = none := by
  have hleft : record.on cs = none := (on_bind_of_some has).trans ((on_bind_of_some hms).trans (hrecord as ms))
  have hright : enumeration.on cs = none := (on_bind_of_some has).trans ((on_bind_of_some hms).trans (on_bind_of_none henum))
  exact on_bind_of_none ((on_orElse_of_none hleft).trans hright)

/-- Other words begin no type. -/
theorem on_typeDecl_of_ne (hs : IsIdentifier s) (hmem : s ∉ modifierWords) (hkind : s ∉ ["class", "struct", "enum"])
    (hrest : Breaks rest) : typeDecl.on (s.toList ++ rest) = none := by
  have hkeyword : ∀ k ∈ ["class", "struct", "enum"], (keyword k).on (s.toList ++ rest) = none := fun k hk =>
    on_keyword_of_ne hs (fun heq => hkind (heq ▸ hk)) hrest
  refine on_typeDecl_of_front (on_attributes_of_head (solid_word hs) (head_word hs (by decide)))
    (on_modifiers_of_ne hs hmem hrest) (fun as ms => on_bind_of_none ?_) (hkeyword _ (by decide))
  refine (on_orElse_of_none (on_bind_of_none (hkeyword _ (by decide)))).trans (on_bind_of_none (hkeyword _ (by decide)))

/-- A part of a file is a directive, a namespace or a type. -/
theorem on_item_of_none {decls : Parser (List TypeDecl)} (husing : (keyword "using").on cs = none)
    (hnamespace : (keyword "namespace").on cs = none) (htype : typeDecl.on cs = none) : (item decls).on cs = none := by
  refine (on_orElse_of_none (on_bind_of_none husing)).trans ((on_orElse_of_none (on_bind_of_none hnamespace)).trans ?_)
  exact (on_orElse_of_none (on_bind_of_none hnamespace)).trans (on_bind_of_none htype)

/-- A directive is passed over. -/
theorem on_items_using {decls : Parser (List TypeDecl)} {items : List Item} {body tail : List Char} (hbody : Solid body)
    (hne : body ≠ []) (hfree : ';' ∉ body) (hgap : Gap gap) (hrest : Solid rest)
    (hmore : on (many (item decls)) rest = some (items, tail)) :
    on (many (item decls)) ("using".toList ++ ([' '] ++ (body ++ ';' :: (gap ++ rest)))) = some (.skipped :: items, tail) := by
  have hsolid : Solid (body ++ ';' :: (gap ++ rest)) := hbody.append hne
  have hskip : (skipTo [';']).on (body ++ ';' :: (gap ++ rest)) = some ((), ';' :: (gap ++ rest)) := on_skipTo hfree
  have hitem : (item decls).on ("using".toList ++ ([' '] ++ (body ++ ';' :: (gap ++ rest)))) = some (.skipped, rest) := by
    refine on_orElse_of_some ((on_bind_of_some (on_keyword (by decide) (.blanks (by decide) hsolid))).trans ?_)
    exact (on_bind_of_some hskip).trans (on_bind_of_some (on_symbol rfl (by decide) hgap hrest))
  refine on_many_of_some hitem ?_ hmore
  generalize "using".toList = word
  simp only [List.length_append, List.length_cons]
  omega

end

end EngineBridge.Source
