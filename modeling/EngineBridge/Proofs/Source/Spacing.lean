import EngineBridge.Proofs.Text.Parsing
import EngineBridge.Proofs.Text.Digits
import EngineBridge.Source.Token
import Mathlib.Tactic.FinCases

/-! Tokens of a source text, and the texts that spell a list of them with gaps between.

A gap is any mixture of blanks, comments and lines for the preprocessor. Between two words there must be one. -/

namespace EngineBridge.Source
open EngineBridge.Parser

/-- What may stand between two tokens. -/
inductive Gap : List Char → Prop
  | none : Gap []
  | blank {c : Char} {cs : List Char} (hc : isBlank c = true) (h : Gap cs) : Gap (c :: cs)
  | line {text cs : List Char} (htext : '\n' ∉ text) (h : Gap cs) : Gap ('/' :: '/' :: text ++ '\n' :: cs)
  | directive {text cs : List Char} (htext : '\n' ∉ text) (h : Gap cs) : Gap ('#' :: text ++ '\n' :: cs)
  | closed {text cs : List Char} (htext : ¬ ['*', '/'] <:+: text) (h : Gap cs) :
    Gap ('/' :: '*' :: text ++ '*' :: '/' :: cs)

/-- The characters that a gap may begin with. -/
def gapStarts : List Char := [' ', '\t', '\r', '\n', '/', '#']

/-- The characters do not begin with something that belongs into a gap. -/
def Solid (cs : List Char) : Prop := ∀ c ∈ cs.head?, c ∉ gapStarts

theorem Gap.starts {gap : List Char} (h : Gap gap) : ∀ c ∈ gap.head?, c ∈ gapStarts := by
  intro c hc
  cases h with
  | none => cases hc
  | blank hblank =>
    cases hc
    simp only [isBlank, Bool.or_eq_true, beq_iff_eq] at hblank
    rcases hblank with ((rfl | rfl) | rfl) | rfl <;> decide
  | line | directive | closed =>
    cases hc
    decide

/-! ### Gaps are passed over -/

/-- What trivia are made of. -/
def triviaPiece : Parser Unit := comment <|> directive <|> (do let _ ← satisfy isBlank)

theorem on_restOfLine {text cs : List Char} (h : '\n' ∉ text) :
    restOfLine.on (text ++ '\n' :: cs) = some (text, '\n' :: cs) := by
  have hall : ∀ c ∈ text, (c != '\n') = true := fun c hc => bne_iff_ne.mpr fun heq => h (heq ▸ hc)
  exact on_run_append hall fun c hc => by
    cases hc
    rfl

theorem triviaPiece_solid {cs : List Char} (h : Solid cs) : triviaPiece.on cs = none := by
  cases cs with
  | nil => rfl
  | cons c cs =>
    have hc := h c rfl
    simp only [gapStarts, List.mem_cons, List.not_mem_nil, or_false, not_or] at hc
    obtain ⟨hspace, htab, hreturn, hline, hslash, hhash⟩ := hc
    simp [triviaPiece, comment, directive, on_orElse, on_bind, text, on_exactly, on_satisfy, isBlank, hspace, htab,
      hreturn, hline, Ne.symm hslash, Ne.symm hhash]

theorem triviaPiece_blank {c : Char} {cs : List Char} (hc : isBlank c = true) :
    triviaPiece.on (c :: cs) = some ((), cs) := by
  have hslash : '/' ≠ c := by
    rintro rfl
    cases hc
  have hhash : '#' ≠ c := by
    rintro rfl
    cases hc
  simp [triviaPiece, comment, directive, on_orElse, on_bind, text, on_exactly, on_satisfy, hc, hslash, hhash]

theorem triviaPiece_line {text cs : List Char} (h : '\n' ∉ text) :
    triviaPiece.on ('/' :: '/' :: text ++ '\n' :: cs) = some ((), '\n' :: cs) := by
  simp [triviaPiece, comment, on_orElse, on_bind, Parser.text, on_exactly, on_restOfLine h]

theorem triviaPiece_directive {text cs : List Char} (h : '\n' ∉ text) :
    triviaPiece.on ('#' :: text ++ '\n' :: cs) = some ((), '\n' :: cs) := by
  simp [triviaPiece, comment, directive, on_orElse, on_bind, Parser.text, on_exactly, on_restOfLine h]

/-- The inside of a comment ends where it is closed first. -/
theorem many_until_closed {text : List Char} (cs : List Char) (h : ¬ ['*', '/'] <:+: text) :
    ∃ inside, on (many (do notHere (Parser.text "*/"); satisfy fun _ => true)) (text ++ '*' :: '/' :: cs) =
      some (inside, '*' :: '/' :: cs) := by
  have hinside : ∀ cs, on (do notHere (Parser.text "*/"); satisfy fun _ => true) cs =
      if ['*', '/'] <+: cs then none else on (satisfy fun _ => true) cs := by
    intro cs
    rw [on_bind, on_notHere, Parser.text, on_exactly]
    by_cases hclosed : ['*', '/'] <+: cs <;> simp [hclosed]
  induction text with
  | nil => exact ⟨[], by rw [on_many, hinside]; simp⟩
  | cons c text ih =>
    obtain ⟨inside, hrest⟩ := ih fun hclosed => h (hclosed.trans (List.suffix_cons c text).isInfix)
    have hopen : ¬ ['*', '/'] <+: c :: text ++ '*' :: '/' :: cs := by
      intro hprefix
      cases text with
      | nil => simp at hprefix
      | cons d text =>
        refine h (List.IsPrefix.isInfix ?_)
        simpa using hprefix
    refine ⟨c :: inside, ?_⟩
    rw [on_many, hinside, if_neg hopen, on_satisfy]
    simp [hrest]

theorem triviaPiece_closed {text cs : List Char} (h : ¬ ['*', '/'] <:+: text) :
    triviaPiece.on ('/' :: '*' :: text ++ '*' :: '/' :: cs) = some ((), cs) := by
  obtain ⟨inside, hinside⟩ := many_until_closed cs h
  have hbody : (do
      let _ ← many (do notHere (Parser.text "*/"); satisfy fun _ => true)
      Parser.text "*/" : Parser Unit).on (text ++ '*' :: '/' :: cs) = some ((), cs) := by
    refine (on_bind _ _ _).trans ?_
    rw [hinside]
    simp [Parser.text, on_exactly]
  have hcomment : comment.on ('/' :: '*' :: text ++ '*' :: '/' :: cs) = some ((), cs) := by
    rw [comment, on_orElse, on_bind, on_bind, Parser.text, Parser.text, on_exactly, on_exactly]
    simpa using hbody
  rw [triviaPiece, on_orElse, hcomment]
  rfl

/-- Trivia are read until something else comes. -/
theorem on_many_trivia {gap cs : List Char} (hgap : Gap gap) (hcs : Solid cs) :
    ∃ read, on (many triviaPiece) (gap ++ cs) = some (read, cs) := by
  have hnext : ∀ (c : Char) (body : List Char) {rest : List Char},
      triviaPiece.on (c :: body ++ rest) = some ((), rest) → (∃ read, on (many triviaPiece) rest = some (read, cs)) →
      ∃ read, on (many triviaPiece) (c :: body ++ rest) = some (read, cs) := by
    rintro c body rest hpiece ⟨read, hread⟩
    have hlength : rest.length < (c :: body ++ rest).length := by
      rw [List.length_append, List.length_cons]
      omega
    refine ⟨() :: read, ?_⟩
    rw [on_many, hpiece]
    dsimp only
    rw [if_pos hlength, hread]
    rfl
  induction hgap with
  | none => exact ⟨[], by rw [List.nil_append, on_many, triviaPiece_solid hcs]⟩
  | blank hc _ ih => exact hnext _ [] (triviaPiece_blank hc) ih
  | @line text rest htext _ ih =>
    rw [List.append_assoc, List.cons_append]
    -- The end of the line is a piece of its own.
    exact hnext '/' ('/' :: text) (triviaPiece_line htext) (hnext '\n' [] (triviaPiece_blank (by decide)) ih)
  | @directive text rest htext _ ih =>
    rw [List.append_assoc, List.cons_append]
    exact hnext '#' text (triviaPiece_directive htext) (hnext '\n' [] (triviaPiece_blank (by decide)) ih)
  | @closed text rest htext _ ih =>
    have hpiece : triviaPiece.on ('/' :: '*' :: text ++ '*' :: '/' :: (rest ++ cs)) = some ((), rest ++ cs) :=
      triviaPiece_closed htext
    simpa using hnext '/' ('*' :: text ++ ['*', '/']) (by simpa using hpiece) ih

theorem on_trivia {gap cs : List Char} (hgap : Gap gap) (hcs : Solid cs) : trivia.on (gap ++ cs) = some ((), cs) := by
  obtain ⟨read, hread⟩ := on_many_trivia hgap hcs
  refine (on_bind _ _ _).trans ?_
  rw [show (comment <|> directive <|> (do let _ ← satisfy isBlank)) = triviaPiece from rfl, hread]
  rfl

/-! ### Tokens -/

inductive Token
  /-- An identifier, or identifiers joined by points. -/
  | name (s : String)
  | quoted (s : String)
  | number (n : Int64)
  | mark (c : Char)

/-- The marks between names. -/
def marks : List Char := ['{', '}', '[', ']', '(', ')', '<', '>', ',', ';', ':', '=', '?', '|', '~']

def IsIdentifier (s : String) : Prop := isIdentifierText s.toList = true

instance : DecidablePred IsIdentifier := fun s => inferInstanceAs (Decidable (isIdentifierText s.toList = true))

/-- The text is made of identifiers that are joined by points. -/
def IsPath (s : String) : Prop :=
  ∃ parts : List String, parts ≠ [] ∧ (∀ part ∈ parts, IsIdentifier part) ∧ s = String.intercalate "." parts

namespace Token

def chars : Token → List Char
  | name s => s.toList
  | quoted s => '"' :: s.toList ++ ['"']
  | number n => (toString n.toInt).toList
  | mark c => [c]

/-- The token is one that must not touch another such. -/
def IsWord : Token → Prop
  | name _ | number _ => True
  | quoted _ | mark _ => False

def Valid : Token → Prop
  | name s => IsPath s
  | quoted s => '"' ∉ s.toList
  | number _ => True
  | mark c => c ∈ marks

/-- The token may begin with the character. -/
def Begins : Token → Char → Prop
  | name _, c => isIdentifierStart c = true
  | quoted _, c => c = '"'
  | number _, c => c = '-' ∨ c.isDigit = true
  | mark d, c => c = d ∧ d ∈ marks

end Token

/-- The characters spell the tokens, with gaps behind them. -/
inductive Spells : List Token → List Char → Prop
  | nil : Spells [] []
  | cons {t : Token} {ts : List Token} {gap cs : List Char} (hgap : Gap gap)
    (hmeet : t.IsWord → (∃ u ∈ ts.head?, u.IsWord) → gap ≠ []) (h : Spells ts cs) :
    Spells (t :: ts) (t.chars ++ (gap ++ cs))

/-- One blank behind each token is enough. -/
theorem spells_blanks (ts : List Token) : Spells ts (ts.flatMap fun t => t.chars ++ [' ']) := by
  induction ts with
  | nil => exact .nil
  | cons t ts ih =>
    rw [List.flatMap_cons, List.append_assoc]
    exact .cons (.blank rfl .none) (fun _ _ => List.cons_ne_nil _ _) ih

/-- They are spelled, and are tokens of a source text. -/
structure Laid (ts : List Token) (cs : List Char) : Prop where
  spells : Spells ts cs
  valid : ∀ t ∈ ts, t.Valid

/-- No word goes on with these characters. -/
def Breaks (cs : List Char) : Prop := ∀ c ∈ cs.head?, isIdentifierPart c = false ∧ c ≠ '.'

section
variable {t : Token} {ts : List Token} {cs : List Char}

theorem isIdentifier_cons {s : String} (h : IsIdentifier s) :
    ∃ c cs, s.toList = c :: cs ∧ isIdentifierStart c = true ∧ ∀ d ∈ cs, isIdentifierPart d = true := by
  unfold IsIdentifier isIdentifierText at h
  split at h
  case h_1 => cases h
  case h_2 c cs hs =>
    rw [Bool.and_eq_true, List.all_eq_true] at h
    exact ⟨c, cs, hs, h.1, h.2⟩

/-- What stands behind the first part of a path. -/
def pathTail (parts : List String) : List Char := parts.flatMap fun q => '.' :: q.toList

theorem toList_path (part : String) (parts : List String) :
    (String.intercalate "." (part :: parts)).toList = part.toList ++ pathTail parts := by
  induction parts generalizing part with
  | nil => simp [pathTail]
  | cons q parts ih =>
    rw [String.intercalate_cons_cons, String.toList_append, String.toList_append, ih]
    simp [pathTail]

/-- A number begins with a digit or a minus sign. -/
theorem toString_front (n : Int) : ∃ c cs, (toString n).toList = c :: cs ∧ (c = '-' ∨ c.isDigit = true) := by
  rw [toList_toString]
  split
  · exact ⟨'-', _, rfl, .inl rfl⟩
  · obtain ⟨c, cs, hdigits⟩ := List.exists_cons_of_ne_nil (Nat.toDigits_ne_nil (n := n.natAbs) (b := 10))
    have hdigit : c.isDigit = true := Nat.isDigit_of_mem_toDigits (by decide) (by decide) (hdigits ▸ List.mem_cons_self)
    exact ⟨c, cs, hdigits, .inr hdigit⟩

theorem Token.Valid.front (h : t.Valid) : ∃ c cs, t.chars = c :: cs ∧ t.Begins c := by
  cases t with
  | name s =>
    obtain ⟨_ | ⟨part, parts⟩, hne, hparts, rfl⟩ := h
    · exact absurd rfl hne
    · obtain ⟨c, cs, hpart, hstart, -⟩ := isIdentifier_cons (hparts part List.mem_cons_self)
      exact ⟨c, _, by rw [chars, toList_path, hpart, List.cons_append], hstart⟩
  | quoted s => exact ⟨'"', _, rfl, rfl⟩
  | number n => exact toString_front n.toInt
  | mark c => exact ⟨c, [], rfl, rfl, h⟩

theorem Token.Begins.solid {c : Char} (h : t.Begins c) : c ∉ gapStarts := by
  intro hc
  cases t with
  | name s => fin_cases hc <;> cases h
  | quoted s => fin_cases hc <;> cases h
  | number n => fin_cases hc <;> rcases h with h | h <;> cases h
  | mark d =>
    obtain ⟨rfl, hd⟩ := h
    fin_cases hc <;> revert hd <;> decide

theorem Token.Begins.breaks {c : Char} (h : t.Begins c) (hword : ¬ t.IsWord) :
    isIdentifierPart c = false ∧ c ≠ '.' := by
  cases t with
  | name s | number n => exact absurd trivial hword
  | quoted s =>
    obtain rfl : c = '"' := h
    decide
  | mark d =>
    obtain ⟨rfl, hd⟩ := h
    fin_cases hd <;> decide

/-- What stands first is the first character of the first token. -/
theorem Laid.front (h : Laid ts cs) : ∀ c ∈ cs.head?, ∃ t ∈ ts.head?, t.Begins c := by
  intro c hc
  obtain ⟨hspells, hvalid⟩ := h
  cases hspells with
  | nil => cases hc
  | @cons t ts gap cs =>
    obtain ⟨d, ds, hchars, hbegins⟩ := (hvalid t List.mem_cons_self).front
    rw [hchars] at hc
    cases hc
    exact ⟨t, rfl, hbegins⟩

theorem Laid.solid (h : Laid ts cs) : Solid cs := by
  intro c hc
  obtain ⟨t, -, hbegins⟩ := h.front c hc
  exact hbegins.solid

/-- The first token, the gap behind it and the rest. A word is cut off by what follows. -/
theorem Laid.split (h : Laid (t :: ts) cs) :
    ∃ gap rest, cs = t.chars ++ (gap ++ rest) ∧ Gap gap ∧ Laid ts rest ∧ (t.IsWord → Breaks (gap ++ rest)) := by
  obtain ⟨hspells, hvalid⟩ := h
  cases hspells with
  | @cons _ _ gap rest hgap hmeet hrest =>
    have hlaid : Laid ts rest := ⟨hrest, fun u hu => hvalid u (List.mem_cons_of_mem _ hu)⟩
    refine ⟨gap, rest, rfl, hgap, hlaid, fun hword c hc => ?_⟩
    cases gap with
    | cons d gap =>
      have hstart := hgap.starts c hc
      clear hc
      fin_cases hstart <;> decide
    | nil =>
      obtain ⟨u, hu, hbegins⟩ := hlaid.front c hc
      exact hbegins.breaks fun hnext => hmeet hword ⟨u, hu, hnext⟩ rfl

theorem Token.Valid.length_pos (h : t.Valid) : 0 < t.chars.length := by
  obtain ⟨c, cs, hchars, -⟩ := h.front
  rw [hchars]
  exact Nat.succ_pos _

theorem Laid.length_le (h : Laid ts cs) : ts.length ≤ cs.length := by
  induction ts generalizing cs with
  | nil => exact Nat.zero_le _
  | cons t ts ih =>
    have hpos := (h.valid t List.mem_cons_self).length_pos
    obtain ⟨gap, rest, rfl, -, hrest, -⟩ := h.split
    have hle := ih hrest
    simp only [List.length_cons, List.length_append]
    omega

end
end EngineBridge.Source
