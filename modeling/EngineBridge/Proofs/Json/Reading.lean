import EngineBridge.Json.Parse
import EngineBridge.Json.Print
import EngineBridge.Proofs.Text.Digits
import EngineBridge.Proofs.Text.Parsing
import Mathlib.Data.List.Infix

/-! What is written as JSON, one item to a line, is read back.

Strings and integers are read from their own characters. White space stands only in front of items and behind the last
of them, and it is taken off together with the token before it; so the items of a list are read one after the other, up
to the bracket that closes it. -/

namespace EngineBridge.Json
open EngineBridge.Parser

variable {level : Nat} {c : Char} {cs rest : List Char}

/-! ### White space -/

/-- The characters behind the white space in front. -/
def unpadded (cs : List Char) : List Char := cs.dropWhile isBlank

theorem on_blanks : blanks.on cs = some ((), unpadded cs) := by
  rw [blanks, on_bind, on_run]
  rfl

theorem on_token {α : Type} {p : Parser α} {a : α} (h : p.on cs = some (a, rest)) :
    (token p).on cs = some (a, unpadded rest) := by
  rw [token, on_bind, h, Option.bind_some, on_bind, on_blanks]
  rfl

theorem on_token_none {α : Type} {p : Parser α} (h : p.on cs = none) : (token p).on cs = none := by
  rw [token, on_bind, h]
  rfl

theorem unpadded_cons (h : isBlank c = false) : unpadded (c :: cs) = c :: cs := List.dropWhile_cons_of_neg (by simp [h])

theorem unpadded_lineBreak : unpadded (lineBreak level ++ cs) = unpadded cs := by
  have hblank : ∀ c ∈ lineBreak level, isBlank c = true := by
    intro c hc
    rcases List.mem_cons.mp hc with rfl | hc
    · rfl
    · obtain ⟨-, rfl⟩ := List.mem_replicate.mp hc
      rfl
  exact List.dropWhile_append_of_pos hblank

theorem length_unpadded_le (cs : List Char) : (unpadded cs).length ≤ cs.length := (List.dropWhile_sublist _).length_le

/-! ### Strings -/

theorem on_hexDigit {n : Nat} (h : n < 16) : hexDigit.on (n.digitChar :: rest) = some (n, rest) := by
  obtain ⟨hdigit, hvalue⟩ :=
    (by decide : ∀ n < 16, isHexDigit n.digitChar = true ∧ digitValue n.digitChar = n) n h
  rw [hexDigit, on_bind, on_satisfy]
  simp only [hdigit, if_true, Option.bind_some, on_pure, hvalue]

theorem on_fourDigits {n : Nat} (h : n < 65536) :
    escape.on ('u' :: (fourDigits n ++ rest)) = some (.codeUnit n, rest) := by
  have hsum : n / 4096 % 16 * 4096 + n / 256 % 16 * 256 + n / 16 % 16 * 16 + n % 16 = n := by omega
  have hlt : ∀ m, m % 16 < 16 := fun m => Nat.mod_lt m (by decide)
  have hread : (do
      text "u"
      let a ← hexDigit
      let b ← hexDigit
      let c ← hexDigit
      let d ← hexDigit
      return .codeUnit (a * 4096 + b * 256 + c * 16 + d) : Parser Piece).on ('u' :: (fourDigits n ++ rest)) =
        some (.codeUnit n, rest) := by
    have hu : ∀ cs, (text "u").on ('u' :: cs) = some ((), cs) := fun _ => rfl
    simp only [fourDigits, List.map_cons, List.map_nil, List.cons_append, List.nil_append, on_bind, hu,
      on_hexDigit (hlt _), Option.bind_some, on_pure, hsum]
  simp only [escape, on_orElse, hread]
  rfl

theorem on_escapedPiece : piece.on ('\\' :: cs) = escape.on cs := rfl

/-- A piece is read from the characters that a character is written with, and spells it. -/
theorem on_piece (c : Char) (rest : List Char) :
    ∃ p, piece.on (escaped c ++ rest) = some (p, rest) ∧ ∀ ps, spell (p :: ps) = (spell ps).map (c :: ·) := by
  unfold escaped
  split
  -- Two more characters have an escape of two letters; what else controls the text is given by its code.
  case h_6 _ hquote hback _ _ _ =>
    split
    case isTrue h =>
      have hc : c = Char.ofNat 8 := by rw [← beq_iff_eq.mp h, Char.ofNat_toNat]
      exact ⟨.char c, by subst hc; rfl, fun _ => rfl⟩
    split
    case isTrue h =>
      have hc : c = Char.ofNat 12 := by rw [← beq_iff_eq.mp h, Char.ofNat_toNat]
      exact ⟨.char c, by subst hc; rfl, fun _ => rfl⟩
    split
    case isTrue h =>
      refine ⟨.codeUnit c.toNat, ?_, fun ps => ?_⟩
      · show piece.on ('\\' :: 'u' :: (fourDigits c.toNat ++ rest)) = _
        rw [on_escapedPiece, on_fourDigits (by omega)]
      · have hlow : isLowSurrogate c.toNat = false := by simp [isLowSurrogate]; omega
        have hhigh : isHighSurrogate c.toNat = false := by simp [isHighSurrogate]; omega
        rw [spell.eq_def]
        simp only [hlow, hhigh, Bool.false_eq_true, if_false, Char.ofNat_toNat]
    case isFalse h =>
      refine ⟨.char c, ?_, fun _ => rfl⟩
      have hplain : (32 ≤ c.toNat && c != '"' && c != '\\') = true := by
        simpa using ⟨⟨Nat.not_lt.mp h, hquote⟩, hback⟩
      rw [piece, on_orElse, on_bind, List.singleton_append, on_satisfy]
      simp only [hplain, if_true]
      rfl
  all_goals exact ⟨.char _, rfl, fun _ => rfl⟩

theorem escaped_ne_nil (c : Char) : escaped c ≠ [] := by
  unfold escaped
  repeat' split
  all_goals exact List.cons_ne_nil _ _

theorem on_pieces (cs rest : List Char) :
    ∃ ps, on (many piece) (cs.flatMap escaped ++ '"' :: rest) = some (ps, '"' :: rest) ∧ spell ps = some cs := by
  induction cs with
  | nil => exact ⟨[], by rw [on_many]; rfl, rfl⟩
  | cons c cs ih =>
    obtain ⟨ps, hps, hspell⟩ := ih
    obtain ⟨p, hp, hc⟩ := on_piece c (cs.flatMap escaped ++ '"' :: rest)
    have hlength := List.length_pos_of_ne_nil (escaped_ne_nil c)
    refine ⟨p :: ps, ?_, by rw [hc, hspell]; rfl⟩
    rw [on_many, List.flatMap_cons, List.append_assoc, hp]
    dsimp only
    rw [if_pos (by simp only [List.length_append]; omega), hps]
    rfl

theorem on_stringToken (s : String) (rest : List Char) :
    stringToken.on (quotedString s ++ rest) = some (some s, unpadded rest) := by
  refine on_token ?_
  obtain ⟨ps, hps, hspell⟩ := on_pieces s.toList rest
  have hquote : ∀ cs, (text "\"").on ('"' :: cs) = some ((), cs) := fun _ => rfl
  have htext : quotedString s ++ rest = '"' :: (s.toList.flatMap escaped ++ '"' :: rest) := by simp [quotedString]
  rw [htext, on_bind, hquote, Option.bind_some]
  refine (on_bind _ _ _).trans ?_
  rw [hps, Option.bind_some, on_bind, hquote, Option.bind_some, on_pure, hspell, Option.map_some, String.ofList_toList]

/-! ### Integers -/

/-- What stands behind an item: the end of the text, a comma or a line break. -/
def Ends (rest : List Char) : Prop := ∀ c ∈ rest.head?, c = ',' ∨ c = '\n'

theorem on_optional_none {α : Type} {p : Parser α} (h : p.on cs = none) : (optional p).on cs = some (none, cs) := by
  rw [on_optional, h]

/-- No character of a number is found where an item ends. -/
theorem Ends.on_text {t : String} (h : Ends rest) (ht : t.toList.head? ∉ [none, some ',', some '\n']) :
    (text t).on rest = none := by
  rw [text, on_exactly, if_neg]
  rintro ⟨more, rfl⟩
  cases hcs : t.toList with
  | nil => simp [hcs] at ht
  | cons c cs =>
    rcases h c (by simp [hcs]) with rfl | rfl <;> simp [hcs] at ht

theorem Ends.digit (h : Ends rest) : ∀ c ∈ rest.head?, c.isDigit = false := by
  intro c hc
  rcases h c hc with rfl | rfl <;> rfl

theorem digits_front (n : Nat) : ∃ c cs, Nat.toDigits 10 n = c :: cs ∧ c.isDigit = true := by
  by_cases hn : n = 0
  · exact ⟨'0', [], by subst hn; rfl, rfl⟩
  · obtain ⟨c, cs, hdigits, hc, -⟩ := toDigits_front hn
    exact ⟨c, cs, hdigits, hc⟩

/-- The digits of a number are read. -/
theorem on_digits (n : Nat) (h : Ends rest) :
    ((do text "0"; return ['0']) <|> someDigits : Parser (List Char)).on (Nat.toDigits 10 n ++ rest) =
      some (Nat.toDigits 10 n, rest) := by
  by_cases hn : n = 0
  · subst hn
    rfl
  · obtain ⟨c, cs, hdigits, hc, hzero, hcs⟩ := toDigits_front hn
    have htext : (text "0").on (c :: cs ++ rest) = none := by
      rw [text, on_exactly, if_neg]
      rintro ⟨more, hmore⟩
      exact hzero (List.head_eq_of_cons_eq hmore).symm
    have hrun : (run Char.isDigit).on (cs ++ rest) = some (cs, rest) := on_run_append hcs h.digit
    rw [hdigits, on_orElse, on_bind, htext, Option.bind_none, Option.none_or, someDigits, on_bind, List.cons_append,
      on_satisfy]
    simp only [hc, if_true, Option.bind_some, on_bind, hrun, on_pure]

theorem numberText_ofInt (n : Int) :
    numberText (.ofInt n) = (if n < 0 then ['-'] else []) ++ Nat.toDigits 10 n.natAbs := by
  simp [numberText, JsonNumber.ofInt]

theorem on_numberToken (n : Int) (h : Ends rest) :
    numberToken.on (numberText (.ofInt n) ++ rest) = some (.ofInt n, unpadded rest) := by
  refine on_token ?_
  have hwhole : (toString n.natAbs).toList = Nat.toDigits 10 n.natAbs := Nat.toList_repr
  have hsign : ∃ sign, (optional (text "-")).on (numberText (.ofInt n) ++ rest) =
      some (sign, Nat.toDigits 10 n.natAbs ++ rest) ∧ sign.isSome = decide (n < 0) := by
    rw [numberText_ofInt]
    by_cases hn : n < 0
    · exact ⟨some (), by rw [if_pos hn]; rfl, by simp [hn]⟩
    · refine ⟨none, ?_, by simp [hn]⟩
      rw [if_neg hn, List.nil_append]
      refine on_optional_none ?_
      obtain ⟨c, cs, hfront, hc⟩ := digits_front n.natAbs
      rw [hfront, text, on_exactly, if_neg]
      rintro ⟨more, hmore⟩
      obtain rfl : '-' = c := List.head_eq_of_cons_eq hmore
      cases hc
  obtain ⟨sign, hsign, hnegative⟩ := hsign
  -- Neither a point nor an exponent stands behind the digits.
  have hpoint : (optional (text ".")).on rest = some (none, rest) := on_optional_none (h.on_text (by decide))
  have hmark : (optional (text "e" <|> text "E")).on rest = some (none, rest) :=
    on_optional_none (by rw [on_orElse, h.on_text (by decide), h.on_text (by decide)]; rfl)
  rw [on_bind, hsign, Option.bind_some, on_bind, on_digits n.natAbs h, Option.bind_some, on_bind, hpoint,
    Option.bind_some]
  dsimp only
  rw [on_bind, on_pure, Option.bind_some, on_bind, hmark, Option.bind_some]
  dsimp only
  rw [on_bind, on_pure, Option.bind_some, on_pure, hnegative, JsonNumber.ofInt, hwhole]

/-! ### Values -/

/-- A value whose strings are text and whose numbers are integers of at most 64 bits. -/
inductive Plain : Json → Prop
  | null : Plain .null
  | bool (b : Bool) : Plain (.bool b)
  | int {n : Int} (h : n.natAbs < UInt64.size) : Plain (.int n)
  | str (s : String) : Plain (.str s)
  | array {items : List Json} (h : ∀ v ∈ items, Plain v) : Plain (.array items)
  | record {fields : List (String × Json)} (h : ∀ f ∈ fields, Plain f.2) : Plain (.record fields)

/-- What the text of a value can begin with. -/
def Opens (cs : List Char) : Prop := ∃ c more, cs = c :: more ∧ isBlank c = false ∧ c ≠ ']' ∧ c ≠ '}'

theorem Opens.unpadded (h : Opens cs) : Json.unpadded (cs ++ rest) = cs ++ rest := by
  obtain ⟨_, _, rfl, hc, -⟩ := h
  exact unpadded_cons hc

theorem opens_quotedString (s : String) : Opens (quotedString s) := ⟨_, _, rfl, by decide⟩

theorem opens_digit (h : c.isDigit = true) : isBlank c = false ∧ c ≠ ']' ∧ c ≠ '}' := by
  refine ⟨?_, ?_, ?_⟩
  · rw [isBlank, Bool.or_eq_false_iff, Bool.or_eq_false_iff, Bool.or_eq_false_iff]
    refine ⟨⟨⟨?_, ?_⟩, ?_⟩, ?_⟩ <;> exact beq_eq_false_iff_ne.mpr (by rintro rfl; cases h)
  all_goals
    rintro rfl
    cases h

theorem opens_numberText (n : Int) : Opens (numberText (.ofInt n)) := by
  rw [numberText_ofInt]
  by_cases hn : n < 0
  · exact ⟨'-', _, by rw [if_pos hn]; rfl, by decide⟩
  · obtain ⟨c, cs, hfront, hc⟩ := digits_front n.natAbs
    exact ⟨c, cs, by rw [if_neg hn, hfront]; rfl, opens_digit hc⟩

theorem Plain.opens {j : Json} (h : Plain j) (level : Nat) : Opens (pretty level j) := by
  cases h with
  | null => exact ⟨_, _, rfl, by decide⟩
  | bool b => cases b <;> exact ⟨_, _, rfl, by decide⟩
  | int _ => exact opens_numberText _
  | str s => exact opens_quotedString s
  | @array items h => cases items <;> exact ⟨_, _, rfl, by decide⟩
  | @record fields h => cases fields <;> exact ⟨_, _, rfl, by decide⟩

/-! ### Items of a list -/

/-- The items after the first of a list, each on a line of its own, and the closing bracket. -/
def behind (level : Nat) (close : Char) : List (List Char) → List Char
  | [] => lineBreak level ++ [close]
  | item :: items => ',' :: (lineBreak (level + 1) ++ item ++ behind level close items)

theorem prettyItems_eq (level : Nat) (v : Json) (vs : List Json) :
    prettyItems level (v :: vs) =
      lineBreak (level + 1) ++ pretty (level + 1) v ++ behind level ']' (vs.map (pretty (level + 1))) := by
  induction vs generalizing v with
  | nil => simp [prettyItems, behind]
  | cons w vs ih => rw [prettyItems, ih, List.map_cons, behind]

/-- A field as it is written on its line. -/
def fieldText (level : Nat) (f : JsonText × Json) : List Char := quotedText f.1 ++ ':' :: ' ' :: pretty level f.2

theorem prettyFields_eq (level : Nat) (f : JsonText × Json) (fs : List (JsonText × Json)) :
    prettyFields level (f :: fs) =
      lineBreak (level + 1) ++ fieldText (level + 1) f ++ behind level '}' (fs.map (fieldText (level + 1))) := by
  induction fs generalizing f with
  | nil => simp [prettyFields, behind, fieldText]
  | cons g fs ih => simp [prettyFields, ih, behind, fieldText]

theorem ends_behind (close : Char) (items : List (List Char)) : Ends (behind level close items ++ rest) := by
  cases items with
  | nil =>
    intro c hc
    cases hc
    exact .inr rfl
  | cons item items =>
    intro c hc
    cases hc
    exact .inl rfl

section Items
variable {α : Type} {item : Parser α} {shown : α → List Char} {close : Char} {a : α} {items : List α}

/-- The value is read from what it is shown as, wherever an item may stand. -/
structure Written (item : Parser α) (shown : α → List Char) (a : α) : Prop where
  opens : Opens (shown a)
  reads : ∀ {rest}, Ends rest → item.on (shown a ++ rest) = some (a, unpadded rest)

/-- What closes a list. -/
def Closes (close : Char) : Prop := close = ']' ∨ close = '}'

theorem Closes.on_close (h : Closes close) (rest : List Char) :
    (token (exactly [close])).on (close :: rest) = some ((), unpadded rest) := by
  rcases h with rfl | rfl
  · exact on_token (p := exactly [']']) rfl
  · exact on_token (p := exactly ['}']) rfl

theorem Closes.unpadded (h : Closes close) : Json.unpadded (close :: rest) = close :: rest := by
  rcases h with rfl | rfl <;> exact unpadded_cons rfl

theorem on_comma (cs : List Char) : (word ",").on (',' :: cs) = some ((), unpadded cs) := on_token (p := text ",") rfl

theorem Closes.on_comma (h : Closes close) : (word ",").on (close :: rest) = none := by
  rcases h with rfl | rfl <;> exact on_token_none (p := text ",") rfl

/-- The items after the first are read up to the closing bracket. -/
theorem on_behind (hclose : Closes close) (h : ∀ a ∈ items, Written item shown a) (rest : List Char) :
    on (many (do word ","; item)) (unpadded (behind level close (items.map shown) ++ rest)) =
      some (items, close :: rest) := by
  induction items with
  | nil =>
    have hstop : (do word ","; item).on (close :: rest) = none := by
      rw [on_bind, hclose.on_comma]
      rfl
    rw [List.map_nil, behind, List.append_assoc, unpadded_lineBreak, List.singleton_append, hclose.unpadded, on_many,
      hstop]
  | cons a items ih =>
    obtain ⟨ha, hitems⟩ := List.forall_mem_cons.mp h
    have hone : (do word ","; item).on (behind level close ((a :: items).map shown) ++ rest) =
        some (a, unpadded (behind level close (items.map shown) ++ rest)) := by
      rw [List.map_cons, behind, List.cons_append, on_bind, Json.on_comma, Option.bind_some, List.append_assoc,
        List.append_assoc, unpadded_lineBreak, ha.opens.unpadded, ha.reads (ends_behind _ _)]
    have hcomma : unpadded (behind level close ((a :: items).map shown) ++ rest) =
        behind level close ((a :: items).map shown) ++ rest := unpadded_cons rfl
    have hshorter : (unpadded (behind level close (items.map shown) ++ rest)).length <
        (behind level close ((a :: items).map shown) ++ rest).length := by
      refine Nat.lt_of_le_of_lt (length_unpadded_le _) ?_
      simp only [List.map_cons, behind, List.cons_append, List.length_cons, List.length_append]
      omega
    rw [hcomma, on_many, hone]
    dsimp only
    rw [if_pos hshorter, ih hitems]
    rfl

theorem on_items (hclose : Closes close) (ha : Written item shown a) (h : ∀ a ∈ items, Written item shown a) (rest : List Char) :
    (sepBy1 item (word ",")).on (shown a ++ (behind level close (items.map shown) ++ rest)) =
      some (a :: items, close :: rest) := by
  rw [sepBy1, on_bind, ha.reads (ends_behind _ _), Option.bind_some]
  refine (on_bind _ _ _).trans ?_
  rw [on_behind hclose h]
  rfl

/-- A list of items is read up to and with its closing bracket. -/
theorem on_commaSeparated (hclose : Closes close) (ha : Written item shown a) (h : ∀ a ∈ items, Written item shown a)
    (rest : List Char) :
    (commaSeparated item (token (exactly [close]))).on
        (unpadded (lineBreak (level + 1) ++ shown a ++ behind level close (items.map shown) ++ rest)) =
      some (a :: items, unpadded rest) := by
  have hfront : unpadded (lineBreak (level + 1) ++ shown a ++ behind level close (items.map shown) ++ rest) =
      shown a ++ (behind level close (items.map shown) ++ rest) := by
    rw [List.append_assoc, List.append_assoc, unpadded_lineBreak, ha.opens.unpadded]
  have hopen : (token (exactly [close])).on (shown a ++ (behind level close (items.map shown) ++ rest)) = none := by
    obtain ⟨c, more, hmore, -, hbracket, hbrace⟩ := ha.opens
    refine on_token_none ?_
    rw [hmore, on_exactly, if_neg]
    rintro ⟨tail, htail⟩
    obtain rfl : close = c := List.head_eq_of_cons_eq htail
    rcases hclose with rfl | rfl
    · exact hbracket rfl
    · exact hbrace rfl
  rw [hfront, commaSeparated, on_orElse, on_bind, hopen, Option.bind_none, Option.none_or, on_bind,
    on_items hclose ha h, Option.bind_some, on_bind, hclose.on_close]
  rfl

theorem on_nothing (hclose : Closes close) (rest : List Char) :
    (commaSeparated item (token (exactly [close]))).on (close :: rest) = some ([], unpadded rest) := by
  rw [commaSeparated, on_orElse, on_bind, hclose.on_close]
  rfl

end Items

/-! ### Texts within a text -/

section Within
variable {v : Json} {vs : List Json} {k : JsonText} {fs : List (JsonText × Json)}

/-- The text of an array has those of its items in it. -/
theorem infix_prettyItems (h : v ∈ vs) : pretty (level + 1) v <:+: prettyItems level vs := by
  induction vs with
  | nil => cases h
  | cons w vs ih =>
    cases vs with
    | nil =>
      obtain rfl := List.mem_singleton.mp h
      exact ⟨lineBreak (level + 1), lineBreak level ++ [']'], by simp [prettyItems]⟩
    | cons w' vs =>
      rcases List.mem_cons.mp h with rfl | h
      · exact ⟨lineBreak (level + 1), ',' :: prettyItems level (w' :: vs), by simp [prettyItems]⟩
      · refine (ih h).trans ⟨lineBreak (level + 1) ++ pretty (level + 1) w ++ [','], [], by simp [prettyItems]⟩

/-- The text of an object has those of its values in it. -/
theorem infix_prettyFields (h : (k, v) ∈ fs) : pretty (level + 1) v <:+: prettyFields level fs := by
  induction fs with
  | nil => cases h
  | cons f fs ih =>
    obtain ⟨k', w⟩ := f
    cases fs with
    | nil =>
      obtain ⟨rfl, rfl⟩ := Prod.mk.inj (List.mem_singleton.mp h)
      exact ⟨lineBreak (level + 1) ++ quotedText k ++ [':', ' '], lineBreak level ++ ['}'], by simp [prettyFields]⟩
    | cons f' fs =>
      rcases List.mem_cons.mp h with heq | h
      · obtain ⟨rfl, rfl⟩ := Prod.mk.inj heq
        exact ⟨lineBreak (level + 1) ++ quotedText k ++ [':', ' '], ',' :: prettyFields level (f' :: fs),
          by simp [prettyFields]⟩
      · refine (ih h).trans ⟨lineBreak (level + 1) ++ quotedText k' ++ [':', ' '] ++ pretty (level + 1) w ++ [','], [], ?_⟩
        simp [prettyFields]

theorem infix_array (h : v ∈ vs) : pretty (level + 1) v <:+: pretty level (.array vs) := by
  cases vs with
  | nil => cases h
  | cons w vs => exact (infix_prettyItems h).trans (List.suffix_cons _ _).isInfix

theorem infix_record (name : String) {fields : List (String × Json)} (h : (name, v) ∈ fields) :
    pretty (level + 1) v <:+: pretty level (.record fields) := by
  have hmem : (some name, v) ∈ fields.map fun f => (some f.1, f.2) := List.mem_map.mpr ⟨_, h, rfl⟩
  unfold record
  cases hfields : fields.map fun f => ((some f.1 : JsonText), f.2) with
  | nil =>
    rw [hfields] at hmem
    cases hmem
  | cons f fs =>
    rw [hfields] at hmem
    exact (infix_prettyFields hmem).trans (List.suffix_cons _ _).isInfix

end Within

/-! ### A whole text -/

section Whole
variable {p : Parser Json} {v j : Json} {f : JsonText × Json}

theorem on_string (p : Parser Json) (s : String) (rest : List Char) :
    (valueWith p).on (quotedString s ++ rest) = some (.str s, unpadded rest) := by
  have hdispatch : (valueWith p).on (quotedString s ++ rest) =
      (do let t ← stringToken; return .string t : Parser Json).on (quotedString s ++ rest) := rfl
  rw [hdispatch, on_bind, on_stringToken]
  rfl

/-- A value that begins like no other is a number. -/
theorem on_other (h : c ∉ ['"', '{', '[', 't', 'f', 'n']) :
    (valueWith p).on (c :: cs) = (do let n ← numberToken; return .number n : Parser Json).on (c :: cs) := by
  simp only [List.mem_cons, List.not_mem_nil, or_false, not_or] at h
  simp only [Parser.on, valueWith, Input.chars_ofChars, List.head?_cons]
  split <;> simp_all

theorem on_number (p : Parser Json) (n : Int) (h : Ends rest) :
    (valueWith p).on (numberText (.ofInt n) ++ rest) = some (.int n, unpadded rest) := by
  have hother : ∃ c cs, numberText (.ofInt n) ++ rest = c :: cs ∧ c ∉ ['"', '{', '[', 't', 'f', 'n'] := by
    rw [numberText_ofInt]
    by_cases hn : n < 0
    · exact ⟨'-', _, by rw [if_pos hn]; rfl, by decide⟩
    · obtain ⟨c, cs, hfront, hc⟩ := digits_front n.natAbs
      refine ⟨c, cs ++ rest, by rw [if_neg hn, hfront]; rfl, fun hmem => ?_⟩
      simp only [List.mem_cons, List.not_mem_nil, or_false] at hmem
      rcases hmem with rfl | rfl | rfl | rfl | rfl | rfl <;> cases hc
  have hread := on_numberToken n h
  obtain ⟨c, cs, hcs, hc⟩ := hother
  rw [hcs] at hread
  rw [hcs, on_other hc, on_bind, hread]
  rfl

theorem on_array (p : Parser Json) (cs : List Char) :
    (valueWith p).on ('[' :: cs) = ((commaSeparated p (token (exactly [']']))).on (unpadded cs)).map
      fun r => (.array r.1, r.2) := by
  have hdispatch : (valueWith p).on ('[' :: cs) = (do
      word "["
      let items ← commaSeparated p (word "]")
      return .array items : Parser Json).on ('[' :: cs) := rfl
  have hopen : (word "[").on ('[' :: cs) = some ((), unpadded cs) := on_token (p := text "[") rfl
  rw [hdispatch, on_bind, hopen, Option.bind_some, on_bind]
  exact Option.map_eq_bind.symm

/-- A field: its name, a colon and its value. -/
def field (p : Parser Json) : Parser (JsonText × Json) := do
  let k ← stringToken
  word ":"
  let v ← p
  return (k, v)

theorem on_object (p : Parser Json) (cs : List Char) :
    (valueWith p).on ('{' :: cs) = ((commaSeparated (field p) (token (exactly ['}']))).on (unpadded cs)).map
      fun r => (.object r.1, r.2) := by
  have hdispatch : (valueWith p).on ('{' :: cs) = (do
      exactly ['{']
      blanks
      let fields ← commaSeparated (field p) (token (exactly ['}']))
      return .object fields : Parser Json).on ('{' :: cs) := rfl
  have hopen : (exactly ['{']).on ('{' :: cs) = some ((), cs) := rfl
  rw [hdispatch, on_bind, hopen, Option.bind_some, on_bind, on_blanks, Option.bind_some, on_bind]
  exact Option.map_eq_bind.symm

/-- A field is written where its value is. -/
theorem Written.field {name : String} {level : Nat} (h : Written p (pretty level) j) :
    Written (field p) (fieldText level) (some name, j) where
  opens := ⟨_, _, rfl, by decide⟩
  reads {rest} hrest := by
    have htext : fieldText level (some name, j) ++ rest = quotedString name ++ (':' :: ' ' :: (pretty level j ++ rest)) := by
      simp [fieldText, quotedText]
    have hcolon : unpadded (':' :: ' ' :: (pretty level j ++ rest)) = ':' :: ' ' :: (pretty level j ++ rest) :=
      unpadded_cons rfl
    have hblank : unpadded (' ' :: (pretty level j ++ rest)) = pretty level j ++ rest := h.opens.unpadded
    have hword : ∀ cs, (word ":").on (':' :: cs) = some ((), unpadded cs) := fun _ => on_token (p := text ":") rfl
    rw [htext, Json.field, on_bind, on_stringToken, Option.bind_some, hcolon, on_bind, hword, Option.bind_some, hblank,
      on_bind, h.reads hrest]
    rfl

theorem on_literal {p : Parser Unit} {text : List Char} (h : p.on (text ++ rest) = some ((), rest)) :
    (do token p; return j : Parser Json).on (text ++ rest) = some (j, unpadded rest) := by
  rw [on_bind, on_token h]
  rfl

/-- A parser that goes into itself reads a value if it reads it with one step less for the values within. -/
theorem Plain.written_unfolded (h : Plain j) {level n : Nat} (hn : (pretty level j).length < n)
    (hread : ∀ {rest}, Ends rest →
      (valueWith (unfolded valueWith (n - 1))).on (pretty level j ++ rest) = some (j, unpadded rest)) :
    Written (unfolded valueWith n) (pretty level) j := by
  cases n with
  | zero => cases hn
  | succ n => exact ⟨h.opens level, hread⟩

/-- A plain value is read from its text, by a parser that may go into itself as often as the text has characters. -/
theorem Plain.written (h : Plain j) {level n : Nat} (hn : (pretty level j).length < n) :
    Written (unfolded valueWith n) (pretty level) j := by
  have hplain := h
  induction h generalizing level n with
  | null => exact hplain.written_unfolded hn fun _ => on_literal (p := text "null") rfl
  | bool b =>
    refine hplain.written_unfolded hn fun _ => ?_
    cases b
    · exact on_literal (p := text "false") rfl
    · exact on_literal (p := text "true") rfl
  | int _ => exact hplain.written_unfolded hn fun hrest => on_number _ _ hrest
  | str s => exact hplain.written_unfolded hn fun _ => on_string _ s _
  | @array items h ih =>
    refine hplain.written_unfolded hn fun {rest} _ => ?_
    cases items with
    | nil =>
      refine (on_array _ (']' :: rest)).trans ?_
      rw [unpadded_cons rfl, on_nothing (.inl rfl)]
      rfl
    | cons v vs =>
      -- An item is shorter than the whole text, so that it may be unfolded once less.
      have hitem : ∀ w ∈ v :: vs, Written (unfolded valueWith (n - 1)) (pretty (level + 1)) w := by
        intro w hw
        have hwithin : (pretty (level + 1) w).length ≤ (prettyItems level _).length := (infix_prettyItems hw).length_le
        have hwhole : (pretty level (.array (v :: vs))).length = (prettyItems level (v :: vs)).length + 1 := rfl
        exact ih w hw (by omega) (h w hw)
      obtain ⟨hv, hvs⟩ := List.forall_mem_cons.mp hitem
      refine (on_array _ (prettyItems level (v :: vs) ++ rest)).trans ?_
      rw [prettyItems_eq, on_commaSeparated (.inl rfl) hv hvs]
      rfl
  | @record fields h ih =>
    refine hplain.written_unfolded hn fun {rest} _ => ?_
    have hfield : ∀ g ∈ fields.map fun f => ((some f.1, f.2) : JsonText × Json),
        (prettyFields level (fields.map fun f => (some f.1, f.2))).length < n - 1 →
          Written (field (unfolded valueWith (n - 1))) (fieldText (level + 1)) g := by
      intro g hg hlength
      obtain ⟨f, hf, rfl⟩ := List.mem_map.mp hg
      have hwithin : (pretty (level + 1) f.2).length ≤ _ := (infix_prettyFields hg).length_le
      exact (ih f hf (by omega) (h f hf)).field
    unfold Json.record at hn ⊢
    cases hfields : fields.map fun f => ((some f.1, f.2) : JsonText × Json) with
    | nil =>
      refine (on_object _ ('}' :: rest)).trans ?_
      rw [unpadded_cons rfl, on_nothing (.inr rfl)]
      rfl
    | cons g gs =>
      rw [hfields] at hfield hn
      have hwhole : (pretty level (.object (g :: gs))).length = (prettyFields level (g :: gs)).length + 1 := rfl
      obtain ⟨hg, hgs⟩ := List.forall_mem_cons.mp fun g' hg' => hfield g' hg' (by omega)
      refine (on_object _ (prettyFields level (g :: gs) ++ rest)).trans ?_
      rw [prettyFields_eq, on_commaSeparated (.inr rfl) hg hgs]
      rfl

/-- What is written as JSON is read back. -/
theorem parse?_toPretty (h : Plain j) : parse? j.toPretty = some j := by
  have hends : Ends [] := fun c hc => by cases hc
  have hread := (h.written (Nat.lt_succ_self (pretty 0 j).length)).reads hends
  rw [List.append_nil] at hread
  have hwhole : valueText.on (pretty 0 j) = some (j, []) := by
    rw [valueText, on_bind, on_blanks, Option.bind_some, ← List.append_nil (pretty 0 j), (h.opens 0).unpadded,
      List.append_nil]
    exact hread
  rw [parse?, toPretty, String.toList_ofList, parseAll_eq_ok hwhole]
  rfl

end Whole

end EngineBridge.Json
