import EngineBridge.Proofs.Source.Ahead
import EngineBridge.Proofs.Text.Digits
import Mathlib.Data.Nat.Digits.Lemmas

/-! What is read of integers as they are written in a source text.

A number that 64 bits with a sign can hold, and that is written without a zero in front, is read as itself. Of any other
nothing is read, or what is read stops within its digits. -/

namespace EngineBridge

theorem numberOfDigits_eq_ofDigits (base : Nat) (ds : List Char) :
    numberOfDigits base ds = Nat.ofDigits base (ds.reverse.map digitValue) := by
  induction ds using List.reverseRecOn with
  | nil => rfl
  | append_singleton ds d ih =>
    rw [numberOfDigits, List.foldl_concat, ← numberOfDigits, ih, List.reverse_concat, List.map_cons, Nat.ofDigits_cons]
    ring

namespace Source
open EngineBridge.Parser

/-! ### Literals -/

/-- One digit or more. -/
structure Digits (isDigit : Char → Bool) where
  first : Char
  more : List Char
  valid : ∀ d ∈ first :: more, isDigit d = true

namespace Digits
variable {isDigit : Char → Bool}

def chars (ds : Digits isDigit) : List Char := ds.first :: ds.more

/-- The number that they stand for. The last digit counts least. -/
def number (ds : Digits isDigit) (base : Nat) : Nat := Nat.ofDigits base (ds.chars.reverse.map digitValue)

/-- A zero stands in front of another digit. -/
def LeadingZero (ds : Digits isDigit) : Prop := ds.first = '0' ∧ ds.more ≠ []

end Digits

/-- An integer as it is written, to the base ten or sixteen. -/
inductive IntLiteral
  | decimal (negative : Bool) (ds : Digits Char.isDigit)
  | hexadecimal (mark : Char) (hmark : mark ∈ ['x', 'X']) (ds : Digits isHexDigit)

namespace IntLiteral

def chars : IntLiteral → List Char
  | decimal negative ds => (if negative then ['-'] else []) ++ ds.chars
  | hexadecimal mark _ ds => '0' :: mark :: ds.chars

/-- The integer that it stands for. -/
def value : IntLiteral → Int
  | decimal negative ds => if negative then -(ds.number 10 : Int) else ds.number 10
  | hexadecimal _ _ ds => ds.number 16

def LeadingZero : IntLiteral → Prop
  | decimal _ ds => ds.LeadingZero
  | hexadecimal _ _ ds => ds.LeadingZero

/-- It has no zero in front, and 64 bits with a sign can hold it. -/
structure Plain (l : IntLiteral) : Prop where
  noZero : ¬ l.LeadingZero
  least : -2 ^ 63 ≤ l.value
  greatest : l.value < 2 ^ 63

end IntLiteral

/-! ### Reading digits -/

section
variable {isDigit : Char → Bool} {ds : Digits isDigit} {rest : List Char}

theorem on_digits_of_plain (h : ¬ ds.LeadingZero) (hrest : ∀ c ∈ rest.head?, isDigit c = false) :
    (digits isDigit).on (ds.chars ++ rest) = some (ds.chars, rest) := by
  obtain ⟨first, more, hvalid⟩ := ds
  obtain ⟨hfirst, hmore⟩ := List.forall_mem_cons.mp hvalid
  by_cases hzero : first = '0'
  · obtain rfl : more = [] := by_contra fun hne => h ⟨hzero, hne⟩
    subst hzero
    simp [digits, Digits.chars, on_orElse, on_bind, on_satisfy, text, on_exactly]
  · rw [digits, on_orElse, on_bind, Digits.chars, List.cons_append, on_satisfy]
    simp [hfirst, hzero, on_bind, on_run_append hmore hrest]

/-- A zero stands alone. -/
theorem on_digits_of_leadingZero (h : ds.LeadingZero) : (digits isDigit).on (ds.chars ++ rest) = some (['0'], ds.more ++ rest) := by
  obtain ⟨first, more, hvalid⟩ := ds
  obtain ⟨rfl, -⟩ := h
  simp [digits, Digits.chars, on_orElse, on_bind, on_satisfy, text, on_exactly]

end

theorem inRange_eq_ok {n : Int} {v : Int64} : inRange n = .ok v ↔ v.toInt = n := by
  constructor
  · intro h
    unfold inRange at h
    split at h
    · cases h
    split at h
    · cases h
    · next hgreatest hleast =>
      cases h
      have hmax : Int64.maxValue.toInt = 2 ^ 63 - 1 := by decide
      have hmin : Int64.minValue.toInt = -2 ^ 63 := by decide
      exact Int64.toInt_ofInt_of_le (by omega) (by omega)
  · rintro rfl
    exact inRange_toInt v

theorem exists_inRange_iff {n : Int} : (∃ v, inRange n = .ok v) ↔ -2 ^ 63 ≤ n ∧ n < 2 ^ 63 := by
  constructor
  · rintro ⟨v, h⟩
    rw [← inRange_eq_ok.mp h]
    exact ⟨v.le_toInt, v.toInt_lt⟩
  · rintro ⟨hleast, hgreatest⟩
    exact ⟨Int64.ofInt n, inRange_eq_ok.mpr (Int64.toInt_ofInt_of_le hleast hgreatest)⟩

/-! ### Reading literals -/

/-- An integer without blanks around it. -/
def number : Parser Int64 := hexLiteral <|> decimalLiteral

theorem integerLiteral_eq : integerLiteral = padded number := rfl

/-- The integer, if it can be kept, and what is left. -/
def kept (n : Int) (rest : List Char) : Option (Int64 × List Char) := (inRange n).toOption.map fun v => (v, rest)

theorem exists_kept {n : Int} (h : -2 ^ 63 ≤ n ∧ n < 2 ^ 63) (rest : List Char) :
    ∃ v, kept n rest = some (v, rest) ∧ v.toInt = n := by
  obtain ⟨v, hv⟩ := exists_inRange_iff.mpr h
  refine ⟨v, ?_, inRange_eq_ok.mp hv⟩
  rw [kept, hv]
  rfl

theorem kept_eq_none {n : Int} (h : ¬ (-2 ^ 63 ≤ n ∧ n < 2 ^ 63)) (rest : List Char) : kept n rest = none := by
  cases hv : inRange n with
  | ok v => exact absurd (exists_inRange_iff.mp ⟨v, hv⟩) h
  | error e =>
    rw [kept, hv]
    rfl

section
variable {read left rest cs : List Char} {mark : Char}

theorem on_decimalLiteral_of_digits (negative : Bool) (hread : (digits Char.isDigit).on cs = some (read, left))
    (hcs : cs.head? ≠ some '-') : decimalLiteral.on ((if negative then ['-'] else []) ++ cs) =
      kept (if negative then -(numberOfDigits 10 read : Int) else numberOfDigits 10 read) left := by
  have hsign : (optional (text "-")).on ((if negative then ['-'] else []) ++ cs) =
      some (if negative then some () else none, cs) := by
    rw [on_optional, text, on_exactly]
    cases negative with
    | true => simp
    | false =>
      have hnone : ¬ ['-'] <+: cs := by
        rintro ⟨rest, rfl⟩
        exact hcs rfl
      simp [hnone]
  rw [decimalLiteral, on_checked, on_bind, hsign, Option.bind_some, on_bind, hread]
  cases negative <;> rfl

theorem on_hexLiteral_of_digits (hmark : mark ∈ ['x', 'X']) (hread : (digits isHexDigit).on cs = some (read, left)) :
    hexLiteral.on ('0' :: mark :: cs) = kept (numberOfDigits 16 read) left := by
  have hfront : (text "0x" <|> text "0X" : Parser Unit).on ('0' :: mark :: cs) = some ((), cs) := by
    rw [on_orElse, text, text, on_exactly, on_exactly]
    simp only [List.mem_cons, List.not_mem_nil, or_false] at hmark
    rcases hmark with rfl | rfl <;> simp
  rw [hexLiteral, on_bind, hfront, Option.bind_some, on_checked, hread]
  rfl

/-- Digits to the base ten are not taken for those to the base sixteen. -/
theorem on_hexLiteral_of_decimal (negative : Bool) (ds : Digits Char.isDigit) (hrest : Breaks rest) :
    hexLiteral.on ((if negative then ['-'] else []) ++ (ds.chars ++ rest)) = none := by
  have hmark : ∀ x, isIdentifierPart x = true → x.isDigit = false →
      (exactly ['0', x]).on ((if negative then ['-'] else []) ++ (ds.chars ++ rest)) = none := by
    intro x hx hdigit
    rw [on_exactly, if_neg]
    rintro ⟨tail, htail⟩
    cases negative with
    | true => cases htail
    | false =>
      obtain ⟨first, more, hvalid⟩ := ds
      obtain ⟨-, hmore⟩ := List.forall_mem_cons.mp hvalid
      have hbehind : x :: tail = more ++ rest := (List.cons.inj htail).2
      cases more with
      | nil =>
        rw [(hrest x (by rw [← List.nil_append rest, ← hbehind]; rfl)).1] at hx
        cases hx
      | cons d more =>
        rw [(List.cons.inj hbehind).1, hmore d List.mem_cons_self] at hdigit
        cases hdigit
  have hnone : (text "0x" <|> text "0X" : Parser Unit).on ((if negative then ['-'] else []) ++ (ds.chars ++ rest)) = none :=
    (on_orElse_of_none (hmark 'x' rfl rfl)).trans (hmark 'X' rfl rfl)
  exact on_bind_of_none hnone

end

theorem isIdentifierPart_of_isHexDigit {c : Char} (h : isHexDigit c = true) : isIdentifierPart c = true := by
  simp only [isHexDigit, Bool.or_eq_true, Bool.and_eq_true, decide_eq_true_eq, Char.le_def, UInt32.le_iff_toNat_le] at h
  rcases h with (h | ⟨hleast, hgreatest⟩) | ⟨hleast, hgreatest⟩
  · exact isIdentifierPart_of_isDigit h
  · rw [← Char.ofNat_toNat c]
    exact (by decide : ∀ n ≤ 102, 97 ≤ n → isIdentifierPart (Char.ofNat n) = true) _ hgreatest hleast
  · rw [← Char.ofNat_toNat c]
    exact (by decide : ∀ n ≤ 70, 65 ≤ n → isIdentifierPart (Char.ofNat n) = true) _ hgreatest hleast

theorem Breaks.not_digit {isDigit : Char → Bool} (hpart : ∀ {c}, isDigit c = true → isIdentifierPart c = true)
    {rest : List Char} (h : Breaks rest) : ∀ c ∈ rest.head?, isDigit c = false := fun c hc =>
  Bool.eq_false_iff.mpr fun hdigit => by
    have hbreaks := (h c hc).1
    rw [hpart hdigit] at hbreaks
    cases hbreaks

namespace Digits
variable {isDigit : Char → Bool} {ds : Digits isDigit} {base : Nat}

theorem numberOfDigits_chars : numberOfDigits base ds.chars = ds.number base := numberOfDigits_eq_ofDigits base ds.chars

/-- Of digits behind a zero, the first is left. -/
theorem LeadingZero.left (h : ds.LeadingZero) (hpart : ∀ {c}, isDigit c = true → isIdentifierPart c = true) (rest : List Char) :
    ∃ c cs, ds.more ++ rest = c :: cs ∧ isIdentifierPart c = true := by
  obtain ⟨c, cs, hmore⟩ := List.exists_cons_of_ne_nil h.2
  exact ⟨c, cs ++ rest, by rw [hmore, List.cons_append], hpart (ds.valid c (by simp [hmore]))⟩

end Digits

namespace IntLiteral
variable {l : IntLiteral} {rest : List Char}

theorem head_decimal (ds : Digits Char.isDigit) (cs : List Char) : (ds.chars ++ cs).head? ≠ some '-' := by
  rintro heq
  have hdigit := ds.valid ds.first List.mem_cons_self
  rw [Option.some.inj heq] at hdigit
  cases hdigit

section
variable {negative : Bool} {mark : Char} {hmark : mark ∈ ['x', 'X']} {read left : List Char}

theorem on_number_decimal {ds : Digits Char.isDigit} (hread : (digits Char.isDigit).on (ds.chars ++ rest) = some (read, left))
    (hrest : Breaks rest) : number.on ((decimal negative ds).chars ++ rest) =
      kept (if negative then -(numberOfDigits 10 read : Int) else numberOfDigits 10 read) left := by
  rw [chars, List.append_assoc]
  exact (on_orElse_of_none (on_hexLiteral_of_decimal negative ds hrest)).trans
    (on_decimalLiteral_of_digits negative hread (head_decimal ds rest))

theorem on_hexLiteral_hexadecimal {ds : Digits isHexDigit}
    (hread : (digits isHexDigit).on (ds.chars ++ rest) = some (read, left)) :
    hexLiteral.on ((hexadecimal mark hmark ds).chars ++ rest) = kept (numberOfDigits 16 read) left := by
  rw [chars, List.cons_append, List.cons_append]
  exact on_hexLiteral_of_digits hmark hread

end

theorem on_number_of_plain (h : l.Plain) (hrest : Breaks rest) :
    ∃ v, number.on (l.chars ++ rest) = some (v, rest) ∧ v.toInt = l.value := by
  obtain ⟨v, hkept, hvalue⟩ := exists_kept ⟨h.least, h.greatest⟩ rest
  refine ⟨v, ?_, hvalue⟩
  cases l with
  | decimal negative ds =>
    have hread := on_digits_of_plain h.noZero (hrest.not_digit isIdentifierPart_of_isDigit)
    rw [on_number_decimal hread hrest, Digits.numberOfDigits_chars]
    exact hkept
  | hexadecimal mark hmark ds =>
    have hread := on_digits_of_plain h.noZero (hrest.not_digit isIdentifierPart_of_isHexDigit)
    refine on_orElse_of_some ((on_hexLiteral_hexadecimal hread).trans ?_)
    rw [Digits.numberOfDigits_chars]
    exact hkept

theorem on_number_of_leadingZero (h : l.LeadingZero) (hrest : Breaks rest) :
    ∃ v c cs, number.on (l.chars ++ rest) = some (v, c :: cs) ∧ isIdentifierPart c = true := by
  obtain ⟨v, hkept⟩ : ∃ v, ∀ left, kept 0 left = some (v, left) := ⟨0, fun _ => rfl⟩
  cases l with
  | decimal negative ds =>
    obtain ⟨c, cs, hleft, hpart⟩ := Digits.LeadingZero.left h isIdentifierPart_of_isDigit rest
    refine ⟨v, c, cs, ?_, hpart⟩
    rw [on_number_decimal (on_digits_of_leadingZero h) hrest, hleft, ← hkept]
    cases negative <;> rfl
  | hexadecimal mark hmark ds =>
    obtain ⟨c, cs, hleft, hpart⟩ := Digits.LeadingZero.left h isIdentifierPart_of_isHexDigit rest
    refine ⟨v, c, cs, on_orElse_of_some ((on_hexLiteral_hexadecimal (on_digits_of_leadingZero h)).trans ?_), hpart⟩
    rw [hleft, ← hkept]
    rfl

/-- Where digits to the base sixteen are too many, the zero in front of the mark is read to the base ten. -/
theorem on_number_of_wide (hzero : ¬ l.LeadingZero) (h : ¬ (-2 ^ 63 ≤ l.value ∧ l.value < 2 ^ 63)) (hrest : Breaks rest) :
    number.on (l.chars ++ rest) = none ∨
      ∃ v c cs, number.on (l.chars ++ rest) = some (v, c :: cs) ∧ isIdentifierPart c = true := by
  cases l with
  | decimal negative ds =>
    have hread := on_digits_of_plain hzero (hrest.not_digit isIdentifierPart_of_isDigit)
    refine .inl ((on_number_decimal hread hrest).trans ?_)
    rw [Digits.numberOfDigits_chars]
    exact kept_eq_none h rest
  | hexadecimal mark hmark ds =>
    have hread := on_digits_of_plain hzero (hrest.not_digit isIdentifierPart_of_isHexDigit)
    have hnone : hexLiteral.on ('0' :: mark :: (ds.chars ++ rest)) = none := by
      rw [on_hexLiteral_of_digits hmark hread, Digits.numberOfDigits_chars]
      exact kept_eq_none h rest
    have hfirst : (digits Char.isDigit).on ('0' :: mark :: (ds.chars ++ rest)) = some (['0'], mark :: (ds.chars ++ rest)) := by
      simp [digits, on_orElse, on_bind, on_satisfy, text, on_exactly]
    have hdecimal := on_decimalLiteral_of_digits false hfirst (by simp)
    refine .inr ⟨0, mark, ds.chars ++ rest, (on_orElse_of_none hnone).trans hdecimal, ?_⟩
    simp only [List.mem_cons, List.not_mem_nil, or_false] at hmark
    rcases hmark with rfl | rfl <;> rfl

/-- Of another literal nothing is read, or not all of it. -/
theorem on_number_of_not_plain (h : ¬ l.Plain) (hrest : Breaks rest) : number.on (l.chars ++ rest) = none ∨
    ∃ v c cs, number.on (l.chars ++ rest) = some (v, c :: cs) ∧ isIdentifierPart c = true := by
  by_cases hzero : l.LeadingZero
  · exact .inr (on_number_of_leadingZero hzero hrest)
  · exact on_number_of_wide hzero (fun hfits => h ⟨hzero, hfits.1, hfits.2⟩) hrest

theorem solid : Solid (l.chars ++ rest) := by
  have hdigit : ∀ {c : Char}, c.isDigit = true → c ∉ gapStarts := fun h hc => by fin_cases hc <;> cases h
  cases l with
  | decimal negative ds =>
    cases negative with
    | true => exact solid_cons (by decide)
    | false => exact solid_cons (hdigit (ds.valid ds.first List.mem_cons_self))
  | hexadecimal => exact solid_cons (by decide)

section
variable {gap : List Char} (hends : Ends gap rest)
include hends

theorem on_integerLiteral_of_plain (h : l.Plain) :
    ∃ v, integerLiteral.on (l.chars ++ (gap ++ rest)) = some (v, rest) ∧ v.toInt = l.value := by
  obtain ⟨v, hread, hvalue⟩ := on_number_of_plain h hends.breaks
  refine ⟨v, ?_, hvalue⟩
  rw [integerLiteral_eq]
  refine (on_bind_of_some (on_trivia_of_solid solid)).trans ((on_bind_of_some hread).trans ?_)
  exact on_bind_of_some (on_trivia hends.between hends.solid)

theorem on_integerLiteral_of_not_plain (h : ¬ l.Plain) : integerLiteral.on (l.chars ++ (gap ++ rest)) = none ∨
    ∃ v c cs, integerLiteral.on (l.chars ++ (gap ++ rest)) = some (v, c :: cs) ∧ isIdentifierPart c = true := by
  rw [integerLiteral_eq]
  rcases on_number_of_not_plain h hends.breaks with hnone | ⟨v, c, cs, hread, hpart⟩
  · exact .inl (on_padded_of_none solid hnone)
  · have hsolid : Solid (c :: cs) := solid_cons fun hc => by
      fin_cases hc <;> revert hpart <;> decide
    refine .inr ⟨v, c, cs, ?_, hpart⟩
    refine (on_bind_of_some (on_trivia_of_solid solid)).trans ((on_bind_of_some hread).trans ?_)
    exact on_bind_of_some (on_trivia_of_solid hsolid)

end

end IntLiteral

end Source
end EngineBridge
