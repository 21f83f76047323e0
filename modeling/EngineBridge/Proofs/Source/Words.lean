import EngineBridge.Proofs.Source.Reading
import EngineBridge.Source.Grammar
import Mathlib.Tactic.FinCases

/-! The parsers that read one token each: marks, names, quoted texts and numbers. -/

namespace EngineBridge.Source
open EngineBridge.Parser

variable {α : Type}

/-- The parser reads the token, whatever follows it. A word must be cut off. -/
def Reads (p : Parser α) (t : Token) (a : α) : Prop :=
  ∀ rest, (t.IsWord → Breaks rest) → p.on (t.chars ++ rest) = some (a, rest)

section
variable {p : Parser α} {t : Token} {ts : List Token} {a : α} {s k : String} {c : Char}

theorem Reads.padded (h : Reads p t a) (ts : List Token) : Takes (padded p) (t :: ts) a ts := by
  intro cs hcs
  have hvalid := hcs.valid t List.mem_cons_self
  have hbefore : trivia.on cs = some ((), cs) := on_trivia .none hcs.solid
  obtain ⟨gap, rest, rfl, hgap, hrest, hbreaks⟩ := hcs.split
  have hbehind : trivia.on (gap ++ rest) = some ((), rest) := on_trivia hgap hrest.solid
  refine ⟨rest, hrest, ?_, ?_⟩
  · simp only [Source.padded, on_bind, hbefore, Option.bind_some, h _ hbreaks, hbehind, on_pure]
  · have hpos := hvalid.length_pos
    simp only [List.length_append, List.length_cons]
    omega

theorem Refuses.padded (h : Refuses p ts) : Refuses (padded p) ts := by
  intro cs hcs
  have hbefore : trivia.on cs = some ((), cs) := on_trivia .none hcs.solid
  simp only [Source.padded, on_bind, hbefore, Option.bind_some, h cs hcs, Option.bind_none]

/-- A character that no token ahead begins with. -/
theorem refuses_satisfy {test : Char → Bool} (h : ∀ t ∈ ts.head?, ∀ c, t.Begins c → test c = false) :
    Refuses (satisfy test) ts := by
  intro cs hcs
  have hfront := hcs.front
  rw [on_satisfy]
  cases cs with
  | nil => rfl
  | cons c cs =>
    obtain ⟨t, ht, hbegins⟩ := hfront c rfl
    simp [h t ht c hbegins]

/-! ### Marks -/

theorem Token.Begins.eq_mark (h : t.Begins c) (hc : c ∈ marks) : t = .mark c := by
  cases t with
  | name s => fin_cases hc <;> cases h
  | quoted s => fin_cases hc <;> cases h
  | number n => fin_cases hc <;> rcases h with h | h <;> cases h
  | mark d => rw [h.1]

theorem reads_mark (hs : s.toList = [c]) : Reads (text s) (.mark c) () := fun rest _ => by
  rw [text, hs, on_exactly]
  simp [Token.chars]

theorem takes_symbol (c : Char) (hs : s.toList = [c]) (ts : List Token) : Takes (symbol s) (.mark c :: ts) () ts :=
  (reads_mark hs).padded ts

theorem takes_openBrace (ts : List Token) : Takes openBrace (.mark '{' :: ts) () ts :=
  takes_symbol (s := "\x7b") '{' rfl ts

theorem takes_closeBrace (ts : List Token) : Takes closeBrace (.mark '}' :: ts) () ts :=
  takes_symbol (s := "\x7d") '}' rfl ts

theorem refuses_symbol {cs : List Char} (c : Char) (hs : s.toList = c :: cs) (hc : c ∈ marks)
    (h : ts.head? ≠ some (.mark c)) : Refuses (symbol s) ts := by
  have hfirst : Refuses (satisfy (· == c)) ts := refuses_satisfy fun t ht d hbegins =>
    beq_eq_false_iff_ne.mpr fun hd => h ((hd ▸ hbegins).eq_mark hc ▸ ht)
  have htext : Refuses (text s) ts := by
    rw [text, hs]
    exact hfirst.bind
  exact htext.padded

/-! ### Names -/

theorem on_word {rest : List Char} (hs : IsIdentifier s) (hrest : ∀ c ∈ rest.head?, isIdentifierPart c = false) :
    word.on (s.toList ++ rest) = some (s, rest) := by
  obtain ⟨c, cs, hchars, hstart, hparts⟩ := isIdentifier_cons hs
  rw [word, on_bind, hchars, List.cons_append, on_satisfy]
  simp only [hstart, if_true, Option.bind_some, on_bind, on_run_append hparts hrest, on_pure, ← hchars,
    String.ofList_toList]

theorem reads_word (hs : IsIdentifier s) : Reads word (.name s) s := fun _ hrest =>
  on_word hs fun c hc => (hrest trivial c hc).1

theorem not_isIdentifierStart_of_isDigit (h : c.isDigit = true) : isIdentifierStart c = false := by
  obtain ⟨hlow, hhigh⟩ := Char.isDigit_iff_toNat.mp h
  rw [← Char.ofNat_toNat c]
  exact (by decide : ∀ n ≤ 57, 48 ≤ n → isIdentifierStart (Char.ofNat n) = false) _ hhigh hlow

theorem isIdentifierPart_of_isDigit (h : c.isDigit = true) : isIdentifierPart c = true := by
  obtain ⟨hlow, hhigh⟩ := Char.isDigit_iff_toNat.mp h
  rw [← Char.ofNat_toNat c]
  exact (by decide : ∀ n ≤ 57, 48 ≤ n → isIdentifierPart (Char.ofNat n) = true) _ hhigh hlow

theorem Token.Begins.not_start (h : t.Begins c) (ht : ∀ s, t ≠ .name s) : isIdentifierStart c = false := by
  cases t with
  | name s => exact absurd rfl (ht s)
  | quoted s =>
    obtain rfl : c = '"' := h
    rfl
  | number n =>
    rcases h with rfl | hdigit
    · rfl
    · exact not_isIdentifierStart_of_isDigit hdigit
  | mark d =>
    obtain ⟨rfl, hd⟩ := h
    fin_cases hd <;> decide

theorem refuses_word (h : ∀ s, ts.head? ≠ some (.name s)) : Refuses word ts := by
  have hfirst : Refuses (satisfy isIdentifierStart) ts := refuses_satisfy fun t ht c hbegins =>
    hbegins.not_start fun s hs => h s (hs ▸ ht)
  exact hfirst.bind

/-- What reads a word and goes on with it fails where a name is ahead that it cannot go on with. -/
theorem refuses_of_word {q : Parser α} (hq : ∀ cs, word.on cs = none → q.on cs = none)
    (h : ∀ s, ts.head? = some (.name s) → IsIdentifier s ∧ ∀ cs rest, word.on cs = some (s, rest) → q.on cs = none) :
    Refuses q ts := by
  intro cs hcs
  by_cases hname : ∃ s, ts.head? = some (.name s)
  · obtain ⟨s, hs⟩ := hname
    obtain ⟨us, rfl⟩ := List.head?_eq_some_iff.mp hs
    obtain ⟨hident, hfails⟩ := h s rfl
    obtain ⟨gap, rest, rfl, -, -, hbreaks⟩ := hcs.split
    exact hfails _ _ (reads_word hident _ hbreaks)
  · exact hq cs (refuses_word (fun s hs => hname ⟨s, hs⟩) cs hcs)

theorem reads_keyword (hk : IsIdentifier k) : Reads (do let _ ← filtered word (· == k)) (.name k) () := fun rest hrest => by
  rw [on_bind, on_filtered, reads_word hk rest hrest, Option.filter_some, if_pos (beq_self_eq_true k)]
  rfl

theorem takes_keyword (hk : IsIdentifier k) (ts : List Token) : Takes (keyword k) (.name k :: ts) () ts :=
  (reads_keyword hk).padded ts

theorem refuses_keyword (h : ∀ s, ts.head? = some (.name s) → IsIdentifier s ∧ s ≠ k) : Refuses (keyword k) ts := by
  have hfilter : Refuses (filtered word (· == k)) ts :=
    refuses_of_word (fun cs hcs => by rw [on_filtered, hcs]; rfl) fun s hs =>
      ⟨(h s hs).1, fun cs rest hword => by rw [on_filtered, hword]; simp [(h s hs).2]⟩
  exact hfilter.bind.padded

theorem reads_modifier (hs : IsIdentifier s) (hmem : s ∈ modifierWords) :
    Reads (checked word fun w => if modifierWords.contains w then .ok w else .error ("'" ++ w ++ "' is not a modifier"))
      (.name s) s := fun rest hrest => by
  rw [on_checked, reads_word hs rest hrest, Option.bind_some, if_pos (List.contains_iff_mem.mpr hmem)]
  rfl

theorem takes_modifier (hs : IsIdentifier s) (hmem : s ∈ modifierWords) (ts : List Token) :
    Takes modifier (.name s :: ts) s ts := (reads_modifier hs hmem).padded ts

theorem refuses_modifier (h : ∀ s, ts.head? = some (.name s) → IsIdentifier s ∧ s ∉ modifierWords) :
    Refuses modifier ts := by
  refine (refuses_of_word (fun cs hcs => ?_) fun s hs => ⟨(h s hs).1, fun cs rest hword => ?_⟩).padded
  · rw [on_checked, hcs]
    rfl
  · rw [on_checked, hword, Option.bind_some, if_neg (mt List.contains_iff_mem.mp (h s hs).2)]
    rfl

theorem refuses_at (ts : List Token) : Refuses (text "@") ts := by
  have hfirst : Refuses (satisfy (· == '@')) ts := refuses_satisfy fun t _ c hbegins => by
    refine beq_eq_false_iff_ne.mpr fun hc => ?_
    subst hc
    cases t with
    | name s => cases hbegins
    | quoted s => cases hbegins
    | number n => rcases hbegins with hc | hc <;> cases hc
    | mark d =>
      obtain ⟨rfl, hd⟩ := hbegins
      exact absurd hd (by decide)
  exact hfirst.bind

theorem reads_identifier (hs : IsIdentifier s) : Reads (do let _ ← optional (text "@"); word) (.name s) s := by
  intro rest hrest
  have hat : (text "@").on ((Token.name s).chars ++ rest) = none := by
    obtain ⟨c, cs, hchars, hstart, -⟩ := isIdentifier_cons hs
    have hc : '@' ≠ c := by
      rintro rfl
      cases hstart
    rw [Token.chars, hchars, text, on_exactly]
    simp [hc]
  rw [on_bind, on_optional, hat]
  exact reads_word hs rest hrest

theorem takes_identifier (hs : IsIdentifier s) (ts : List Token) : Takes identifier (.name s :: ts) s ts :=
  (reads_identifier hs).padded ts

theorem refuses_identifier (h : ∀ s, ts.head? ≠ some (.name s)) : Refuses identifier ts :=
  Refuses.padded ((refuses_at ts).optional.bind_refuses (refuses_word h))

/-! ### Names joined by points -/

theorem on_path {part : String} {parts : List String} {rest : List Char} (hpart : IsIdentifier part)
    (hparts : ∀ q ∈ parts, IsIdentifier q) (hrest : Breaks rest) :
    path.on ((String.intercalate "." (part :: parts)).toList ++ rest) = some (part :: parts, rest) := by
  -- Behind a part stands a point or the rest, and neither goes on with the part.
  have hbehind : ∀ parts : List String, ∀ c ∈ (pathTail parts ++ rest).head?,
      isIdentifierPart c = false := by
    intro parts c hc
    cases parts with
    | nil => exact (hrest c hc).1
    | cons q parts =>
      cases hc
      decide
  have hmore : on (many (do text "."; word)) (pathTail parts ++ rest) = some (parts, rest) := by
    induction parts with
    | nil =>
      have hstop : (do text "."; word).on rest = none := by
        rw [on_bind, text, on_exactly, if_neg]
        · rfl
        · intro hpoint
          obtain ⟨tail, rfl⟩ := hpoint
          exact (hrest '.' rfl).2 rfl
      rw [pathTail, List.flatMap_nil, List.nil_append, on_many, hstop]
    | cons q parts ih =>
      obtain ⟨hq, hparts⟩ := List.forall_mem_cons.mp hparts
      have hone : (do text "."; word).on ('.' :: q.toList ++ (pathTail parts ++ rest)) =
          some (q, pathTail parts ++ rest) := by
        rw [on_bind, text, on_exactly]
        simpa using on_word hq (hbehind parts)
      have hlength : (pathTail parts ++ rest).length < ('.' :: q.toList ++ (pathTail parts ++ rest)).length := by
        simp only [List.length_append, List.length_cons]
        omega
      rw [pathTail, List.flatMap_cons, ← pathTail, List.append_assoc, on_many, hone]
      dsimp only
      rw [if_pos hlength, ih hparts]
      rfl
  rw [path, Parser.sepBy1, on_bind, toList_path, List.append_assoc, on_word hpart (hbehind parts), Option.bind_some]
  refine (on_bind _ _ _).trans ?_
  rw [hmore]
  rfl

theorem reads_path {part : String} {parts : List String} (hpart : IsIdentifier part) (hparts : ∀ q ∈ parts, IsIdentifier q) :
    Reads path (.name (String.intercalate "." (part :: parts))) (part :: parts) := fun _ hrest =>
  on_path hpart hparts (hrest trivial)

theorem takes_namespaceName (hs : IsPath s) (ts : List Token) : Takes namespaceName (.name s :: ts) s ts := by
  obtain ⟨_ | ⟨part, parts⟩, hne, hparts, rfl⟩ := hs
  · exact absurd rfl hne
  obtain ⟨hpart, hparts⟩ := List.forall_mem_cons.mp hparts
  refine Takes.bind ((reads_path hpart hparts).padded ts) ?_
  exact .pure

theorem IsIdentifier.isPath (h : IsIdentifier s) : IsPath s :=
  ⟨[s], List.cons_ne_nil _ _, by simpa using h, String.intercalate_singleton.symm⟩

theorem reads_path_single (hs : IsIdentifier s) : Reads path (.name s) [s] := by
  have hone := reads_path hs (List.forall_mem_nil _)
  rwa [String.intercalate_singleton] at hone

theorem takes_lastOfPath (hs : IsIdentifier s) (ts : List Token) : Takes lastOfPath (.name s :: ts) s ts :=
  ((reads_path_single hs).padded ts).bind .pure

theorem refuses_lastOfPath (h : ∀ s, ts.head? ≠ some (.name s)) : Refuses lastOfPath ts :=
  Refuses.bind (Refuses.padded (refuses_word h).bind)

/-! ### Quoted texts and numbers -/

theorem takes_argumentValue (hs : '"' ∉ s.toList) (ts : List Token) : Takes argumentValue (.quoted s :: ts) s ts := by
  have hquoted : Reads quotedText (.quoted s) s := fun rest _ => by
    have hbody : ∀ c ∈ s.toList, (c != '"') = true := fun c hc => bne_iff_ne.mpr fun heq => hs (heq ▸ hc)
    have hrun : (run (· != '"')).on (s.toList ++ '"' :: rest) = some (s.toList, '"' :: rest) :=
      on_run_append hbody fun c hc => by
        cases hc
        rfl
    rw [quotedText, on_bind, text, on_exactly]
    simp [Token.chars, on_bind, hrun, on_exactly]
  refine Reads.padded (fun rest hrest => ?_) ts
  rw [on_orElse, hquoted rest hrest]
  rfl

theorem on_digits {rest : List Char} (n : Nat) (hrest : Breaks rest) :
    (digits Char.isDigit).on (Nat.toDigits 10 n ++ rest) = some (Nat.toDigits 10 n, rest) := by
  by_cases hn : n = 0
  · subst hn
    simp [digits, on_orElse, on_bind, on_satisfy, text, on_exactly]
  · obtain ⟨c, cs, hdigits, hc, hzero, hcs⟩ := toDigits_front hn
    have hstop : ∀ c ∈ rest.head?, c.isDigit = false := fun d hd =>
      Bool.eq_false_iff.mpr fun hdigit => by
        replace hdigit := isIdentifierPart_of_isDigit hdigit
        rw [(hrest d hd).1] at hdigit
        cases hdigit
    rw [hdigits, digits, on_orElse, on_bind, List.cons_append, on_satisfy]
    simp [hc, hzero, on_bind, on_run_append hcs hstop]

theorem inRange_toInt (n : Int64) : inRange n.toInt = .ok n := by
  rw [inRange, if_neg (Int.not_lt.mpr n.toInt_le), if_neg (Int.not_lt.mpr n.minValue_le_toInt), Int64.ofInt_toInt]

/-- A number to the base ten is not taken for one to the base sixteen. -/
theorem on_hexLiteral {n : Int} {rest : List Char} (hrest : Breaks rest) :
    hexLiteral.on ((toString n).toList ++ rest) = none := by
  have hmark : ∀ x, isIdentifierPart x = true → (exactly ['0', x]).on ((toString n).toList ++ rest) = none := by
    intro x hx
    rw [on_exactly, if_neg]
    rintro ⟨tail, htail⟩
    rw [toList_toString] at htail
    split at htail
    · cases htail
    by_cases hzero : n.natAbs = 0
    · rw [hzero] at htail
      obtain rfl : x :: tail = rest := (List.cons.inj htail).2
      rw [(hrest x rfl).1] at hx
      cases hx
    · obtain ⟨c, cs, hdigits, -, hc, -⟩ := toDigits_front hzero
      rw [hdigits] at htail
      exact hc (List.cons.inj htail).1.symm
  rw [hexLiteral, on_bind, on_orElse]
  show (((exactly ['0', 'x']).on _).or ((exactly ['0', 'X']).on _)).bind _ = none
  rw [hmark 'x' rfl, hmark 'X' rfl]
  rfl

theorem on_decimalLiteral (n : Int64) {rest : List Char} (hrest : Breaks rest) :
    decimalLiteral.on ((toString n.toInt).toList ++ rest) = some (n, rest) := by
  have hsign : (optional (text "-")).on ((toString n.toInt).toList ++ rest) =
      some (if n.toInt < 0 then some () else none, Nat.toDigits 10 n.toInt.natAbs ++ rest) := by
    obtain ⟨c, cs, hdigits⟩ := List.exists_cons_of_ne_nil (Nat.toDigits_ne_nil (n := n.toInt.natAbs) (b := 10))
    have hc : '-' ≠ c := by
      rintro rfl
      cases Nat.isDigit_of_mem_toDigits (by decide) (by decide) (hdigits ▸ List.mem_cons_self)
    rw [toList_toString, on_optional, text, on_exactly]
    by_cases hneg : n.toInt < 0 <;> simp [hneg, hdigits, hc]
  have hvalue : (if (if n.toInt < 0 then some () else none).isSome then -(n.toInt.natAbs : Int) else n.toInt.natAbs) =
      n.toInt := by
    by_cases hneg : n.toInt < 0
    · rw [if_pos hneg, Option.isSome_some, if_pos rfl]
      omega
    · rw [if_neg hneg, Option.isSome_none, if_neg Bool.false_ne_true]
      omega
  rw [decimalLiteral, on_checked, on_bind, hsign, Option.bind_some, on_bind, on_digits _ hrest]
  simp only [Option.bind_some, on_pure, numberOfDigits_toDigits (by decide : 1 < 10) (by decide), hvalue, inRange_toInt]
  rfl

theorem takes_integerLiteral (n : Int64) (ts : List Token) : Takes integerLiteral (.number n :: ts) n ts := by
  refine Reads.padded (fun rest hrest => ?_) ts
  rw [on_orElse, Token.chars, on_hexLiteral (hrest trivial), on_decimalLiteral n (hrest trivial)]
  rfl

end
end EngineBridge.Source
