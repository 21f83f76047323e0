import EngineBridge.Proofs.Text.Lines
import EngineBridge.Source.Parse

/-! Lines and columns tell the places of a text apart.

The characters in front of a place are some whole lines and a part of one more: its line is the number of the whole lines, and its
column the number of characters in the part, both counted from one. Each character that is passed makes the coordinates greater,
and going to the line and along it leads to the offset again. -/

namespace EngineBridge.Source

variable {source : String} {text cs rest : List Char} {p q : Position} {n : Nat}

/-! ### Offsets -/

/-- The offset is that of a character, or of the end. -/
def IsBoundary (source : String) (offset : Nat) : Prop := String.Pos.Raw.IsValid source ⟨offset⟩

@[simp] theorem byteSize_append : byteSize (cs ++ rest) = byteSize cs + byteSize rest := by
  induction cs with
  | nil => simp [byteSize]
  | cons c cs ih => simp [byteSize, ih, Nat.add_assoc]

theorem utf8ByteSize_eq (source : String) : source.utf8ByteSize = byteSize source.toList := by
  have hlist : ∀ cs : List Char, (String.ofList cs).utf8ByteSize = byteSize cs := fun cs => by
    induction cs with
    | nil => rfl
    | cons c cs ih =>
      rw [← List.singleton_append, String.ofList_append, String.utf8ByteSize_append, ih]
      simp [byteSize]
  rw [← hlist, String.ofList_toList]

theorem isBoundary_iff : IsBoundary source n ↔ ∃ cs rest, source.toList = cs ++ rest ∧ byteSize cs = n := by
  unfold IsBoundary
  rw [String.Pos.Raw.isValid_iff_exists_append]
  constructor
  · rintro ⟨s, t, rfl, hn⟩
    refine ⟨s.toList, t.toList, String.toList_append, ?_⟩
    rw [← utf8ByteSize_eq]
    exact (congrArg String.Pos.Raw.byteIdx hn).symm
  · rintro ⟨cs, rest, htext, rfl⟩
    refine ⟨String.ofList cs, String.ofList rest, ?_, ?_⟩
    · rw [← String.ofList_append, ← htext, String.ofList_toList]
    · refine congrArg String.Pos.Raw.mk ?_
      rw [utf8ByteSize_eq, String.toList_ofList]

theorem byteSize_cons_pos {c : Char} : 0 < byteSize (c :: cs) := Nat.add_pos_left c.utf8Size_pos _

theorem charsBefore_cons {c : Char} (hn : 0 < n) : charsBefore (c :: cs) n =
    if c.utf8Size ≤ n then (charsBefore cs (n - c.utf8Size)).map (c :: ·) else none := by
  cases n with
  | zero => exact absurd hn (Nat.lt_irrefl 0)
  | succ n => rfl

theorem charsBefore_append : charsBefore (cs ++ rest) (byteSize cs) = some cs := by
  induction cs with
  | nil => cases rest <;> rfl
  | cons c cs ih =>
    have hcs : byteSize (c :: cs) - c.utf8Size = byteSize cs := Nat.add_sub_cancel_left _ _
    have hc : c.utf8Size ≤ byteSize (c :: cs) := Nat.le_add_right _ _
    rw [List.cons_append, charsBefore_cons byteSize_cons_pos, if_pos hc, hcs, ih]
    rfl

theorem charsBefore_of_le (h : byteSize text ≤ n) : charsBefore text n = some text := by
  induction text generalizing n with
  | nil => rfl
  | cons c cs ih =>
    have hc : c.utf8Size ≤ n := Nat.le_trans (Nat.le_add_right _ _) h
    have hcs : byteSize cs ≤ n - c.utf8Size := by
      simp only [byteSize] at h
      omega
    rw [charsBefore_cons (Nat.lt_of_lt_of_le byteSize_cons_pos h), if_pos hc, ih hcs]
    rfl

/-- The characters in front of an offset within the text take as many bytes. -/
theorem byteSize_of_charsBefore (h : charsBefore text n = some cs) (hn : n ≤ byteSize text) :
    cs <+: text ∧ byteSize cs = n := by
  induction text generalizing n cs with
  | nil =>
    cases h
    exact ⟨List.prefix_rfl, (Nat.le_zero.mp hn).symm⟩
  | cons c text ih =>
    rcases Nat.eq_zero_or_pos n with rfl | hpos
    · cases h
      exact ⟨List.nil_prefix, rfl⟩
    · rw [charsBefore_cons hpos] at h
      split at h
      · next hc =>
        obtain ⟨ds, hds, rfl⟩ := Option.map_eq_some_iff.mp h
        have hrest : n - c.utf8Size ≤ byteSize text := by
          simp only [byteSize] at hn
          omega
        obtain ⟨hpre, hsize⟩ := ih hds hrest
        refine ⟨List.cons_prefix_cons.mpr ⟨rfl, hpre⟩, ?_⟩
        rw [byteSize, hsize]
        omega
      · cases h

/-! ### Coordinates -/

theorem position?_of_append (htext : source.toList = cs ++ rest) :
    position? source (byteSize cs) = some (Position.start.advance cs) := by
  rw [position?, htext, charsBefore_append]
  rfl

theorem position?_of_le (h : source.utf8ByteSize ≤ n) : position? source n = position? source source.utf8ByteSize := by
  rw [utf8ByteSize_eq] at h ⊢
  rw [position?, position?, charsBefore_of_le h, charsBefore_of_le (Nat.le_refl _)]

/-- Only an offset within a character has no place. -/
theorem position?_eq_none : position? source n = none ↔ n < source.utf8ByteSize ∧ ¬ IsBoundary source n := by
  rw [utf8ByteSize_eq, isBoundary_iff]
  constructor
  · intro h
    refine ⟨Nat.lt_of_not_le fun hle => ?_, ?_⟩
    · rw [position?, charsBefore_of_le hle] at h
      cases h
    · rintro ⟨cs, rest, htext, rfl⟩
      cases (position?_of_append htext).symm.trans h
  · rintro ⟨hlt, hinside⟩
    rw [position?, Option.map_eq_none_iff, Option.eq_none_iff_forall_ne_some]
    intro cs hcs
    obtain ⟨⟨rest, htext⟩, hsize⟩ := byteSize_of_charsBefore hcs hlt.le
    exact hinside ⟨cs, rest, htext.symm, hsize⟩

namespace Position

/-- The place is above the other, or in front of it in the same line. -/
def Precedes (p q : Position) : Prop := p.line < q.line ∨ p.line = q.line ∧ p.column < q.column

instance : Decidable (p.Precedes q) := inferInstanceAs (Decidable (_ ∨ _))

theorem Precedes.trans {r : Position} (h : p.Precedes q) (h' : q.Precedes r) : p.Precedes r := by
  unfold Precedes at *
  omega

theorem Precedes.ne (h : p.Precedes q) : p ≠ q := by
  rintro rfl
  unfold Precedes at h
  omega

theorem advance_cons (c : Char) : p.advance (c :: cs) = (p.advance [c]).advance cs := rfl

theorem advance_append : p.advance (cs ++ rest) = (p.advance cs).advance rest := List.foldl_append

/-- A character leads on: to the next column, or to the next line. -/
theorem precedes_advance_singleton (p : Position) (c : Char) : p.Precedes (p.advance [c]) := by
  simp only [advance, List.foldl_cons, List.foldl_nil]
  split
  · exact .inl (Nat.lt_succ_self _)
  · exact .inr ⟨rfl, Nat.lt_succ_self _⟩

/-- By induction on the characters that are passed. -/
theorem precedes_advance (hcs : cs ≠ []) : p.Precedes (p.advance cs) := by
  induction cs generalizing p with
  | nil => exact absurd rfl hcs
  | cons c cs ih =>
    have hfirst := precedes_advance_singleton p c
    rcases eq_or_ne cs [] with rfl | hmore
    · exact hfirst
    · rw [advance_cons]
      exact hfirst.trans (ih hmore)

end Position

/-- Of two places in a text the one with the smaller offset precedes. -/
theorem precedes_of_lt {a b : Nat} (ha : IsBoundary source a) (hb : IsBoundary source b) (hlt : a < b) :
    ∃ p q, position? source a = some p ∧ position? source b = some q ∧ p.Precedes q := by
  obtain ⟨cs, rest, htext, rfl⟩ := isBoundary_iff.mp ha
  obtain ⟨ds, rest', htext', rfl⟩ := isBoundary_iff.mp hb
  have hboth : cs <+: ds ∨ ds <+: cs :=
    List.prefix_or_prefix_of_prefix ⟨rest, htext.symm⟩ ⟨rest', htext'.symm⟩
  rcases hboth with ⟨between, rfl⟩ | ⟨between, rfl⟩
  · have hbetween : between ≠ [] := by
      rintro rfl
      rw [List.append_nil] at hlt
      exact absurd hlt (Nat.lt_irrefl _)
    refine ⟨_, _, position?_of_append htext, position?_of_append htext', ?_⟩
    rw [Position.advance_append]
    exact Position.precedes_advance hbetween
  · rw [byteSize_append] at hlt
    omega

/-- No two places of a text have the same coordinates. -/
theorem eq_of_position?_eq {a b : Nat} (ha : IsBoundary source a) (hb : IsBoundary source b)
    (heq : position? source a = position? source b) : a = b := by
  have hdistinct : ∀ {a b : Nat}, IsBoundary source a → IsBoundary source b → a < b →
      position? source a ≠ position? source b := by
    intro a b ha hb hlt heq
    obtain ⟨p, q, hp, hq, hpq⟩ := precedes_of_lt ha hb hlt
    exact hpq.ne (Option.some.inj (hp.symm.trans (heq.trans hq)))
  rcases Nat.lt_trichotomy a b with hlt | hab | hlt
  · exact absurd heq (hdistinct ha hb hlt)
  · exact hab
  · exact absurd heq.symm (hdistinct hb ha hlt)

/-! ### Lines in front of a place -/

section
variable {ls : List (List Char)} {l : List Char}

theorem advance_line (hl : '\n' ∉ l) : p.advance l = ⟨p.line, p.column + l.length⟩ := by
  induction l generalizing p with
  | nil => rfl
  | cons c l ih =>
    obtain ⟨hc, hl⟩ := not_or.mp (mt List.mem_cons.mpr hl)
    have hstep : p.advance [c] = ⟨p.line, p.column + 1⟩ := if_neg (by simpa using Ne.symm hc)
    rw [Position.advance_cons, ih hl, hstep, List.length_cons, Nat.add_assoc, Nat.add_comm 1]

theorem advance_wholeLines (hls : Unbroken ls) (hne : ls ≠ []) : p.advance (wholeLines ls) = ⟨p.line + ls.length, 1⟩ := by
  induction ls generalizing p with
  | nil => exact absurd rfl hne
  | cons l ls ih =>
    obtain ⟨hl, hls⟩ := unbroken_cons.mp hls
    have hstep : p.advance (l ++ ['\n']) = ⟨p.line + 1, 1⟩ := by
      rw [Position.advance_append, advance_line hl]
      rfl
    rw [wholeLines_cons, ← List.singleton_append, ← List.append_assoc, Position.advance_append, hstep]
    rcases eq_or_ne ls [] with rfl | hmore
    · rfl
    · rw [ih hls hmore, List.length_cons, Nat.add_assoc, Nat.add_comm 1]

/-- The coordinates count the whole lines in front, and the characters behind them. -/
theorem advance_start (hls : Unbroken ls) (hl : '\n' ∉ l) :
    Position.start.advance (wholeLines ls ++ l) = ⟨ls.length + 1, l.length + 1⟩ := by
  rw [Position.advance_append]
  rcases eq_or_ne ls [] with rfl | hne
  · rw [advance_line hl, Nat.add_comm l.length]
    rfl
  · rw [advance_wholeLines hls hne, advance_line hl, Nat.add_comm l.length, Nat.add_comm ls.length]
    rfl

end

/-! ### From coordinates to offsets -/

namespace Position

/-- Goes to the line of a text, and then as many characters to the right as the column says; the offset there, unless there is no
    such line or it is too short. -/
def offsetIn? (source : String) : Position → Option Nat
  | ⟨line + 1, column + 1⟩ => do
    let lines := splitOnChar '\n' source.toList
    let l ← lines[line]?
    if column ≤ l.length then some (byteSize (wholeLines (lines.take line)) + byteSize (l.take column)) else none
  | _ => none

theorem offsetIn?_advance (htext : source.toList = cs ++ rest) :
    (start.advance cs).offsetIn? source = some (byteSize cs) := by
  obtain ⟨ls, last, rfl, hls, hlast⟩ := exists_lines cs
  obtain ⟨more, parts, hsplit⟩ := exists_splitOnChar_append hlast rest
  have hlines : splitOnChar '\n' source.toList = ls ++ (last ++ more) :: parts := by
    rw [htext, List.append_assoc, splitOnChar_wholeLines hls, hsplit]
  simp [advance_start hls hlast, offsetIn?, hlines]

theorem eq_advance_of_offsetIn? (h : p.offsetIn? source = some n) :
    ∃ cs rest, source.toList = cs ++ rest ∧ byteSize cs = n ∧ p = start.advance cs := by
  obtain ⟨_ | line, _ | column⟩ := p
  · cases h
  · cases h
  · cases h
  · obtain ⟨l, hl, h⟩ := Option.bind_eq_some_iff.mp h
    split at h
    · next hcolumn =>
      obtain ⟨hlt, hget⟩ := List.getElem?_eq_some_iff.mp hl
      have hlines : splitOnChar '\n' source.toList = (splitOnChar '\n' source.toList).take line ++
          l :: (splitOnChar '\n' source.toList).drop (line + 1) := by
        rw [← hget, ← List.drop_eq_getElem_cons hlt, List.take_append_drop]
      obtain ⟨⟨rest, htext⟩, hls, hfree⟩ := exists_of_splitOnChar hlines
      refine ⟨_ ++ l.take column, l.drop column ++ rest, ?_, (byteSize_append).trans (Option.some.inj h), ?_⟩
      · rw [List.append_assoc, ← List.append_assoc (l.take column), List.take_append_drop]
        exact htext
      · rw [advance_start hls fun hmem => hfree (List.mem_of_mem_take hmem), List.length_take_of_le hlt.le,
          List.length_take_of_le hcolumn]
    · cases h

/-- Coordinates lead to an offset exactly if they are those of the offset. -/
theorem offsetIn?_eq_some : p.offsetIn? source = some n ↔ IsBoundary source n ∧ position? source n = some p := by
  rw [isBoundary_iff]
  constructor
  · intro h
    obtain ⟨cs, rest, htext, rfl, rfl⟩ := eq_advance_of_offsetIn? h
    exact ⟨⟨cs, rest, htext, rfl⟩, position?_of_append htext⟩
  · rintro ⟨⟨cs, rest, htext, rfl⟩, hp⟩
    cases (position?_of_append htext).symm.trans hp
    exact offsetIn?_advance htext

end Position

/-! ### Places of a text -/

/-- A diagnostic gives the coordinates of its offset. -/
theorem position?_of_parseText {α : Type} {parser : Parser α} {d : Diagnostic} (h : parseText parser source = .error d) :
    IsBoundary source d.offset ∧ position? source d.offset = some d.position := by
  unfold parseText at h
  cases hfail : Parser.parseAll parser source.toList with
  | ok a =>
    rw [hfail] at h
    cases h
  | error f =>
    rw [hfail] at h
    cases h
    have htext : source.toList = source.toList.take (source.toList.length - f.remaining) ++
        source.toList.drop (source.toList.length - f.remaining) := (List.take_append_drop _ _).symm
    exact ⟨isBoundary_iff.mpr ⟨_, _, htext, rfl⟩, position?_of_append htext⟩

/-- Of two offsets of a text that are those of characters, or of the end, the greater one has the greater coordinates, by line and then
    by column; so no two have the same. Going to the line, and along it to the column, leads to exactly the offset that has these
    coordinates. An offset behind the end stands for the end, and only one within a character has no coordinates. What cannot be read
    is reported with the coordinates of its offset. -/
theorem coordinates_faithful (source : String) :
    (∀ a b, IsBoundary source a → IsBoundary source b → a < b →
      ∃ p q, position? source a = some p ∧ position? source b = some q ∧ p.Precedes q) ∧
    (∀ a b, IsBoundary source a → IsBoundary source b → position? source a = position? source b → a = b) ∧
    (∀ p a, p.offsetIn? source = some a ↔ IsBoundary source a ∧ position? source a = some p) ∧
    (∀ n, source.utf8ByteSize ≤ n → position? source n = position? source source.utf8ByteSize) ∧
    (∀ n, position? source n = none ↔ n < source.utf8ByteSize ∧ ¬ IsBoundary source n) ∧
    ∀ d, parseFile source = .error d → IsBoundary source d.offset ∧ position? source d.offset = some d.position :=
  ⟨fun _ _ => precedes_of_lt, fun _ _ => eq_of_position?_eq, fun _ _ => Position.offsetIn?_eq_some,
    fun _ => position?_of_le, fun _ => position?_eq_none, fun _ => position?_of_parseText⟩

/-- A text of two lines, with characters of one, two and four bytes, which is not one of declarations. -/
theorem coordinates_faithful_across_lines :
    (IsBoundary "aé\n😀b" 1 ∧ IsBoundary "aé\n😀b" 8 ∧ 1 < 8 ∧
      ∃ p q, position? "aé\n😀b" 1 = some p ∧ position? "aé\n😀b" 8 = some q ∧ p.Precedes q) ∧
    position? "aé\n😀b" 1 ≠ position? "aé\n😀b" 8 ∧
    Position.offsetIn? "aé\n😀b" ⟨2, 2⟩ = some 8 ∧
    ("aé\n😀b".utf8ByteSize ≤ 20 ∧ position? "aé\n😀b" 20 = position? "aé\n😀b" "aé\n😀b".utf8ByteSize) ∧
    (position? "aé\n😀b" 6 = none ∧ ¬ IsBoundary "aé\n😀b" 6) ∧
    ∃ d, parseFile "aé\n😀b" = .error d ∧ IsBoundary "aé\n😀b" d.offset ∧ position? "aé\n😀b" d.offset = some d.position := by
  have hone : IsBoundary "aé\n😀b" 1 := isBoundary_iff.mpr ⟨['a'], ['é', '\n', '😀', 'b'], by decide, by decide⟩
  have height : IsBoundary "aé\n😀b" 8 := isBoundary_iff.mpr ⟨['a', 'é', '\n', '😀'], ['b'], by decide, by decide⟩
  obtain ⟨hordered, hdistinct, hback, hend, hnone, hreported⟩ := coordinates_faithful "aé\n😀b"
  refine ⟨⟨hone, height, by decide, hordered 1 8 hone height (by decide)⟩, ?_, ?_, ⟨by decide, hend 20 (by decide)⟩, ?_, ?_⟩
  · exact fun heq => absurd (hdistinct 1 8 hone height heq) (by decide)
  · exact (hback ⟨2, 2⟩ 8).mpr ⟨height, by decide⟩
  · exact ⟨by decide, ((hnone 6).mp (by decide)).2⟩
  · have hrefused : (parseFile "aé\n😀b").toOption.isNone = true := by decide +kernel
    cases hd : parseFile "aé\n😀b" with
    | ok ds =>
      rw [hd] at hrefused
      cases hrefused
    | error d => exact ⟨d, rfl, hreported d hd⟩

end EngineBridge.Source
