import EngineBridge.Model.Document
import EngineBridge.Proofs.Text.Digits
import Mathlib.Data.List.Nodup
import Mathlib.Data.List.TakeWhile
import Mathlib.Data.Nat.Bitwise

/-! The text of a set of flags names that set, whichever bits it has.

What the text lists is a list of marks, each a word and the bits that it stands for. The words hold neither blanks nor
bars, so the text falls apart into them again; and the bits of the words are together those of the set. -/

namespace EngineBridge

/-! ### Words between bars -/

section Words
variable {cs rest : List Char}

/-- The text has no white space in it. -/
def Unspaced (cs : List Char) : Prop := ∀ c ∈ cs, isWhiteSpace c = false

theorem dropWhile_unspaced (h : Unspaced cs) : cs.dropWhile isWhiteSpace = cs := by
  cases cs with
  | nil => rfl
  | cons c cs => exact List.dropWhile_cons_of_neg (by simp [h c List.mem_cons_self])

theorem Unspaced.reverse (h : Unspaced cs) : Unspaced cs.reverse := fun c hc => h c (List.mem_reverse.mp hc)

theorem trimmed_unspaced (h : Unspaced cs) : trimmed cs = cs := by
  rw [trimmed, dropWhile_unspaced h, dropWhile_unspaced h.reverse, List.reverse_reverse]

theorem trimmed_blank (cs : List Char) : trimmed (' ' :: cs) = trimmed cs := rfl

theorem trimmed_blank_behind (h : Unspaced cs) : trimmed (cs ++ [' ']) = cs := by
  cases cs with
  | nil => rfl
  | cons c cs =>
    have hfront : (c :: cs ++ [' ']).dropWhile isWhiteSpace = c :: cs ++ [' '] :=
      List.dropWhile_cons_of_neg (by simp [h c List.mem_cons_self])
    rw [trimmed, hfront, List.reverse_append, List.reverse_singleton, List.singleton_append,
      List.dropWhile_cons_of_pos (by decide), dropWhile_unspaced h.reverse, List.reverse_reverse]

theorem mem_dropWhile {c : Char} {p : Char → Bool} (hc : c ∈ cs) (h : p c = false) : c ∈ cs.dropWhile p := by
  rw [← List.takeWhile_append_dropWhile (p := p) (l := cs), List.mem_append] at hc
  rcases hc with hc | hc
  · exact absurd (List.mem_takeWhile_imp hc) (by simp [h])
  · exact hc

/-- Something is left of a text that is not all white space. -/
theorem trimmed_ne_nil {c : Char} (hc : c ∈ cs) (h : isWhiteSpace c = false) : trimmed cs ≠ [] :=
  List.ne_nil_of_mem (List.mem_reverse.mpr (mem_dropWhile (List.mem_reverse.mpr (mem_dropWhile hc h)) h))

theorem splitOnChar_free {sep : Char} (h : sep ∉ cs) : splitOnChar sep cs = [cs] := by
  induction cs with
  | nil => rfl
  | cons c cs ih =>
    obtain ⟨hc, hcs⟩ := not_or.mp (mt List.mem_cons.mpr h)
    rw [splitOnChar, if_neg (by simpa using Ne.symm hc), ih hcs]

theorem splitOnChar_append {sep : Char} (h : sep ∉ cs) :
    splitOnChar sep (cs ++ sep :: rest) = cs :: splitOnChar sep rest := by
  induction cs with
  | nil => simp [splitOnChar]
  | cons c cs ih =>
    obtain ⟨hc, hcs⟩ := not_or.mp (mt List.mem_cons.mpr h)
    rw [List.cons_append, splitOnChar, if_neg (by simpa using Ne.symm hc), ih hcs]

theorem map_trimmed_splitOnChar_blank (cs : List Char) :
    (splitOnChar '|' (' ' :: cs)).map trimmed = (splitOnChar '|' cs).map trimmed := by
  have hne : splitOnChar '|' cs ≠ [] := by
    cases cs with
    | nil => exact List.cons_ne_nil _ _
    | cons c cs =>
      rw [splitOnChar]
      split
      · exact List.cons_ne_nil _ _
      · split <;> exact List.cons_ne_nil _ _
  rw [splitOnChar, if_neg (by decide)]
  cases hcs : splitOnChar '|' cs with
  | nil => exact absurd hcs hne
  | cons part parts => rw [List.map_cons, List.map_cons, trimmed_blank]

/-- A text of words with bars between them falls apart into the words. -/
theorem words_of_intercalate {words : List String} (hne : words ≠ [])
    (hwords : ∀ w ∈ words, Unspaced w.toList ∧ '|' ∉ w.toList) :
    (splitOnChar '|' (String.intercalate " | " words).toList).map trimmed = words.map String.toList := by
  induction words with
  | nil => exact absurd rfl hne
  | cons w words ih =>
    obtain ⟨⟨hunspaced, hbar⟩, hrest⟩ := List.forall_mem_cons.mp hwords
    cases words with
    | nil =>
      rw [String.intercalate_singleton, splitOnChar_free hbar, List.map_singleton, trimmed_unspaced hunspaced]
      rfl
    | cons v words =>
      have htext : (String.intercalate " | " (w :: v :: words)).toList =
          (w.toList ++ [' ']) ++ '|' :: ' ' :: (String.intercalate " | " (v :: words)).toList := by
        rw [String.intercalate_cons_cons, String.toList_append, String.toList_append, List.append_assoc, List.append_assoc]
        rfl
      rw [htext, splitOnChar_append (by simpa using hbar), List.map_cons, trimmed_blank_behind hunspaced,
        map_trimmed_splitOnChar_blank, ih (List.cons_ne_nil _ _) hrest]
      rfl

theorem mem_intercalate_cons {c : Char} {w s : String} {words : List String} (h : c ∈ w.toList) :
    c ∈ (String.intercalate s (w :: words)).toList := by
  cases words with
  | nil => rwa [String.intercalate_singleton]
  | cons v words =>
    rw [String.intercalate_cons_cons, String.toList_append, String.toList_append]
    exact List.mem_append_left _ (List.mem_append_left _ h)

end Words

/-! ### Numbers to the base sixteen -/

theorem isHexDigit_of_mem_toDigits {n : Nat} {c : Char} (h : c ∈ Nat.toDigits 16 n) : isHexDigit c = true := by
  have hdigit : ∀ d < 16, isHexDigit d.digitChar = true := by decide
  induction n using Nat.strongRecOn with
  | ind n ih =>
    by_cases hlt : n < 16
    · rw [Nat.toDigits_of_lt_base hlt, List.mem_singleton] at h
      exact h ▸ hdigit n hlt
    · rw [Nat.toDigits_of_base_le (by decide) (Nat.le_of_not_lt hlt), List.mem_append, List.mem_singleton] at h
      rcases h with h | rfl
      · exact ih _ (by omega) h
      · exact hdigit _ (Nat.mod_lt n (by decide))

theorem toNat_of_isHexDigit {c : Char} (h : isHexDigit c = true) : 48 ≤ c.toNat ∧ c.toNat ≤ 102 := by
  simp only [isHexDigit, Char.isDigit, Char.le_def, Bool.or_eq_true, Bool.and_eq_true, decide_eq_true_eq,
    UInt32.le_iff_toNat_le, ge_iff_le] at h
  have hvalue : c.val.toNat = c.toNat := rfl
  rw [hvalue] at h
  rcases h with (h | h) | h
  all_goals
    have hlow : 48 ≤ c.toNat := Nat.le_trans (by decide) h.1
    have hhigh : c.toNat ≤ 102 := Nat.le_trans h.2 (by decide)
    exact ⟨hlow, hhigh⟩

/-- A character of ASCII that shows on its own is no white space. -/
theorem isWhiteSpace_of_graphic {c : Char} (hlow : 33 ≤ c.toNat) (hhigh : c.toNat < 127) : isWhiteSpace c = false := by
  simp only [isWhiteSpace, Bool.or_eq_false_iff, Bool.and_eq_false_iff, beq_eq_false_iff_ne, decide_eq_false_iff_not]
  omega

theorem hexNumber?_toDigits {n : Nat} (h : n < UInt32.size) :
    FlagSet.hexNumber? (Nat.toDigits 16 n) = some (UInt32.ofNat n) := by
  have hall : (Nat.toDigits 16 n).all isHexDigit = true := List.all_eq_true.mpr fun c hc => isHexDigit_of_mem_toDigits hc
  have hne : (Nat.toDigits 16 n).isEmpty = false := by simp
  unfold FlagSet.hexNumber?
  split
  next ds hds =>
    rw [hds] at hall
    cases List.all_eq_true.mp hall '+' List.mem_cons_self
  next ds hds =>
    dsimp only
    rw [hne, hall, numberOfDigits_toDigits (by decide) (by decide), if_pos h]
    rfl

namespace FlagSet
variable {names : List String} {a : FlagSet names} {m : String × Nat}

/-- The names can be told apart in a text: each consists of capital letters and low lines. -/
structure Legible (names : List String) : Prop where
  distinct : names.Nodup
  notEmpty : "" ∉ names
  letters : ∀ n ∈ names, ∀ c ∈ n.toList, c.isUpper = true ∨ c = '_'

instance : Decidable (Legible names) :=
  decidable_of_iff (names.Nodup ∧ "" ∉ names ∧
      names.all (fun n => n.toList.all fun c => c.isUpper || decide (c = '_')) = true)
    ⟨fun ⟨h₁, h₂, h₃⟩ => ⟨h₁, h₂, by simpa using h₃⟩, fun h => ⟨h.1, h.2, by simpa using h.3⟩⟩

theorem toNat_of_letter {c : Char} (h : c.isUpper = true ∨ c = '_') : 65 ≤ c.toNat ∧ c.toNat ≤ 95 := by
  rcases h with h | rfl
  · have hupper : 65 ≤ c.toNat ∧ c.toNat ≤ 90 := of_decide_eq_true h
    exact ⟨hupper.1, Nat.le_trans hupper.2 (by decide)⟩
  · decide

/-- The words of the text, each with the bits that it stands for. -/
def marks (a : FlagSet names) : List (String × Nat) :=
  ((names.zipIdx.filter fun n => a.bits.toNat.testBit n.2).map fun n => (n.1, 2 ^ n.2))
    ++ if a.unnamed = 0 then [] else [("0x" ++ hexDigits a.unnamed, a.unnamed)]

theorem parts_eq (a : FlagSet names) : a.parts = a.marks.map Prod.fst := by
  rw [parts, marks, List.map_append, List.map_map]
  congr 1
  split <;> rfl

/-- A word is a name of a flag of the set, or the number of the bits that have no name. -/
theorem mem_marks : m ∈ a.marks ↔
    (∃ i, names[i]? = some m.1 ∧ a.bits.toNat.testBit i = true ∧ m.2 = 2 ^ i) ∨
      a.unnamed ≠ 0 ∧ m = ("0x" ++ hexDigits a.unnamed, a.unnamed) := by
  rw [marks, List.mem_append]
  refine or_congr ?_ ?_
  · simp only [List.mem_map, List.mem_filter, List.mem_zipIdx_iff_getElem?]
    constructor
    · rintro ⟨⟨n, i⟩, ⟨hn, hi⟩, rfl⟩
      exact ⟨i, hn, hi, rfl⟩
    · rintro ⟨i, hn, hi, hm⟩
      exact ⟨(m.1, i), ⟨hn, hi⟩, Prod.ext rfl hm.symm⟩
  · by_cases h : a.unnamed = 0 <;> simp [h]

theorem unnamed_testBit (a : FlagSet names) (k : Nat) :
    a.unnamed.testBit k = (decide (names.length ≤ k) && a.bits.toNat.testBit k) := by
  rw [unnamed, Nat.pow_eq, Nat.testBit_mul_two_pow, Nat.testBit_div_two_pow]
  by_cases h : names.length ≤ k
  · simp [h, Nat.sub_add_cancel h]
  · simp [h]

/-- The words stand for the bits of the set and no others. -/
theorem testBit_iff_marks (a : FlagSet names) (k : Nat) :
    a.bits.toNat.testBit k = true ↔ ∃ m ∈ a.marks, m.2.testBit k = true := by
  constructor
  · intro h
    by_cases hk : k < names.length
    · exact ⟨(names[k], 2 ^ k), mem_marks.mpr (.inl ⟨k, List.getElem?_eq_getElem hk, h, rfl⟩), by simp⟩
    · have hbit : a.unnamed.testBit k = true := by simp [unnamed_testBit, h, Nat.le_of_not_lt hk]
      have hne : a.unnamed ≠ 0 := fun hzero => by simp [hzero] at hbit
      exact ⟨_, mem_marks.mpr (.inr ⟨hne, rfl⟩), hbit⟩
  · rintro ⟨m, hm, hbit⟩
    rcases mem_marks.mp hm with ⟨i, -, hi, hpow⟩ | ⟨-, rfl⟩
    · rw [hpow, Nat.testBit_two_pow, decide_eq_true_eq] at hbit
      exact hbit ▸ hi
    · rw [unnamed_testBit, Bool.and_eq_true] at hbit
      exact hbit.2

theorem mark_lt (hm : m ∈ a.marks) : m.2 < UInt32.size := by
  refine Nat.lt_of_le_of_lt ?_ a.bits.toNat_lt
  rcases mem_marks.mp hm with ⟨i, -, hi, hpow⟩ | ⟨-, rfl⟩
  · exact hpow ▸ Nat.ge_two_pow_of_testBit hi
  · exact Nat.div_mul_le_self _ _

theorem Legible.toNat_of_mem (h : Legible names) {n : String} (hn : n ∈ names) {c : Char} (hc : c ∈ n.toList) :
    65 ≤ c.toNat ∧ c.toNat ≤ 95 := toNat_of_letter (h.letters n hn c hc)

theorem toList_hex (n : Nat) : ("0x" ++ hexDigits n).toList = '0' :: 'x' :: Nat.toDigits 16 n := by
  simp [hexDigits]

/-- The word of a mark is read as its bits. -/
theorem ofPart?_mark (h : Legible names) (hm : m ∈ a.marks) :
    ofPart? m.1.toList = some (⟨UInt32.ofNat m.2⟩ : FlagSet names) := by
  rcases mem_marks.mp hm with ⟨i, hname, -, hpow⟩ | ⟨-, rfl⟩
  · obtain ⟨hi, hget⟩ := List.getElem?_eq_some_iff.mp hname
    have hindex : names.findIdx? (· == m.1) = some i := by
      refine List.findIdx?_eq_some_iff_getElem.mpr ⟨hi, by simp [hget], fun j hj => ?_⟩
      have hne : names[j] ≠ names[i] := fun hsame =>
        absurd ((List.Nodup.getElem_inj_iff h.distinct).mp hsame) (Nat.ne_of_lt hj)
      simpa [hget] using hne
    unfold ofPart?
    split
    next ds hds =>
      have hzero := h.toNat_of_mem (List.mem_of_getElem? hname) (c := '0') (by simp [hds])
      exact absurd hzero.1 (by decide)
    next => rw [String.ofList_toList, hindex, hpow, Option.map_some, single, Nat.pow_eq]
  · rw [toList_hex]
    show (hexNumber? _).map _ = _
    rw [hexNumber?_toDigits (mark_lt hm)]
    rfl

theorem plain_mark (h : Legible names) (hm : m ∈ a.marks) : Unspaced m.1.toList ∧ '|' ∉ m.1.toList := by
  have hplain : ∀ c ∈ m.1.toList, 48 ≤ c.toNat ∧ c.toNat ≤ 120 := by
    intro c hc
    rcases mem_marks.mp hm with ⟨i, hname, -, -⟩ | ⟨-, hword⟩
    · have hletter := h.toNat_of_mem (List.mem_of_getElem? hname) hc
      omega
    · rw [hword, toList_hex] at hc
      rcases List.mem_cons.mp hc with rfl | hc
      · decide
      rcases List.mem_cons.mp hc with rfl | hc
      · decide
      have hdigit := toNat_of_isHexDigit (isHexDigit_of_mem_toDigits hc)
      omega
  refine ⟨fun c hc => isWhiteSpace_of_graphic (by have := hplain c hc; omega) (by have := hplain c hc; omega), ?_⟩
  exact fun hbar => absurd (hplain _ hbar).2 (by decide)

theorem mark_ne_nil (h : Legible names) (hm : m ∈ a.marks) : m.1.toList ≠ [] := by
  rcases mem_marks.mp hm with ⟨i, hname, -, -⟩ | ⟨-, hword⟩
  · intro hnil
    exact h.notEmpty (String.toList_eq_nil_iff.mp hnil ▸ List.mem_of_getElem? hname)
  · rw [hword, toList_hex]
    exact List.cons_ne_nil _ _

/-- The words are read one after the other, and their bits put together. -/
theorem foldlM_marks {ms : List (String × Nat)} (h : ∀ m ∈ ms, ofPart? m.1.toList = some (⟨UInt32.ofNat m.2⟩ : FlagSet names))
    (start : FlagSet names) :
    (ms.map fun m => m.1.toList).foldlM (fun a part => (ofPart? part).map a.union) start =
      some ⟨ms.foldl (fun bits m => bits ||| UInt32.ofNat m.2) start.bits⟩ := by
  induction ms generalizing start with
  | nil => rfl
  | cons m ms ih =>
    obtain ⟨hm, hms⟩ := List.forall_mem_cons.mp h
    rw [List.map_cons, List.foldlM_cons, hm]
    exact ih hms _

theorem testBit_foldl {ms : List (String × Nat)} (h : ∀ m ∈ ms, m.2 < UInt32.size) (start : UInt32) (k : Nat) :
    (ms.foldl (fun bits m => bits ||| UInt32.ofNat m.2) start).toNat.testBit k = true ↔
      start.toNat.testBit k = true ∨ ∃ m ∈ ms, m.2.testBit k = true := by
  induction ms generalizing start with
  | nil => simp
  | cons m ms ih =>
    obtain ⟨hm, hms⟩ := List.forall_mem_cons.mp h
    rw [List.foldl_cons, ih hms, UInt32.toNat_or, Nat.testBit_or, Bool.or_eq_true, UInt32.toNat_ofNat_of_lt' hm,
      or_assoc]
    simp

/-- The text of a set is read as that set. -/
theorem parse?_render (h : Legible names) (a : FlagSet names) : parse? a.render = some a := by
  have hbits : a.marks.foldl (fun bits m => bits ||| UInt32.ofNat m.2) 0 = a.bits := by
    refine UInt32.toNat_inj.mp (Nat.eq_of_testBit_eq fun k => Bool.eq_iff_iff.mpr ?_)
    rw [testBit_foldl (fun m hm => mark_lt hm), testBit_iff_marks a]
    simp
  have hmarked : ∀ m ∈ a.marks, ofPart? m.1.toList = some (⟨UInt32.ofNat m.2⟩ : FlagSet names) := fun m hm =>
    ofPart?_mark h hm
  have hread := foldlM_marks hmarked empty
  rw [show (empty : FlagSet names).bits = 0 from rfl, hbits] at hread
  unfold parse?
  cases hmarks : a.marks with
  | nil =>
    rw [hmarks] at hbits
    have htext : a.render = "" := by rw [render, parts_eq, hmarks]; rfl
    rw [htext]
    exact congrArg some (congrArg FlagSet.mk hbits)
  | cons m ms =>
    have hwords : (splitOnChar '|' a.render.toList).map trimmed = a.marks.map fun m => m.1.toList := by
      rw [render, parts_eq, words_of_intercalate, List.map_map]
      · rfl
      · simp [hmarks]
      · exact List.forall_mem_map.mpr fun m hm => plain_mark h hm
    -- A mark stands in the text, which is therefore not taken for that of the empty set.
    have hnotEmpty : (trimmed a.render.toList).isEmpty = false := by
      have hm : m ∈ a.marks := hmarks ▸ List.mem_cons_self
      obtain ⟨c, cs, hcs⟩ := List.exists_cons_of_ne_nil (mark_ne_nil h hm)
      have hc : c ∈ m.1.toList := hcs ▸ List.mem_cons_self
      have htext : c ∈ a.render.toList := by
        rw [render, parts_eq, hmarks]
        exact mem_intercalate_cons hc
      simpa using trimmed_ne_nil htext ((plain_mark h hm).1 c hc)
    dsimp only
    rw [hnotEmpty, if_neg (by decide)]
    refine Eq.trans ?_ hread
    rw [← hwords, List.foldlM_map]

/-! ### Flags of sets -/

theorem contains_iff {s a : FlagSet names} : s.contains a = true ↔
    ∀ i, a.bits.toBitVec.getLsbD i = true → s.bits.toBitVec.getLsbD i = true := by
  unfold contains
  rw [beq_iff_eq, ← UInt32.toBitVec_inj]
  constructor
  · intro h i hi
    rw [← h] at hi
    simpa using (Bool.and_eq_true_iff.mp (by simpa using hi)).1
  · intro h
    refine BitVec.eq_of_getLsbD_eq fun i _ => ?_
    have := h i
    cases hb : a.bits.toBitVec.getLsbD i <;> simp_all

/-- A set has the flags of two sets if it has those of each. -/
theorem contains_union {s a b : FlagSet names} : s.contains (a.union b) = true ↔
    s.contains a = true ∧ s.contains b = true := by
  simp only [contains_iff, union, UInt32.toBitVec_or, BitVec.getLsbD_or, Bool.or_eq_true, or_imp, forall_and]

end FlagSet
end EngineBridge
