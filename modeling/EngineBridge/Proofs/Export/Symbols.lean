import EngineBridge.Proofs.Export.Wrappers
import EngineBridge.Proofs.Export.Writing
import EngineBridge.Proofs.Model.Validity

/-! The symbols that the text of a wrapper binds directly.

What introduces a symbol ends with a double quote, and so does the symbol; a line without double quotes binds nothing, and
the lines of a wrapper that have some have them around texts of which it is known what they hold. The text of a file
binds what its lines bind. -/

namespace EngineBridge
open Outcome

/-! ### What a text binds -/

/-- What stands before the double quote that a symbol begins with. -/
def callMark : List Char := "Invocable.Direct(".toList

/-- Every symbol that the text binds is one of these, and ends within the text. -/
def BindsAmong (S : Set String) (cs : List Char) : Prop :=
  ∀ before rest, cs = before ++ callMark ++ '"' :: rest →
    '"' ∈ rest ∧ String.ofList (rest.takeWhile (· ≠ '"')) ∈ S

variable {S : Set String} {a b cs rest : List Char} {s : String}

theorem directMark_eq : directMark = callMark ++ ['"'] := rfl

theorem takeWhile_quoted {symbol after : List Char} (h : '"' ∉ symbol) :
    (symbol ++ '"' :: after).takeWhile (· ≠ '"') = symbol := by
  have hall : ∀ c ∈ symbol, decide (c ≠ '"') = true := fun c hc => decide_eq_true fun heq => h (heq ▸ hc)
  rw [List.takeWhile_append_of_pos hall, List.takeWhile_cons_of_neg (by decide), List.append_nil]

theorem mem_referencedSymbols (h : s ∈ referencedSymbols cs) : ∃ before rest,
    cs = before ++ callMark ++ '"' :: rest ∧ s = String.ofList (rest.takeWhile (· ≠ '"')) := by
  induction cs with
  | nil => cases h
  | cons c cs ih =>
    have hlater : s ∈ referencedSymbols cs → ∃ before rest,
        c :: cs = before ++ callMark ++ '"' :: rest ∧ s = String.ofList (rest.takeWhile (· ≠ '"')) := by
      intro h
      obtain ⟨before, rest, rfl, hs⟩ := ih h
      exact ⟨c :: before, rest, rfl, hs⟩
    unfold referencedSymbols at h
    split at h
    · next hmark =>
      obtain ⟨rest, hrest⟩ := List.isPrefixOf_iff_prefix.mp hmark
      rcases List.mem_cons.mp h with rfl | h
      · refine ⟨[], rest, ?_, ?_⟩
        · rw [← hrest, directMark_eq, List.append_assoc]
          rfl
        · rw [← hrest, List.drop_left]
      · exact hlater h
    · exact hlater h

theorem BindsAmong.mem_of_referenced (h : BindsAmong S cs) (hs : s ∈ referencedSymbols cs) : s ∈ S := by
  obtain ⟨before, rest, rfl, rfl⟩ := mem_referencedSymbols hs
  exact (h before rest rfl).2

/-- What stands between double quotes behind the mark is a symbol that the text binds. -/
theorem mem_referencedSymbols_of_call {symbol : List Char} (hsymbol : '"' ∉ symbol)
    (h : directMark ++ (symbol ++ ['"']) <:+: cs) : String.ofList symbol ∈ referencedSymbols cs := by
  obtain ⟨before, after, rfl⟩ := h
  induction before with
  | nil =>
    have htext : [] ++ (directMark ++ (symbol ++ ['"'])) ++ after = directMark ++ (symbol ++ '"' :: after) := by simp
    have hprefix : directMark.isPrefixOf (directMark ++ (symbol ++ '"' :: after)) = true :=
      List.isPrefixOf_iff_prefix.mpr (List.prefix_append _ _)
    have htake : (symbol ++ '"' :: after).takeWhile (· ≠ '"') = symbol := takeWhile_quoted hsymbol
    rw [htext]
    cases hcs : directMark ++ (symbol ++ '"' :: after) with
    | nil => cases hcs
    | cons c cs =>
      rw [hcs] at hprefix
      rw [referencedSymbols, if_pos hprefix, ← hcs, List.drop_left, htake]
      exact List.mem_cons_self
  | cons c before ih =>
    have hlater : String.ofList symbol ∈ referencedSymbols (before ++ (directMark ++ (symbol ++ ['"'])) ++ after) := ih
    rw [List.cons_append, List.cons_append, referencedSymbols]
    split
    · exact List.mem_cons_of_mem _ hlater
    · exact hlater

/-- A text without double quotes binds nothing. -/
theorem bindsAmong_of_quoteFree (h : '"' ∉ cs) : BindsAmong S cs := by
  rintro before rest rfl
  simp at h

theorem callMark_quoteFree : '"' ∉ callMark := by decide

/-- What introduces a symbol does not go across a character that it does not hold. -/
theorem callMark_after {c : Char} {before mid : List Char} (hc : c ∉ callMark) (h : before ++ callMark = a ++ c :: mid) :
    ∃ front, mid = front ++ callMark := by
  have h' : before ++ callMark = (a ++ [c]) ++ mid := by simpa using h
  rcases List.append_eq_append_iff.mp h' with ⟨front, hfront, hmark⟩ | ⟨front, -, hmid⟩
  · rcases List.eq_nil_or_concat front with rfl | ⟨front, d, rfl⟩
    · exact ⟨[], by simpa using hmark.symm⟩
    · rw [List.concat_eq_append] at hfront hmark
      rw [← List.append_assoc] at hfront
      have hlast : [c] = [d] := List.append_inj_right' hfront rfl
      exact absurd (by simp [hmark, List.cons.inj hlast]) hc
  · exact ⟨front, hmid⟩

/-- Up to the first double quote of a text one looks only at whether a symbol begins there. -/
theorem bindsAmong_quote (ha : '"' ∉ a)
    (hmark : callMark <:+ a → '"' ∈ rest ∧ String.ofList (rest.takeWhile (· ≠ '"')) ∈ S) (hrest : BindsAmong S rest) :
    BindsAmong S (a ++ '"' :: rest) := by
  intro before rest' h
  rcases List.append_eq_append_iff.mp h with ⟨mid, hmid, hquote⟩ | ⟨mid, hmid, hquote⟩
  · cases mid with
    | nil =>
      obtain rfl := (List.cons.inj hquote).2
      rw [List.append_nil] at hmid
      exact hmark ⟨before, hmid⟩
    | cons c mid =>
      -- The quote lies before the one in front of the symbol, so the symbol is one of the rest.
      obtain ⟨rfl, hrest'⟩ := List.cons.inj hquote
      obtain ⟨front, rfl⟩ := callMark_after callMark_quoteFree hmid
      exact hrest front rest' hrest'
  · cases mid with
    | nil =>
      obtain rfl := (List.cons.inj hquote).2
      rw [List.append_nil] at hmid
      exact hmark ⟨before, hmid.symm⟩
    | cons c mid =>
      obtain ⟨rfl, -⟩ := List.cons.inj hquote
      exact absurd (by simp [hmid]) ha

theorem takeWhile_append_of_mem {c : Char} {more : List Char} (h : c ∈ cs) :
    (cs ++ more).takeWhile (· ≠ c) = cs.takeWhile (· ≠ c) := by
  induction cs with
  | nil => cases h
  | cons d cs ih =>
    by_cases hd : d = c
    · simp [hd]
    · have hcs : c ∈ cs := (List.mem_cons.mp h).resolve_left (Ne.symm hd)
      simpa [hd] using ih hcs

/-- A line behind another line binds the same as by itself. -/
theorem bindsAmong_line (ha : BindsAmong S a) (hb : BindsAmong S b) : BindsAmong S (a ++ '\n' :: b) := by
  intro before rest h
  have hnewline : '\n' ∉ callMark := by decide
  rcases List.append_eq_append_iff.mp h with ⟨mid, hmid, hquote⟩ | ⟨mid, hmid, hquote⟩
  · cases mid with
    | nil => cases (List.cons.inj hquote).1
    | cons c mid =>
      obtain ⟨rfl, rfl⟩ := List.cons.inj hquote
      obtain ⟨front, rfl⟩ := callMark_after hnewline hmid
      exact hb front rest rfl
  · cases mid with
    | nil => cases (List.cons.inj hquote).1
    | cons c mid =>
      obtain ⟨rfl, rfl⟩ := List.cons.inj hquote
      obtain ⟨hmem, hsymbol⟩ := ha before mid hmid
      exact ⟨List.mem_append_left _ hmem, (takeWhile_append_of_mem hmem).symm ▸ hsymbol⟩

/-! ### What code binds -/

mutual
/-- The lines of a piece of code, without those of braces. -/
def Code.lines : Code → List String
  | .line s => [s]
  | .blank => []
  | .block head body => head :: Code.allLines body

/-- The lines of pieces of code. -/
def Code.allLines : List Code → List String
  | [] => []
  | c :: cs => c.lines ++ Code.allLines cs
end

namespace Code
variable {P : String → Prop} {code more body : List Code}

theorem mem_allLines : s ∈ allLines code ↔ ∃ c ∈ code, s ∈ c.lines := by
  induction code with
  | nil => simp [allLines]
  | cons c code ih => simp [allLines, ih]

/-- Every line has the property. -/
def EveryLine (P : String → Prop) (code : List Code) : Prop := ∀ s ∈ allLines code, P s

@[simp] theorem everyLine_nil : EveryLine P [] := fun s hs => by cases hs

@[simp] theorem everyLine_line : EveryLine P (.line s :: code) ↔ P s ∧ EveryLine P code := by
  simp [EveryLine, allLines, lines]

@[simp] theorem everyLine_blank : EveryLine P (.blank :: code) ↔ EveryLine P code := by
  simp [EveryLine, allLines, lines]

@[simp] theorem everyLine_block :
    EveryLine P (.block s body :: code) ↔ P s ∧ EveryLine P body ∧ EveryLine P code := by
  simp [EveryLine, allLines, lines, or_imp, forall_and]

@[simp] theorem everyLine_append : EveryLine P (code ++ more) ↔ EveryLine P code ∧ EveryLine P more := by
  simp only [EveryLine, mem_allLines, List.mem_append]
  constructor
  · intro h
    exact ⟨fun s ⟨c, hc, hs⟩ => h s ⟨c, .inl hc, hs⟩, fun s ⟨c, hc, hs⟩ => h s ⟨c, .inr hc, hs⟩⟩
  · rintro ⟨h, h'⟩ s ⟨c, hc | hc, hs⟩
    · exact h s ⟨c, hc, hs⟩
    · exact h' s ⟨c, hc, hs⟩

theorem everyLine_of_mem (h : ∀ c ∈ code, EveryLine P [c]) : EveryLine P code := by
  intro s hs
  obtain ⟨c, hc, hs⟩ := mem_allLines.mp hs
  exact h c hc s (List.mem_append_left _ hs)

end Code

/-- Every line binds some of these symbols. -/
abbrev CodeBindsAmong (S : Set String) (code : List Code) : Prop := Code.EveryLine (fun s => BindsAmong S s.toList) code

namespace CodeWriter
variable {w : CodeWriter}

/-- What is written so far binds some of these symbols, whatever text of that kind follows. -/
def Safe (S : Set String) (w : CodeWriter) : Prop := ∀ more, BindsAmong S more → BindsAmong S (w.text.toList ++ more)

theorem bindsAmong_indent (h : BindsAmong S cs) (n : Nat) : BindsAmong S (List.replicate n ' ' ++ cs) := by
  induction n with
  | zero => exact h
  | succ n ih =>
    intro before rest heq
    rw [List.replicate_succ, List.cons_append] at heq
    cases before with
    | nil => cases (List.cons.inj heq).1
    | cons c before => exact ih before rest (List.cons.inj heq).2

theorem Safe.blank (h : Safe S w) : Safe S w.blank := by
  intro more hmore
  have htext : w.blank.text.toList ++ more = w.text.toList ++ ([] ++ '\n' :: more) := by
    unfold CodeWriter.blank
    rw [String.toList_append, List.append_assoc]
    rfl
  rw [htext]
  exact h _ (bindsAmong_line (bindsAmong_of_quoteFree (by simp)) hmore)

theorem Safe.line (h : Safe S w) (hs : BindsAmong S s.toList) : Safe S (w.line s) := by
  unfold CodeWriter.line
  split
  · exact h.blank
  · intro more hmore
    have htext : (w.text ++ indent w.depth ++ s ++ "\n").toList ++ more =
        w.text.toList ++ ((List.replicate (4 * w.depth) ' ' ++ s.toList) ++ '\n' :: more) := by
      simp [indent]
    show BindsAmong S ((w.text ++ indent w.depth ++ s ++ "\n").toList ++ more)
    rw [htext]
    exact h _ (bindsAmong_line (bindsAmong_indent hs _) hmore)

theorem Safe.openBlock (h : Safe S w) (hs : BindsAmong S s.toList) : Safe S (w.openBlock s) :=
  (h.line hs).line (bindsAmong_of_quoteFree (by decide))

theorem Safe.closeBlock (h : Safe S w) : Safe S w.closeBlock :=
  Safe.line (w := { w with depth := w.depth - 1 }) h (bindsAmong_of_quoteFree (by decide))

mutual
theorem Safe.put {w : CodeWriter} (h : Safe S w) : (c : Code) → (∀ s ∈ c.lines, BindsAmong S s.toList) → Safe S (w.put c)
  | .line s, hc => h.line (hc s List.mem_cons_self)
  | .blank, _ => h.blank
  | .block head body, hc =>
    have hhead := h.openBlock (hc head List.mem_cons_self)
    (hhead.putAll body fun s hs => hc s (List.mem_cons_of_mem _ hs)).closeBlock

theorem Safe.putAll {w : CodeWriter} (h : Safe S w) : (code : List Code) → CodeBindsAmong S code → Safe S (w.putAll code)
  | [], _ => h
  | c :: code, hcode =>
    have hc := h.put c fun s hs => hcode s (List.mem_append_left _ hs)
    hc.putAll code fun s hs => hcode s (List.mem_append_right _ hs)
end

end CodeWriter

/-- The text of some code binds what its lines bind. -/
theorem bindsAmong_render {code : List Code} (h : CodeBindsAmong S code) : BindsAmong S (Code.render code).toList := by
  have hempty : CodeWriter.Safe S .empty := fun more hmore => hmore
  simpa [Code.render] using hempty.putAll code h [] (bindsAmong_of_quoteFree (by simp))

/-! ### The lines of a text -/

namespace CodeWriter
variable {w : CodeWriter}

theorem line_extends : w.text.toList <+: (w.line s).text.toList := by
  unfold CodeWriter.line CodeWriter.blank
  split <;> simp only [String.toList_append, List.append_assoc, List.prefix_append]

theorem line_infix : s.toList <:+: (w.line s).text.toList := by
  unfold CodeWriter.line
  split
  · next h => simp [h]
  · simp only [String.toList_append]
    exact ⟨w.text.toList ++ (indent w.depth).toList, "\n".toList, by simp only [List.append_assoc]⟩

theorem openBlock_extends : (w.line s).text.toList <+: (w.openBlock s).text.toList := line_extends

theorem closeBlock_extends : w.text.toList <+: w.closeBlock.text.toList :=
  line_extends (w := { w with depth := w.depth - 1 })

mutual
theorem put_extends {w : CodeWriter} : (c : Code) → w.text.toList <+: (w.put c).text.toList
  | .line _ => line_extends
  | .blank => by
    unfold CodeWriter.put CodeWriter.blank
    simp only [String.toList_append, List.prefix_append]
  | .block _ body => (line_extends.trans openBlock_extends).trans ((putAll_extends body).trans closeBlock_extends)

theorem putAll_extends {w : CodeWriter} : (code : List Code) → w.text.toList <+: (w.putAll code).text.toList
  | [] => List.prefix_rfl
  | c :: code => (put_extends c).trans (putAll_extends code)
end

mutual
theorem infix_put {w : CodeWriter} : (c : Code) → s ∈ c.lines → s.toList <:+: (w.put c).text.toList
  | .line s', h => List.mem_singleton.mp h ▸ line_infix
  | .blank, h => nomatch h
  | .block head body, h => by
    have hclose : ∀ w' : CodeWriter, w'.text.toList <:+: w'.closeBlock.text.toList := fun _ => closeBlock_extends.isInfix
    refine List.IsInfix.trans ?_ (hclose _)
    rcases List.mem_cons.mp h with rfl | h
    · exact line_infix.trans (openBlock_extends.trans (putAll_extends body)).isInfix
    · exact infix_putAll body h

theorem infix_putAll {w : CodeWriter} : (code : List Code) → s ∈ Code.allLines code →
    s.toList <:+: (w.putAll code).text.toList
  | [], h => nomatch h
  | c :: code, h => by
    rcases List.mem_append.mp h with h | h
    · exact (infix_put c h).trans (putAll_extends code).isInfix
    · exact infix_putAll code h
end

end CodeWriter

theorem infix_render {code : List Code} (h : s ∈ Code.allLines code) : s.toList <:+: (Code.render code).toList :=
  CodeWriter.infix_putAll code h

end EngineBridge
