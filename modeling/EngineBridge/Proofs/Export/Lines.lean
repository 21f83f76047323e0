import EngineBridge.Proofs.Export.WrapperText
import EngineBridge.Proofs.Text.Lines

/-! The text of some code, line by line.

Code is written as the lines of its pieces, indented by their depth. As long as no piece has a line break of its own,
these are the lines of the text again, and a text that is copied line by line stays the same. -/

namespace EngineBridge

/-- The text has no line break in it. -/
def LineFree (s : String) : Prop := Lacks '\n' s ∧ Lacks '\r' s

instance (s : String) : Decidable (LineFree s) := inferInstanceAs (Decidable (_ ∧ _))

section
variable {s u : String}

@[simp] theorem lineFree_append : LineFree (s ++ u) ↔ LineFree s ∧ LineFree u := by
  simp only [LineFree, lacks_append]
  tauto

theorem lineFree_of_isIdentifier (h : isIdentifier s = true) : LineFree s :=
  ⟨lacks_of_isIdentifier (by decide) h, lacks_of_isIdentifier (by decide) h⟩

@[simp] theorem lineFree_repr (n : Nat) : LineFree n.repr := ⟨lacks_repr (by decide) n, lacks_repr (by decide) n⟩

theorem lineFree_intercalate {parts : List String} (hs : LineFree s) (h : ∀ p ∈ parts, LineFree p) :
    LineFree (String.intercalate s parts) :=
  ⟨lacks_intercalate hs.1 fun p hp => (h p hp).1, lacks_intercalate hs.2 fun p hp => (h p hp).2⟩

end

/-! ### Lines that are written -/

/-- A line at some depth. An empty one is not indented. -/
def indented (depth : Nat) (s : String) : String := if s = "" then "" else CodeWriter.indent depth ++ s

mutual
/-- The lines that a piece of code is written as. -/
def Code.written (depth : Nat) : Code → List String
  | .line s => [indented depth s]
  | .blank => [""]
  | .block head body =>
    indented depth head :: indented depth "\x7b" :: (Code.writtenAll (depth + 1) body ++ [indented depth "\x7d"])

/-- The lines that pieces of code are written as. -/
def Code.writtenAll (depth : Nat) : List Code → List String
  | [] => []
  | c :: cs => c.written depth ++ Code.writtenAll depth cs
end

/-- A text of lines, each with its end. -/
def unlines (ls : List String) : List Char := ls.flatMap fun l => l.toList ++ ['\n']

section
variable {ls more : List String} {s : String} {c : Code} {code code' : List Code} {depth : Nat}

@[simp] theorem unlines_nil : unlines [] = [] := rfl

@[simp] theorem unlines_cons : unlines (s :: ls) = s.toList ++ '\n' :: unlines ls := by simp [unlines]

@[simp] theorem unlines_append : unlines (ls ++ more) = unlines ls ++ unlines more := by simp [unlines]

theorem indented_zero : indented 0 s = s := by
  unfold indented CodeWriter.indent
  split
  · next h => exact h.symm
  · simp

@[simp] theorem lineFree_indented : LineFree (indented depth s) ↔ LineFree s := by
  have hblanks : LineFree (CodeWriter.indent depth) := by simp [LineFree, Lacks, CodeWriter.indent]
  unfold indented
  split
  · next h => rw [h]
  · simp [hblanks]

namespace Code

@[simp] theorem writtenAll_nil : writtenAll depth [] = [] := rfl

@[simp] theorem writtenAll_cons : writtenAll depth (c :: code) = c.written depth ++ writtenAll depth code := rfl

@[simp] theorem writtenAll_append : writtenAll depth (code ++ code') = writtenAll depth code ++ writtenAll depth code' := by
  induction code with
  | nil => rfl
  | cons c code ih => simp [ih]

mutual
theorem lineFree_written {depth : Nat} : (c : Code) → (∀ s ∈ c.lines, LineFree s) → ∀ l ∈ c.written depth, LineFree l
  | .line s, h => by simpa [written] using h s List.mem_cons_self
  | .blank, _ => by simpa [written] using (by decide : LineFree "")
  | .block head body, h => by
    have hhead : LineFree head := h head List.mem_cons_self
    have hbody : ∀ l ∈ writtenAll (depth + 1) body, LineFree l := lineFree_writtenAll body fun s hs => h s (List.mem_cons_of_mem _ hs)
    have hopen : LineFree "\x7b" := by decide
    have hclose : LineFree "\x7d" := by decide
    intro l hl
    simp only [written, List.mem_cons, List.mem_append, List.not_mem_nil, or_false] at hl
    rcases hl with rfl | rfl | hl | rfl
    · exact lineFree_indented.mpr hhead
    · exact lineFree_indented.mpr hopen
    · exact hbody l hl
    · exact lineFree_indented.mpr hclose

/-- Where no piece has a line break, none of the lines has one. -/
theorem lineFree_writtenAll {depth : Nat} : (code : List Code) → EveryLine LineFree code →
    ∀ l ∈ writtenAll depth code, LineFree l
  | [], _ => fun l hl => nomatch hl
  | c :: code, h => by
    intro l hl
    rcases List.mem_append.mp hl with hl | hl
    · exact lineFree_written c (fun s hs => h s (List.mem_append_left _ hs)) l hl
    · exact lineFree_writtenAll code (fun s hs => h s (List.mem_append_right _ hs)) l hl
end

end Code

namespace CodeWriter
variable {w : CodeWriter}

theorem text_line : (w.line s).text.toList = w.text.toList ++ unlines [indented w.depth s] := by
  unfold CodeWriter.line indented
  split <;> simp [CodeWriter.blank]

theorem text_blank : w.blank.text.toList = w.text.toList ++ unlines [""] := by simp [CodeWriter.blank]

@[simp] theorem depth_line : (w.line s).depth = w.depth := by
  unfold CodeWriter.line
  split <;> rfl

@[simp] theorem depth_blank : w.blank.depth = w.depth := rfl

mutual
theorem put_written {w : CodeWriter} : (c : Code) →
    (w.put c).text.toList = w.text.toList ++ unlines (c.written w.depth) ∧ (w.put c).depth = w.depth
  | .line _ => ⟨text_line, depth_line⟩
  | .blank => ⟨text_blank, rfl⟩
  | .block head body => by
    obtain ⟨htext, hdepth⟩ := putAll_written (w := w.openBlock head) body
    have hopen : (w.openBlock head).text.toList = w.text.toList ++ unlines [indented w.depth head, indented w.depth "\x7b"] := by
      show ((w.line head).line "\x7b").text.toList = _
      rw [text_line, text_line, depth_line]
      simp
    have hinner : (w.openBlock head).depth = w.depth + 1 := by
      show ((w.line head).line "\x7b").depth + 1 = _
      rw [depth_line, depth_line]
    rw [hinner] at htext hdepth
    refine ⟨?_, ?_⟩
    · show (CodeWriter.line _ _).text.toList = _
      rw [text_line, hdepth, htext, hopen]
      simp [Code.written]
    · show (CodeWriter.line _ _).depth = _
      rw [depth_line, hdepth]
      rfl

/-- Code is written as its lines. -/
theorem putAll_written {w : CodeWriter} : (code : List Code) →
    (w.putAll code).text.toList = w.text.toList ++ unlines (Code.writtenAll w.depth code) ∧ (w.putAll code).depth = w.depth
  | [] => ⟨(List.append_nil _).symm, rfl⟩
  | c :: code => by
    obtain ⟨htext, hdepth⟩ := put_written (w := w) c
    obtain ⟨htext', hdepth'⟩ := putAll_written (w := w.put c) code
    rw [hdepth] at htext' hdepth'
    refine ⟨?_, hdepth'⟩
    show ((w.put c).putAll code).text.toList = _
    rw [htext', htext, Code.writtenAll_cons, unlines_append, List.append_assoc]
end

end CodeWriter

theorem render_written : (Code.render code).toList = unlines (Code.writtenAll 0 code) := by
  simpa [Code.render, CodeWriter.empty] using (CodeWriter.putAll_written (w := .empty) code).1

/-! ### Lines that are read -/

theorem unlines_eq : unlines ls = wholeLines (ls.map String.toList) := by simp [unlines, wholeLines, List.flatMap_map]

theorem splitOnChar_unlines (h : ∀ l ∈ ls, Lacks '\n' l) :
    splitOnChar '\n' (unlines ls) = ls.map String.toList ++ [[]] := by
  have hls : Unbroken (ls.map String.toList) := fun l hl => by
    obtain ⟨s, hs, rfl⟩ := List.mem_map.mp hl
    exact h s hs
  rw [unlines_eq, ← List.append_nil (wholeLines _), splitOnChar_wholeLines hls]
  rfl

theorem withoutReturn_of_lacks (h : Lacks '\r' s) : withoutReturn s.toList = s.toList := by
  unfold withoutReturn
  split
  · next hlast =>
    have hmem : '\r' ∈ s.toList := List.mem_of_getLast? (by simpa using hlast)
    exact absurd hmem h
  · rfl

/-- The lines of a text of lines are these. -/
theorem textLines_unlines (h : ∀ l ∈ ls, LineFree l) : textLines (unlines ls) = ls.map String.toList := by
  have hreturns : (ls.map String.toList).map withoutReturn = ls.map String.toList := by
    rw [List.map_map]
    exact List.map_congr_left fun l hl => withoutReturn_of_lacks (h l hl).2
  unfold textLines
  rw [splitOnChar_unlines fun l hl => (h l hl).1]
  simp [hreturns]

/-- Copied without indentation, a text of lines stays the same. -/
theorem CodeWriter.append_unlines {w other : CodeWriter} (hw : w.depth = 0) (h : ∀ l ∈ ls, LineFree l)
    (hother : other.text.toList = unlines ls) :
    (w.append other).text.toList = w.text.toList ++ unlines ls ∧ (w.append other).depth = 0 := by
  unfold CodeWriter.append
  rw [hother, textLines_unlines h]
  clear hother h
  induction ls generalizing w with
  | nil => exact ⟨(List.append_nil _).symm, hw⟩
  | cons l ls ih =>
    have hline : (w.line l).depth = 0 := depth_line.trans hw
    obtain ⟨htext, hdepth⟩ := ih hline
    rw [List.map_cons, List.foldl_cons, String.ofList_toList]
    refine ⟨?_, hdepth⟩
    rw [htext, text_line, hw, indented_zero]
    simp

end
end EngineBridge
