import EngineBridge.Proofs.Model.Flags

/-! A text as its lines: splitting a text at its line ends takes it apart into the lines that it is put together from. -/

namespace EngineBridge

/-- Whole lines, each with its end. -/
def wholeLines (ls : List (List Char)) : List Char := ls.flatMap (· ++ ['\n'])

section
variable {ls : List (List Char)} {l text rest : List Char}

@[simp] theorem wholeLines_cons : wholeLines (l :: ls) = l ++ '\n' :: wholeLines ls := by simp [wholeLines]

/-- None of the lines has a line end within it. -/
def Unbroken (ls : List (List Char)) : Prop := ∀ l ∈ ls, '\n' ∉ l

@[simp] theorem unbroken_nil : Unbroken [] := fun _ h => nomatch h

@[simp] theorem unbroken_cons : Unbroken (l :: ls) ↔ '\n' ∉ l ∧ Unbroken ls := List.forall_mem_cons

theorem splitOnChar_wholeLines (h : Unbroken ls) : splitOnChar '\n' (wholeLines ls ++ rest) = ls ++ splitOnChar '\n' rest := by
  induction ls with
  | nil => rfl
  | cons l ls ih =>
    obtain ⟨hl, hls⟩ := unbroken_cons.mp h
    rw [wholeLines_cons, List.append_assoc, List.cons_append, splitOnChar_append hl, ih hls, List.cons_append]

/-- A text is whole lines and what stands behind the last line end. -/
theorem exists_lines (text : List Char) : ∃ ls last, text = wholeLines ls ++ last ∧ Unbroken ls ∧ '\n' ∉ last := by
  induction text with
  | nil => exact ⟨[], [], rfl, unbroken_nil, List.not_mem_nil⟩
  | cons c text ih =>
    obtain ⟨ls, last, rfl, hls, hlast⟩ := ih
    by_cases hc : c = '\n'
    · refine ⟨[] :: ls, last, ?_, unbroken_cons.mpr ⟨List.not_mem_nil, hls⟩, hlast⟩
      rw [hc, wholeLines_cons]
      rfl
    · have hfree : ∀ {l : List Char}, '\n' ∉ l → '\n' ∉ c :: l := fun hl hmem =>
        (List.mem_cons.mp hmem).elim (fun heq => hc heq.symm) hl
      cases ls with
      | nil => exact ⟨[], c :: last, rfl, hls, hfree hlast⟩
      | cons l ls =>
        obtain ⟨hl, hls⟩ := unbroken_cons.mp hls
        exact ⟨(c :: l) :: ls, last, by simp, unbroken_cons.mpr ⟨hfree hl, hls⟩, hlast⟩

/-- The first line of a text goes on up to the first line end. -/
theorem exists_splitOnChar_append (hl : '\n' ∉ l) (rest : List Char) :
    ∃ more parts, splitOnChar '\n' (l ++ rest) = (l ++ more) :: parts := by
  obtain ⟨ls, last, rfl, hls, hlast⟩ := exists_lines rest
  have hfree : ∀ {more : List Char}, '\n' ∉ more → '\n' ∉ l ++ more := fun hmore hmem =>
    (List.mem_append.mp hmem).elim hl hmore
  cases ls with
  | nil => exact ⟨last, [], splitOnChar_free (hfree hlast)⟩
  | cons r ls =>
    refine ⟨r, splitOnChar '\n' (wholeLines ls ++ last), ?_⟩
    rw [wholeLines_cons, List.append_assoc, List.cons_append, ← List.append_assoc,
      splitOnChar_append (hfree (unbroken_cons.mp hls).1)]

/-- A line of a text stands behind the lines before it. -/
theorem exists_of_splitOnChar {after : List (List Char)} (h : splitOnChar '\n' text = ls ++ l :: after) :
    (∃ rest, text = wholeLines ls ++ (l ++ rest)) ∧ Unbroken ls ∧ '\n' ∉ l := by
  obtain ⟨whole, last, rfl, hwhole, hlast⟩ := exists_lines text
  rw [splitOnChar_wholeLines hwhole, splitOnChar_free hlast] at h
  rcases List.eq_nil_or_concat after with rfl | ⟨between, last', rfl⟩
  · obtain ⟨rfl, hlast'⟩ := List.append_inj' h rfl
    cases hlast'
    exact ⟨⟨[], by rw [List.append_nil]⟩, hwhole, hlast⟩
  · rw [List.concat_eq_append, ← List.cons_append, ← List.append_assoc] at h
    obtain ⟨rfl, -⟩ := List.append_inj' h rfl
    refine ⟨⟨'\n' :: wholeLines between ++ last, ?_⟩, fun k hk => hwhole k (List.mem_append_left _ hk),
      hwhole l (List.mem_append_right _ List.mem_cons_self)⟩
    simp [wholeLines]

end

end EngineBridge
