import EngineBridge.Text.Parser

/-! What parsers read, without what they complain about: a parser as a partial function on the characters that are
left. Each way of making a parser has its equation here. -/

namespace EngineBridge
namespace Parser
variable {α β : Type}

/-- The value that is read from the front of these characters, and the characters behind it. -/
def on (p : Parser α) (cs : List Char) : Option (α × List Char) :=
  (p (.ofChars cs)).result.map fun r => (r.1, r.2.chars)

theorem on_eq (p : Parser α) (s : Input) : (p s).result.map (fun r => (r.1, r.2.chars)) = p.on s.chars := by
  rw [on, show Input.ofChars s.chars = s from Input.ext_chars rfl]

@[simp] theorem on_pure (a : α) (cs : List Char) : (pure a : Parser α).on cs = some (a, cs) := rfl

theorem on_bind (p : Parser α) (f : α → Parser β) (cs : List Char) :
    (p >>= f).on cs = (p.on cs).bind fun r => (f r.1).on r.2 := by
  simp only [on, bind]
  rcases p (.ofChars cs) with ⟨_ | ⟨a, rest⟩, e⟩
  · rfl
  · exact on_eq (f a) rest

theorem on_orElse (p q : Parser α) (cs : List Char) : (p <|> q).on cs = (p.on cs).or (q.on cs) := by
  simp only [on, HOrElse.hOrElse, OrElse.orElse, orElse]
  rcases p (.ofChars cs) with ⟨_ | ⟨a, rest⟩, e⟩ <;> rfl

theorem on_satisfy (p : Char → Bool) (cs : List Char) :
    (satisfy p).on cs = match cs with
      | [] => none
      | c :: cs => if p c then some (c, cs) else none := by
  cases cs with
  | nil => rfl
  | cons c cs =>
    simp only [on, satisfy, Input.chars_ofChars]
    split <;> rfl

theorem on_run (p : Char → Bool) (cs : List Char) : (run p).on cs = some (cs.takeWhile p, cs.dropWhile p) := by
  have hdrop : cs.drop (cs.takeWhile p).length = cs.dropWhile p := by
    induction cs with
    | nil => rfl
    | cons c cs ih =>
      by_cases hc : p c = true
      · simpa [hc] using ih
      · simp [hc]
  simp only [on, run, Input.chars_ofChars, Option.map_some, Input.chars_drop, hdrop]

/-- A run ends where the class ends. -/
theorem on_run_append {p : Char → Bool} {body rest : List Char} (hbody : ∀ c ∈ body, p c = true)
    (hrest : ∀ c ∈ rest.head?, p c = false) : (run p).on (body ++ rest) = some (body, rest) := by
  rw [on_run, List.takeWhile_append_of_pos hbody, List.dropWhile_append_of_pos hbody]
  cases rest with
  | nil => simp
  | cons c rest => simp [hrest c rfl]

theorem on_exactly (t cs : List Char) :
    (exactly t).on cs = if t <+: cs then some ((), cs.drop t.length) else none := by
  induction t generalizing cs with
  | nil => simp [exactly]
  | cons c t ih =>
    rw [exactly, on_bind, on_satisfy]
    cases cs with
    | nil => simp
    | cons d cs =>
      by_cases hd : d = c
      · simp [hd, ih]
      · simp [hd, Ne.symm hd]

theorem on_optional (p : Parser α) (cs : List Char) :
    (optional p).on cs = match p.on cs with
      | some (a, rest) => some (some a, rest)
      | none => some (none, cs) := by
  simp only [on, optional]
  rcases p (.ofChars cs) with ⟨_ | ⟨a, rest⟩, e⟩ <;> rfl

theorem on_many (p : Parser α) (cs : List Char) :
    on (many p) cs = match p.on cs with
      | none => some ([], cs)
      | some (a, rest) =>
        if rest.length < cs.length then (on (many p) rest).map fun r => (a :: r.1, r.2) else some ([a], rest) := by
  have hsize : ∀ s : Input, s.size = s.chars.length := Input.size_eq
  simp only [on]
  rw [many]
  rcases hp : p (.ofChars cs) with ⟨_ | ⟨a, rest⟩, e⟩
  · rfl
  · dsimp only [Option.map_some]
    rw [hsize, hsize, Input.chars_ofChars]
    split
    · rw [show Input.ofChars rest.chars = rest from Input.ext_chars rfl]
      cases (many p rest).result <;> rfl
    · rfl

theorem on_checked (p : Parser α) (check : α → Except String β) (cs : List Char) :
    (checked p check).on cs = (p.on cs).bind fun r => (check r.1).toOption.map fun b => (b, r.2) := by
  simp only [on, checked]
  rcases p (.ofChars cs) with ⟨_ | ⟨a, rest⟩, e⟩
  · rfl
  · dsimp only [Option.map_some, Option.bind_some]
    cases check a <;> rfl

theorem on_filtered (p : Parser α) (test : α → Bool) (cs : List Char) :
    (filtered p test).on cs = (p.on cs).filter fun r => test r.1 := by
  simp only [on, filtered]
  rcases p (.ofChars cs) with ⟨_ | ⟨a, rest⟩, e⟩
  · rfl
  · dsimp only [Option.map_some]
    rw [Option.filter_some]
    split <;> rfl

theorem on_notHere (p : Parser α) (cs : List Char) :
    (notHere p).on cs = if (p.on cs).isSome then none else some ((), cs) := by
  rcases hp : p (.ofChars cs) with ⟨_ | ⟨a, rest⟩, e⟩ <;> simp [on, notHere, hp]

/-- What reads all characters is the whole parse. -/
theorem parseAll_eq_ok {p : Parser α} {cs : List Char} {a : α} (h : p.on cs = some (a, [])) :
    parseAll p cs = .ok a := by
  have hwhole : (do let a ← p; atEnd; return a : Parser α).on cs = some (a, []) := by
    rw [on_bind, h]
    rfl
  rw [on] at hwhole
  obtain ⟨⟨a', rest⟩, hresult, ha⟩ := Option.map_eq_some_iff.mp hwhole
  obtain rfl : a' = a := congrArg Prod.fst ha
  unfold parseAll
  dsimp only
  rw [hresult]

end Parser
end EngineBridge
