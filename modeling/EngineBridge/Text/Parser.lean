/-! Parsers that remember the furthest place where they were refused.

A parser answers with a value and the text after it, or with nothing; either way it tells the furthest
failure of any alternative it tried. A whole parse that fails is explained by that one failure: the one
nearest the end of the text, and of several at one place the first that carries words of its own. -/

namespace EngineBridge

/-- Text still to be read, with its length. -/
structure Input where
  chars : List Char
  size : Nat
  size_eq : size = chars.length

namespace Input

/-- The whole of a text. -/
def ofChars (cs : List Char) : Input := ⟨cs, cs.length, rfl⟩

/-- The text after its first `n` characters. -/
def drop (n : Nat) (s : Input) : Input := ⟨s.chars.drop n, s.size - n, by simp [s.size_eq]⟩

theorem ext_chars {s t : Input} (h : s.chars = t.chars) : s = t := by
  obtain ⟨a, n, hn⟩ := s
  obtain ⟨b, m, hm⟩ := t
  simp only at h
  subst h hn hm
  rfl

@[simp] theorem chars_ofChars (cs : List Char) : (ofChars cs).chars = cs := rfl

@[simp] theorem chars_drop (n : Nat) (s : Input) : (s.drop n).chars = s.chars.drop n := rfl

end Input

/-- Why a parser did not go on at a place. -/
inductive Complaint
  /-- The character found there, or the end of the text, fits nothing that was tried. -/
  | unexpected (found : Option Char)
  /-- Text that was read there was refused for a reason of its own. -/
  | refused (reason : String)
deriving DecidableEq, Repr

/-- A complaint about the place that has `remaining` characters after it. -/
structure Failure where
  remaining : Nat
  complaint : Complaint
deriving DecidableEq, Repr

/-- The one of two failures, in the order in which they arose, that explains more: the one nearer the
    end of the text; at one place the first with a reason of its own; otherwise the first. -/
def Failure.later : Option Failure → Option Failure → Option Failure
  | none, g => g
  | f, none => f
  | some f, some g =>
    if g.remaining < f.remaining then some g
    else if f.remaining < g.remaining then some f
    else match f.complaint, g.complaint with
      | .unexpected _, .refused _ => some g
      | _, _ => some f

/-- What a parser makes of a text. -/
structure Outcome (α : Type) where
  /-- The value read and the text after it. -/
  result : Option (α × Input)
  furthest : Option Failure

/-- Reads a value from the front of a text. -/
def Parser (α : Type) : Type := Input → Outcome α

namespace Parser
variable {α β : Type}

instance : Monad Parser where
  pure a := fun s => ⟨some (a, s), none⟩
  bind p f := fun s =>
    match p s with
    | ⟨none, e⟩ => ⟨none, e⟩
    | ⟨some (a, rest), e⟩ =>
      let o := f a rest
      ⟨o.result, Failure.later e o.furthest⟩

/-- Tries the second parser where the first one fails. -/
def orElse (p : Parser α) (q : Unit → Parser α) : Parser α := fun s =>
  match p s with
  | ⟨some r, e⟩ => ⟨some r, e⟩
  | ⟨none, e⟩ =>
    let o := q () s
    ⟨o.result, Failure.later e o.furthest⟩

instance : OrElse (Parser α) := ⟨orElse⟩

/-- Fails without a trace. -/
def fail : Parser α := fun _ => ⟨none, none⟩

/-- The complaint that the text does not go on as wanted. -/
def complain (s : Input) : Option Failure := some ⟨s.size, .unexpected s.chars.head?⟩

/-- One character of a class. -/
def satisfy (p : Char → Bool) : Parser Char := fun s =>
  match s.chars with
  | [] => ⟨none, complain s⟩
  | c :: _ => if p c then ⟨some (c, s.drop 1), none⟩ else ⟨none, complain s⟩

/-- The longest run of characters of a class; the character that ends it is complained about. -/
def run (p : Char → Bool) : Parser (List Char) := fun s =>
  let taken := s.chars.takeWhile p
  let rest := s.drop taken.length
  ⟨some (taken, rest), complain rest⟩

/-- Exactly these characters; the first that differs is complained about. -/
def exactly : List Char → Parser Unit
  | [] => pure ()
  | c :: cs => do
    let _ ← satisfy (· == c)
    exactly cs

/-- Exactly this text. -/
def text (t : String) : Parser Unit := exactly t.toList

/-- The end of the text. -/
def atEnd : Parser Unit := fun s =>
  match s.chars with
  | [] => ⟨some ((), s), none⟩
  | _ :: _ => ⟨none, complain s⟩

/-- The value if it can be read, and otherwise nothing is read. -/
def optional (p : Parser α) : Parser (Option α) := fun s =>
  match p s with
  | ⟨some (a, rest), e⟩ => ⟨some (some a, rest), e⟩
  | ⟨none, e⟩ => ⟨some (none, s), e⟩

/-- As many values as can be read one after the other. Each must take at least one character. -/
def many (p : Parser α) (s : Input) : Outcome (List α) :=
  match p s with
  | ⟨none, e⟩ => ⟨some ([], s), e⟩
  | ⟨some (a, rest), e⟩ =>
    if rest.size < s.size then
      let o := many p rest
      ⟨o.result.map fun r => (a :: r.1, r.2), Failure.later e o.furthest⟩
    else ⟨some ([a], rest), e⟩
termination_by s.size

/-- One value or more with a separator between two. -/
def sepBy1 (item : Parser α) (separator : Parser Unit) : Parser (List α) := do
  let a ← item
  let as ← many (do separator; item)
  return a :: as

/-- Values with a separator between two; a last separator may stand behind the last value. -/
def sepEndBy (item : Parser α) (separator : Parser Unit) : Parser (List α) := do
  let as ← optional do
    let as ← sepBy1 item separator
    let _ ← optional separator
    return as
  return as.getD []

/-- A value between an opening and a closing text. -/
def between (opening closing : Parser Unit) (p : Parser α) : Parser α := do
  opening
  let a ← p
  closing
  return a

/-- The value read and the characters it was read from. -/
def withText (p : Parser α) : Parser (α × List Char) := fun s =>
  match p s with
  | ⟨some (a, rest), e⟩ => ⟨some ((a, s.chars.take (s.size - rest.size)), rest), e⟩
  | ⟨none, e⟩ => ⟨none, e⟩

/-- Passes what is read through a check. A refusal is put at the front of what was read, and what was
    complained about inside it is forgotten. -/
def checked (p : Parser α) (check : α → Except String β) : Parser β := fun s =>
  match p s with
  | ⟨none, e⟩ => ⟨none, e⟩
  | ⟨some (a, rest), e⟩ =>
    match check a with
    | .ok b => ⟨some (b, rest), e⟩
    | .error reason => ⟨none, some ⟨s.size, .refused reason⟩⟩

/-- Fails without a trace unless what is read passes the test. -/
def filtered (p : Parser α) (test : α → Bool) : Parser α := fun s =>
  match p s with
  | ⟨none, e⟩ => ⟨none, e⟩
  | ⟨some (a, rest), e⟩ => if test a then ⟨some (a, rest), e⟩ else ⟨none, none⟩

/-- Reads nothing, where `p` would fail. -/
def notHere (p : Parser α) : Parser Unit := fun s =>
  match p s with
  | ⟨some _, _⟩ => ⟨none, complain s⟩
  | ⟨none, _⟩ => ⟨some ((), s), none⟩

/-- The parser `f` describes in terms of itself, unfolded at most `n` times. -/
def unfolded (f : Parser α → Parser α) : Nat → Parser α
  | 0 => fail
  | n + 1 => fun s => f (unfolded f n) s

/-- The parser that `f` describes in terms of itself. A description that takes a character before it
    uses itself is never unfolded more often than there are characters. -/
def recursive (f : Parser α → Parser α) : Parser α := fun s => unfolded f (s.size + 1) s

/-- The whole text as one value, or the failure that explains why it is none. -/
def parseAll (p : Parser α) (cs : List Char) : Except Failure α :=
  let o := (do let a ← p; atEnd; return a : Parser α) (Input.ofChars cs)
  match o.result with
  | some (a, _) => .ok a
  | none => .error (o.furthest.getD ⟨cs.length, .unexpected cs.head?⟩)

end Parser
end EngineBridge
