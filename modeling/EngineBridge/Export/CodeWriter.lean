import EngineBridge.Text.Blank

/-! Writing indented code. Code is a list of lines and blocks; a block stands between braces on lines of their own and
is indented by four blanks. -/

namespace EngineBridge

/-- A line without the carriage return at its end. -/
def withoutReturn (l : List Char) : List Char := if l.getLast? == some '\r' then l.dropLast else l

/-- The lines of a text. A line ends with a line feed, or a carriage return and a line feed; what is left behind the last
end is a line too, unless it is empty. -/
def textLines (cs : List Char) : List (List Char) :=
  let parts := splitOnChar '\n' cs
  let last := parts.getLastD []
  parts.dropLast.map withoutReturn ++ if last.isEmpty then [] else [last]

/-- A text that is written line by line, and how deep its next line is indented. -/
structure CodeWriter where
  text : String
  depth : Nat
deriving DecidableEq, Repr

namespace CodeWriter

/-- Nothing written yet. -/
def empty : CodeWriter := ⟨"", 0⟩

/-- The blanks in front of a line. -/
def indent (depth : Nat) : String := String.ofList (List.replicate (4 * depth) ' ')

/-- A line without anything on it. -/
def blank (w : CodeWriter) : CodeWriter := { w with text := w.text ++ "\n" }

/-- A line. An empty one is not indented. -/
def line (w : CodeWriter) (s : String) : CodeWriter :=
  if s = "" then w.blank else { w with text := w.text ++ indent w.depth ++ s ++ "\n" }

/-- A head and an opening brace; what follows is indented. -/
def openBlock (w : CodeWriter) (head : String) : CodeWriter :=
  let w := (w.line head).line "\x7b"
  { w with depth := w.depth + 1 }

/-- A closing brace with something behind it. -/
def closeWith (w : CodeWriter) (after : String) : CodeWriter :=
  { w with depth := w.depth - 1 }.line ("\x7d" ++ after)

/-- A closing brace. -/
def closeBlock (w : CodeWriter) : CodeWriter := w.closeWith ""

/-- Comment lines at the head of a file, and a blank line. -/
def banner (w : CodeWriter) (mark : String) (lines : List String) : CodeWriter :=
  (lines.foldl (fun w l => w.line (mark ++ " " ++ l)) w).blank

/-- The lines of another text, indented as this one. -/
def append (w other : CodeWriter) : CodeWriter :=
  (textLines other.text.toList).foldl (fun w l => w.line (String.ofList l)) w

end CodeWriter

/-- A piece of code. -/
inductive Code
  | line (s : String)
  | blank
  | block (head : String) (body : List Code)
deriving Repr

mutual
/-- Writes a piece of code. -/
def CodeWriter.put (w : CodeWriter) : Code → CodeWriter
  | .line s => w.line s
  | .blank => w.blank
  | .block head body => ((w.openBlock head).putAll body).closeBlock

/-- Writes pieces of code one after the other. -/
def CodeWriter.putAll (w : CodeWriter) : List Code → CodeWriter
  | [] => w
  | c :: cs => (w.put c).putAll cs
end

/-- The text of some code. -/
def Code.render (code : List Code) : String := (CodeWriter.empty.putAll code).text

/-- The comment lines at the head of a file. -/
def Code.banner (mark : String) (lines : List String) : List Code :=
  lines.map (fun l => Code.line (mark ++ " " ++ l)) ++ [.blank]

end EngineBridge
