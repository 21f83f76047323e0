import EngineBridge.Source.Grammar
import EngineBridge.Source.Position

/-! Reading a source text, and saying where and why it cannot be read. -/

namespace EngineBridge.Source

/-- What a message says about a complaint. -/
def complaintText : Complaint → String
  | .refused reason => reason
  | .unexpected none => "unexpected end of input"
  | .unexpected (some c) => "unexpected " ++ quotedChar c

/-- A complaint and what stands in front of the place it is about. -/
structure Diagnostic where
  before : List Char
  complaint : Complaint

namespace Diagnostic

/-- The diagnostic of a failure within a text. -/
def ofFailure (source : List Char) (f : Failure) : Diagnostic :=
  ⟨source.take (source.length - f.remaining), f.complaint⟩

/-- The offset of the place, in bytes. -/
def offset (d : Diagnostic) : Nat := byteSize d.before

/-- The place of the complaint. -/
def position (d : Diagnostic) : Position := Position.start.advance d.before

/-- The line that reports the complaint about a file. -/
def render (path : String) (d : Diagnostic) : String :=
  path ++ ":" ++ toString d.position.line ++ ":" ++ toString d.position.column ++ ": " ++ complaintText d.complaint

end Diagnostic

/-- Reads a whole text. -/
def parseText {α : Type} (p : Parser α) (source : String) : Except Diagnostic α :=
  (Parser.parseAll p source.toList).mapError (Diagnostic.ofFailure source.toList)

/-- The declarations of a source text. -/
def parseFile (source : String) : Except Diagnostic (List TypeDecl) := parseText file source

/-- The type that a text spells. -/
def parseType (source : String) : Except Diagnostic TypeExpr := parseText typeExpr source

end EngineBridge.Source
