/-! What can be wrong with a document or with the text it is made from. -/

namespace EngineBridge

/-- Why there is no document. -/
inductive DocumentError
  /-- The input is not there. -/
  | missingInput (path : String)
  /-- The file cannot be read as text. -/
  | unreadable (path : String)
  /-- The text is no document or no manifest. -/
  | malformed (path : String)
  /-- The source text has errors; each diagnostic is a line of its own. -/
  | unparsable (path : String) (diagnostics : List String)
  | duplicateType (type : String)
  | duplicateMember (type member : String)
  /-- A member refers to a type that is not declared, or is of another kind. -/
  | unresolvedType (type member reference : String)
  /-- The type breaks a rule of its kind. -/
  | invalidType (type : String) (problem : String)
deriving DecidableEq, Repr

namespace DocumentError

/-- The name of the kind of error. -/
def kind : DocumentError → String
  | missingInput _ => "MissingInput"
  | unreadable _ => "Io"
  | malformed _ => "Malformed"
  | unparsable _ _ => "Parse"
  | duplicateType _ => "DuplicateType"
  | duplicateMember _ _ => "DuplicateMember"
  | unresolvedType _ _ _ => "UnresolvedType"
  | invalidType _ _ => "InvalidType"

def message : DocumentError → String
  | missingInput path => "input path '" ++ path ++ "' does not exist"
  | unreadable path => "failed to read '" ++ path ++ "'"
  | malformed path => "malformed input '" ++ path ++ "'"
  | unparsable path diagnostics => toString diagnostics.length ++ " parse error(s) in '" ++ path ++ "'"
  | duplicateType type => "type '" ++ type ++ "' is declared more than once"
  | duplicateMember type member => "type '" ++ type ++ "' declares member '" ++ member ++ "' more than once"
  | unresolvedType type member reference =>
    type ++ "." ++ member ++ ": unresolved type reference '" ++ reference ++ "'"
  | invalidType type problem => type ++ ": " ++ problem

end DocumentError
end EngineBridge
