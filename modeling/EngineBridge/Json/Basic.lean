/-! Values of the JSON notation, as they stand in a text: numbers keep their digits, objects the order of
    their fields and fields that are repeated. -/

namespace EngineBridge

/-- A number as it is written: sign, digits before the point, digits after it, exponent. -/
structure JsonNumber where
  negative : Bool
  whole : List Char
  fraction : Option (List Char)
  exponent : Option Int
deriving BEq, Repr

/-- The text of a string; nothing, if its escapes spell half of a surrogate pair. -/
abbrev JsonText := Option String

/-- A value of the JSON notation. -/
inductive Json
  | null
  | bool (b : Bool)
  | number (n : JsonNumber)
  | string (s : JsonText)
  | array (items : List Json)
  | object (fields : List (JsonText × Json))
deriving BEq, Repr, Inhabited

namespace JsonNumber

/-- An integer written without a point or exponent. -/
def ofInt (n : Int) : JsonNumber := ⟨n < 0, (toString n.natAbs).toList, none, none⟩

end JsonNumber

namespace Json

/-- A string value. -/
def str (s : String) : Json := .string (some s)

/-- An integer value. -/
def int (n : Int) : Json := .number (.ofInt n)

/-- A count. -/
def nat (n : Nat) : Json := int n

/-- An object with the given fields. -/
def record (fields : List (String × Json)) : Json := .object (fields.map fun f => (some f.1, f.2))

/-- A value that may be missing. -/
def option {α : Type} (toJson : α → Json) : Option α → Json
  | some a => toJson a
  | none => .null

/-- A list of values. -/
def list {α : Type} (toJson : α → Json) (as : List α) : Json := .array (as.map toJson)

/-- A list of texts. -/
def texts (ss : List String) : Json := list .str ss

/-- An error: the name of its kind, its message, and what else there is to tell. -/
def failure (kind message : String) (more : List (String × Json)) : Json :=
  .record ([("error", .str kind), ("message", .str message)] ++ more)

/-- The value of the first field of that name. -/
def field? (name : String) : Json → Option Json
  | .object fields => (fields.find? fun f => f.1 == some name).map (·.2)
  | _ => none

end Json
end EngineBridge
