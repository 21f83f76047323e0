/-! Paths as they are written. A path is a text whose segments are separated by slashes; what it leads to is for a
file tree to say. -/

namespace EngineBridge

/-- A path as it is written. -/
structure Path where
  text : String
deriving DecidableEq, Repr

namespace Path

/-- The pieces between slashes; empty ones stand for repeated slashes and for one at the end. -/
def segmentsOf : List Char → List (List Char)
  | [] => [[]]
  | c :: cs =>
    if c == '/' then [] :: segmentsOf cs
    else match segmentsOf cs with
      | [] => [[c]]
      | s :: ss => (c :: s) :: ss

/-- The pieces of the path between slashes. -/
def segments (p : Path) : List String := (segmentsOf p.text.toList).map String.ofList

/-- The path starts at the root. -/
def isAbsolute (p : Path) : Bool := p.text.toList.head? == some '/'

/-- The pieces that matter: no empty ones, and points only where a path begins with one. -/
def components (p : Path) : List String :=
  let parts := p.segments.filter (· ≠ "")
  match parts with
  | [] => []
  | first :: rest =>
    (if first == "." && p.isAbsolute then [] else [first]) ++ rest.filter (· ≠ ".")

/-- The path `q` seen from the directory `p`. -/
def join (p q : Path) : Path :=
  if q.isAbsolute then q
  else if p.text == "" || p.text.toList.getLast? == some '/' then ⟨p.text ++ q.text⟩
  else ⟨p.text ++ "/" ++ q.text⟩

/-- The path of an entry of the directory. -/
def child (p : Path) (name : String) : Path := p.join ⟨name⟩

/-- The last component, if it is a name. -/
def fileName? (p : Path) : Option String :=
  match p.components.getLast? with
  | some "." | some ".." | none => none
  | some name => some name

/-- A name before and after its last point. A point in front of everything else does not count. -/
def splitName (name : String) : String × Option String :=
  let cs := name.toList
  let after := (cs.reverse.takeWhile (· ≠ '.')).reverse
  let before := (cs.reverse.dropWhile (· ≠ '.')).reverse.dropLast
  if cs.contains '.' && before ≠ [] then (String.ofList before, some (String.ofList after)) else (name, none)

/-- The last component without its ending. -/
def fileStem? (p : Path) : Option String := p.fileName?.map fun name => (splitName name).1

/-- What follows the last point of the last component. -/
def extension? (p : Path) : Option String := p.fileName?.bind fun name => (splitName name).2

/-- The text with slashes for backslashes. -/
def withSlashes (p : Path) : String := String.ofList (p.text.toList.map fun c => if c == '\\' then '/' else c)

end Path
end EngineBridge
