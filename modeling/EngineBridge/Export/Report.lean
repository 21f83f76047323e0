/-! Reports of the generating stages. A stage notes what became of each item and goes on; it succeeds if no item
failed. -/

namespace EngineBridge

/-- The stages, in the order in which they run. -/
inductive Stage
  | trampolines
  | wrappers
  | placeholders
deriving DecidableEq, Repr

namespace Stage

def name : Stage → String
  | trampolines => "trampolines"
  | wrappers => "wrappers"
  | placeholders => "placeholders"

end Stage

/-- What became of an item. -/
inductive ItemOutcome
  | success
  /-- The item is served in a slower way. -/
  | recovered (reason : String)
  | failed (reason : String)
deriving DecidableEq, Repr

namespace ItemOutcome

def isSuccess (o : ItemOutcome) : Bool := o == success

def isRecovered : ItemOutcome → Bool
  | recovered _ => true
  | _ => false

def isFailed : ItemOutcome → Bool
  | failed _ => true
  | _ => false

/-- How a message calls the outcome. -/
def severity : ItemOutcome → String
  | success => "info"
  | recovered _ => "warning"
  | failed _ => "error"

/-- The name of the outcome. -/
def name : ItemOutcome → String
  | success => "success"
  | recovered _ => "recovered"
  | failed _ => "failed"

/-- Why the item did not succeed. -/
def reason? : ItemOutcome → Option String
  | success => none
  | recovered reason | failed reason => some reason

end ItemOutcome

structure ReportEntry where
  subject : String
  outcome : ItemOutcome
deriving DecidableEq, Repr

/-- What became of the items of a stage, in order. -/
structure Report where
  stage : Stage
  entries : List ReportEntry
deriving DecidableEq, Repr

namespace Report

/-- The report before the first item. -/
def start (stage : Stage) : Report := ⟨stage, []⟩

def add (r : Report) (subject : String) (outcome : ItemOutcome) : Report :=
  { r with entries := r.entries ++ [⟨subject, outcome⟩] }

def addAll (r : Report) (entries : List ReportEntry) : Report := { r with entries := r.entries ++ entries }

def countWhere (r : Report) (p : ItemOutcome → Bool) : Nat := (r.entries.filter fun e => p e.outcome).length

/-- Items that succeeded. -/
def successes (r : Report) : Nat := r.countWhere ItemOutcome.isSuccess

/-- Items that are served in a slower way. -/
def warnings (r : Report) : Nat := r.countWhere ItemOutcome.isRecovered

/-- Items that failed. -/
def failures (r : Report) : Nat := r.countWhere ItemOutcome.isFailed

/-- No item failed. -/
def isSuccess (r : Report) : Bool := r.failures == 0

/-- One line for each item that did not succeed. -/
def problems (r : Report) : List String :=
  r.entries.filterMap fun e => e.outcome.reason?.map fun reason =>
    e.outcome.severity ++ "[" ++ r.stage.name ++ "] " ++ e.subject ++ ": " ++ reason

def display (r : Report) : String :=
  r.stage.name ++ ": " ++ toString r.successes ++ " ok, " ++ toString r.warnings ++ " recovered, "
    ++ toString r.failures ++ " failed"

end Report
end EngineBridge
