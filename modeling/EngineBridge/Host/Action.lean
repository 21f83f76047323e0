/-! Actions on a state that may fail or crash. What an action changed before it stopped stays changed. -/

namespace EngineBridge

/-- Why an action stops before its end. -/
inductive Stop (ε : Type)
  | failed (e : ε)
  /-- The action breaks off without telling why. -/
  | crashed
deriving DecidableEq, Repr

/-- An action on a state of type `σ`. -/
abbrev Action (σ ε α : Type) := ExceptT (Stop ε) (StateM σ) α

namespace Action
variable {σ τ ε δ α : Type}

/-- Stops with a reason. -/
def fail (e : ε) : Action σ ε α := throw (.failed e)

/-- Breaks off. -/
def crash : Action σ ε α := throw .crashed

/-- What an action gives, and the state it leaves. -/
def runOn (a : Action σ ε α) (s : σ) : Except (Stop ε) α × σ := a.run.run s

/-- An action that cannot stop early. -/
def sure (a : StateM σ α) : Action σ ε α := do return (← (a : StateM σ α))

/-- A result that is known already. -/
def ofExcept : Except ε α → Action σ ε α
  | .ok a => return a
  | .error e => fail e

/-- A reason in other words. -/
def Stop.map (f : ε → δ) : Stop ε → Stop δ
  | .failed e => .failed (f e)
  | .crashed => .crashed

/-- The action with its reasons in other words. -/
def mapError (f : ε → δ) (a : Action σ ε α) : Action σ δ α := fun s =>
  let (result, s) := a.runOn s
  (result.mapError (Stop.map f), s)

/-- The action, and `cleanup` behind it if it fails. Nothing is cleaned up after a crash. -/
def cleaned (a : Action σ ε α) (cleanup : Action σ Empty Unit) : Action σ ε α := fun s =>
  match a.runOn s with
  | (.error (.failed e), s) =>
    match cleanup.runOn s with
    | (.ok (), s) => (.error (.failed e), s)
    | (.error _, s) => (.error .crashed, s)
  | outcome => outcome

/-- The action on a part of a larger state. -/
def within (part : τ → σ) (put : σ → τ → τ) (a : Action σ ε α) : Action τ ε α := fun t =>
  let (result, s) := a.runOn (part t)
  (result, put s t)

end Action
end EngineBridge
