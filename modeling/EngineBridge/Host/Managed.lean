import EngineBridge.Host.Running

/-! Calls of managed methods. The arguments go in a request; the response holds the returned value, if there is one,
and then the arguments that go out. -/

namespace EngineBridge

/-- A method of the managed side. -/
structure ManagedMethod where
  /-- The type and the method. -/
  name : String
  directions : List Direction
  returns : Bool
deriving DecidableEq, Repr

namespace ManagedMethod

/-- The method that stands for a function of a type. An instance function gets its receiver first. -/
def ofFunction (owner : TypeRecord) (f : FunctionRecord) : ManagedMethod where
  name := "SharpBind." ++ owner.module ++ "." ++ owner.name ++ ":" ++ f.name
  directions := (if f.isStatic then [] else [.inward]) ++ f.params.map (·.direction)
  returns := f.returnType.isSome

/-- How many values a response holds. -/
def resultCount (m : ManagedMethod) : Nat :=
  (if m.returns then 1 else 0) + m.directions.countP (·.writesBack)

/-- The arguments, with the values that came out in place of those that go out. -/
def replaced : List Direction → List Value → List Value → List Value
  | d :: ds, arg :: args, values =>
    if d.writesBack then
      match values with
      | v :: vs => v :: replaced ds args vs
      | [] => arg :: replaced ds args []
    else arg :: replaced ds args values
  | _, args, _ => args

/-- The returned value and the values of the arguments that go out. -/
def results (m : ManagedMethod) (values : List Value) : Value × List Value :=
  match m.returns, values with
  | true, v :: vs => (v, vs)
  | _, values => (.void, values)

end ManagedMethod

namespace Host
variable {σ β ρ : Type}

/-- Calls a managed method. -/
def callManaged (h : Host σ β ρ) (m : ManagedMethod) : Call σ Value := do
  let args := (← get).args
  if args.length ≠ m.directions.length then
    Action.fail (.marshal (.argumentCount m.name m.directions.length args.length))
  let response ← Call.inWorld (h.forward m.name (Wire.requestBytes m.name args) firstCapacity)
  match Wire.decode Wire.response response with
  | .error e => Action.fail (.marshal (.wire e))
  | .ok values =>
    if values.length ≠ m.resultCount then
      Action.fail (.marshal (.resultCount m.name m.resultCount values.length))
    let (result, out) := m.results values
    modify fun c => { c with args := ManagedMethod.replaced m.directions c.args out }
    return result

end Host
end EngineBridge
