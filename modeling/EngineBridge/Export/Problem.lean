import EngineBridge.Layout.Repr

/-! What can go wrong while code is generated. -/

namespace EngineBridge

/-- The trampolines of a run are known once the pass that makes them is done. -/
inductive ContextError
  | fastInvokePending
  | alreadyInstalled
deriving DecidableEq, Repr

namespace ContextError

/-- The name of the kind of error. -/
def kind : ContextError → String
  | fastInvokePending => "FastInvokePending"
  | alreadyInstalled => "AlreadyInstalled"

def message : ContextError → String
  | fastInvokePending => "fast-invoke functions requested before the trampoline pass completed"
  | alreadyInstalled => "fast-invoke functions were already installed"

end ContextError

/-- Why a piece of code is not generated or not written. -/
inductive ExportError
  | invalidIdentifier (name : String)
  | layout (e : LayoutError)
  | unwritable (path : String)
  | context (e : ContextError)
deriving DecidableEq, Repr

namespace ExportError

/-- The name of the kind of error. -/
def kind : ExportError → String
  | invalidIdentifier _ => "InvalidIdentifier"
  | layout _ => "Layout"
  | unwritable _ => "ExportIo"
  | context _ => "Context"

def message : ExportError → String
  | invalidIdentifier name => "'" ++ name ++ "' is not a valid identifier"
  | layout e => e.message
  | unwritable path => "failed to write '" ++ path ++ "'"
  | context e => e.message

end ExportError
end EngineBridge
