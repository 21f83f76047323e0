import EngineBridge.Host.Action
import EngineBridge.Host.Buffer
import EngineBridge.Files.Path

/-! The engine's code as a host sees it: functions behind symbols of libraries. What they do to the world outside is a
change of a state of type `σ`. -/

namespace EngineBridge

/-- What a trampoline answers: a status, its frame, and the returned value's bytes. -/
structure TrampolineAnswer where
  status : Int32
  frame : Buffer
  ret : Buffer
deriving DecidableEq, Repr

/-- A function that takes its arguments from a frame. It gets the frame, the number of arguments and the place of the
returned value. -/
abbrev Trampoline (σ : Type) := Buffer → Nat → Buffer → StateM σ TrampolineAnswer

/-- An argument as a native function gets it. -/
inductive NativeArgument
  | value (bytes : Buffer)
  | text (bytes : List UInt8)
  /-- Storage that the function may change. -/
  | storage (bytes : Buffer)
deriving DecidableEq, Repr

/-- What a native function returns. -/
inductive NativeResult
  | nothing
  | bytes (bytes : List UInt8)
  /-- A text, or the address that leads nowhere. -/
  | text (bytes : Option (List UInt8))
deriving DecidableEq, Repr

/-- What a native function answers: its result, and for every argument what its storage holds. -/
structure NativeAnswer where
  result : NativeResult
  arguments : List NativeArgument
deriving DecidableEq, Repr

/-- A function that is called by its own signature. -/
abbrev NativeFunction (σ : Type) := List NativeArgument → StateM σ NativeAnswer

/-- What stands behind a symbol. It can be called in either way; which one is right, the symbol does not tell. -/
structure Symbol (σ : Type) where
  trampoline : Trampoline σ
  function : NativeFunction σ

/-- The embedding interface of a managed runtime's library. Objects of the runtime have addresses of type `Nat`;
where the runtime has none to give, there is none. -/
structure Embedding (σ : Type) where
  setAssembliesPath : String → StateM σ Unit
  bootDomain : String → String → StateM σ (Option Nat)
  openAssembly : Nat → String → StateM σ (Option Nat)
  assemblyImage : Nat → StateM σ (Option Nat)
  classFromName : Nat → String → String → StateM σ (Option Nat)
  methodFromName : Nat → String → Nat → StateM σ (Option Nat)
  unmanagedThunk : Nat → StateM σ (Option Nat)
  /-- Calls a thunk with a request and a buffer for the response: the status, the buffer, the announced length, and an
  exception if there is one. -/
  callThunk : Nat → List UInt8 → Buffer → StateM σ (Int32 × Buffer × Int32 × Option Nat)
  /-- The text of an object, and the exception that was thrown instead. -/
  objectText : Nat → StateM σ (Option Nat × Option Nat)
  textBytes : Nat → StateM σ (Option (List UInt8))
  release : StateM σ Unit
  cleanup : Nat → StateM σ Unit

/-- A library that was loaded. -/
structure Library (σ : Type) where
  symbols : String → Option (Symbol σ)
  embedding : Embedding σ

/-- Where libraries come from. -/
structure Loader (σ : Type) where
  load : Path → Option (Library σ)
  /-- What is linked into the process itself. -/
  process : Library σ

/-- The character that ends texts in memory. -/
def zeroChar : Char := Char.ofNat 0

namespace Library
variable {σ : Type}

/-- What stands behind a symbol. One zero character may end the name. -/
def symbol? (l : Library σ) (name : String) : Option (Symbol σ) :=
  let cs := name.toList
  let cs := if cs.getLast? == some zeroChar then cs.dropLast else cs
  if cs.isEmpty || cs.contains zeroChar then none else l.symbols (String.ofList cs)

end Library

/-- Trampolines that are found by their symbols. -/
abbrev TrampolineSource (σ : Type) := String → Option (Trampoline σ)

namespace Library
variable {σ : Type}

/-- The trampolines of a library. -/
def trampolines (l : Library σ) : TrampolineSource σ := fun name => (l.symbol? name).map (·.trampoline)

end Library

/-- Trampolines that were put in by hand. -/
structure SymbolTable (σ : Type) where
  entries : List (String × Trampoline σ)

namespace SymbolTable
variable {σ : Type}

/-- No trampolines. -/
def empty : SymbolTable σ := ⟨[]⟩

/-- Puts a trampoline in; one of the same symbol goes. -/
def register (t : SymbolTable σ) (symbol : String) (f : Trampoline σ) : SymbolTable σ :=
  ⟨(symbol, f) :: t.entries.filter fun e => e.1 ≠ symbol⟩

def size (t : SymbolTable σ) : Nat := t.entries.length

def isEmpty (t : SymbolTable σ) : Bool := t.entries.isEmpty

/-- The trampolines of the table. -/
def trampolines (t : SymbolTable σ) : TrampolineSource σ := fun name => t.entries.lookup name

end SymbolTable
end EngineBridge
