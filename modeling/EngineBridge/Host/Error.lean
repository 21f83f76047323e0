import EngineBridge.Host.Buffer
import EngineBridge.Host.Wire
import EngineBridge.Model.Document
import EngineBridge.Files.Path

/-! What can go wrong within a running host, and the numbers that stand for it outside. -/

namespace EngineBridge

/-- The stages of a host's life. -/
inductive HostState
  | uninitialized
  | loading
  | ready
  | shuttingDown
  | terminated
  | failed
deriving DecidableEq, Repr

namespace HostState

def name : HostState → String
  | uninitialized => "uninitialized"
  | loading => "loading"
  | ready => "ready"
  | shuttingDown => "shutting down"
  | terminated => "terminated"
  | failed => "failed"

/-- The number of the stage. -/
def code : HostState → Nat
  | uninitialized => 0
  | loading => 1
  | ready => 2
  | shuttingDown => 3
  | terminated => 4
  | failed => 5

end HostState

/-- What goes wrong within a managed runtime. -/
inductive RuntimeError
  | libraryLoad (path : Path)
  | missingEntryPoint (symbol : String)
  | startFailed (reason : String)
  | assemblyLoad (path : Path) (reason : String)
  | missingMethod (method : String)
  | manifest (path : Path)
  | notStarted
  | protocol (problem : String)
deriving DecidableEq, Repr

namespace RuntimeError

/-- The name of the kind of error. -/
def kind : RuntimeError → String
  | libraryLoad _ => "LibraryLoad"
  | missingEntryPoint _ => "MissingEntryPoint"
  | startFailed _ => "StartFailed"
  | assemblyLoad _ _ => "AssemblyLoad"
  | missingMethod _ => "MissingMethod"
  | manifest _ => "Manifest"
  | notStarted => "NotStarted"
  | protocol _ => "Protocol"

def message : RuntimeError → String
  | libraryLoad path => "failed to load '" ++ path.text ++ "'"
  | missingEntryPoint symbol => "entry point '" ++ symbol ++ "' not found"
  | startFailed reason => "managed runtime failed to start: " ++ reason
  | assemblyLoad path reason => "failed to load assembly '" ++ path.text ++ "': " ++ reason
  | missingMethod method => "managed method '" ++ method ++ "' not found"
  | manifest path => "failed to read fast-invoke manifest '" ++ path.text ++ "'"
  | notStarted => "backend not started"
  | protocol problem => "dispatcher protocol error: " ++ problem

end RuntimeError

/-- Why values do not get across. -/
inductive MarshalError
  | buffer (e : BufferError)
  | wire (e : Wire.Fault)
  /-- The value of an argument does not go into its slot. -/
  | argument (function : FunctionId) (slot : String) (e : BufferError)
  | argumentCount (function : String) (expected given : Nat)
  | resultCount (method : String) (expected given : Nat)
  /-- A part of the function's signature has no counterpart in a native call. -/
  | cannotCross (function : FunctionId) (part : String)
  | notText (index : Nat)
  | zeroInText
  | missingBaseDirectory
  | negativeLength
  | missingBuffer
  | responseTooLarge
  /-- A handler refuses its arguments. -/
  | refused (reason : String)
deriving DecidableEq, Repr

namespace MarshalError

/-- What a message says in front of the problem. -/
def heading : String := "marshaling failed: "

/-- The problem. -/
def detail : MarshalError → String
  | buffer e => e.message
  | wire e => e.message
  | argument function slot e => function.display ++ "." ++ slot ++ ": " ++ heading ++ e.message
  | argumentCount function expected given =>
    function ++ " expects " ++ toString expected ++ " arguments, got " ++ toString given
  | resultCount method expected given =>
    method ++ " returned " ++ toString given ++ " values, expected " ++ toString expected
  | cannotCross function part => function.display ++ ": " ++ part ++ " cannot cross a symbol reflection call"
  | notText index => "argument " ++ toString index ++ " must be a string"
  | zeroInText => "string contains a NUL byte"
  | missingBaseDirectory => "base directory is required"
  | negativeLength => "negative buffer length"
  | missingBuffer => "null buffer"
  | responseTooLarge => "response too large"
  | refused reason => reason

def message (e : MarshalError) : String := heading ++ e.detail

end MarshalError

/-- Why a host does not do what it is asked to. -/
inductive HostError
  | notInitialized
  | unavailable (reason : String)
  | invalidTransition (state : HostState)
  | marshal (e : MarshalError)
  | nativeCallFailed (function : FunctionId) (status : Int32)
  | managedException (text : String)
  | unknownFunction (name : String)
  | runtime (e : RuntimeError)
deriving DecidableEq, Repr

namespace HostError

/-- The name of the kind of error. -/
def kind : HostError → String
  | notInitialized => "NotInitialized"
  | unavailable _ => "Unavailable"
  | invalidTransition _ => "InvalidTransition"
  | marshal _ => "Marshal"
  | nativeCallFailed _ _ => "NativeCallFailed"
  | managedException _ => "ManagedException"
  | unknownFunction _ => "UnknownFunction"
  | runtime e => e.kind

def message : HostError → String
  | notInitialized => "host not initialized"
  | unavailable reason => "host unavailable: " ++ reason
  | invalidTransition state => "invalid host transition from " ++ state.name
  | marshal e => e.message
  | nativeCallFailed function status =>
    "native call " ++ function.display ++ " failed with status " ++ toString status.toInt
  | managedException text => "managed exception: " ++ text
  | unknownFunction name => "no native function registered for " ++ name
  | runtime e => e.message

/-- The number that stands for the error outside the host. -/
def status : HostError → Int
  | notInitialized => -1
  | unavailable _ => -2
  | invalidTransition _ => -3
  | marshal _ => -4
  | nativeCallFailed _ _ => -5
  | managedException _ => -6
  | unknownFunction _ => -7
  | runtime _ => -8

end HostError
end EngineBridge
