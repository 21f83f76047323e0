import EngineBridge.Host.Mono
import EngineBridge.Number.Hexadecimal

/-! A world that hosts are tried out in, without an engine and without a managed runtime. What surrounds a host does
there what a script says, and everything that is asked of it is noted. -/

namespace EngineBridge.Trial

/-- What is asked of the surroundings of a host. -/
inductive Event
  | start (base : Path)
  | load (path : Path)
  | entry (e : EntryPoint)
  | dispatch (request : List UInt8) (capacity : Nat)
  | shutdown
  /-- A trampoline was called. -/
  | call (count : Nat) (frame : Buffer)
  /-- A handler was called. -/
  | handle (args : List Value)
  /-- A host was given trampolines of this number. -/
  | symbols (size : Nat)
  | assembliesPath (path : String)
  | domain (name version : String)
  | assembly (path : String)
  | image
  | type (space name : String)
  | method (name : String) (arity : Nat)
  | thunk
  | release
  | cleanup
deriving BEq, Repr

namespace Event

/-- The line for an event in a log. Handlers have none. -/
def line? : Event → Option String
  | start base => some ("start " ++ base.text)
  | load path => some ("load " ++ path.text)
  | entry e => some ("entry " ++ e.assembly ++ " " ++ e.qualified)
  | dispatch request capacity => some ("dispatch " ++ hexOfBytes request ++ " " ++ toString capacity)
  | shutdown => some "shutdown"
  | call count frame => some ("call " ++ toString count ++ " " ++ hexOfBytes frame)
  | handle _ => none
  | symbols size => some ("symbols " ++ toString size ++ " " ++ toString (size == 0))
  | assembliesPath path => some ("assemblies_path " ++ path)
  | domain name version => some ("init " ++ name ++ " " ++ version)
  | assembly path => some ("open " ++ path)
  | image => some "image"
  | type space name => some ("class [" ++ space ++ "] [" ++ name ++ "]")
  | method name arity => some ("method " ++ name ++ " " ++ toString arity)
  | thunk => some "thunk"
  | release => some "free"
  | cleanup => some "cleanup"

end Event

/-- What becomes of a thrown exception when its text is asked for. -/
inductive Thrown
  | readable
  /-- Another exception is thrown. -/
  | nested
  | noText
  | noBytes
deriving DecidableEq, Repr

/-- What a dispatcher answers. -/
structure Reply where
  code : Int32
  response : List UInt8
  /-- The length that is announced. -/
  announced : Int32
  thrown : Option Thrown
deriving DecidableEq, Repr

/-- What becomes of a request. -/
inductive Turn
  | crash
  | refuse (problem : String)
  | reply (r : Reply)
deriving DecidableEq, Repr

/-- What trampolines do. -/
structure Effect where
  status : Int32
  /-- Offsets in the frame, and what is put there. -/
  writes : List (Nat × List UInt8)
  ret : List UInt8
deriving DecidableEq, Repr

/-- The steps to the dispatcher of a managed runtime that may find nothing. -/
inductive Search
  | domain
  | assembly
  | image
  | type
  | method
  | thunk
deriving DecidableEq, Repr

/-- The world. -/
structure World where
  /-- What was asked so far, the latest first. -/
  log : List Event
  /-- What becomes of the next requests. -/
  turns : List Turn
  effect : Effect
  /-- The steps that find nothing. -/
  missing : List Search
  /-- What the stand-in for a managed runtime answers to requests. -/
  standing : Option Reply
deriving BEq, Repr

namespace World

/-- Nothing was asked yet, and no script is given. -/
def empty : World := ⟨[], [], ⟨0, [], []⟩, [], none⟩

end World

/-- Notes an event. -/
def note (e : Event) : StateM World Unit := modify fun w => { w with log := e :: w.log }

/-- Notes an event, in an operation of a backend. -/
def noted {β ε : Type} (e : Event) : Action (World × β) ε Unit := Backend.outside (note e)

/-- What a backend refuses. -/
structure Refusals where
  /-- Why it does not start. -/
  start : Option String
  /-- A part of the paths of assemblies that it does not load. -/
  assembly : Option String
  entry : Bool
deriving DecidableEq, Repr

/-- A backend that follows the script. -/
def backend {β : Type} (r : Refusals) : Backend World β where
  start c := do
    noted (.start c.base)
    match r.start with
    | some reason => Action.fail (.startFailed reason)
    | none => return
  loadAssembly p := do
    noted (.load p)
    match r.assembly with
    | some part => if p.text.contains part then Action.fail (.assemblyLoad p "scripted")
    | none => return
  resolveEntryPoint e := do
    noted (.entry e)
    if r.entry then Action.fail (.missingMethod e.qualified)
  dispatch _ request response := do
    Action.sure (note (.dispatch request response.length))
    match (← getThe World).turns with
    | [] => Action.fail (.protocol "script exhausted")
    | turn :: turns =>
      modifyThe World fun w => { w with turns }
      match turn with
      | .crash => Action.crash
      | .refuse problem => Action.fail (.protocol problem)
      | .reply reply =>
        let response := response.kept reply.response
        return ⟨← Action.ofExcept (DispatchStatus.ofRaw reply.code response reply.announced), response⟩
  shutdown := noted .shutdown

/-- A trampoline that does what the world says. Nothing is put outside the frame. -/
def trampoline : Trampoline World := fun frame count ret => do
  note (.call count frame)
  let e := (← get).effect
  let put (b : Buffer) (w : Nat × List UInt8) : Buffer :=
    if w.1 < b.length then b.patched w.1 (w.2.take (b.length - w.1)) else b
  return ⟨e.status, e.writes.foldl put frame, ret.kept e.ret⟩

/-- A step to the dispatcher. -/
def search (s : Search) (e : Event) : StateM World (Option Nat) := do
  note e
  return if (← get).missing.contains s then none else some 0

/-- How the stand-in's exception behaves. -/
def thrown : StateM World (Option Thrown) := do return (← get).standing.bind (·.thrown)

/-- A stand-in for a managed runtime. Without a reply to give, it knows no method. -/
def embedding : Embedding World where
  setAssembliesPath path := note (.assembliesPath path)
  bootDomain name version := search .domain (.domain name version)
  openAssembly _ path := search .assembly (.assembly path)
  assemblyImage _ := search .image .image
  classFromName _ space name := search .type (.type space name)
  methodFromName _ name arity := search .method (.method name arity)
  unmanagedThunk _ := search .thunk .thunk
  callThunk _ request response := do
    note (.dispatch request response.length)
    match (← get).standing with
    | none => return (3, response, 0, none)
    | some r => return (r.code, response.kept r.response, r.announced, r.thrown.map fun _ => 0)
  objectText _ := do
    match ← thrown with
    | some .nested => return (some 0, some 0)
    | some .noText => return (none, none)
    | _ => return (some 0, none)
  textBytes _ := do
    match ← thrown with
    | some .noBytes => return none
    | _ => return some ((((← get).standing.map (·.response)).getD []).takeWhile (· ≠ 0))
  release := note .release
  cleanup _ := note .cleanup

end EngineBridge.Trial
