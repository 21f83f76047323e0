import EngineBridge.Host.Launch
import EngineBridge.Trial.World

/-! Sources of functions in a world that hosts are tried out in: handlers that do what they are told, and may call
functions through hosts again, and functions of libraries. -/

namespace EngineBridge.Trial

/-- What a handler ends with. -/
inductive Ending
  | value (v : Value)
  | error (e : HostError)
  /-- A function is called through a host, and what it gives is given on. -/
  | call (host : Nat) (id : FunctionId) (args : List Value)

/-- What a handler does. -/
structure Handler where
  /-- The arguments that it replaces. -/
  replaced : List (Nat × Value)
  ending : Ending

/-- A source of functions. -/
inductive Source
  /-- The registry of that number. -/
  | registry (n : Nat)
  | library (s : SymbolReflection World)

/-- The hosts and the registries that there are. -/
structure Scene where
  hosts : Hosts Nat World (MonoState World) (List Source)
  registries : List (Registry Handler)

namespace Scene

/-- Hosts that were not started, and so many registries without handlers. -/
def empty (registries : Nat) : Scene := ⟨.fresh .empty, List.replicate registries .empty⟩

/-- The registry of that number. -/
def registry (s : Scene) (n : Nat) : Registry Handler := s.registries.getD n .empty

/-- Sources as they are in this scene: one by itself, several one behind the other. Handlers call through hosts down to
a depth. -/
def reflection (s : Scene) : Nat → List Source → Reflection World
  | 0, _ => .chain []
  | depth + 1, sources =>
    let run (h : Handler) : Call World Value := do
      Call.outside (note (.handle (← get).args))
      h.replaced.forM fun r => Call.replace r.1 r.2
      match h.ending with
      | .value v => return v
      | .error e => Action.fail e
      | .call host id args =>
        let binding ← Action.ofExcept ((s.hosts.host host).bind id)
        Call.inWorld (Action.within (CallState.mk · args) (fun c _ => c.world)
          ((s.hosts.host host).invoke (s.reflection depth) binding))
    let single : Source → Reflection World
      | .registry n => (s.registry n).reflection run
      | .library l => l.reflection
    match sources with
    | [source] => single source
    | sources => .chain (sources.map single)

end Scene

/-- A library with functions by their names. Every library has the stand-in's interface behind it. -/
def library (functions : List (String × Symbol World)) : Library World := ⟨fun name => functions.lookup name, embedding⟩

/-- Libraries from files: a file whose text is the name of a library stands for it. The empty path is the process, and
a path without a slash would be looked for elsewhere. -/
def loader (t : FileTree) (process : Library World) (libraries : List (String × Library World)) : Loader World where
  load p :=
    if p.text = "" then some process
    else if !p.text.toList.contains '/' then none
    else (t.readText p).toOption.bind fun name => libraries.lookup name
  process

end EngineBridge.Trial
