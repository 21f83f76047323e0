import EngineBridge.Export.Manifest
import EngineBridge.Files.Tree
import EngineBridge.Host.Running

/-! The beginning and the end of a host's life. A host is started once: its backend starts, loads the assemblies and
finds the entry of the dispatcher, and then the trampolines of the index are looked up. If a step behind the start of
the backend fails, the backend is shut down again. -/

namespace EngineBridge

/-- What hosts find around them. -/
structure Surroundings (σ : Type) where
  files : FileTree
  loader : Loader σ

/-- What a host is started with. -/
structure Launch (σ β ρ : Type) where
  backend : Backend σ β
  /-- The backend's state at first. -/
  fresh : β
  reflection : ρ
  /-- Where trampolines are looked up. Without it, that is the native module. -/
  trampolines : Option (TrampolineSource σ)
  config : HostConfig

namespace Launch
variable {σ β ρ : Type}

/-- Where trampolines are looked up. -/
def source (l : Launch σ β ρ) (s : Surroundings σ) : Except RuntimeError (TrampolineSource σ) :=
  match l.trampolines, l.config.nativeModule with
  | some source, _ => .ok source
  | none, none => .ok s.loader.process.trampolines
  | none, some path =>
    match s.loader.load (l.config.resolve path) with
    | some library => .ok library.trampolines
    | none => .error (.libraryLoad (l.config.resolve path))

/-- The entries of the index of trampolines. -/
def entries (l : Launch σ β ρ) (s : Surroundings σ) : Except RuntimeError (List TrampolineEntry) :=
  match l.config.manifest with
  | none => .ok []
  | some path =>
    match (s.files.readText (l.config.resolve path)).toOption.bind TrampolineManifest.ofText? with
    | some manifest => .ok manifest.entries
    | none => .error (.manifest (l.config.resolve path))

/-- The entries whose trampolines are there. The last entry of a function comes first. -/
def table (source : TrampolineSource σ) (entries : List TrampolineEntry) : List (FunctionId × DirectInvocable σ) :=
  (entries.filterMap fun e => (source e.symbol).map fun f => (e.id, .ofEntry e f)).reverse

/-- What follows the start of the backend. -/
def prepare (l : Launch σ β ρ) (s : Surroundings σ) :
    Action (σ × β) RuntimeError (List (FunctionId × DirectInvocable σ)) := do
  l.config.assemblyPaths.forM l.backend.loadAssembly
  l.backend.resolveEntryPoint l.config.entryPoint
  let source ← Action.ofExcept (l.source s)
  let entries ← Action.ofExcept (l.entries s)
  return table source entries

/-- Starts the backend and prepares it. -/
def load (l : Launch σ β ρ) (s : Surroundings σ) :
    Action (σ × β) RuntimeError (List (FunctionId × DirectInvocable σ)) := do
  l.backend.start l.config
  (l.prepare s).cleaned l.backend.shutdown

end Launch

/-- A host, the world it lives in, and the number of the next life. -/
structure Setting (σ β ρ : Type) where
  world : σ
  host : Host σ β ρ
  nextGeneration : Nat

namespace Setting
variable {σ β ρ : Type}

/-- A host that was not started yet. -/
def fresh (world : σ) : Setting σ β ρ := ⟨world, .uninitialized, 1⟩

/-- The setting after the world and the host have changed. -/
def moved (t : Setting σ β ρ) (world : σ) (host : Host σ β ρ) : Setting σ β ρ := { t with world, host }

/-- The host is loading from here on, unless it was started before. -/
def beginStart : Action (Setting σ β ρ) HostError Unit := do
  let t ← get
  match t.host with
  | .uninitialized => set (t.moved t.world .loading)
  | host => Action.fail (.invalidTransition host.state)

/-- Loads what the host needs. It is ready then, or it has failed; a crash leaves it as it is. -/
def finishStart (s : Surroundings σ) (l : Launch σ β ρ) : Action (Setting σ β ρ) HostError Unit := do
  let t ← get
  match (l.load s).runOn (t.world, l.fresh) with
  | (.ok direct, world, state) =>
    let host := .ready t.nextGeneration ⟨l.backend, state, l.reflection, direct⟩
    set { t.moved world host with nextGeneration := t.nextGeneration + 1 }
  | (.error (.failed e), world, _) =>
    set (t.moved world (.failed e.message))
    Action.fail (.runtime e)
  | (.error .crashed, world, _) =>
    set (t.moved world t.host)
    Action.crash

/-- Starts the host. A crash leaves it loading. -/
def start (s : Surroundings σ) (l : Launch σ β ρ) : Action (Setting σ β ρ) HostError Unit := do
  beginStart
  finishStart s l

/-- The host takes no more calls. What it ran is given out, to be shut down. -/
def beginShutdown : Action (Setting σ β ρ) HostError (Option (Runtime σ β ρ)) := do
  let t ← get
  match t.host with
  | .ready _ runtime =>
    set (t.moved t.world .shuttingDown)
    return some runtime
  | .failed reason =>
    set (t.moved t.world (.terminated (some reason)))
    return none
  | host => Action.fail (.invalidTransition host.state)

/-- Shuts down what the host ran. A crash leaves the host as it is. -/
def finishShutdown (runtime : Runtime σ β ρ) : Action (Setting σ β ρ) HostError Unit := do
  let t ← get
  match runtime.backend.shutdown.runOn (t.world, runtime.state) with
  | (.ok (), world, _) => set (t.moved world (.terminated none))
  | (.error _, world, _) =>
    set (t.moved world t.host)
    Action.crash

/-- Ends the host's life. A crash leaves it shutting down. -/
def shutdown : Action (Setting σ β ρ) HostError Unit := do
  match ← beginShutdown with
  | some runtime => finishShutdown runtime
  | none => return

end Setting

/-- Hosts that live side by side in one world. Their lives are numbered in one sequence. -/
structure Hosts (ι σ β ρ : Type) where
  world : σ
  host : ι → Host σ β ρ
  nextGeneration : Nat

namespace Hosts
variable {ι σ β ρ ε α : Type}

/-- Hosts that were not started yet. -/
def fresh (world : σ) : Hosts ι σ β ρ := ⟨world, fun _ => .uninitialized, 1⟩

/-- Does something with one of the hosts. -/
def on [DecidableEq ι] (i : ι) (a : Action (Setting σ β ρ) ε α) : Action (Hosts ι σ β ρ) ε α :=
  Action.within (fun h => ⟨h.world, h.host i, h.nextGeneration⟩)
    (fun t h => ⟨t.world, fun j => if j = i then t.host else h.host j, t.nextGeneration⟩) a

end Hosts
end EngineBridge
