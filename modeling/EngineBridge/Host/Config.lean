import EngineBridge.Files.Path

/-! What a host is started with: where the managed runtime and its libraries are, which assemblies it loads, and where
calls from the engine enter managed code. -/

namespace EngineBridge

/-- The managed runtimes. -/
inductive RuntimeKind
  | coreClr
  | mono
deriving DecidableEq, Repr

namespace RuntimeKind

def name : RuntimeKind → String
  | coreClr => "coreclr"
  | mono => "mono"

/-- The runtime that hosts start by themselves. -/
def active : RuntimeKind := mono

end RuntimeKind

/-- The managed method through which every call from the engine enters. -/
structure EntryPoint where
  assembly : String
  type : String
  method : String
deriving DecidableEq, Repr

namespace EntryPoint

/-- The entry of the bridge's own assembly. -/
def usual : EntryPoint := ⟨"SharpBind.Runtime", "SharpBind.Runtime.Dispatcher", "Invoke"⟩

/-- The type and the method in one. -/
def qualified (e : EntryPoint) : String := e.type ++ ":" ++ e.method

end EntryPoint

/-- What a host is started with. -/
structure HostConfig where
  /-- The directory that relative paths start from. -/
  base : Path
  nativeLibraries : Path
  managedLibraries : Path
  runtimeLibrary : String
  bridgeAssembly : Path
  /-- Assemblies of generated code, loaded in order behind the bridge. -/
  assemblies : List Path
  /-- The index of trampolines. -/
  manifest : Option Path
  /-- The library that has the trampolines; the process itself if there is none. -/
  nativeModule : Option Path
  entryPoint : EntryPoint
  appDomain : String
deriving DecidableEq, Repr

namespace HostConfig

/-- What is usual below a directory. -/
def usual (base : Path) : HostConfig where
  base
  nativeLibraries := ⟨"ThirdParty/mono/linux.x86_64.debug"⟩
  managedLibraries := ⟨"ThirdParty/runtime/net8.0-linux-Debug-x86_64"⟩
  runtimeLibrary := "libmonosgen-2.0.so"
  bridgeAssembly := ⟨"Managed/SharpBind.Runtime.dll"⟩
  assemblies := []
  manifest := none
  nativeModule := none
  entryPoint := .usual
  appDomain := "SharpBind"

/-- A path as seen from the base directory. -/
def resolve (c : HostConfig) (p : Path) : Path := c.base.join p

/-- The runtime's library. -/
def runtimePath (c : HostConfig) : Path := (c.resolve c.nativeLibraries).join ⟨c.runtimeLibrary⟩

/-- The directory of the runtime's own assemblies. -/
def managedPath (c : HostConfig) : Path := c.resolve c.managedLibraries

/-- The assemblies to load: the bridge, and then the others. -/
def assemblyPaths (c : HostConfig) : List Path := (c.bridgeAssembly :: c.assemblies).map c.resolve

end HostConfig
end EngineBridge
