import EngineBridge.CommandLine.Arguments

/-! Where commands look for files and leave them. Nothing else of a file system matters to a command. -/

namespace EngineBridge.CommandLine

namespace SourceArguments

/-- Where the inputs are. -/
def places (a : SourceArguments) : List Path := a.input :: a.sourceDirectory.toList

end SourceArguments

namespace Command

/-- The paths below which the command finds and leaves all its files. -/
def places : Command → List Path
  | codegen source project _ =>
    let generated : List Path := [⟨"Intermediate/SharpBind"⟩, ⟨"Managed/Bindings"⟩, ⟨"Managed/Bindings.Defs"⟩]
    source.places ++ generated.map project.join
  | document source output => source.places ++ output.toList

end Command
end EngineBridge.CommandLine
