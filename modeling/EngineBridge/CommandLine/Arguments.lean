import EngineBridge.Project.Pipeline

/-! The arguments of the command line.

There are two commands. Each takes options with a value, in a long or a short form, and flags; an option may be given
once. What cannot be understood is refused before anything is done. -/

namespace EngineBridge.CommandLine

/-- The arguments both commands share. -/
structure SourceArguments where
  kind : SourceKind
  input : Path
  sourceDirectory : Option Path
  /-- The text of the pattern of files to pass over. -/
  ignore : Option String
  engineVersion : Option String
  allowFastInvoke : Bool
  module : Option String

/-- What the user asks for. -/
inductive Command
  | codegen (source : SourceArguments) (project : Path) (schema : BindingSchema)
  | document (source : SourceArguments) (output : Option Path)

/-- Why arguments give no command. -/
inductive Refusal
  /-- The user asks how the program is used. -/
  | help
  | misuse
deriving DecidableEq, Repr

/-- The options of the commands. -/
inductive OptionName
  | kind
  | input
  | sourceDirectory
  | ignore
  | engineVersion
  | allowFastInvoke
  | module
  | project
  | schema
  | output
deriving DecidableEq, Repr

namespace OptionName

/-- The long forms. -/
def long : OptionName → String
  | kind => "type"
  | input => "input"
  | sourceDirectory => "source-directory"
  | ignore => "source-file-ignore-regex"
  | engineVersion => "engine-version"
  | allowFastInvoke => "allow-fast-invoke"
  | module => "module"
  | project => "project"
  | schema => "schema"
  | output => "output"

/-- The short forms. -/
def short? : OptionName → Option Char
  | kind => some 't'
  | input => some 'i'
  | project => some 'p'
  | schema => some 's'
  | output => some 'o'
  | _ => none

/-- The words that choose a kind of input. -/
def kindWords : List (String × SourceKind) :=
  [("assembly", .assembly), ("source", .sourceCode), ("json", .savedDocument)]

/-- The words that choose a schema. -/
def schemaWords : List (String × BindingSchema) :=
  [("native", .native), ("blueprint", .blueprint), ("csharp", .managed)]

/-- The option takes the value. A path is not empty, and a choice is one of its words. -/
def accepts : OptionName → String → Bool
  | kind, v => (kindWords.lookup v).isSome
  | schema, v => (schemaWords.lookup v).isSome
  | input, v | sourceDirectory, v | project, v | output, v => v ≠ ""
  | _, _ => true

end OptionName

/-- The options that both commands have. -/
def sharedOptions : List OptionName :=
  [.kind, .input, .sourceDirectory, .ignore, .engineVersion, .allowFastInvoke, .module]

/-- The commands and their options. -/
def commandOptions : List (String × List OptionName) :=
  [("codegen", sharedOptions ++ [.project, .schema]), ("document", sharedOptions ++ [.output])]

/-- Options that were given, with their values. -/
abbrev Given := List (OptionName × String)

/-- Adds an option that was not given before. -/
def give (given : Given) (o : OptionName) (value : String) : Except Refusal Given :=
  if (given.lookup o).isSome || !o.accepts value then .error .misuse else .ok (given ++ [(o, value)])

/-- The argument is an option, and not the value of one. -/
def looksLikeOption (arg : String) : Bool := arg.toList.head? == some '-' && arg ≠ "-"

/-- An option whose value may be the next argument. -/
def giveNext (given : Given) (o : OptionName) : List String → Except Refusal (Given × List String)
  | [] => .error .misuse
  | value :: args =>
    if looksLikeOption value then .error .misuse else do return (← give given o value, args)

/-- What begins with two dashes, and the arguments after it. -/
def readLong (options : List OptionName) (given : Given) (body : List Char) (args : List String) :
    Except Refusal (Given × List String) :=
  let name := String.ofList (body.takeWhile (· ≠ '='))
  let value := body.dropWhile (· ≠ '=')
  match options.find? (·.long == name) with
  | none =>
    if value.isEmpty && name = "help" then .error .help
    else if value.isEmpty && name = "verbose" then .ok (given, args)
    else .error .misuse
  | some .allowFastInvoke =>
    if value.isEmpty then do return (← give given .allowFastInvoke "", args) else .error .misuse
  | some o =>
    match value with
    | [] => giveNext given o args
    | _ :: v => do return (← give given o (String.ofList v), args)

/-- Short options that stand together behind one dash, and the arguments after them. -/
def readShort (options : List OptionName) (given : Given) (args : List String) :
    List Char → Except Refusal (Given × List String)
  | [] => .ok (given, args)
  | 'v' :: cs => readShort options given args cs
  | 'h' :: _ => .error .help
  | c :: cs =>
    match options.find? (·.short? == some c) with
    | none => .error .misuse
    | some o =>
      match cs with
      | [] => giveNext given o args
      | '=' :: v => do return (← give given o (String.ofList v), args)
      | v => do return (← give given o (String.ofList v), args)

/-- The options of a command, at most as many arguments as `fuel`. -/
def readOptions (options : List OptionName) : Nat → Given → List String → Except Refusal Given
  | _, given, [] => .ok given
  | 0, _, _ => .error .misuse
  | fuel + 1, given, arg :: args =>
    match arg.toList with
    | ['-', '-'] => if args.isEmpty then .ok given else .error .misuse
    | '-' :: '-' :: body => do
      let (given, args) ← readLong options given body args
      readOptions options fuel given args
    | '-' :: c :: cs => do
      let (given, args) ← readShort options given args (c :: cs)
      readOptions options fuel given args
    | _ => .error .misuse

/-- The value of an option that must be given. -/
def need (given : Given) (o : OptionName) : Except Refusal String :=
  match given.lookup o with
  | some v => .ok v
  | none => .error .misuse

/-- The arguments both commands share. -/
def sourceArguments (given : Given) : Except Refusal SourceArguments := do
  let kind ← need given .kind
  let input ← need given .input
  return {
    kind := (OptionName.kindWords.lookup kind).getD .savedDocument
    input := ⟨input⟩
    sourceDirectory := (given.lookup .sourceDirectory).map Path.mk
    ignore := given.lookup .ignore
    engineVersion := given.lookup .engineVersion
    allowFastInvoke := (given.lookup .allowFastInvoke).isSome
    module := given.lookup .module }

/-- The command with its options. -/
def readCommand (name : String) (given : Given) : Except Refusal Command := do
  let source ← sourceArguments given
  if name = "codegen" then
    let project ← need given .project
    let schema := (given.lookup .schema).bind fun word => OptionName.schemaWords.lookup word
    return .codegen source ⟨project⟩ (schema.getD .native)
  else return .document source ((given.lookup .output).map Path.mk)

/-- What stands in front of the command: nothing but a request for more or for help. -/
def isVerbose (arg : String) : Bool :=
  arg = "--verbose" || (match arg.toList with
    | '-' :: c :: cs => (c :: cs).all (· == 'v')
    | _ => false)

/-- The arguments ask for help or the version in front of a command. -/
def asksForHelp (arg : String) : Bool :=
  arg = "--help" || arg = "--version" || (match arg.toList with
    | '-' :: cs => match cs.dropWhile (· == 'v') with
      | 'h' :: _ | 'V' :: _ => true
      | _ => false
    | _ => false)

/-- The command that the arguments spell. -/
def parse : List String → Except Refusal Command
  | [] => .error .misuse
  | arg :: args =>
    match commandOptions.lookup arg with
    | some options => do readCommand arg (← readOptions options args.length [] args)
    | none =>
      if isVerbose arg then parse args
      else if asksForHelp arg then .error .help
      else .error .misuse

end EngineBridge.CommandLine
