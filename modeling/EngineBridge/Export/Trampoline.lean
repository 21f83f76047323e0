import EngineBridge.Export.CodeWriter
import EngineBridge.Export.Context
import EngineBridge.Export.Manifest
import EngineBridge.Export.Naming
import EngineBridge.Export.Report

/-! Trampolines: functions with one uniform signature that take their arguments out of a frame, call the engine's
function, and put what it gives back into the frame.

A function whose names or types do not allow a trampoline is passed over; it is called in the slower way. -/

namespace EngineBridge

/-- A file that is generated, by its path below the directory of its stage. -/
structure Artifact where
  path : Path
  contents : String
deriving DecidableEq, Repr

namespace Trampoline

/-- The header that all trampolines include. -/
def headerFile : String := "SharpBindFastInvoke.gen.h"

/-- The file of the index. -/
def manifestFile : String := "FastInvokeManifest.gen.json"

/-- What the name of a type's file ends with. -/
def typeFileEnding : String := ".FastInvoke.gen.cpp"

/-- A trampoline went through. -/
def statusOk : Nat := 0
/-- The frame has another number of arguments. -/
def statusBadArgCount : Nat := 1
/-- The receiver is missing. -/
def statusNullSelf : Nat := 2

/-- The first lines of every file. -/
def banner : List Code :=
  Code.banner "//" ["Auto-generated by sharpbind. Do not edit manually.",
    "Fast-invoke trampolines for direct managed-to-native calls."]

/-- The value at an offset of the frame. -/
def readSlot (nativeType : String) (offset : Nat) : String :=
  "*reinterpret_cast<" ++ nativeType ++ "*>(Args + " ++ toString offset ++ ")"

/-- The variable that holds an argument. -/
def argument (slot : FrameSlot) : String := "Arg_" ++ slot.name

/-- The argument as a variable: read from the frame if the function takes it in, and empty otherwise. -/
def declareArgument (slot : FrameSlot) : Code :=
  if slot.direction.takesIn then
    .line (slot.repr.nativeType ++ " " ++ argument slot ++ " = " ++ readSlot slot.repr.nativeType slot.offset ++ ";")
  else .line (slot.repr.nativeType ++ " " ++ argument slot ++ "\x7b\x7d;")

/-- The argument put back into the frame. -/
def writeBack (slot : FrameSlot) : Code :=
  .line ("*reinterpret_cast<" ++ slot.repr.nativeType ++ "*>(Args + " ++ toString slot.offset ++ ") = "
    ++ argument slot ++ ";")

/-- The receiver, read from the front of the frame. -/
def receiverCode (layout : FrameLayout) : List Code :=
  match layout.receiver, layout.slots with
  | true, slot :: _ =>
    [.line (slot.repr.nativeType ++ " Self = " ++ readSlot slot.repr.nativeType 0 ++ ";"),
     .block "if (Self == nullptr)" [.line "return SHARPBIND_FI_NULL_SELF;"]]
  | _, _ => []

/-- The call of the engine's function. -/
def callCode (c : Candidate) (layout : FrameLayout) : Code :=
  let target :=
    if c.function.isStatic then c.owner.nativeName ++ "::" ++ c.function.name else "Self->" ++ c.function.name
  let call := target ++ "(" ++ String.intercalate ", " (layout.params.map argument) ++ ")"
  match layout.ret with
  | some ret => .line (ret.nativeType ++ " Result = " ++ call ++ ";")
  | none => .line (call ++ ";")

/-- The body of a trampoline. -/
def bodyCode (c : Candidate) (layout : FrameLayout) : List Code :=
  [.block ("if (ArgCount != " ++ toString layout.argCount ++ ")") [.line "return SHARPBIND_FI_BAD_ARG_COUNT;"]]
    ++ (if layout.argCount = 0 then [.line "(void)Args;"] else [])
    ++ (if layout.ret.isNone then [.line "(void)Ret;"] else [])
    ++ receiverCode layout ++ layout.params.map declareArgument ++ [callCode c layout]
    ++ (layout.params.filter fun s => s.direction.writesBack).map writeBack
    ++ (match layout.ret with
        | some ret => [.line ("*reinterpret_cast<" ++ ret.nativeType ++ "*>(Ret) = Result;")]
        | none => [])
    ++ [.line "return SHARPBIND_FI_OK;"]

/-- The trampoline of a function. -/
def functionCode (c : Candidate) (e : TrampolineEntry) : List Code :=
  [.line ("// " ++ c.id.display),
   .block ("extern \"C\" SHARPBIND_FAST_INVOKE_API int32 " ++ e.symbol
       ++ "(uint8* Args, int32 ArgCount, uint8* Ret)")
     (bodyCode c e.layout)]

/-- The names that a trampoline spells. -/
def spelledNames (c : Candidate) : List String :=
  c.owner.name :: c.function.name :: c.function.params.map (·.name)

/-- The entry of a function, if its names are identifiers and it has a layout. -/
def lower (d : Document) (c : Candidate) : Except ExportError TrampolineEntry :=
  match (spelledNames c).find? fun name => !isIdentifier name with
  | some name => .error (.invalidIdentifier name)
  | none =>
    match FrameLayout.ofFunction d c.owner c.function with
    | .error e => .error (.layout e)
    | .ok layout => .ok ⟨c.id, trampolineSymbol c.id, layout⟩

mutual
/-- The types whose size a trampoline takes for granted, with these sizes. -/
def assumedSizes : NativeRepr → List (String × Nat)
  | .scalar (.enum _ _) size _ nativeType => [(nativeType, size)]
  | .scalar .name size _ nativeType => [(nativeType, size)]
  | .scalar _ _ _ _ => []
  | .aggregate _ fields size _ nativeType => (nativeType, size) :: assumedFieldSizes fields

/-- The types whose size is taken for granted in the fields of a struct. -/
def assumedFieldSizes : List (Placed NativeRepr) → List (String × Nat)
  | [] => []
  | ⟨_, _, r⟩ :: fs => assumedSizes r ++ assumedFieldSizes fs
end

/-- The types whose size a frame takes for granted. -/
def frameSizes (l : FrameLayout) : List (String × Nat) :=
  l.slots.flatMap (fun s => assumedSizes s.repr) ++ (l.ret.map assumedSizes).getD []

/-- Sizes sorted by type, each once. -/
def sortedSizes (sizes : List (String × Nat)) : List (String × Nat) :=
  sizes.eraseDups.mergeSort fun a b => decide (a.1 < b.1) || (a.1 == b.1 && a.2 ≤ b.2)

/-- A check that the compiler makes. -/
def sizeCheck (s : String × Nat) : Code :=
  .line ("static_assert(sizeof(" ++ s.1 ++ ") == " ++ toString s.2 ++ ", \"" ++ s.1
    ++ " does not match the fast-invoke layout\");")

/-- The head of a type's file. -/
def typeFileHead (t : TypeRecord) (sizes : List (String × Nat)) : List Code :=
  banner ++ [.line ("#include \"" ++ headerFile ++ "\""), .line ("#include \"" ++ t.module ++ ".h\""), .blank]
    ++ sizes.map sizeCheck ++ (if sizes.isEmpty then [] else [.blank])

/-- A function that has a trampoline. -/
structure Lowered where
  candidate : Candidate
  entry : TrampolineEntry

/-- The trampolines one after the other, with a blank line behind each. -/
def bodyText (functions : List Lowered) : String :=
  (functions.foldl (fun (w : CodeWriter) f =>
    (w.append (CodeWriter.empty.putAll (functionCode f.candidate f.entry))).blank) .empty).text

/-- The text without white space at its end. -/
def trimmedEnd (s : String) : String :=
  String.ofList ((s.toList.reverse.dropWhile isWhiteSpace).reverse)

/-- Where the trampolines of a type are written. -/
def typeFilePath (t : TypeRecord) : Path := Path.join ⟨t.module⟩ ⟨t.name ++ typeFileEnding⟩

/-- The file of a type's trampolines. -/
def typeFile (t : TypeRecord) (functions : List Lowered) : Artifact where
  path := typeFilePath t
  contents :=
    let sizes := sortedSizes (functions.flatMap fun f => frameSizes f.entry.layout)
    Code.render (typeFileHead t sizes) ++ trimmedEnd (bodyText functions) ++ "\n"

/-- The header that all trampolines include. -/
def header : Artifact where
  path := ⟨headerFile⟩
  contents := Code.render <| banner ++ [
    .line "#pragma once", .blank,
    .line "#include \"CoreMinimal.h\"", .blank,
    .line ("#define SHARPBIND_FI_OK " ++ toString statusOk),
    .line ("#define SHARPBIND_FI_BAD_ARG_COUNT " ++ toString statusBadArgCount),
    .line ("#define SHARPBIND_FI_NULL_SELF " ++ toString statusNullSelf), .blank,
    .line "#if PLATFORM_WINDOWS",
    .line "#define SHARPBIND_FAST_INVOKE_API __declspec(dllexport)",
    .line "#else",
    .line "#define SHARPBIND_FAST_INVOKE_API __attribute__((visibility(\"default\")))",
    .line "#endif"]

/-- What the pass makes: files, the index of the trampolines in them, and a report. -/
structure Output where
  root : Path
  artifacts : List Artifact
  manifest : TrampolineManifest
  /-- Files of earlier runs that were taken away. -/
  removed : List Path
  report : Report

namespace Output

/-- The functions that have a trampoline. -/
def functions (o : Output) : List FunctionId := FunctionId.sorted (o.manifest.entries.map (·.id))

end Output

/-- A type and the functions under its name that a trampoline may be made for. -/
structure Group where
  type : TypeRecord
  candidates : List Candidate

/-- The candidates, grouped by the first type of their type's name. -/
def groups (c : BindingContext) : List Group :=
  let types := c.document.types.eraseDupsBy fun a b => a.name == b.name
  (types.map fun t => ⟨t, c.candidates.filter fun x => x.owner.name == t.name⟩).filter (!·.candidates.isEmpty)

/-- What becomes of a group: its functions that have a trampoline, and what is reported of all of them. -/
def lowerGroup (d : Document) (g : Group) : List Lowered × List ReportEntry :=
  let results := g.candidates.map fun x =>
    let x := { x with owner := g.type }
    (x, lower d x)
  (results.filterMap fun
      | (x, .ok e) => some ⟨x, e⟩
      | (_, .error _) => none,
   results.map fun
      | (x, .ok _) => ⟨x.id.display, .success⟩
      | (x, .error e) =>
        ⟨x.id.display, .recovered ("no trampoline, using reflection dispatch: " ++ e.message)⟩)

/-- All trampolines of a document; nothing is written. -/
def generate (c : BindingContext) : Output :=
  let lowered := (groups c).map fun g => (g, lowerGroup c.document g)
  let made := lowered.filter fun x => !x.2.1.isEmpty
  { root := c.nativeRoot
    artifacts := made.map (fun x => typeFile x.1.type x.2.1) ++ [header]
    manifest := ⟨c.document.engineVersion, made.flatMap fun x => x.2.1.map (·.entry)⟩
    removed := []
    report := (Report.start .trampolines).addAll (lowered.flatMap (·.2.2)) }

end Trampoline
end EngineBridge
