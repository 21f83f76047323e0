import EngineBridge.Trial.World

/-! A small engine that hosts are tried out with: functions on numbers, texts, names and structs, and two trampolines.
None of them looks at the world or changes it. Arguments come as the bytes of their places in memory. -/

namespace EngineBridge.Trial

/-- Functions by their symbols. -/
abbrev Engine := List (String × Symbol World)

namespace Engine

/-- The bytes of an argument. -/
def bytesOfArgument : NativeArgument → List UInt8
  | .value bytes | .text bytes | .storage bytes => bytes

/-- The number at a place of that width. -/
def natAt (bytes : List UInt8) (offset width : Nat) : Nat := numberOf (Buffer.slice bytes offset width)

/-- The signed number at a place of that width. -/
def intAt (bytes : List UInt8) (offset width : Nat) : Int :=
  TypedInteger.wrapped ((Buffer.integerType? true width).getD .int64) (natAt bytes offset width)

/-- The bytes of a number of that width. What is too large wraps around. -/
def intBytes (width : Nat) (n : Int) : List UInt8 := bytesOf width (n % byteSpan width).toNat

def doubleAt (bytes : List UInt8) (offset : Nat) : Float := .ofBits (.ofNat (natAt bytes offset 8))

def doubleBytes (x : Float) : List UInt8 := bytesOf 8 x.toBits.toNat

def floatAt (bytes : List UInt8) (offset : Nat) : Float32 := .ofBits (.ofNat (natAt bytes offset 4))

def floatBytes (x : Float32) : List UInt8 := bytesOf 4 x.toBits.toNat

/-- Three coordinates. -/
structure Vector3 where
  x : Float
  y : Float
  z : Float

namespace Vector3

def ofBytes (bytes : List UInt8) : Vector3 := ⟨doubleAt bytes 0, doubleAt bytes 8, doubleAt bytes 16⟩

def toBytes (v : Vector3) : List UInt8 := doubleBytes v.x ++ doubleBytes v.y ++ doubleBytes v.z

def dot (v w : Vector3) : Float := v.x * w.x + v.y * w.y + v.z * w.z

def scaled (v : Vector3) (factor : Float) : Vector3 := ⟨v.x * factor, v.y * factor, v.z * factor⟩

end Vector3

/-- A function from its arguments' bytes to its result, and to the storages that it changes. -/
def function (f : List (List UInt8) → NativeResult × List (Nat × List UInt8)) : Symbol World where
  trampoline frame _ ret := return ⟨0, frame, ret⟩
  function args :=
    let (result, changed) := f (args.map bytesOfArgument)
    return ⟨result, changed.foldl (fun args c => args.set c.1 (.storage c.2)) args⟩

/-- A function that changes no storage. -/
def pureFunction (f : List (List UInt8) → List UInt8) : Symbol World := function fun args => (.bytes (f args), [])

/-- A procedure: it returns nothing, but changes storages. -/
def procedure (f : List (List UInt8) → List (Nat × List UInt8)) : Symbol World :=
  function fun args => (.nothing, f args)

/-- A function from an integer to one of the same width. -/
def onInteger (width : Nat) (f : Int → Int) : Symbol World :=
  pureFunction fun args => intBytes width (f (intAt (args.headD []) 0 width))

/-- A function that is called through a frame. -/
def trampoline (f : Buffer → Nat → Buffer → TrampolineAnswer) : Symbol World :=
  { procedure fun _ => [] with trampoline := fun frame count ret => return f frame count ret }

/-- The length of a text. -/
def textLength : Symbol World := pureFunction fun args => bytesOf 8 (args.headD []).length

/-- What every process has. -/
def process : Engine := [("abs", onInteger 4 fun n => n.natAbs), ("strlen", textLength)]

/-- Functions on numbers. -/
def arithmetic : Engine := [
  ("n_neg8", onInteger 1 (-·)), ("n_neg16", onInteger 2 (-·)),
  ("n_neg32", onInteger 4 (-·)), ("n_neg64", onInteger 8 (-·)),
  ("n_inc8", onInteger 1 (· + 1)), ("n_inc16", onInteger 2 (· + 1)),
  ("n_inc32", onInteger 4 (· + 1)), ("n_inc64", onInteger 8 (· + 1)),
  ("UMath_Twice", onInteger 4 (· * 2)),
  ("n_half", pureFunction fun args => floatBytes (floatAt (args.headD []) 0 / 2)),
  ("n_mul", pureFunction fun args => doubleBytes (doubleAt (args.headD []) 0 * doubleAt (args.getD 1 []) 0)),
  ("n_not", onInteger 1 fun n => if n = 0 then 1 else 0),
  ("n_add", pureFunction fun args => intBytes 4 (intAt (args.headD []) 0 4 + intAt (args.getD 1 []) 0 4)),
  ("n_swap", procedure fun args => [(0, args.getD 1 []), (1, args.headD [])]),
  ("n_divmod", function fun args =>
    let a := intAt (args.headD []) 0 4
    let b := intAt (args.getD 1 []) 0 4
    if b = 0 then (.bytes [0], []) else (.bytes [1], [(2, intBytes 4 (a.tdiv b)), (3, intBytes 4 (a.tmod b))])),
  ("n_bump", procedure fun args =>
    if numberOf (args.headD []) = 0 then [] else [(1, intBytes 1 (intAt (args.getD 1 []) 0 1 + 1))])]

/-- Functions on handles, texts and names. -/
def references : Engine := [
  ("n_noop", procedure fun _ => []),
  ("n_same", pureFunction fun args => args.headD []),
  ("n_strlen", textLength),
  ("n_tail", function fun args =>
    let text := args.headD []
    let start := intAt (args.getD 1 []) 0 4
    (.text (if 0 ≤ start && start ≤ text.length then some (text.drop start.toNat) else none), [])),
  ("n_name", pureFunction fun args => (args.headD []).drop 4 ++ (args.headD []).take 4),
  ("n_rename", procedure fun args =>
    let name := args.headD []
    [(0, name.take 4 ++ intBytes 4 (intAt name 4 4 + 1))])]

/-- Functions on structs. -/
def structs : Engine := [
  ("n_dot", pureFunction fun args =>
    doubleBytes ((Vector3.ofBytes (args.headD [])).dot (.ofBytes (args.getD 1 [])))),
  ("n_scale", procedure fun args =>
    [(0, ((Vector3.ofBytes (args.headD [])).scaled (doubleAt (args.getD 1 []) 0)).toBytes)]),
  ("n_mixed", pureFunction fun args =>
    let m := args.headD []
    let part := (floatAt m 8).toInt32.toInt
    intBytes 4 (if natAt m 0 1 = 0 then part else intAt m 4 4 + part)),
  ("n_nested", pureFunction fun args =>
    let v := args.headD []
    intBytes 8 (intAt v 4 4 + intAt v 16 8))]

/-- Functions that are called through frames. -/
def trampolines : Engine := [
  ("SBFI_4Math_3Add", trampoline fun frame count ret =>
    let a := intAt frame 0 4
    let b := intAt frame 4 4
    if count ≠ 3 then ⟨1, frame, ret⟩
    else ⟨0, frame.patched 8 (intBytes 4 (a * b)), ret.kept (intBytes 4 (a + b))⟩),
  ("SBFI_5Actor_5Scale", trampoline fun frame count ret =>
    if count ≠ 2 then ⟨1, frame, ret⟩
    else if natAt frame 0 8 = 0 then ⟨2, frame, ret⟩
    else ⟨0, frame, ret.kept (floatBytes (floatAt frame 8 * 2))⟩)]

/-- The engine. -/
def game : Engine := arithmetic ++ references ++ structs ++ trampolines

/-- The symbols of a managed runtime. Nothing is done behind them that they would be called for directly. -/
def runtime : Engine := Mono.requiredSymbols.map fun name => (name, procedure fun _ => [])

end Engine
end EngineBridge.Trial
