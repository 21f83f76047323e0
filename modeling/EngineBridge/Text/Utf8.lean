/-! Bytes read as UTF-8 text: whole, with the place of the first fault, or with a mark for every fault. -/

namespace EngineBridge.Utf8

/-- What stands at the front of some bytes. Sizes are told less one. -/
inductive Front
  | nothing
  /-- A character and how many bytes follow its first. -/
  | char (c : Char) (more : Nat)
  /-- Bytes that begin no character, however they go on. -/
  | invalid (more : Nat)
  /-- The bytes end within a character. -/
  | cut
deriving DecidableEq, Repr

/-- A byte that goes on with a character. -/
def isContinuation (b : UInt8) : Bool := 0x80 ≤ b && b ≤ 0xBF

/-- The bytes that may follow the first byte of a character of three or four bytes. -/
def secondRange (b : UInt8) : UInt8 × UInt8 :=
  if b = 0xE0 then (0xA0, 0xBF)
  else if b = 0xED then (0x80, 0x9F)
  else if b = 0xF0 then (0x90, 0xBF)
  else if b = 0xF4 then (0x80, 0x8F)
  else (0x80, 0xBF)

/-- The byte may be the second of a character that begins with `first`. -/
def isSecond (first b : UInt8) : Bool := (secondRange first).1 ≤ b && b ≤ (secondRange first).2

/-- The low six bits. -/
def low (b : UInt8) : Nat := b.toNat % 64

/-- What stands at the front of the bytes. -/
def front : List UInt8 → Front
  | [] => .nothing
  | a :: rest =>
    if a < 0x80 then .char (Char.ofNat a.toNat) 0
    else if 0xC2 ≤ a && a ≤ 0xDF then
      match rest with
      | [] => .cut
      | b :: _ =>
        if isContinuation b then .char (Char.ofNat (a.toNat % 32 * 64 + low b)) 1 else .invalid 0
    else if 0xE0 ≤ a && a ≤ 0xEF then
      match rest with
      | [] => .cut
      | b :: rest =>
        if isSecond a b then
          match rest with
          | [] => .cut
          | c :: _ =>
            if isContinuation c then .char (Char.ofNat ((a.toNat % 16 * 64 + low b) * 64 + low c)) 2
            else .invalid 1
        else .invalid 0
    else if 0xF0 ≤ a && a ≤ 0xF4 then
      match rest with
      | [] => .cut
      | b :: rest =>
        if isSecond a b then
          match rest with
          | [] => .cut
          | c :: rest =>
            if isContinuation c then
              match rest with
              | [] => .cut
              | d :: _ =>
                if isContinuation d then
                  .char (Char.ofNat (((a.toNat % 8 * 64 + low b) * 64 + low c) * 64 + low d)) 3
                else .invalid 2
            else .invalid 1
        else .invalid 0
    else .invalid 0

/-- The mark for bytes that are no text. -/
def replacement : Char := Char.ofNat 0xFFFD

/-- The characters of the bytes, with a mark for each fault. -/
def lossyChars (bytes : List UInt8) : List Char :=
  match bytes with
  | [] => []
  | b :: bs =>
    match front (b :: bs) with
    | .nothing => []
    | .char c more => c :: lossyChars (bs.drop more)
    | .invalid more => replacement :: lossyChars (bs.drop more)
    | .cut => [replacement]
termination_by bytes.length
decreasing_by all_goals simp only [List.length_drop, List.length_cons]; omega

/-- The text of the bytes, with a mark for each fault. -/
def lossy (bytes : List UInt8) : String := String.ofList (lossyChars bytes)

/-- Where bytes stop being text. -/
structure Fault where
  /-- How many bytes are text. -/
  index : Nat
  /-- How many bytes cannot begin a character; none if the bytes end within a character. -/
  invalid : Option Nat
deriving DecidableEq, Repr

namespace Fault

def message (f : Fault) : String :=
  match f.invalid with
  | some n => "invalid utf-8 sequence of " ++ toString n ++ " bytes from index " ++ toString f.index
  | none => "incomplete utf-8 byte sequence from index " ++ toString f.index

end Fault

/-- The first fault of the bytes, of which the first stands at the given index. -/
def faultFrom (index : Nat) (bytes : List UInt8) : Option Fault :=
  match bytes with
  | [] => none
  | b :: bs =>
    match front (b :: bs) with
    | .nothing => none
    | .char _ more => faultFrom (index + more + 1) (bs.drop more)
    | .invalid more => some ⟨index, some (more + 1)⟩
    | .cut => some ⟨index, none⟩
termination_by bytes.length
decreasing_by all_goals simp only [List.length_drop, List.length_cons]; omega

/-- The bytes of a text. -/
def encode (s : String) : List UInt8 := s.toUTF8.toList

/-- The text of the bytes, or where they stop being text. -/
def decode (bytes : List UInt8) : Except Fault String :=
  match String.fromUTF8? ⟨bytes.toArray⟩ with
  | some s => .ok s
  | none => .error ((faultFrom 0 bytes).getD ⟨bytes.length, none⟩)

end EngineBridge.Utf8
