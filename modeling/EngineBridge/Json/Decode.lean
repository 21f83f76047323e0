import EngineBridge.Json.Basic
import EngineBridge.Text.Digits

/-! Taking values out of JSON. A record is an object, or an array of its fields in their order; fields that nobody
    asks for are passed over, and of them only the form was ever checked. -/

namespace EngineBridge

namespace JsonNumber

/-- The integer that the number spells. Neither a point nor an exponent nor minus zero makes an integer. -/
def int? (n : JsonNumber) : Option Int :=
  if n.fraction.isSome || n.exponent.isSome then none
  else
    let m := numberOfDigits 10 n.whole
    if n.negative then (if m = 0 then none else some (-m)) else some m

/-- The 53 leading bits of a number, rounded to nearest with ties to even. -/
def leadingBits (n : Nat) : Nat :=
  let shift := n.log2 - 52
  let unit := Nat.pow 2 shift
  let q := n / unit
  let r := n % unit
  (if 2 * r > unit || (2 * r == unit && q % 2 == 1) then q + 1 else q) * unit

/-- As many of the digits as fit into 64 bits, and how many were used. -/
def leadingDigits (digits : List Char) : Nat × Nat :=
  go digits 0 0
where
  go : List Char → Nat → Nat → Nat × Nat
    | [], n, used => (n, used)
    | c :: cs, n, used =>
      let m := n * 10 + digitValue c
      if m < UInt64.size then go cs m (used + 1) else (n, used)

/-- The number can be kept as a binary number of 64 bits: it is not beyond the greatest of them. -/
def isFinite (n : JsonNumber) : Bool :=
  let digits := n.whole ++ n.fraction.getD []
  let (significand, used) := leadingDigits digits
  let exponent : Int := n.exponent.getD 0 + ((n.whole.length : Int) - used)
  if significand = 0 then true
  else if exponent < 0 then true
  else if exponent > 308 then false
  else leadingBits significand * leadingBits (Nat.pow 10 exponent.toNat) < Nat.pow 2 1024 - Nat.pow 2 970

end JsonNumber

namespace Json

mutual
/-- The value can be taken in whole: all its strings are text, all its numbers can be kept, and it is nested no
    deeper than the limit. -/
def isReadable (limit : Nat) : Json → Bool
  | .null | .bool _ => true
  | .number n => n.isFinite
  | .string s => s.isSome
  | .array items => limit ≠ 0 && areReadable (limit - 1) items
  | .object fields => limit ≠ 0 && areReadableFields (limit - 1) fields

/-- Every item can be taken in whole. -/
def areReadable (limit : Nat) : List Json → Bool
  | [] => true
  | v :: vs => isReadable limit v && areReadable limit vs

/-- Every field can be taken in whole. -/
def areReadableFields (limit : Nat) : List (JsonText × Json) → Bool
  | [] => true
  | (k, v) :: fs => k.isSome && isReadable limit v && areReadableFields limit fs
end

/-- The values of the fields of that name, of which there may be one. -/
def single? (name : String) (fields : List (JsonText × Json)) : Option (Option Json) :=
  match fields.filter fun f => f.1 == some name with
  | [] => some none
  | [f] => some (some f.2)
  | _ => none

/-- The fields of a record, in the order of the names. -/
def fields? (names : List String) : Json → Option (List (Option Json))
  | .object fields => if fields.all fun f => f.1.isSome then names.mapM (single? · fields) else none
  | .array items =>
    if items.length ≤ names.length then
      some (items.map some ++ List.replicate (names.length - items.length) none)
    else none
  | _ => none

/-- A text. -/
def string? : Json → Option String
  | .string s => s
  | _ => none

/-- A truth value. -/
def bool? : Json → Option Bool
  | .bool b => some b
  | _ => none

/-- An integer of 64 bits. -/
def int64? : Json → Option Int64
  | .number n => n.int?.bind fun i =>
    if Int64.minValue.toInt ≤ i && i ≤ Int64.maxValue.toInt then some (Int64.ofInt i) else none
  | _ => none

/-- A word of a fixed choice: a string, or an object whose one field has that name and no value. -/
def word? : Json → Option String
  | .string s => s
  | .object [(k, .null)] => k
  | _ => none

/-- A list of values of one form. -/
def list? {α : Type} (read : Json → Option α) : Json → Option (List α)
  | .array items => items.mapM read
  | _ => none

/-- A field that must be there. -/
def required {α : Type} (read : Json → Option α) (field : Option Json) : Option α := field.bind read

/-- A field that has a value of its own when it is missing. -/
def defaulted {α : Type} (missing : α) (read : Json → Option α) : Option Json → Option α
  | none => some missing
  | some j => read j

/-- A field that may be missing or `null`. -/
def nullable {α : Type} (read : Json → Option α) : Option Json → Option (Option α)
  | none | some .null => some none
  | some j => (read j).map some

end Json
end EngineBridge
