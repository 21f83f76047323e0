import EngineBridge.Proofs.Value.Integer
import EngineBridge.Proofs.Wire.Reader
import Mathlib.Order.MinMax

/-! Requests are read as they were written, as long as no value lies too deep.

The arguments of a call are at depth zero, and what a container holds is one deeper than the container. A reader
with so many levels left reads a value back if its depth is below them, and gives up otherwise: both by
induction on the value, with the items of a container and the entries of a map beside it. -/

namespace EngineBridge

namespace Value

mutual
/-- How deep the deepest value within a value lies. A container without items has nothing within it. -/
def depth : Value → Nat
  | .struct fields => depthOfItems fields
  | .array items => depthOfItems items
  | .map entries => depthOfEntries entries
  | _ => 0

/-- How deep the deepest value within a container of these items lies. -/
def depthOfItems : List Value → Nat
  | [] => 0
  | v :: vs => max (v.depth + 1) (depthOfItems vs)

/-- How deep the deepest value within a map of these entries lies. -/
def depthOfEntries : List (Value × Value) → Nat
  | [] => 0
  | (k, v) :: es => max (max (k.depth + 1) (v.depth + 1)) (depthOfEntries es)
end

mutual
/-- The lengths of all texts and containers within a value go into four bytes. -/
def LengthsFit : Value → Prop
  | .string s | .text s => Wire.TextFits s
  | .struct fields => fields.length < UInt32.size ∧ ItemsFit fields
  | .array items => items.length < UInt32.size ∧ ItemsFit items
  | .map entries => entries.length < UInt32.size ∧ EntriesFit entries
  | _ => True

/-- The lengths within all the values go into four bytes. -/
def ItemsFit : List Value → Prop
  | [] => True
  | v :: vs => v.LengthsFit ∧ ItemsFit vs

/-- The lengths within all keys and values go into four bytes. -/
def EntriesFit : List (Value × Value) → Prop
  | [] => True
  | (k, v) :: es => k.LengthsFit ∧ v.LengthsFit ∧ EntriesFit es
end

end Value

namespace Wire
open Value Outcome

theorem length_valueBytes_pos (v : Value) : 1 ≤ (valueBytes v).length := by
  cases v <;> simp [valueBytes]

theorem length_le_itemBytes (vs : List Value) : vs.length ≤ (itemBytes vs).length := by
  induction vs with
  | nil => exact Nat.le_refl _
  | cons v vs ih =>
    have := length_valueBytes_pos v
    simp only [itemBytes, List.length_cons, List.length_append]
    omega

theorem length_le_entryBytes (es : List (Value × Value)) : es.length ≤ (entryBytes es).length := by
  induction es with
  | nil => exact Nat.le_refl _
  | cons e es ih =>
    have := length_valueBytes_pos e.1
    simp only [entryBytes, List.length_cons, List.length_append]
    omega

theorem Reads.tagged {α : Type} {f : Nat → Reader α} {t : UInt8} {bytes : List UInt8} {a : α}
    (h : Reads (f t.toNat) bytes a) : Reads (number 1 >>= f) (t :: bytes) a :=
  (reads_tag t).bind h

theorem GivesUp.tagged {α : Type} {f : Nat → Reader α} {t : UInt8} {bytes : List UInt8}
    (h : GivesUp (f t.toNat) bytes) : GivesUp (number 1 >>= f) (t :: bytes) :=
  (reads_tag t).bind_givesUp h

theorem Reads.pair {α : Type} {r : Reader α} {first second : List UInt8} {a b : α} (ha : Reads r first a)
    (hb : Reads r second b) : Reads (Wire.pair r) (first ++ second) (a, b) :=
  ha.bind (hb.map fun b => (a, b))

theorem reads_integer {level : Nat} (i : TypedInteger) :
    Reads (valueWithin (level + 1)) (valueBytes (.integer i)) (.integer i) := by
  have h : Reads (integer i.type) (bytesOf i.type.bytes i.bits) (.integer i) := by
    have hr := (reads_bytesOf i.bits_lt).map fun n => Value.integer (.ofBits i.type n)
    rwa [i.ofBits_bits] at hr
  unfold valueBytes
  refine Reads.tagged ?_
  cases hi : i.type <;> rw [hi] at h <;> exact h

mutual
theorem reads_value : ∀ (v : Value) {level : Nat}, v.LengthsFit → v.depth < level →
    Reads (valueWithin level) (valueBytes v) v
  | v, 0, _, h => absurd h (Nat.not_lt_zero _)
  | .void, level + 1, _, _ => Reads.tagged (reads_pure _)
  | .bool b, level + 1, _, _ => by
    cases b
    · exact Reads.tagged ((reads_number [0]).map fun n => Value.bool (n != 0))
    · exact Reads.tagged ((reads_number [1]).map fun n => Value.bool (n != 0))
  | .integer i, level + 1, _, _ => reads_integer i
  | .float bits, level + 1, _, _ => by
    have h := (reads_word bits).map fun n => Value.float (.ofNat n)
    rw [UInt32.ofNat_toNat] at h
    exact Reads.tagged h
  | .double bits, level + 1, _, _ => by
    have h := (reads_doubleWord bits).map fun n => Value.double (.ofNat n)
    rw [UInt64.ofNat_toNat] at h
    exact Reads.tagged h
  | .name index instanceNumber, level + 1, _, _ => by
    have h : Reads (do return Value.name (.ofNat index.toNat) (.ofNat (← number 4)))
        (bytesOf 4 instanceNumber.toNat) (.name index instanceNumber) := by
      have h := (reads_word instanceNumber).map fun n => Value.name (.ofNat index.toNat) (.ofNat n)
      simpa only [UInt32.ofNat_toNat] using h
    exact Reads.tagged ((reads_word index).bind h)
  | .handle address, level + 1, _, _ => by
    have h := (reads_doubleWord address).map fun n => Value.handle (.ofNat n)
    rw [UInt64.ofNat_toNat] at h
    exact Reads.tagged h
  | .enum n, level + 1, _, _ => by
    have h := (reads_doubleWord n.toUInt64).map fun m => Value.enum (UInt64.ofNat m).toInt64
    rw [UInt64.ofNat_toNat] at h
    exact Reads.tagged h
  | .string s, level + 1, hs, _ => Reads.tagged ((reads_text hs).map Value.string)
  | .text s, level + 1, hs, _ => Reads.tagged ((reads_text hs).map Value.text)
  | .struct fields, level + 1, ⟨hlength, hfit⟩, hd =>
    Reads.tagged ((Reads.after_length hlength (length_le_itemBytes fields)
      (reads_items fields hfit (Nat.lt_succ_iff.mp hd))).map Value.struct)
  | .array items, level + 1, ⟨hlength, hfit⟩, hd =>
    Reads.tagged ((Reads.after_length hlength (length_le_itemBytes items)
      (reads_items items hfit (Nat.lt_succ_iff.mp hd))).map Value.array)
  | .map entries, level + 1, ⟨hlength, hfit⟩, hd =>
    Reads.tagged ((Reads.after_length hlength (length_le_entryBytes entries)
      (reads_entries entries hfit (Nat.lt_succ_iff.mp hd))).map Value.map)

theorem reads_items : ∀ (vs : List Value) {level : Nat}, ItemsFit vs → depthOfItems vs ≤ level →
    Reads (items (valueWithin level) vs.length) (itemBytes vs) vs
  | [], _, _, _ => reads_pure _
  | v :: vs, level, ⟨hv, hvs⟩, hd => by
    have hd' : v.depth + 1 ≤ level ∧ depthOfItems vs ≤ level := Nat.max_le.mp hd
    exact (reads_value v hv hd'.1).bind ((reads_items vs hvs hd'.2).map (v :: ·))

theorem reads_entries : ∀ (es : List (Value × Value)) {level : Nat}, EntriesFit es → depthOfEntries es ≤ level →
    Reads (items (pair (valueWithin level)) es.length) (entryBytes es) es
  | [], _, _, _ => reads_pure _
  | (k, v) :: es, level, ⟨hk, hv, hes⟩, hd => by
    have hd' : (k.depth + 1 ≤ level ∧ v.depth + 1 ≤ level) ∧ depthOfEntries es ≤ level := by
      have h := Nat.max_le.mp hd
      exact ⟨Nat.max_le.mp h.1, h.2⟩
    have hpair : Reads (pair (valueWithin level)) (valueBytes k ++ valueBytes v) (k, v) :=
      (reads_value k hk hd'.1.1).pair (reads_value v hv hd'.1.2)
    have h : Reads (items (pair (valueWithin level)) ((k, v) :: es).length)
        ((valueBytes k ++ valueBytes v) ++ entryBytes es) ((k, v) :: es) :=
      hpair.bind ((reads_entries es hes hd'.2).map ((k, v) :: ·))
    rwa [List.append_assoc] at h
end

mutual
theorem givesUp_value : ∀ (v : Value) {level : Nat}, v.LengthsFit → level ≤ v.depth →
    GivesUp (valueWithin level) (valueBytes v)
  | _, 0, _, _ => fun _ _ => rfl
  | .struct fields, _ + 1, ⟨hlength, hfit⟩, hd =>
    GivesUp.tagged ((GivesUp.after_length hlength (length_le_itemBytes fields)
      (givesUp_items fields hfit hd)).andThen _)
  | .array items, _ + 1, ⟨hlength, hfit⟩, hd =>
    GivesUp.tagged ((GivesUp.after_length hlength (length_le_itemBytes items)
      (givesUp_items items hfit hd)).andThen _)
  | .map entries, _ + 1, ⟨hlength, hfit⟩, hd =>
    GivesUp.tagged ((GivesUp.after_length hlength (length_le_entryBytes entries)
      (givesUp_entries entries hfit hd)).andThen _)
  | .void, _ + 1, _, h | .bool _, _ + 1, _, h | .integer _, _ + 1, _, h | .float _, _ + 1, _, h
  | .double _, _ + 1, _, h | .name _ _, _ + 1, _, h | .handle _, _ + 1, _, h | .enum _, _ + 1, _, h
  | .string _, _ + 1, _, h | .text _, _ + 1, _, h => absurd h (Nat.not_succ_le_zero _)

theorem givesUp_items : ∀ (vs : List Value) {level : Nat}, ItemsFit vs → level < depthOfItems vs →
    GivesUp (items (valueWithin level) vs.length) (itemBytes vs)
  | [], _, _, h => absurd h (Nat.not_lt_zero _)
  | v :: vs, level, ⟨hv, hvs⟩, hd => by
    -- The items before the first that lies too deep are read, and that one stops the reader.
    by_cases hlevel : v.depth < level
    · have hd' : level < depthOfItems vs := (lt_max_iff.mp hd).resolve_left (Nat.not_lt.mpr hlevel)
      exact (reads_value v hv hlevel).bind_givesUp ((givesUp_items vs hvs hd').andThen _)
    · exact (givesUp_value v hv (Nat.not_lt.mp hlevel)).bind _ _

theorem givesUp_entries : ∀ (es : List (Value × Value)) {level : Nat}, EntriesFit es → level < depthOfEntries es →
    GivesUp (items (pair (valueWithin level)) es.length) (entryBytes es)
  | [], _, _, h => absurd h (Nat.not_lt_zero _)
  | (k, v) :: es, level, ⟨hk, hv, hes⟩, hd => by
    have h : GivesUp (items (pair (valueWithin level)) ((k, v) :: es).length)
        ((valueBytes k ++ valueBytes v) ++ entryBytes es) := by
      by_cases hkey : k.depth < level
      · by_cases hvalue : v.depth < level
        · have hpair : Reads (pair (valueWithin level)) (valueBytes k ++ valueBytes v) (k, v) :=
            (reads_value k hk hkey).pair (reads_value v hv hvalue)
          have hle : max (k.depth + 1) (v.depth + 1) ≤ level := Nat.max_le.mpr ⟨hkey, hvalue⟩
          have hd' : level < depthOfEntries es := (lt_max_iff.mp hd).resolve_left (Nat.not_lt.mpr hle)
          exact hpair.bind_givesUp ((givesUp_entries es hes hd').andThen _)
        · have hpair : GivesUp (pair (valueWithin level)) (valueBytes k ++ valueBytes v) :=
            (reads_value k hk hkey).bind_givesUp ((givesUp_value v hv (Nat.not_lt.mp hvalue)).andThen _)
          exact hpair.bind _ _
      · have hpair : GivesUp (pair (valueWithin level)) (valueBytes k ++ valueBytes v) :=
          (givesUp_value k hk (Nat.not_lt.mp hkey)).bind _ _
        exact hpair.bind _ _
    rwa [List.append_assoc] at h
end

/-! ### Requests -/

theorem depthOfItems_le_iff {vs : List Value} {n : Nat} : depthOfItems vs ≤ n + 1 ↔ ∀ v ∈ vs, v.depth ≤ n := by
  induction vs with
  | nil => simp [depthOfItems]
  | cons v vs ih => rw [depthOfItems, Nat.max_le, ih, List.forall_mem_cons, Nat.add_le_add_iff_right]

/-- A call whose lengths go into four bytes. -/
structure RequestFits (method : String) (args : List Value) : Prop where
  method : TextFits method
  count : args.length < UInt32.size
  args : ItemsFit args

section
variable {method : String} {args : List Value} (h : RequestFits method args)
include h

theorem reads_values (hd : depthOfItems args ≤ levels) : Reads values (valuesBytes args) args :=
  Reads.after_length h.count (length_le_itemBytes args) (reads_items args h.args hd)

theorem givesUp_values (hd : levels < depthOfItems args) : GivesUp values (valuesBytes args) :=
  GivesUp.after_length h.count (length_le_itemBytes args) (givesUp_items args h.args hd)

theorem decode_request_ok (hd : depthOfItems args ≤ levels) :
    decode request (requestBytes method args) = .ok (method, args) := by
  have htext := reads_text h.method 0 (valuesBytes args)
  have hvalues := reads_values h hd (0 + (textBytes method).length) []
  rw [List.append_nil] at hvalues
  show (request.run.run ⟨0, textBytes method ++ valuesBytes args⟩).1 = _
  unfold request
  rw [run_bind_of_ok htext, run_bind_of_ok hvalues]
  rfl

theorem decode_request_tooDeep (hd : levels < depthOfItems args) :
    decode request (requestBytes method args) = .error .tooDeep := by
  have htext := reads_text h.method 0 (valuesBytes args)
  have hvalues := givesUp_values h hd (0 + (textBytes method).length) []
  rw [List.append_nil] at hvalues
  rcases hx : values.run.run ⟨0 + (textBytes method).length, valuesBytes args⟩ with ⟨x, c⟩
  rw [hx] at hvalues
  subst hvalues
  show (request.run.run ⟨0, textBytes method ++ valuesBytes args⟩).1 = _
  unfold request
  rw [run_bind_of_ok htext, run_bind_of_error hx]

end

/-- A request is read as it was written exactly if no value within its arguments is deeper than 32; otherwise
the reader finds it nested too deeply. -/
theorem request_round_trip (method : String) (args : List Value) (h : RequestFits method args) :
    (decode request (requestBytes method args) = .ok (method, args) ↔ ∀ v ∈ args, v.depth ≤ 32) ∧
      ((∃ v ∈ args, 32 < v.depth) → decode request (requestBytes method args) = .error .tooDeep) := by
  have hdepth : depthOfItems args ≤ levels ↔ ∀ v ∈ args, v.depth ≤ 32 := depthOfItems_le_iff
  have hdeep : (∃ v ∈ args, 32 < v.depth) → levels < depthOfItems args := by
    rintro ⟨v, hv, hlt⟩
    rw [← Nat.not_le, hdepth]
    intro hall
    exact Nat.not_le.mpr hlt (hall v hv)
  refine ⟨⟨fun hok => ?_, fun hall => decode_request_ok h (hdepth.mpr hall)⟩,
    fun hex => decode_request_tooDeep h (hdeep hex)⟩
  by_contra hnot
  have hfail := decode_request_tooDeep h (Nat.not_le.mp (mt hdepth.mp hnot))
  rw [hok] at hfail
  cases hfail

theorem textFits_of_size {s : String} (h : s.utf8ByteSize < UInt32.size) : TextFits s := by
  rw [TextFits, Utf8.length_encode]
  exact h

/-- So many arrays around one without items. -/
def nested : Nat → Value
  | 0 => .array []
  | n + 1 => .array [nested n]

theorem lengthsFit_nested (n : Nat) : (nested n).LengthsFit := by
  induction n with
  | zero => exact ⟨by decide, trivial⟩
  | succ n ih => exact ⟨show 1 < UInt32.size by decide, ih, trivial⟩

theorem depth_nested (n : Nat) : (nested n).depth = n := by
  induction n with
  | zero => rfl
  | succ n ih => simp [nested, depth, depthOfItems, ih]

theorem requestFits_nested (n : Nat) :
    RequestFits "Game.Actor:OnHit" [.map [(.string "hp", .float 0x3FC00000)], nested n] where
  method := textFits_of_size (by decide)
  count := show 2 < UInt32.size by decide
  args := ⟨⟨by decide, textFits_of_size (by decide), trivial, trivial⟩, lengthsFit_nested n, trivial⟩

/-- An array without items may lie at depth 32, but not one level deeper. -/
theorem request_round_trip_nested :
    decode request (requestBytes "Game.Actor:OnHit" [.map [(.string "hp", .float 0x3FC00000)], nested 32]) =
        .ok ("Game.Actor:OnHit", [.map [(.string "hp", .float 0x3FC00000)], nested 32]) ∧
      decode request (requestBytes "Game.Actor:OnHit" [.map [(.string "hp", .float 0x3FC00000)], nested 33]) =
        .error .tooDeep :=
  ⟨(request_round_trip _ _ (requestFits_nested 32)).1.mpr (by simp [depth, depthOfEntries, depth_nested]),
    (request_round_trip _ _ (requestFits_nested 33)).2 ⟨nested 33, by simp, by simp [depth_nested]⟩⟩

end Wire
end EngineBridge
