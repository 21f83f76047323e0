import EngineBridge.Json.Decode
import EngineBridge.Proofs.Json.Reading

/-! What is taken out of values that are written as records.

A record has each field once, so that every field is found under its name and a field that was not written is missing.
A plain value can be taken in whole if it is nested no deeper than the limit. -/

namespace EngineBridge
namespace Json

variable {j : Json} {limit n : Nat}

/-! ### Nesting -/

mutual
/-- How deep arrays and objects are nested. -/
def depth : Json → Nat
  | .array items => depthOfItems items + 1
  | .object fields => depthOfFields fields + 1
  | .null | .bool _ | .number _ | .string _ => 0

/-- The depth of the deepest item. -/
def depthOfItems : List Json → Nat
  | [] => 0
  | v :: vs => max v.depth (depthOfItems vs)

/-- The depth of the deepest value of a field. -/
def depthOfFields : List (JsonText × Json) → Nat
  | [] => 0
  | (_, v) :: fs => max v.depth (depthOfFields fs)
end

theorem depthOfItems_le {items : List Json} : depthOfItems items ≤ n ↔ ∀ v ∈ items, v.depth ≤ n := by
  induction items with
  | nil => simp [depthOfItems]
  | cons v vs ih => rw [depthOfItems, Nat.max_le, ih, List.forall_mem_cons]

theorem depthOfFields_le {fields : List (JsonText × Json)} : depthOfFields fields ≤ n ↔ ∀ f ∈ fields, f.2.depth ≤ n := by
  induction fields with
  | nil => simp [depthOfFields]
  | cons f fs ih => rw [depthOfFields, Nat.max_le, ih, List.forall_mem_cons]

theorem depth_array_le {items : List Json} : (Json.array items).depth ≤ n + 1 ↔ ∀ v ∈ items, v.depth ≤ n := by
  rw [depth, Nat.add_le_add_iff_right, depthOfItems_le]

theorem depth_record_le {fields : List (String × Json)} :
    (record fields).depth ≤ n + 1 ↔ ∀ f ∈ fields, f.2.depth ≤ n := by
  rw [record, depth, Nat.add_le_add_iff_right, depthOfFields_le, List.forall_mem_map]

theorem depth_array_ne_zero (items : List Json) : (Json.array items).depth ≠ 0 := Nat.succ_ne_zero _

theorem depth_record_ne_zero (fields : List (String × Json)) : (record fields).depth ≠ 0 := Nat.succ_ne_zero _

/-- What lies in a field is nested less deep than the record. -/
theorem depth_le_of_field (name : String) {fields : List (String × Json)} {v : Json} (hf : (name, v) ∈ fields)
    (h : (record fields).depth ≤ limit) : v.depth ≤ limit - 1 := by
  cases limit with
  | zero => exact absurd (Nat.le_zero.mp h) (depth_record_ne_zero fields)
  | succ limit => exact depth_record_le.mp h _ hf

theorem depth_le_of_item {items : List Json} {v : Json} (hv : v ∈ items) (h : (Json.array items).depth ≤ limit) :
    v.depth ≤ limit - 1 := by
  cases limit with
  | zero => exact absurd (Nat.le_zero.mp h) (depth_array_ne_zero items)
  | succ limit => exact depth_array_le.mp h _ hv

theorem depth_field_lt (name : String) {fields : List (String × Json)} {v : Json} (hf : (name, v) ∈ fields) :
    v.depth < (record fields).depth := by
  have hle := depth_le_of_field name hf (Nat.le_refl _)
  have hne := depth_record_ne_zero fields
  omega

theorem depth_item_lt {items : List Json} {v : Json} (hv : v ∈ items) : v.depth < (Json.array items).depth := by
  have hle := depth_le_of_item hv (Nat.le_refl _)
  have hne := depth_array_ne_zero items
  omega

/-- A record that is nested too deep has a field that is. -/
theorem exists_deep_field {fields : List (String × Json)} (h : n + 1 < (record fields).depth) :
    ∃ f ∈ fields, n < f.2.depth := by
  by_contra hnone
  push Not at hnone
  exact absurd (depth_record_le.mpr hnone) (Nat.not_le.mpr h)

theorem exists_deep_item {items : List Json} (h : n + 1 < (Json.array items).depth) : ∃ v ∈ items, n < v.depth := by
  by_contra hnone
  push Not at hnone
  exact absurd (depth_array_le.mpr hnone) (Nat.not_le.mpr h)

/-! ### What can be taken in whole -/

theorem areReadable_iff {items : List Json} :
    areReadable limit items = true ↔ ∀ v ∈ items, isReadable limit v = true := by
  induction items with
  | nil => simp [areReadable]
  | cons v vs ih => rw [areReadable, Bool.and_eq_true, ih, List.forall_mem_cons]

theorem areReadableFields_iff {fields : List (JsonText × Json)} :
    areReadableFields limit fields = true ↔ ∀ f ∈ fields, f.1.isSome = true ∧ isReadable limit f.2 = true := by
  induction fields with
  | nil => simp [areReadableFields]
  | cons f fs ih => rw [areReadableFields, Bool.and_eq_true, Bool.and_eq_true, ih, List.forall_mem_cons]

end Json

/-! ### Integers of 64 bits -/

namespace JsonNumber

theorem foldl_digits_le (digits : List Char) (n : Nat) : n ≤ digits.foldl (fun n c => n * 10 + digitValue c) n := by
  induction digits generalizing n with
  | nil => exact Nat.le_refl n
  | cons c cs ih => exact Nat.le_trans (by omega) (ih (n * 10 + digitValue c))

/-- All digits are used if the number fits into 64 bits. -/
theorem leadingDigits_go (digits : List Char) (n used : Nat)
    (h : digits.foldl (fun n c => n * 10 + digitValue c) n < UInt64.size) :
    leadingDigits.go digits n used = (digits.foldl (fun n c => n * 10 + digitValue c) n, used + digits.length) := by
  induction digits generalizing n used with
  | nil => rfl
  | cons c cs ih =>
    have hnext : n * 10 + digitValue c < UInt64.size := Nat.lt_of_le_of_lt (foldl_digits_le cs _) h
    rw [leadingDigits.go, if_pos hnext, ih _ _ h, List.foldl_cons, List.length_cons]
    congr 1
    omega

theorem leadingBits_le {n : Nat} (h : n ≠ 0) : leadingBits n ≤ 2 * n := by
  have hunit : Nat.pow 2 (n.log2 - 52) ≤ n :=
    Nat.le_trans (Nat.pow_le_pow_right (by decide) (Nat.sub_le _ _)) (Nat.log2_self_le h)
  have hquotient : n / Nat.pow 2 (n.log2 - 52) * Nat.pow 2 (n.log2 - 52) ≤ n := Nat.div_mul_le_self _ _
  unfold leadingBits
  dsimp only
  split
  · rw [Nat.add_mul, Nat.one_mul]
    omega
  · omega

theorem toList_ofInt (n : Int) : (ofInt n).whole = Nat.toDigits 10 n.natAbs := Nat.toList_repr

theorem isFinite_ofInt {n : Int} (h : n.natAbs < UInt64.size) : (ofInt n).isFinite = true := by
  have hvalue := numberOfDigits_toDigits (by decide : 1 < 10) (by decide) n.natAbs
  have hleading : leadingDigits (Nat.toDigits 10 n.natAbs) = (n.natAbs, (Nat.toDigits 10 n.natAbs).length) := by
    rw [numberOfDigits] at hvalue
    rw [leadingDigits, leadingDigits_go _ _ _ (by rw [hvalue]; exact h), hvalue, Nat.zero_add]
  have hdigits : (ofInt n).whole ++ (ofInt n).fraction.getD [] = Nat.toDigits 10 n.natAbs := by
    rw [toList_ofInt]
    exact List.append_nil _
  have hexponent : (ofInt n).exponent.getD 0 + (((ofInt n).whole.length : Int) - (Nat.toDigits 10 n.natAbs).length) = 0 := by
    rw [toList_ofInt, Int.sub_self]
    rfl
  unfold isFinite
  simp only [hdigits, hleading, hexponent]
  by_cases hzero : n.natAbs = 0
  · rw [if_pos hzero]
  · have hone : leadingBits (Nat.pow 10 (Int.toNat 0)) = 1 := by decide
    have hbits := leadingBits_le hzero
    have hlarge : 2 * UInt64.size < Nat.pow 2 1024 - Nat.pow 2 970 := by decide +kernel
    rw [if_neg hzero, if_neg (by decide), if_neg (by decide), hone, Nat.mul_one, decide_eq_true_eq]
    omega

theorem int?_ofInt (n : Int) : (ofInt n).int? = some n := by
  have hnegative : (ofInt n).negative = decide (n < 0) := rfl
  have hwhole : numberOfDigits 10 (ofInt n).whole = n.natAbs := by
    rw [toList_ofInt, numberOfDigits_toDigits (by decide) (by decide)]
  have hplain : ((ofInt n).fraction.isSome || (ofInt n).exponent.isSome) = false := rfl
  unfold int?
  simp only [hplain, hwhole, hnegative, Bool.false_eq_true, if_false, decide_eq_true_eq]
  split
  · rw [if_neg (by omega)]
    congr 1
    omega
  · congr 1
    omega

end JsonNumber

namespace Json
variable {j : Json} {limit : Nat}

/-- A plain value can be taken in whole if it is not nested too deep. -/
theorem Plain.isReadable_iff (h : Plain j) : isReadable limit j = true ↔ j.depth ≤ limit := by
  induction h generalizing limit with
  | null => simp [isReadable, depth]
  | bool b => simp [isReadable, depth]
  | int hn => simp [isReadable, depth, Json.int, JsonNumber.isFinite_ofInt hn]
  | str s => simp [isReadable, depth, Json.str]
  | @array items _ ih =>
    cases limit with
    | zero => simp [isReadable, depth]
    | succ limit =>
      rw [depth_array_le, isReadable, Bool.and_eq_true, areReadable_iff]
      exact ⟨fun h v hv => (ih v hv).mp (h.2 v hv), fun h => ⟨by simp, fun v hv => (ih v hv).mpr (h v hv)⟩⟩
  | @record fields _ ih =>
    cases limit with
    | zero => simp [Json.record, isReadable, depth]
    | succ limit =>
      rw [depth_record_le, Json.record, isReadable, Bool.and_eq_true, areReadableFields_iff, List.forall_mem_map]
      exact ⟨fun h f hf => (ih f hf).mp (h.2 f hf).2, fun h => ⟨by simp, fun f hf => ⟨rfl, (ih f hf).mpr (h f hf)⟩⟩⟩

/-! ### Fields of a record -/

section Records
variable {fields : List (String × Json)}

theorem single?_record (h : (fields.map Prod.fst).Nodup) (name : String) :
    single? name (fields.map fun f => (some f.1, f.2)) = some (List.lookup name fields) := by
  induction fields with
  | nil => rfl
  | cons f fs ih =>
    obtain ⟨hf, hfs⟩ := List.nodup_cons.mp h
    have hnext := ih hfs
    unfold single? at hnext ⊢
    by_cases hname : name = f.1
    · have hnone : (fs.map fun f => ((some f.1, f.2) : JsonText × Json)).filter (fun g => g.1 == some name) = [] := by
        rw [List.filter_eq_nil_iff, List.forall_mem_map]
        rintro g hg hsame
        exact hf (List.mem_map.mpr ⟨g, hg, (Option.some.inj (beq_iff_eq.mp hsame)).trans hname⟩)
      rw [List.map_cons, List.filter_cons_of_pos (by simp [hname]), hnone, List.lookup_cons, beq_iff_eq.mpr hname]
    · rw [List.map_cons, List.filter_cons_of_neg (by simpa using Ne.symm hname), hnext, List.lookup_cons,
        beq_eq_false_iff_ne.mpr hname]

/-- The fields of a record are found under their names. -/
theorem fields?_record (h : (fields.map Prod.fst).Nodup) (names : List String) :
    (record fields).fields? names = some (names.map fun name => List.lookup name fields) := by
  have htext : (fields.map fun f => ((some f.1, f.2) : JsonText × Json)).all (fun f => f.1.isSome) = true := by
    simp
  rw [record, fields?, if_pos htext]
  induction names with
  | nil => rfl
  | cons name names ih =>
    rw [List.mapM_cons, single?_record h, ih]
    rfl

end Records

@[simp] theorem required_some {α : Type} (read : Json → Option α) (j : Json) : required read (some j) = read j := rfl

@[simp] theorem defaulted_some {α : Type} (missing : α) (read : Json → Option α) (j : Json) :
    defaulted missing read (some j) = read j := rfl

@[simp] theorem string?_str (s : String) : string? (.str s) = some s := rfl

@[simp] theorem bool?_bool (b : Bool) : bool? (.bool b) = some b := rfl

@[simp] theorem int64?_int (n : Int64) : int64? (.int n.toInt) = some n := by
  have hbounds : (Int64.minValue.toInt ≤ n.toInt && n.toInt ≤ Int64.maxValue.toInt) = true := by
    simpa using ⟨n.minValue_le_toInt, n.toInt_le⟩
  rw [int, int64?, JsonNumber.int?_ofInt, Option.bind_some, if_pos hbounds, Int64.ofInt_toInt]

end Json
end EngineBridge
