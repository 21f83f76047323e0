import EngineBridge.Proofs.Wire.RoundTrip
import Mathlib

/-! Nothing but encodings is accepted.

A reader that succeeds took the encoding of what it gives off the front; only a truth value may be written with
another byte than one. What is left behind those bytes does not change the answer, so that an accepted request
is neither the beginning nor the continuation of another. -/

namespace EngineBridge
namespace Wire
open Outcome

/-! ### Bytes that stand for an encoding -/

/-- A mask for bytes that are no truth values. -/
def plainMask (n : Nat) : List Bool := List.replicate n false

mutual
/-- For each byte of a value's encoding, whether it is the payload of a truth value. -/
def truthMask : Value → List Bool
  | .bool _ => [false, true]
  | .struct fields => plainMask 5 ++ itemsMask fields
  | .array items => plainMask 5 ++ itemsMask items
  | .map entries => plainMask 5 ++ entriesMask entries
  | v => plainMask (valueBytes v).length

/-- The mask of values one after the other. -/
def itemsMask : List Value → List Bool
  | [] => []
  | v :: vs => truthMask v ++ itemsMask vs

/-- The mask of keys and values one after the other. -/
def entriesMask : List (Value × Value) → List Bool
  | [] => []
  | (k, v) :: es => truthMask k ++ (truthMask v ++ entriesMask es)
end

/-- The mask of a request. -/
def requestMask (method : String) (args : List Value) : List Bool :=
  plainMask (textBytes method).length ++ (plainMask 4 ++ itemsMask args)

/-- The byte as it is written: the payload of a truth value is zero or one. -/
def writtenByte (isTruth : Bool) (b : UInt8) : UInt8 := if isTruth && b != 0 then 1 else b

/-- The bytes become the encoding once the truth values that the mask marks are written as zero or one. -/
structure StandsFor (bytes : List UInt8) (mask : List Bool) (encoding : List UInt8) : Prop where
  length_mask : mask.length = bytes.length
  written : List.zipWith writtenByte mask bytes = encoding

namespace StandsFor
variable {bytes encoding bytes' encoding' : List UInt8} {mask mask' : List Bool}

theorem length_eq (h : StandsFor bytes mask encoding) : encoding.length = bytes.length := by
  rw [← h.written, List.length_zipWith, h.length_mask, Nat.min_self]

theorem append (h : StandsFor bytes mask encoding) (h' : StandsFor bytes' mask' encoding') :
    StandsFor (bytes ++ bytes') (mask ++ mask') (encoding ++ encoding') where
  length_mask := by rw [List.length_append, List.length_append, h.length_mask, h'.length_mask]
  written := by rw [List.zipWith_append h.length_mask, h.written, h'.written]

theorem nil : StandsFor [] [] [] := ⟨rfl, rfl⟩

theorem plain (bytes : List UInt8) : StandsFor bytes (plainMask bytes.length) bytes where
  length_mask := List.length_replicate
  written := by
    induction bytes with
    | nil => rfl
    | cons b bytes ih => exact congrArg (b :: ·) ih

theorem truth (b : UInt8) : StandsFor [1, b] [false, true] (valueBytes (.bool (b.toNat != 0))) where
  length_mask := rfl
  written := by
    show [1, writtenByte true b] = [1, if b.toNat != 0 then 1 else 0]
    unfold writtenByte
    by_cases hb : b = 0
    · subst hb
      rfl
    · have hn : b.toNat ≠ 0 := fun h => hb (UInt8.toNat_inj.mp h)
      simp [hb, hn]

/-- The head of a container: its tag and the number of its items. -/
theorem container (tag : UInt8) (n : Nat) (h : StandsFor bytes mask encoding) :
    StandsFor (tag :: (lengthBytes n ++ bytes)) (plainMask 5 ++ mask) (tag :: (lengthBytes n ++ encoding)) := by
  have hhead : StandsFor (tag :: lengthBytes n) (plainMask 5) (tag :: lengthBytes n) := by
    have h := plain (tag :: lengthBytes n)
    rwa [List.length_cons, lengthBytes, length_bytesOf] at h
  exact hhead.append h

end StandsFor

/-! ### What a reader accepts -/

section
variable {α β : Type}

/-- The reader leaves a place between where it began and the end, and the bytes from there on. -/
def Stays (r : Reader α) : Prop :=
  ∀ position rest, ∃ n ≤ rest.length, (r.run.run ⟨position, rest⟩).2 = ⟨position + n, rest.drop n⟩

/-- The reader stays within the bytes; and if it succeeds, it took bytes off the front that have `P` with what it
gives, and had given the same with anything put behind them. -/
structure Accepts (r : Reader α) (P : α → List UInt8 → Prop) : Prop where
  stays : Stays r
  took : ∀ position rest a c, r.run.run ⟨position, rest⟩ = (.ok a, c) →
    ∃ bytes, P a bytes ∧ rest = bytes ++ c.rest ∧
      ∀ more, r.run.run ⟨position, rest ++ more⟩ = (.ok a, ⟨c.position, c.rest ++ more⟩)

variable {r : Reader α} {P P' : α → List UInt8 → Prop} {f : α → Reader β} {Q : β → List UInt8 → Prop}

theorem stays_of_kept (h : ∀ c, (r.run.run c).2 = c) : Stays r :=
  fun position rest => ⟨0, Nat.zero_le _, h ⟨position, rest⟩⟩

theorem Stays.bind (hr : Stays r) (hf : ∀ position rest a c, r.run.run ⟨position, rest⟩ = (.ok a, c) → Stays (f a)) :
    Stays (r >>= f) := by
  intro position rest
  obtain ⟨n, hn, hplace⟩ := hr position rest
  rw [run_bind]
  rcases hx : r.run.run ⟨position, rest⟩ with ⟨e | a, c⟩
  · rw [hx] at hplace
    exact ⟨n, hn, hplace⟩
  · rw [hx] at hplace
    subst hplace
    obtain ⟨m, hm, hplace⟩ := hf position rest a _ hx (position + n) (rest.drop n)
    rw [List.length_drop] at hm
    refine ⟨n + m, by omega, ?_⟩
    rw [← Nat.add_assoc, ← List.drop_drop]
    exact hplace

theorem Accepts.mono (h : Accepts r P) (hP : ∀ a bytes, P a bytes → P' a bytes) : Accepts r P' where
  stays := h.stays
  took position rest a c hrun := by
    obtain ⟨bytes, ha, hrest⟩ := h.took position rest a c hrun
    exact ⟨bytes, hP a bytes ha, hrest⟩

theorem accepts_pure {a : α} (h : P a []) : Accepts (pure a) P where
  stays := stays_of_kept fun _ => rfl
  took := by
    rintro position rest _ _ ⟨⟩
    exact ⟨[], h, rfl, fun _ => rfl⟩

theorem accepts_throw (e : Fault) : Accepts (throw e) P where
  stays := stays_of_kept fun _ => rfl
  took := by
    rintro position rest a c ⟨⟩

/-- What the second reader takes stands behind what the first took. -/
theorem Accepts.bind (hr : Accepts r P) (hf : ∀ a front, P a front → Accepts (f a) fun b back => Q b (front ++ back)) :
    Accepts (r >>= f) Q where
  stays := hr.stays.bind fun position rest a c hx => by
    obtain ⟨front, ha, -, -⟩ := hr.took position rest a c hx
    exact (hf a front ha).stays
  took position rest b c hrun := by
    rw [run_bind] at hrun
    rcases hx : r.run.run ⟨position, rest⟩ with ⟨e | a, c₁⟩
    · rw [hx] at hrun
      cases hrun
    · rw [hx] at hrun
      obtain ⟨front, ha, hfront, hmore⟩ := hr.took position rest a c₁ hx
      obtain ⟨back, hb, hback, hmore'⟩ := (hf a front ha).took c₁.position c₁.rest b c hrun
      refine ⟨front ++ back, hb, ?_, fun more => ?_⟩
      · rw [hfront, hback, List.append_assoc]
      · rw [run_bind, hmore]
        exact hmore' more

theorem Accepts.map (hr : Accepts r P) {g : α → β} (h : ∀ a bytes, P a bytes → Q (g a) bytes) :
    Accepts (do return g (← r)) Q :=
  hr.bind fun a front ha => accepts_pure ((List.append_nil front).symm ▸ h a front ha)

end

/-! ### Numbers and texts -/

theorem run_take (n position : Nat) (rest : List UInt8) :
    (take n).run.run ⟨position, rest⟩ =
      if n ≤ rest.length then (.ok (rest.take n), ⟨position + n, rest.drop n⟩)
      else (.error (.truncated position), ⟨position, rest⟩) := by
  show (if n ≤ rest.length then _ else _ : Reader (List UInt8)).run.run _ = _
  split <;> rfl

theorem accepts_take (n : Nat) : Accepts (take n) fun taken bytes => taken = bytes ∧ bytes.length = n where
  stays position rest := by
    rw [run_take]
    split
    · next hle => exact ⟨n, hle, rfl⟩
    · exact ⟨0, Nat.zero_le _, rfl⟩
  took position rest taken c hrun := by
    rw [run_take] at hrun
    split at hrun
    · next hle =>
      cases hrun
      refine ⟨rest.take n, ⟨rfl, List.length_take_of_le hle⟩, (List.take_append_drop n rest).symm, fun more => ?_⟩
      have hmore : n ≤ (rest ++ more).length := Nat.le_trans hle (by simp)
      rw [run_take, if_pos hmore, List.take_append_of_le_length hle, List.drop_append_of_le_length hle]
    · cases hrun

theorem accepts_number (width : Nat) :
    Accepts (number width) fun n bytes => bytes = bytesOf width n ∧ n < byteSpan width := by
  refine (accepts_take width).map fun taken bytes h => ?_
  obtain ⟨rfl, rfl⟩ := h
  exact ⟨(bytesOf_numberOf taken).symm, numberOf_lt taken⟩

/-- A length that is not more than what is left. -/
def checkedLength (n : Nat) : Reader Nat := do
  if (← get).rest.length < n then throw (.lengthExceeds n)
  return n

theorem run_checkedLength (n : Nat) (c : Cursor) :
    (checkedLength n).run.run c = if c.rest.length < n then (.error (.lengthExceeds n), c) else (.ok n, c) := by
  show (if c.rest.length < n then _ else _ : Reader Nat).run.run _ = _
  split <;> rfl

theorem accepts_checkedLength (n : Nat) : Accepts (checkedLength n) fun m bytes => m = n ∧ bytes = [] where
  stays := stays_of_kept fun c => by rw [run_checkedLength]; split <;> rfl
  took position rest m c hrun := by
    rw [run_checkedLength] at hrun
    split at hrun
    · cases hrun
    · next hle =>
      cases hrun
      -- More bytes behind what is left never make a length too large.
      refine ⟨[], ⟨rfl, rfl⟩, rfl, fun more => ?_⟩
      have hmore : ¬(rest ++ more).length < n := by
        rw [List.length_append]
        exact fun hlt => hle (Nat.lt_of_le_of_lt (Nat.le_add_right _ _) hlt)
      rw [run_checkedLength, if_neg hmore]

theorem accepts_length : Accepts length fun n bytes => bytes = lengthBytes n := by
  refine (accepts_number 4).bind fun n front hfront => (accepts_checkedLength n).mono fun m back hback => ?_
  obtain ⟨rfl, rfl⟩ := hback
  exact (List.append_nil front).trans hfront.1

theorem accepts_text : Accepts text fun s bytes => bytes = textBytes s := by
  refine accepts_length.bind fun n front hfront => (accepts_take n).bind fun taken back hback => ?_
  obtain ⟨rfl, rfl⟩ := hback
  cases hs : Utf8.decode taken with
  | error fault => exact accepts_throw _
  | ok s =>
    refine accepts_pure ?_
    rw [List.append_nil, hfront, textBytes, Utf8.encode_of_decode hs]

/-! ### Values -/

section
variable {α : Type} {item : Reader α} {P : α → List UInt8 → Prop}

theorem accepts_items (h : Accepts item P) : ∀ n, Accepts (items item n) fun as bytes =>
    as.length = n ∧ ∃ parts, List.Forall₂ P as parts ∧ bytes = parts.flatten
  | 0 => accepts_pure ⟨rfl, [], .nil, rfl⟩
  | n + 1 => by
    refine h.bind fun a front ha => (accepts_items h n).map fun as bytes has => ?_
    obtain ⟨hlength, parts, hparts, rfl⟩ := has
    exact ⟨congrArg (· + 1) hlength, front :: parts, .cons ha hparts, rfl⟩

theorem accepts_list (h : Accepts item P) : Accepts (list item) fun as bytes =>
    ∃ parts, List.Forall₂ P as parts ∧ bytes = lengthBytes as.length ++ parts.flatten := by
  refine accepts_length.bind fun n front hfront => (accepts_items h n).mono fun as bytes has => ?_
  obtain ⟨hlength, parts, hparts, rfl⟩ := has
  exact ⟨parts, hparts, by rw [hfront, hlength]⟩

theorem accepts_pair (h : Accepts item P) : Accepts (pair item) fun kv bytes =>
    ∃ front back, P kv.1 front ∧ P kv.2 back ∧ bytes = front ++ back :=
  h.bind fun _ front hk => h.map fun _ back hv => ⟨front, back, hk, hv, rfl⟩

end

/-- The bytes are read as the value: they stand for its encoding. -/
def Spells (v : Value) (bytes : List UInt8) : Prop := StandsFor bytes (truthMask v) (valueBytes v)

theorem standsFor_items {vs : List Value} {parts : List (List UInt8)} (h : List.Forall₂ Spells vs parts) :
    StandsFor parts.flatten (itemsMask vs) (itemBytes vs) := by
  induction h with
  | nil => exact .nil
  | cons hv _ ih => exact hv.append ih

theorem standsFor_entries {es : List (Value × Value)} {parts : List (List UInt8)}
    (h : List.Forall₂ (fun kv bytes => ∃ front back, Spells kv.1 front ∧ Spells kv.2 back ∧ bytes = front ++ back)
      es parts) : StandsFor parts.flatten (entriesMask es) (entryBytes es) := by
  induction h with
  | nil => exact .nil
  | cons hkv _ ih =>
    obtain ⟨front, back, hk, hv, rfl⟩ := hkv
    rw [List.flatten_cons, List.append_assoc]
    exact hk.append (hv.append ih)

/-- A value that is neither a truth value nor a container is spelled by its encoding only. -/
theorem spells_plain {v : Value} {bytes : List UInt8} (hbytes : valueBytes v = bytes)
    (hmask : truthMask v = plainMask (valueBytes v).length) : Spells v bytes := by
  unfold Spells
  rw [hmask, hbytes]
  exact .plain bytes

/-- A value that is a tag and a number. -/
theorem accepts_tagged (tag : UInt8) {width : Nat} {value : Nat → Value}
    (hbytes : ∀ n, n < byteSpan width → valueBytes (value n) = tag :: bytesOf width n)
    (hmask : ∀ n, truthMask (value n) = plainMask (valueBytes (value n)).length) :
    Accepts (do return value (← number width)) fun v bytes => Spells v (tag :: bytes) := by
  refine (accepts_number width).map fun n bytes hn => ?_
  obtain ⟨rfl, hlt⟩ := hn
  exact spells_plain (hbytes n hlt) (hmask n)

theorem toNat_word {n : Nat} (h : n < byteSpan 4) : (UInt32.ofNat n).toNat = n := UInt32.toNat_ofNat_of_lt h

theorem toNat_doubleWord {n : Nat} (h : n < byteSpan 8) : (UInt64.ofNat n).toNat = n := UInt64.toNat_ofNat_of_lt h

theorem accepts_integer (type : IntegerType) : Accepts (integer type) fun v bytes => Spells v (type.tag :: bytes) := by
  refine accepts_tagged type.tag (fun n hn => ?_) fun n => by simp only [truthMask]
  have hbits : (TypedInteger.ofBits type n).bits = n := by
    rw [TypedInteger.bits_ofBits, IntegerType.count_eq, Nat.mod_eq_of_lt hn]
  unfold valueBytes
  rw [hbits]
  rfl

theorem spells_name {index number : Nat} (hindex : index < byteSpan 4) (hnumber : number < byteSpan 4) :
    Spells (.name (.ofNat index) (.ofNat number)) (12 :: (bytesOf 4 index ++ bytesOf 4 number)) := by
  refine spells_plain ?_ (by simp only [truthMask])
  rw [valueBytes, toNat_word hindex, toNat_word hnumber]

theorem spells_bool {n : Nat} (hn : n < byteSpan 1) : Spells (.bool (n != 0)) (1 :: bytesOf 1 n) := by
  have h := StandsFor.truth (.ofNat n)
  have hbyte : (UInt8.ofNat n).toNat = n := UInt8.toNat_ofNat_of_lt hn
  rwa [hbyte] at h

/-- A value is read from bytes that spell it, at any level. -/
theorem accepts_valueWithin : ∀ level, Accepts (valueWithin level) Spells
  | 0 => accepts_throw _
  | level + 1 => by
    have items := accepts_list (accepts_valueWithin level)
    have entries := accepts_list (accepts_pair (accepts_valueWithin level))
    refine (accepts_number 1).bind fun tag front hfront => ?_
    obtain ⟨rfl, -⟩ := hfront
    -- One case for each tag, in their order, and the last for all that are none.
    split
    · exact accepts_pure (spells_plain rfl (by simp only [truthMask]))
    · refine (accepts_number 1).map fun n bytes hn => ?_
      obtain ⟨rfl, hlt⟩ := hn
      exact spells_bool hlt
    · exact accepts_integer .int8
    · exact accepts_integer .int16
    · exact accepts_integer .int32
    · exact accepts_integer .int64
    · exact accepts_integer .uint8
    · exact accepts_integer .uint16
    · exact accepts_integer .uint32
    · exact accepts_integer .uint64
    · exact accepts_tagged 10 (fun n hn => by rw [valueBytes, toNat_word hn]) fun n => by simp only [truthMask]
    · exact accepts_tagged 11 (fun n hn => by rw [valueBytes, toNat_doubleWord hn]) fun n => by simp only [truthMask]
    · refine (accepts_number 4).bind fun index _ hindex => (accepts_number 4).map fun n _ hn => ?_
      obtain ⟨rfl, hindex⟩ := hindex
      obtain ⟨rfl, hn⟩ := hn
      exact spells_name hindex hn
    · exact accepts_tagged 13 (fun n hn => by rw [valueBytes, toNat_doubleWord hn]) fun n => by simp only [truthMask]
    · refine accepts_tagged 14 (fun n hn => ?_) fun n => by simp only [truthMask]
      have hbits : (UInt64.ofNat n).toInt64.toUInt64.toNat = n := toNat_doubleWord hn
      rw [valueBytes, hbits]
    · refine accepts_text.map fun s _ hs => ?_
      subst hs
      exact spells_plain rfl (by simp only [truthMask])
    · refine accepts_text.map fun s _ hs => ?_
      subst hs
      exact spells_plain rfl (by simp only [truthMask])
    · refine items.map fun fields _ hfields => ?_
      obtain ⟨parts, hparts, rfl⟩ := hfields
      exact (standsFor_items hparts).container 17 fields.length
    · refine items.map fun vs _ hvs => ?_
      obtain ⟨parts, hparts, rfl⟩ := hvs
      exact (standsFor_items hparts).container 18 vs.length
    · refine entries.map fun es _ hes => ?_
      obtain ⟨parts, hparts, rfl⟩ := hes
      exact (standsFor_entries hparts).container 19 es.length
    · exact accepts_throw _

/-! ### Requests -/

theorem accepts_values : Accepts values fun vs bytes =>
    StandsFor bytes (plainMask 4 ++ itemsMask vs) (valuesBytes vs) := by
  refine (accepts_list (accepts_valueWithin levels)).mono fun vs bytes hvs => ?_
  obtain ⟨parts, hparts, rfl⟩ := hvs
  have hcount := StandsFor.plain (lengthBytes vs.length)
  rw [lengthBytes, length_bytesOf] at hcount
  exact hcount.append (standsFor_items hparts)

theorem run_finish {α : Type} (a : α) (c : Cursor) :
    (finish >>= fun _ => pure a : Reader α).run.run c =
      if c.rest = [] then (.ok a, c) else (.error (.trailing c.rest.length), c) := by
  rcases c with ⟨position, _ | ⟨b, rest⟩⟩ <;> rfl

theorem stays_request : Stays request :=
  accepts_text.stays.bind fun _ _ _ _ _ => accepts_values.stays.bind fun _ _ _ _ _ =>
    stays_of_kept fun c => by rw [run_finish]; split <;> rfl

/-- A request that is accepted is spelled by its bytes, and whatever stands behind them is left over. -/
theorem decode_request_append {bytes : List UInt8} {method : String} {args : List Value}
    (h : decode request bytes = .ok (method, args)) :
    StandsFor bytes (requestMask method args) (requestBytes method args) ∧
      ∀ more, decode request (bytes ++ more) =
        if more = [] then .ok (method, args) else .error (.trailing more.length) := by
  have hrun : ∀ rest, request.run.run ⟨0, rest⟩ =
      (text >>= fun method => values >>= fun args => finish >>= fun _ => pure (method, args)).run.run ⟨0, rest⟩ :=
    fun _ => rfl
  unfold decode Cursor.start at h ⊢
  rw [hrun] at h
  rcases htext : text.run.run ⟨0, bytes⟩ with ⟨e | s, c⟩
  · rw [run_bind_of_error htext] at h
    cases h
  rw [run_bind_of_ok htext] at h
  rcases hvalues : values.run.run c with ⟨e | vs, c'⟩
  · rw [run_bind_of_error hvalues] at h
    cases h
  rw [run_bind_of_ok hvalues, run_finish] at h
  by_cases hend : c'.rest = []
  · rw [if_pos hend] at h
    cases h
    obtain ⟨front, hfront, hbytes, htext⟩ := accepts_text.took _ _ _ _ htext
    obtain ⟨back, hback, hrest, hvalues⟩ := accepts_values.took _ _ _ _ hvalues
    rw [hend, List.append_nil] at hrest
    constructor
    · rw [hbytes, hrest, hfront]
      exact (StandsFor.plain (textBytes method)).append hback
    · intro more
      rw [hrun, run_bind_of_ok (htext more), run_bind_of_ok (hvalues more), run_finish, hend, List.nil_append]
      split <;> rfl
  · rw [if_neg hend] at h
    cases h

/-- Nothing but encodings is accepted. Whatever the bytes are, the reader ends at a place within them. If it accepts
them, they are the encoding of what it gives, but for truth values written as another number than one; and they
are neither the beginning nor the continuation of other bytes that are accepted. -/
theorem accepted_is_encoding (bytes : List UInt8) :
    (∃ answer, ∃ n ≤ bytes.length, request.run.run (.start bytes) = (answer, ⟨n, bytes.drop n⟩)) ∧
      ∀ method args, decode request bytes = .ok (method, args) →
        (requestBytes method args).length = bytes.length ∧
          requestBytes method args = List.zipWith writtenByte (requestMask method args) bytes ∧
          (∀ shorter, shorter <+: bytes → shorter ≠ bytes → ∃ fault, decode request shorter = .error fault) ∧
          ∀ longer, bytes <+: longer → longer ≠ bytes → ∃ fault, decode request longer = .error fault := by
  refine ⟨?_, fun method args h => ?_⟩
  · obtain ⟨n, hn, hplace⟩ := stays_request 0 bytes
    rw [Nat.zero_add] at hplace
    exact ⟨_, n, hn, Prod.ext rfl hplace⟩
  · obtain ⟨hstands, hmore⟩ := decode_request_append h
    refine ⟨hstands.length_eq, hstands.written.symm, ?_, ?_⟩
    · rintro shorter ⟨more, rfl⟩ hne
      cases hshorter : decode request shorter with
      | error fault => exact ⟨fault, rfl⟩
      | ok answer =>
        have hne : more ≠ [] := fun h => hne (by rw [h, List.append_nil])
        rw [(decode_request_append hshorter).2 more, if_neg hne] at h
        cases h
    · rintro longer ⟨more, rfl⟩ hne
      have hne : more ≠ [] := fun h => hne (by rw [h, List.append_nil])
      exact ⟨_, by rw [hmore more, if_neg hne]⟩

/-- A truth value written as two is accepted, and written as one again. -/
theorem accepted_is_encoding_truth :
    decode request [1, 0, 0, 0, 77, 1, 0, 0, 0, 1, 2] = .ok ("M", [.bool true]) ∧
      requestBytes "M" [.bool true] = [1, 0, 0, 0, 77, 1, 0, 0, 0, 1, 1] ∧
      ∃ fault, decode request [1, 0, 0, 0, 77, 1, 0, 0, 0, 1] = .error fault := by
  have h : decode request [1, 0, 0, 0, 77, 1, 0, 0, 0, 1, 2] = .ok ("M", [.bool true]) := by cbv
  obtain ⟨hlength, hwritten, hshorter, hlonger⟩ := (accepted_is_encoding _).2 _ _ h
  exact ⟨h, by rw [hwritten]; cbv, hshorter _ (by decide) (by decide)⟩

end Wire
end EngineBridge
