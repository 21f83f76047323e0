import EngineBridge.Proofs.Model.Denotation
import EngineBridge.Proofs.Model.Invariants

/-! The values of an enum's variants are those that its declaration counts out.

A variant has the value that is written for it; else it is counted from the nearest variant in front that has one written, or from
zero at the first variant. Lowering counts with 64 bits and a sign, from variant to variant, and stops at the first value that is
too great for them. The check of a document asks of every value whether the type behind the enum holds it. -/

namespace EngineBridge
open Outcome

namespace Variants

/-! ### Values by declaration -/

section
variable {vs : List VariantDecl} {i : Nat} {n : Int64}

/-- The value that is written for the variant at the place. -/
def written? (vs : List VariantDecl) (i : Nat) : Option Int64 := vs[i]?.bind (·.value)

/-- The nearest place in front of the given one where a value is written, and that value. -/
def nearest? (vs : List VariantDecl) (i : Nat) : Option (Nat × Int64) :=
  (List.range i).reverse.findSome? fun k => (written? vs k).map (k, ·)

/-- The value of the variant at the place: what is written for it; else what is written for the nearest variant in front and the
    distance to it; else the place itself. -/
def valueAt (vs : List VariantDecl) (i : Nat) : Int :=
  match written? vs i, nearest? vs i with
  | some n, _ => n.toInt
  | none, some (k, n) => n.toInt + (i - k)
  | none, none => i

theorem nearest?_succ : nearest? vs (i + 1) = ((written? vs i).map (i, ·)).or (nearest? vs i) := by
  unfold nearest?
  rw [List.range_succ, List.reverse_append, List.reverse_singleton, List.singleton_append, List.findSome?_cons]
  cases written? vs i <;> rfl

theorem valueAt_of_written (h : written? vs i = some n) : valueAt vs i = n.toInt := by
  unfold valueAt
  rw [h]

theorem valueAt_zero (h : written? vs 0 = none) : valueAt vs 0 = 0 := by
  unfold valueAt
  rw [h]
  rfl

/-- Where nothing is written, the value is one more than the value in front. -/
theorem valueAt_succ (h : written? vs (i + 1) = none) : valueAt vs (i + 1) = valueAt vs i + 1 := by
  unfold valueAt
  rw [h, nearest?_succ]
  cases written? vs i with
  | some n =>
    simp only [Option.map_some, Option.some_or]
    omega
  | none =>
    rw [Option.map_none, Option.none_or]
    cases nearest? vs i with
    | some nearest =>
      dsimp only
      omega
    | none => rfl

/-- The variant is the first whose value is outside of what is allowed. -/
structure FirstOutside (allowed : Int → Prop) (vs : List VariantDecl) (i : Nat) (v : VariantDecl) : Prop where
  stands : vs[i]? = some v
  outside : ¬ allowed (valueAt vs i)
  earlier : ∀ j < i, allowed (valueAt vs j)

theorem exists_firstOutside {allowed : Int → Prop} (h : ¬ ∀ i < vs.length, allowed (valueAt vs i)) :
    ∃ i v, FirstOutside allowed vs i v := by
  classical
  have hsome : ∃ i, i < vs.length ∧ ¬ allowed (valueAt vs i) := by
    by_contra hnone
    exact h fun i hi => not_not.mp fun houtside => hnone ⟨i, hi, houtside⟩
  obtain ⟨hlt, houtside⟩ := Nat.find_spec hsome
  refine ⟨Nat.find hsome, vs[Nat.find hsome], List.getElem?_eq_getElem hlt, houtside, fun j hj => ?_⟩
  by_contra hnot
  exact Nat.find_min hsome hj ⟨hj.trans hlt, hnot⟩

theorem FirstOutside.not_forall {allowed : Int → Prop} {v : VariantDecl} (h : FirstOutside allowed vs i v) :
    ¬ ∀ i < vs.length, allowed (valueAt vs i) := fun hall =>
  h.outside (hall i (List.getElem?_eq_some_iff.mp h.stands).1)

end

/-! ### Counting -/

section
variable {owner : String} {vs rest : List VariantDecl} {v : VariantDecl} {i : Nat} {previous : Option Int64}

/-- The value can be held by 64 bits with a sign. -/
def Fits (n : Int) : Prop := n ≤ Int64.maxValue.toInt

/-- What lowering carries to the variant at the place: the value of the one in front, if there is one. -/
inductive Carries (vs : List VariantDecl) : Nat → Option Int64 → Prop
  | start : Carries vs 0 none
  | value {i : Nat} {n : Int64} (h : n.toInt = valueAt vs i) : Carries vs (i + 1) (some n)

/-- One more than a number below the greatest does not wrap. -/
theorem toInt_add_one {n : Int64} (h : n ≠ Int64.maxValue) : (n + 1).toInt = n.toInt + 1 ∧ Fits (n.toInt + 1) := by
  have hmax : Int64.maxValue.toInt = 2 ^ 63 - 1 := rfl
  have hlow : -2 ^ 63 ≤ n.toInt := Int64.le_toInt n
  have hhigh : n.toInt < 2 ^ 63 := Int64.toInt_lt n
  have hne : n.toInt ≠ Int64.maxValue.toInt := fun heq => h (Int64.toInt_inj.mp heq)
  have hone : (1 : Int64).toInt = 1 := rfl
  refine ⟨?_, ?_⟩
  · rw [Int64.toInt_add, hone, Int.bmod_eq_of_le] <;> omega
  · unfold Fits
    omega

/-- The message about a value that is too great. -/
def tooGreat (owner name : String) : DocumentError := .invalidType owner ("implicit value of '" ++ name ++ "' overflows")

section
variable {name : String} {n : Int64}

theorem variantValues_written : variantValues owner previous (⟨name, some n⟩ :: rest) =
    (variantValues owner (some n) rest).map (⟨name, n⟩ :: ·) := rfl

theorem variantValues_first : variantValues owner none (⟨name, none⟩ :: rest) =
    (variantValues owner (some 0) rest).map (⟨name, 0⟩ :: ·) := rfl

theorem variantValues_next (h : n ≠ Int64.maxValue) : variantValues owner (some n) (⟨name, none⟩ :: rest) =
    (variantValues owner (some (n + 1)) rest).map (⟨name, n + 1⟩ :: ·) := (if_neg h).trans rfl

theorem variantValues_greatest : variantValues owner (some Int64.maxValue) (⟨name, none⟩ :: rest) =
    .error (tooGreat owner name) := rfl

end

section
variable (h : Carries vs i previous) (hv : vs[i]? = some v)
include h hv

/-- A value that can be held is given to the variant, and carried on. -/
theorem variantValues_of_fits (hfits : Fits (valueAt vs i)) : ∃ n : Int64, n.toInt = valueAt vs i ∧
    ∀ rest, variantValues owner previous (v :: rest) = (variantValues owner (some n) rest).map (⟨v.name, n⟩ :: ·) := by
  have hwritten : written? vs i = v.value := by rw [written?, hv, Option.bind_some]
  obtain ⟨name, _ | n⟩ := v
  · cases h with
    | start => exact ⟨0, (valueAt_zero hwritten).symm, fun _ => variantValues_first⟩
    | @value i p hp =>
      rw [valueAt_succ hwritten, ← hp] at hfits ⊢
      have hne : p ≠ Int64.maxValue := by
        rintro rfl
        exact absurd hfits (by unfold Fits; omega)
      exact ⟨p + 1, (toInt_add_one hne).1, fun _ => variantValues_next hne⟩
  · exact ⟨n, (valueAt_of_written hwritten).symm, fun _ => variantValues_written⟩

/-- Only a value that is counted can be too great, and then the one in front is the greatest. -/
theorem variantValues_of_not_fits (hgreat : ¬ Fits (valueAt vs i)) :
    variantValues owner previous (v :: rest) = .error (tooGreat owner v.name) := by
  have hwritten : written? vs i = v.value := by rw [written?, hv, Option.bind_some]
  obtain ⟨name, _ | n⟩ := v
  · cases h with
    | start =>
      rw [valueAt_zero hwritten] at hgreat
      exact absurd (by decide : (0 : Int) ≤ Int64.maxValue.toInt) hgreat
    | @value i p hp =>
      rw [valueAt_succ hwritten, ← hp] at hgreat
      have hmax : p = Int64.maxValue := by
        by_contra hne
        exact hgreat (toInt_add_one hne).2
      rw [hmax]
      exact variantValues_greatest
  · rw [valueAt_of_written hwritten] at hgreat
    exact absurd (Int64.toInt_le n) hgreat

end

theorem getElem?_of_drop_eq_cons (h : vs.drop i = v :: rest) : vs[i]? = some v ∧ vs.drop (i + 1) = rest := by
  refine ⟨?_, ?_⟩
  · rw [← List.head?_drop, h, List.head?_cons]
  · rw [← List.tail_drop, h, List.tail_cons]

/-- Where all values fit, the count records them. By induction on the variants that are left, with what is carried to them. -/
theorem variantValues_of_forall (h : Carries vs i previous) (hrest : vs.drop i = rest)
    (hfits : ∀ j < vs.length, Fits (valueAt vs j)) :
    ∃ xs, variantValues owner previous rest = .ok xs ∧
      xs.map (fun x => (x.name, x.value.toInt)) = rest.mapIdx fun j v => (v.name, valueAt vs (i + j)) := by
  induction rest generalizing i previous with
  | nil => exact ⟨[], rfl, rfl⟩
  | cons v rest ih =>
    obtain ⟨hv, hrest⟩ := getElem?_of_drop_eq_cons hrest
    obtain ⟨n, hn, hstep⟩ := variantValues_of_fits h hv (hfits i (List.getElem?_eq_some_iff.mp hv).1)
    obtain ⟨xs, hxs, hvalues⟩ := ih (.value hn) hrest
    refine ⟨⟨v.name, n⟩ :: xs, (hstep rest).trans (by rw [hxs]; rfl), ?_⟩
    rw [List.map_cons, List.mapIdx_cons, hvalues, hn]
    simp only [Nat.add_zero, Nat.add_assoc, Nat.add_comm 1]

/-- The first value that is too great ends the count. -/
theorem variantValues_of_first (h : Carries vs i previous) (hrest : vs.drop i = rest) {k : Nat}
    (hk : FirstOutside Fits vs k v) (hik : i ≤ k) : variantValues owner previous rest = .error (tooGreat owner v.name) := by
  induction rest generalizing i previous with
  | nil =>
    have hlt : k < vs.length := (List.getElem?_eq_some_iff.mp hk.stands).1
    have hlength : vs.length ≤ i := List.drop_eq_nil_iff.mp hrest
    omega
  | cons u rest ih =>
    obtain ⟨hu, hrest⟩ := getElem?_of_drop_eq_cons hrest
    -- The count stops here, or goes on towards the place.
    rcases Nat.eq_or_lt_of_le hik with rfl | hlt
    · cases hu.symm.trans hk.stands
      exact variantValues_of_not_fits h hu hk.outside
    · obtain ⟨n, hn, hstep⟩ := variantValues_of_fits h hu (hk.earlier i hlt)
      rw [hstep, ih (.value hn) hrest hlt]
      rfl

end

/-! ### The check of values -/

/-- The values are those of the variants, under their names and in their order. -/
def Records (xs : List EnumValue) (vs : List VariantDecl) : Prop :=
  xs.map (fun x => (x.name, x.value.toInt)) = vs.mapIdx fun i v => (v.name, valueAt vs i)

section
variable {xs : List EnumValue} {vs : List VariantDecl} {v : VariantDecl} {i : Nat}

theorem Records.getElem? (h : Records xs vs) (i : Nat) :
    xs[i]?.map (fun x => (x.name, x.value.toInt)) = vs[i]?.map fun v => (v.name, valueAt vs i) := by
  rw [← List.getElem?_map, h, List.getElem?_mapIdx]

theorem Records.length (h : Records xs vs) : xs.length = vs.length := by
  simpa using congrArg List.length h

theorem Records.names (h : Records xs vs) : xs.map (·.name) = vs.map (·.name) := by
  refine List.ext_getElem? fun i => ?_
  have hi := congrArg (Option.map Prod.fst) (h.getElem? i)
  simpa [Option.map_map, Function.comp_def] using hi

theorem Records.exists_getElem? (h : Records xs vs) (hv : vs[i]? = some v) :
    ∃ x, xs[i]? = some x ∧ x.name = v.name ∧ x.value.toInt = valueAt vs i := by
  have hi := h.getElem? i
  rw [hv] at hi
  obtain ⟨x, hx, heq⟩ := Option.map_eq_some_iff.mp hi
  exact ⟨x, hx, congrArg Prod.fst heq, congrArg Prod.snd heq⟩

theorem Records.forall_iff (h : Records xs vs) {P : Int → Prop} :
    (∀ x ∈ xs, P x.value.toInt) ↔ ∀ i < vs.length, P (valueAt vs i) := by
  constructor
  · intro hall i hi
    obtain ⟨x, hx, -, hvalue⟩ := h.exists_getElem? (List.getElem?_eq_getElem hi)
    rw [← hvalue]
    exact hall x (List.mem_of_getElem? hx)
  · intro hall x hx
    obtain ⟨i, hi⟩ := List.mem_iff_getElem?.mp hx
    have hlt : i < vs.length := h.length ▸ (List.getElem?_eq_some_iff.mp hi).1
    obtain ⟨y, hy, -, hvalue⟩ := h.exists_getElem? (List.getElem?_eq_getElem hlt)
    cases hi.symm.trans hy
    rw [hvalue]
    exact hall i hlt

/-- The first value that the type does not hold is the one that a search finds. -/
theorem Records.find?_of_first (h : Records xs vs) {type : IntegerType} (hv : FirstOutside type.Spans vs i v) :
    ∃ x, xs.find? (fun x => !type.holds x.value.toInt) = some x ∧ x.name = v.name ∧ x.value.toInt = valueAt vs i := by
  obtain ⟨x, hx, hname, hvalue⟩ := h.exists_getElem? hv.stands
  obtain ⟨hlt, hget⟩ := List.getElem?_eq_some_iff.mp hx
  refine ⟨x, List.find?_eq_some_iff_getElem.mpr ⟨?_, i, hlt, hget, fun j hj => ?_⟩, hname, hvalue⟩
  · rw [hvalue, Bool.not_eq_true', Bool.eq_false_iff, Ne, holds_iff_spans]
    exact hv.outside
  · obtain ⟨y, hy, -, hvalue⟩ := h.exists_getElem? (List.getElem?_eq_getElem (h.length ▸ hj.trans hlt))
    obtain ⟨_, hget⟩ := List.getElem?_eq_some_iff.mp hy
    rw [hget, hvalue, Bool.not_not, holds_iff_spans]
    exact hv.earlier j hj

end

end Variants

/-! ### Lowered enums -/

open Variants

/-- The record of an enum of that name, over that type. -/
structure TypeRecord.IsEnum (t : TypeRecord) (name : String) (type : TypeRef) : Prop where
  name : t.name = name
  kind : t.kind = .enumKind
  super : t.superType = none
  properties : t.properties = []
  functions : t.functions = []
  underlying : t.underlying = type

namespace TypeDecl
variable {d : TypeDecl} {s : Scope} {type : TypeRef} {t : TypeRecord}

/-- The type behind an enum is what its base stands for, or bytes where it has none. -/
def BasedOn (d : TypeDecl) (s : Scope) (type : TypeRef) : Prop :=
  match d.base with
  | none => type = .integer .uint8
  | some base => s.resolve base = .ok type

section
variable (hkind : d.kind = .enumKind) (hbase : d.BasedOn s type) (fallback : String)
include hkind hbase

/-- Where its base stands for a type, lowering an enum is counting its values. -/
theorem lower_eq_map : ∃ t : TypeRecord, t.IsEnum d.name type ∧
    d.lower s fallback = (variantValues d.name none d.variants).map fun xs => { t with enumValues := xs } := by
  obtain ⟨underlying, hunderlying, htype⟩ : ∃ underlying,
      d.base.mapM (s.resolveIn d.name "<underlying>") = .ok underlying ∧ underlying.getD (.integer .uint8) = type := by
    unfold BasedOn at hbase
    cases hd : d.base with
    | none =>
      rw [hd] at hbase
      exact ⟨none, rfl, hbase.symm⟩
    | some base =>
      rw [hd] at hbase
      exact ⟨some type, map_eq_ok.mpr ⟨type, Scope.resolveIn_of_resolve hbase, rfl⟩, rfl⟩
  refine ⟨{ TypeRecord.bare d.name (d.moduleOf fallback) d.kind with
    nativeName? := Attribute.argument? d.attributes "NativeName", flags := d.typeFlags, underlyingType? := underlying },
    ⟨rfl, hkind, rfl, rfl, rfl, htype⟩, ?_⟩
  unfold lower
  rw [hkind, hunderlying]
  rfl

theorem lower_of_forall (hfits : ∀ i < d.variants.length, Fits (valueAt d.variants i)) :
    ∃ t, d.lower s fallback = .ok t ∧ t.IsEnum d.name type ∧ Records t.enumValues d.variants := by
  obtain ⟨t, ht, hlower⟩ := lower_eq_map hkind hbase fallback
  obtain ⟨xs, hxs, hvalues⟩ := variantValues_of_forall .start List.drop_zero hfits
  simp only [Nat.zero_add] at hvalues
  refine ⟨{ t with enumValues := xs }, ?_, ⟨ht.name, ht.kind, ht.super, ht.properties, ht.functions, ht.underlying⟩, hvalues⟩
  rw [hlower, hxs]
  rfl

theorem lower_of_first {i : Nat} {v : VariantDecl} (hv : FirstOutside Fits d.variants i v) :
    d.lower s fallback = .error (tooGreat d.name v.name) := by
  obtain ⟨t, -, hlower⟩ := lower_eq_map hkind hbase fallback
  rw [hlower, variantValues_of_first .start List.drop_zero hv (Nat.zero_le i)]
  rfl

end

end TypeDecl

/-! ### Enums in a document -/

namespace Document
variable {doc : Document} {t : TypeRecord} {rest : List TypeRecord}

/-- The check of the document comes to the type, with others behind it: no name is repeated, no chain of super types comes back, and the
    types in front keep their rules. -/
structure ComesTo (doc : Document) (t : TypeRecord) (rest : List TypeRecord) : Prop where
  names : (doc.types.map (·.name)).Nodup
  noLoop : ∀ u ∈ doc.types, doc.loop? u.name = none
  reached : ∃ front, doc.types = front ++ t :: rest ∧ ∀ u ∈ front, doc.Accepts u

theorem validate_of_comesTo (h : doc.ComesTo t rest) :
    doc.validate = doc.checkType t >>= fun _ => rest.forM doc.checkType := by
  obtain ⟨front, htypes, hfront⟩ := h.reached
  have hpassed : front.forM doc.checkType = .ok () := forM_eq_ok.mpr fun u hu => checkType_eq_ok.mpr (hfront u hu)
  have htail : doc.types.forM doc.checkType = front.forM doc.checkType >>= fun _ => (t :: rest).forM doc.checkType := by
    rw [htypes]
    exact List.forM_append
  unfold validate
  rw [firstRepeated_nil_eq_none.mpr h.names, checkInheritance_eq_ok.mpr h.noLoop, htail, hpassed]
  rfl

theorem validate_eq_ok_of_comesTo (h : doc.ComesTo t rest) :
    doc.validate = .ok () ↔ doc.Accepts t ∧ ∀ u ∈ rest, doc.Accepts u := by
  have hrest : rest.forM doc.checkType = .ok () ↔ ∀ u ∈ rest, doc.Accepts u :=
    forM_eq_ok.trans (forall₂_congr fun _ _ => checkType_eq_ok)
  rw [validate_of_comesTo h, bind_eq_ok, ← hrest, ← checkType_eq_ok]
  exact ⟨fun ⟨_, ht, hrest⟩ => ⟨ht, hrest⟩, fun ⟨ht, hrest⟩ => ⟨(), ht, hrest⟩⟩

section
variable {name : String} {type : IntegerType} (ht : t.IsEnum name (.integer type))
include ht

/-- The check of a document of one enum comes to it. -/
theorem comesTo_single (version : String) (attributes : DocumentAttributes) : ComesTo ⟨version, attributes, [t]⟩ t [] where
  names := List.nodup_singleton _
  noLoop u hu := by
    rw [List.mem_singleton] at hu
    subst hu
    have hsuper : Document.super? ⟨version, attributes, [u]⟩ u.name = none := by simp [super?, type?, ht.super]
    unfold loop? loopFrom
    rw [hsuper]
  reached := ⟨[], rfl, fun _ hu => nomatch hu⟩

variable (hnames : (t.enumValues.map (·.name)).Nodup)
include hnames

theorem checkType_of_isEnum : doc.checkType t = t.checkValues := by
  have hmembers : t.checkMembers = .ok () := by
    rw [checkMembers_eq_ok]
    simpa [TypeRecord.memberNames, ht.properties, ht.functions] using hnames
  have hsuper : doc.checkSuper t = .ok () := by
    unfold checkSuper
    rw [ht.super]
  have hnone : t.memberTypes = [] := by simp [TypeRecord.memberTypes, ht.properties, ht.functions]
  unfold checkType
  rw [hmembers, hsuper, hnone]
  cases t.checkValues <;> rfl

variable {vs : List VariantDecl} (hvalues : Records t.enumValues vs)
include hvalues

theorem accepts_iff_of_isEnum : doc.Accepts t ↔ ∀ i < vs.length, type.Spans (valueAt vs i) := by
  rw [← checkType_eq_ok, checkType_of_isEnum ht hnames, checkValues_eq_ok, ht.underlying, ← hvalues.forall_iff]
  simp [ht.kind, holds_iff_spans]

/-- A type that does not hold all values is refused with the first of them. -/
theorem checkType_of_first {i : Nat} {v : VariantDecl} (hv : FirstOutside type.Spans vs i v) : doc.checkType t =
    .error (.invalidType name ("value " ++ toString (valueAt vs i) ++ " of '" ++ v.name ++ "' does not fit in " ++ type.name)) := by
  obtain ⟨x, hfind, hname, hvalue⟩ := hvalues.find?_of_first hv
  rw [checkType_of_isEnum ht hnames]
  unfold TypeRecord.checkValues
  rw [if_pos ht.kind, ht.underlying]
  simp only [TypeRef.integer?, hfind, ht.name, hname, hvalue, TypeRef.display]

end

end Document

/-- Lowering an enum whose base stands for a type ends well exactly if no variant has a value that is too great for 64 bits with a sign,
    and names the first that has one. What it records are the values that the declaration counts out. Where the type behind the enum is
    an integer type and the variants have names of their own, a document that the check goes through up to the enum passes there exactly
    if that type holds all values, and the first that it does not hold is named; a document of the enum alone is one of these. -/
theorem enum_values_follow_declaration {d : TypeDecl} {s : Scope} {type : TypeRef} (hkind : d.kind = .enumKind)
    (hbase : d.BasedOn s type) (fallback : String) :
    ((∃ t, d.lower s fallback = .ok t) ↔ ∀ i < d.variants.length, valueAt d.variants i ≤ Int64.maxValue.toInt) ∧
    (∀ e, d.lower s fallback = .error e ↔ ∃ i v, FirstOutside (· ≤ Int64.maxValue.toInt) d.variants i v ∧
      e = .invalidType d.name ("implicit value of '" ++ v.name ++ "' overflows")) ∧
    ∀ t, d.lower s fallback = .ok t →
      t.enumValues.map (fun x => (x.name, x.value.toInt)) = d.variants.mapIdx (fun i v => (v.name, valueAt d.variants i)) ∧
      ∀ integer, type = .integer integer → (d.variants.map (·.name)).Nodup →
        (∀ version attributes, Document.ComesTo ⟨version, attributes, [t]⟩ t []) ∧
        ∀ (doc : Document) (rest : List TypeRecord), doc.ComesTo t rest →
          (doc.validate = .ok () ↔
            (∀ i < d.variants.length, integer.Spans (valueAt d.variants i)) ∧ ∀ u ∈ rest, doc.Accepts u) ∧
          ((¬ ∀ i < d.variants.length, integer.Spans (valueAt d.variants i)) → ∃ i v,
            FirstOutside integer.Spans d.variants i v ∧ doc.validate = .error (.invalidType d.name
              ("value " ++ toString (valueAt d.variants i) ++ " of '" ++ v.name ++ "' does not fit in " ++ integer.name))) := by
  -- Either the count goes through all variants, or the first value that is too great ends it.
  by_cases hfits : ∀ i < d.variants.length, Fits (valueAt d.variants i)
  · obtain ⟨t, hlower, ht, hvalues⟩ := TypeDecl.lower_of_forall hkind hbase fallback hfits
    refine ⟨iff_of_true ⟨t, hlower⟩ hfits, fun e => iff_of_false (by rw [hlower]; exact nofun) ?_, ?_⟩
    · rintro ⟨i, v, hv, -⟩
      exact hv.not_forall hfits
    intro u hu
    cases hlower.symm.trans hu
    refine ⟨hvalues, ?_⟩
    rintro integer rfl hnodup
    have hnames : (t.enumValues.map (·.name)).Nodup := hvalues.names ▸ hnodup
    refine ⟨Document.comesTo_single ht, fun doc rest hcomes => ⟨?_, fun hnot => ?_⟩⟩
    · rw [Document.validate_eq_ok_of_comesTo hcomes, Document.accepts_iff_of_isEnum ht hnames hvalues]
    · obtain ⟨i, v, hv⟩ := exists_firstOutside hnot
      refine ⟨i, v, hv, ?_⟩
      rw [Document.validate_of_comesTo hcomes, Document.checkType_of_first ht hnames hvalues hv]
      rfl
  · obtain ⟨i, v, hv⟩ := exists_firstOutside hfits
    have hlower := TypeDecl.lower_of_first hkind hbase fallback hv
    refine ⟨iff_of_false (fun ⟨t, ht⟩ => ?_) hfits, fun e => ⟨fun h => ?_, ?_⟩, fun t ht => ?_⟩
    · cases hlower.symm.trans ht
    · cases hlower.symm.trans h
      exact ⟨i, v, hv, rfl⟩
    · rintro ⟨j, w, hw, rfl⟩
      exact TypeDecl.lower_of_first hkind hbase fallback hw
    · cases hlower.symm.trans ht

/-- An enum over 16 bits, one of whose values needs more. -/
def levelDecl : TypeDecl :=
  { name := "Level", kind := .enumKind, module := none, nspace := none, base := some (.named "ushort"), attributes := [],
    modifiers := [], members := [], variants := [⟨"Low", none⟩, ⟨"Middle", none⟩, ⟨"High", some 65535⟩, ⟨"Top", none⟩] }

theorem enum_values_follow_declaration_level :
    levelDecl.kind = .enumKind ∧ levelDecl.BasedOn [] (.integer .uint16) ∧ (levelDecl.variants.map (·.name)).Nodup ∧
    ∃ t, levelDecl.lower [] "Game" = .ok t ∧
      t.enumValues.map (fun x => (x.name, x.value.toInt)) = [("Low", 0), ("Middle", 1), ("High", 65535), ("Top", 65536)] ∧
      Document.ComesTo ⟨"5.4", .empty, [t]⟩ t [] ∧
      Document.validate ⟨"5.4", .empty, [t]⟩ = .error (.invalidType "Level" "value 65536 of 'Top' does not fit in uint16") := by
  have hdistinct : (levelDecl.variants.map (·.name)).Nodup := by decide
  obtain ⟨hok, -, hrecord⟩ := @enum_values_follow_declaration levelDecl [] (.integer .uint16) rfl rfl "Game"
  obtain ⟨t, ht⟩ := hok.mpr (by decide)
  obtain ⟨hvalues, hcheck⟩ := hrecord t ht
  obtain ⟨hsingle, hdoc⟩ := hcheck .uint16 rfl hdistinct
  have hspans : ∀ {n : Int}, IntegerType.uint16.holds n = true → IntegerType.uint16.Spans n := holds_iff_spans.mp
  have houtside : ¬ IntegerType.uint16.Spans (valueAt levelDecl.variants 3) := by
    rw [← holds_iff_spans]
    decide
  obtain ⟨i, v, hv, herror⟩ := (hdoc _ [] (hsingle "5.4" .empty)).2 fun hall => houtside (hall 3 (by decide))
  refine ⟨rfl, rfl, hdistinct, t, ht, hvalues.trans (by decide), hsingle "5.4" .empty, ?_⟩
  obtain _ | _ | _ | _ | i := i
  · exact absurd (hspans (by decide)) hv.outside
  · exact absurd (hspans (by decide)) hv.outside
  · exact absurd (hspans (by decide)) hv.outside
  · cases hv.stands
    exact herror.trans (by decide)
  · cases hv.stands

end EngineBridge
