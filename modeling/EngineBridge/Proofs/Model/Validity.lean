import EngineBridge.Model.Validity
import EngineBridge.Proofs.Outcome
import Mathlib.Data.List.Nodup

/-! What a document that passes the check is known to be.

`Document.Consistent` says it part by part, as the check goes through a document; what a type owes to its
document is `Document.Accepts`. -/

namespace EngineBridge
open Outcome

theorem firstRepeated_eq_none {α : Type} [BEq α] [LawfulBEq α] {seen xs : List α} :
    firstRepeated seen xs = none ↔ xs.Nodup ∧ ∀ x ∈ xs, x ∉ seen := by
  induction xs generalizing seen with
  | nil => simp [firstRepeated]
  | cons x xs ih =>
    rw [firstRepeated, List.nodup_cons, List.forall_mem_cons]
    by_cases hx : x ∈ seen
    · simp [hx]
    · rw [if_neg (fun h => hx (List.contains_iff_mem.mp h)), ih]
      constructor
      · rintro ⟨hnodup, hmem⟩
        exact ⟨⟨fun h => hmem x h List.mem_cons_self, hnodup⟩, hx, fun y hy hs => hmem y hy (List.mem_cons_of_mem _ hs)⟩
      · rintro ⟨⟨hnot, hnodup⟩, -, hmem⟩
        refine ⟨hnodup, fun y hy hs => ?_⟩
        rcases List.mem_cons.mp hs with rfl | hs
        · exact hnot hy
        · exact hmem y hy hs

theorem firstRepeated_nil_eq_none {α : Type} [BEq α] [LawfulBEq α] {xs : List α} :
    firstRepeated [] xs = none ↔ xs.Nodup := by
  rw [firstRepeated_eq_none]
  simp

namespace Document
variable {d : Document}

/-- Every name in the type is that of a type of the kind it expects. -/
def Resolves (d : Document) (type : TypeRef) : Prop := ∀ r ∈ type.references, d.kind? r.2 = some r.1.typeKind

theorem checkReferences_eq_ok {owner member : String} {type : TypeRef} :
    d.checkReferences owner member type = .ok () ↔ d.Resolves type := by
  have hfind : (type.references.find? fun r => d.kind? r.2 != some r.1.typeKind) = none ↔ d.Resolves type := by
    simp [List.find?_eq_none, Resolves]
  unfold checkReferences
  split
  · next h =>
    rw [h] at hfind
    exact ⟨fun h => (nomatch h), fun h => (nomatch hfind.mpr h)⟩
  · next h => exact ⟨fun _ => hfind.mp h, fun _ => rfl⟩

/-- The type keeps the rules that a type keeps within a document. -/
structure Accepts (d : Document) (t : TypeRecord) : Prop where
  members : t.memberNames.Nodup
  super : ∀ parent, t.superType = some parent → t.kind = .classKind ∧ d.kind? parent = some .classKind
  underlying : t.kind = .enumKind →
    ∃ i, t.underlying = .integer i ∧ ∀ v ∈ t.enumValues, i.holds v.value.toInt = true
  resolved : ∀ m ∈ t.memberTypes, d.Resolves m.2

theorem checkMembers_eq_ok {t : TypeRecord} : t.checkMembers = .ok () ↔ t.memberNames.Nodup := by
  rw [← firstRepeated_nil_eq_none]
  unfold TypeRecord.checkMembers
  cases firstRepeated [] t.memberNames <;> simp

theorem checkSuper_eq_ok {t : TypeRecord} : d.checkSuper t = .ok () ↔
    ∀ parent, t.superType = some parent → t.kind = .classKind ∧ d.kind? parent = some .classKind := by
  unfold checkSuper
  cases t.superType with
  | none => simp
  | some parent =>
    by_cases hkind : t.kind = .classKind <;> by_cases hparent : d.kind? parent = some .classKind <;>
      simp [hkind, hparent]

theorem integer?_eq_some {type : TypeRef} {i : IntegerType} : type.integer? = some i ↔ type = .integer i := by
  cases type <;> simp [TypeRef.integer?]

theorem checkValues_eq_ok {t : TypeRecord} : t.checkValues = .ok () ↔
    (t.kind = .enumKind → ∃ i, t.underlying = .integer i ∧ ∀ v ∈ t.enumValues, i.holds v.value.toInt = true) := by
  unfold TypeRecord.checkValues
  by_cases hkind : t.kind = .enumKind
  · simp only [hkind, ↓reduceIte, forall_const, ← integer?_eq_some]
    cases t.underlying.integer? with
    | none => simp
    | some i =>
      simp only [Option.some.injEq, exists_eq_left']
      split
      · next v hfind =>
        have hnot := List.find?_some hfind
        refine ⟨fun h => (nomatch h), fun hall => ?_⟩
        simp [hall v (List.mem_of_find?_eq_some hfind)] at hnot
      · next hfind => simpa [List.find?_eq_none] using hfind
  · simp [hkind]

theorem checkType_eq_ok {t : TypeRecord} : d.checkType t = .ok () ↔ d.Accepts t := by
  unfold checkType
  constructor
  · intro h
    obtain ⟨⟨⟩, hmembers, h⟩ := bind_eq_ok.mp h
    obtain ⟨⟨⟩, hsuper, h⟩ := bind_eq_ok.mp h
    obtain ⟨⟨⟩, hvalues, h⟩ := bind_eq_ok.mp h
    exact ⟨checkMembers_eq_ok.mp hmembers, checkSuper_eq_ok.mp hsuper, checkValues_eq_ok.mp hvalues,
      fun m hm => checkReferences_eq_ok.mp (forM_eq_ok.mp h m hm)⟩
  · rintro ⟨hmembers, hsuper, hvalues, hresolved⟩
    refine bind_eq_ok.mpr ⟨⟨⟩, checkMembers_eq_ok.mpr hmembers, bind_eq_ok.mpr ⟨⟨⟩, checkSuper_eq_ok.mpr hsuper, ?_⟩⟩
    refine bind_eq_ok.mpr ⟨⟨⟩, checkValues_eq_ok.mpr hvalues, forM_eq_ok.mpr fun m hm => ?_⟩
    exact checkReferences_eq_ok.mpr (hresolved m hm)

/-- The names of the types are distinct, no chain of super types comes back, and every type keeps its rules. -/
structure Consistent (d : Document) : Prop where
  names : (d.types.map (·.name)).Nodup
  noLoop : ∀ t ∈ d.types, d.loop? t.name = none
  accepts : ∀ t ∈ d.types, d.Accepts t

theorem checkInheritance_eq_ok : d.checkInheritance = .ok () ↔ ∀ t ∈ d.types, d.loop? t.name = none := by
  unfold checkInheritance
  rw [forM_eq_ok]
  refine forall₂_congr fun t _ => ?_
  cases d.loop? t.name <;> simp

/-- A document passes the check exactly if it is consistent. -/
theorem validate_eq_ok : d.validate = .ok () ↔ d.Consistent := by
  have hnames : firstRepeated [] (d.types.map (·.name)) = none ↔ (d.types.map (·.name)).Nodup :=
    firstRepeated_nil_eq_none
  unfold validate
  cases hrepeated : firstRepeated [] (d.types.map (·.name)) with
  | some name =>
    rw [hrepeated] at hnames
    exact ⟨fun h => (nomatch h), fun h => (nomatch hnames.mpr h.names)⟩
  | none =>
    constructor
    · intro h
      obtain ⟨⟨⟩, -, h⟩ := bind_eq_ok.mp h
      obtain ⟨⟨⟩, hinheritance, h⟩ := bind_eq_ok.mp h
      exact ⟨hnames.mp hrepeated, checkInheritance_eq_ok.mp hinheritance,
        fun t ht => checkType_eq_ok.mp (forM_eq_ok.mp h t ht)⟩
    · intro h
      refine bind_eq_ok.mpr ⟨⟨⟩, rfl, bind_eq_ok.mpr ⟨⟨⟩, checkInheritance_eq_ok.mpr h.noLoop, ?_⟩⟩
      refine forM_eq_ok.mpr fun t ht => ?_
      exact checkType_eq_ok.mpr (h.accepts t ht)

/-! ### Types of a consistent document -/

theorem type?_mem {name : String} {t : TypeRecord} (h : d.type? name = some t) : t ∈ d.types ∧ t.name = name := by
  refine ⟨List.mem_of_find?_eq_some h, ?_⟩
  simpa using List.find?_some h

/-- Types of one name are the same type. -/
theorem Consistent.eq_of_name (h : d.Consistent) {t u : TypeRecord} (ht : t ∈ d.types) (hu : u ∈ d.types)
    (hname : t.name = u.name) : t = u :=
  List.inj_on_of_nodup_map h.names ht hu hname

theorem kind?_eq_some {name : String} {kind : TypeKind} :
    d.kind? name = some kind ↔ ∃ t, d.type? name = some t ∧ t.kind = kind := by
  simp [kind?]

section
variable {t : TypeRecord} (h : d.Accepts t)
include h

theorem Accepts.functionNames : (t.functions.map (·.name)).Nodup := by
  have hmembers := h.members
  unfold TypeRecord.memberNames at hmembers
  exact (List.nodup_append.mp (List.nodup_append.mp hmembers).1).2.1

/-- Functions of one name are the same function. -/
theorem Accepts.eq_of_name {f g : FunctionRecord} (hf : f ∈ t.functions) (hg : g ∈ t.functions)
    (hname : f.name = g.name) : f = g :=
  List.inj_on_of_nodup_map h.functionNames hf hg hname

theorem Accepts.property {p : PropertyRecord} (hp : p ∈ t.properties) : d.Resolves p.type :=
  h.resolved (p.name, p.type) (List.mem_append_left _ (List.mem_map_of_mem hp))

theorem Accepts.function {f : FunctionRecord} (hf : f ∈ t.functions) {type : TypeRef} (htype : type ∈ f.types) :
    d.Resolves type :=
  h.resolved (f.name, type)
    (List.mem_append_right _ (List.mem_flatMap.mpr ⟨f, hf, List.mem_map_of_mem htype⟩))

end

end Document
end EngineBridge
