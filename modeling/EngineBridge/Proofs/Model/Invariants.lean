import EngineBridge.Proofs.Model.Validity
import Mathlib.Algebra.Group.Int.Defs
import Mathlib.Data.List.Chain
import Mathlib.Data.List.Perm.Subperm

/-! What the check of a document decides, said without the check.

`Document.Consistent` follows the check part by part; `Document.WellFormed` tells the same about the document alone:
how its types follow one another, what their names are and what their members mention. The check climbs chains of super
types with a bound. `Climbs` is the climb without one, and comes to the same end. -/

namespace EngineBridge

/-- The number is one that so many bits can stand for. -/
def IntegerType.Spans (type : IntegerType) (n : Int) : Prop :=
  if type.signed then -2 ^ (8 * type.bytes - 1) ≤ n ∧ n < 2 ^ (8 * type.bytes - 1) else 0 ≤ n ∧ n < 2 ^ (8 * type.bytes)

theorem holds_iff_spans {type : IntegerType} {n : Int} : type.holds n = true ↔ type.Spans n := by
  cases type <;>
    simp [IntegerType.holds, IntegerType.least, IntegerType.greatest, IntegerType.Spans, IntegerType.signed,
      IntegerType.count, IntegerType.bytes] <;>
    omega

/-- The type, or a part of it at any depth, is a reference of the kind to the name. -/
inductive TypeRef.Mentions : TypeRef → ReferenceKind → String → Prop
  | object {name : String} : Mentions (.object name) .toClass name
  | classOf {name : String} : Mentions (.classOf name) .toClass name
  | softObject {name : String} : Mentions (.softObject name) .toClass name
  | struct {name : String} : Mentions (.struct name) .toStruct name
  | enum {name : String} : Mentions (.enum name) .toEnum name
  | array {e : TypeRef} {kind : ReferenceKind} {name : String} (h : Mentions e kind name) : Mentions (.array e) kind name
  | set {e : TypeRef} {kind : ReferenceKind} {name : String} (h : Mentions e kind name) : Mentions (.set e) kind name
  | key {k v : TypeRef} {kind : ReferenceKind} {name : String} (h : Mentions k kind name) : Mentions (.map k v) kind name
  | value {k v : TypeRef} {kind : ReferenceKind} {name : String} (h : Mentions v kind name) : Mentions (.map k v) kind name

theorem mentions_iff {type : TypeRef} {kind : ReferenceKind} {name : String} :
    type.Mentions kind name ↔ (kind, name) ∈ type.references := by
  constructor
  · intro h
    induction h with
    | key _ ih => exact List.mem_append_left _ ih
    | value _ ih => exact List.mem_append_right _ ih
    | array _ ih | set _ ih => exact ih
    | _ => exact List.mem_singleton_self _
  · intro h
    induction type with
    | object | classOf | softObject | struct | enum =>
      cases List.mem_singleton.mp h
      constructor
    | array e ih => exact .array (ih h)
    | set e ih => exact .set (ih h)
    | map k v ihk ihv =>
      rcases List.mem_append.mp h with h | h
      · exact .key (ihk h)
      · exact .value (ihv h)
    | _ => cases h

namespace Document
variable {d : Document}

/-! ### Chains of super types -/

/-- The first is a type of the document, and the second its super type. -/
def Extends (d : Document) (name parent : String) : Prop :=
  ∃ t ∈ d.types, t.name = name ∧ t.superType = some parent

/-- The climb along super types until there is none or one comes again that was seen, which is what it ends with. -/
inductive Climbs (d : Document) : List String → String → Option String → Prop
  | top {seen : List String} {current : String} (h : d.super? current = none) : Climbs d seen current none
  | back {seen : List String} {current parent : String} (h : d.super? current = some parent) (hseen : parent ∈ seen) :
    Climbs d seen current (some parent)
  | up {seen : List String} {current parent : String} {result : Option String} (h : d.super? current = some parent)
    (hseen : parent ∉ seen) (hrest : Climbs d (parent :: seen) parent result) : Climbs d seen current result

theorem climbs_unique {seen : List String} {current : String} {r r' : Option String} (h : d.Climbs seen current r)
    (h' : d.Climbs seen current r') : r = r' := by
  induction h with
  | top h =>
    cases h' with
    | top => rfl
    | back h₂ => cases h.symm.trans h₂
    | up h₂ => cases h.symm.trans h₂
  | back h hseen =>
    cases h' with
    | top h₂ => cases h.symm.trans h₂
    | back h₂ => exact h.symm.trans h₂
    | up h₂ hseen₂ =>
      cases h.symm.trans h₂
      exact absurd hseen hseen₂
  | up h hseen _ ih =>
    cases h' with
    | top h₂ => cases h.symm.trans h₂
    | back h₂ hseen₂ =>
      cases h.symm.trans h₂
      exact absurd hseen₂ hseen
    | up h₂ _ hrest₂ =>
      cases h.symm.trans h₂
      exact ih hrest₂

theorem super?_mem {name parent : String} (h : d.super? name = some parent) : name ∈ d.types.map (·.name) := by
  obtain ⟨t, ht, -⟩ := Option.bind_eq_some_iff.mp h
  obtain ⟨hmem, rfl⟩ := type?_mem ht
  exact List.mem_map_of_mem hmem

/-- All names that were passed are names of distinct types, so there is always a step left. -/
theorem climbs_loopFrom {fuel : Nat} {current : String} {passed : List String} (hnodup : (current :: passed).Nodup)
    (htypes : passed ⊆ d.types.map (·.name)) (hfuel : d.types.length < fuel + passed.length) :
    d.Climbs (current :: passed) current (d.loopFrom fuel (current :: passed) current) := by
  induction fuel generalizing current passed with
  | zero =>
    have hlength := (List.subperm_of_subset (List.nodup_cons.mp hnodup).2 htypes).length_le
    rw [List.length_map] at hlength
    omega
  | succ fuel ih =>
    unfold loopFrom
    cases hsuper : d.super? current with
    | none => exact .top hsuper
    | some parent =>
      dsimp only
      split
      case isTrue hseen => exact .back hsuper (List.contains_iff_mem.mp hseen)
      case isFalse hseen =>
        have hseen : parent ∉ current :: passed := fun h => hseen (List.contains_iff_mem.mpr h)
        refine .up hsuper hseen (ih (List.nodup_cons.mpr ⟨hseen, hnodup⟩) ?_ ?_)
        · exact List.cons_subset.mpr ⟨super?_mem hsuper, htypes⟩
        · rw [List.length_cons]
          omega

/-- The bound never cuts a climb short. -/
theorem climbs_iff {name : String} {result : Option String} :
    d.Climbs [name] name result ↔ d.loop? name = result := by
  have hclimbs : d.Climbs [name] name (d.loop? name) :=
    climbs_loopFrom (List.nodup_singleton name) (List.nil_subset _) (by simp)
  constructor
  · exact fun h => climbs_unique hclimbs h
  · rintro rfl
    exact hclimbs

/-! ### Documents with distinct names -/

section
variable (hnames : (d.types.map (·.name)).Nodup)
include hnames

theorem type?_of_mem {t : TypeRecord} (ht : t ∈ d.types) : d.type? t.name = some t := by
  obtain ⟨u, hu⟩ : ∃ u, d.type? t.name = some u := by
    rw [type?, ← Option.isSome_iff_exists, List.find?_isSome]
    exact ⟨t, ht, beq_self_eq_true _⟩
  obtain ⟨hmem, hname⟩ := type?_mem hu
  rw [hu, List.inj_on_of_nodup_map hnames hmem ht hname]

theorem super?_eq_some {name parent : String} : d.super? name = some parent ↔ d.Extends name parent := by
  constructor
  · intro h
    obtain ⟨t, ht, hsuper⟩ := Option.bind_eq_some_iff.mp h
    obtain ⟨hmem, hname⟩ := type?_mem ht
    exact ⟨t, hmem, hname, hsuper⟩
  · rintro ⟨t, ht, rfl, hsuper⟩
    exact Option.bind_eq_some_iff.mpr ⟨t, type?_of_mem hnames ht, hsuper⟩

/-- A climb to the top passes every chain from where it begins, and meets no name twice. -/
theorem nodup_of_climbs {seen : List String} {current : String} {result : Option String}
    (h : d.Climbs seen current result) (hresult : result = none) {rest : List String}
    (hchain : (current :: rest).IsChain d.Extends) : rest.Nodup ∧ ∀ name ∈ rest, name ∉ seen := by
  induction h generalizing rest with
  | back => cases hresult
  | top h =>
    cases rest with
    | nil => simp
    | cons parent rest =>
      have hextends := (List.isChain_cons_cons.mp hchain).1
      cases h.symm.trans ((super?_eq_some hnames).mpr hextends)
  | up h hseen _ ih =>
    cases rest with
    | nil => simp
    | cons parent rest =>
      obtain ⟨hextends, hrest⟩ := List.isChain_cons_cons.mp hchain
      cases h.symm.trans ((super?_eq_some hnames).mpr hextends)
      obtain ⟨hnodup, hfresh⟩ := ih hresult hrest
      refine ⟨List.nodup_cons.mpr ⟨fun hmem => hfresh _ hmem List.mem_cons_self, hnodup⟩, ?_⟩
      intro name hname
      rcases List.mem_cons.mp hname with rfl | hname
      · exact hseen
      · exact fun hmem => hfresh _ hname (List.mem_cons_of_mem _ hmem)

/-- The names that a climb saw before it came back make a chain with a name that is in it twice. -/
theorem exists_chain_of_climbs {seen : List String} {current parent : String} {result : Option String}
    (h : d.Climbs seen current result) (hresult : result = some parent) {passed : List String}
    (hseen : seen = current :: passed) (hchain : seen.IsChain fun a b => d.Extends b a) :
    ∃ chain : List String, chain.IsChain d.Extends ∧ ¬ chain.Nodup := by
  induction h generalizing passed with
  | top => cases hresult
  | @back seen current parent' h hback =>
    have hextends := (super?_eq_some hnames).mp h
    refine ⟨(parent' :: seen).reverse, ?_, ?_⟩
    · rw [List.isChain_reverse]
      subst hseen
      exact List.isChain_cons_cons.mpr ⟨hextends, hchain⟩
    · rw [List.nodup_reverse]
      exact fun hnodup => (List.nodup_cons.mp hnodup).1 hback
  | up h _ _ ih =>
    have hextends := (super?_eq_some hnames).mp h
    refine ih hresult rfl ?_
    subst hseen
    exact List.isChain_cons_cons.mpr ⟨hextends, hchain⟩

/-- No climb comes back if and only if no chain of super types has a name twice. -/
theorem noLoop_iff :
    (∀ t ∈ d.types, d.loop? t.name = none) ↔ ∀ chain : List String, chain.IsChain d.Extends → chain.Nodup := by
  constructor
  · intro h chain hchain
    cases chain with
    | nil => exact List.nodup_nil
    | cons name rest =>
      cases rest with
      | nil => exact List.nodup_singleton name
      | cons parent rest =>
        obtain ⟨t, ht, hname, -⟩ := (List.isChain_cons_cons.mp hchain).1
        obtain ⟨hnodup, hfresh⟩ := nodup_of_climbs hnames (climbs_iff.mpr (hname ▸ h t ht)) rfl hchain
        exact List.nodup_cons.mpr ⟨fun hmem => hfresh name hmem (List.mem_singleton_self name), hnodup⟩
  · intro h t ht
    cases hloop : d.loop? t.name with
    | none => rfl
    | some parent =>
      obtain ⟨chain, hchain, hnot⟩ :=
        exists_chain_of_climbs hnames (climbs_iff.mpr hloop) rfl rfl (List.isChain_singleton _)
      exact absurd (h chain hchain) hnot

end

/-! ### The check -/

/-- The document has a type of the name and the kind. -/
def Declares (d : Document) (name : String) (kind : TypeKind) : Prop := ∃ t ∈ d.types, t.name = name ∧ t.kind = kind

/-- What the type mentions is there, and is of the kind that it is mentioned as. -/
def Covers (d : Document) (type : TypeRef) : Prop :=
  ∀ kind name, type.Mentions kind name → d.Declares name kind.typeKind

/-- The rules for one type. -/
structure Admits (d : Document) (t : TypeRecord) : Prop where
  members : (t.properties.map (·.name) ++ t.functions.map (·.name) ++ t.enumValues.map (·.name)).Nodup
  super : ∀ parent, t.superType = some parent → t.kind = .classKind ∧ d.Declares parent .classKind
  values : t.kind = .enumKind → ∃ i, t.underlyingType?.getD (.integer .uint8) = .integer i ∧
    ∀ v ∈ t.enumValues, i.Spans v.value.toInt
  properties : ∀ p ∈ t.properties, d.Covers p.type
  params : ∀ f ∈ t.functions, ∀ p ∈ f.params, d.Covers p.type
  returns : ∀ f ∈ t.functions, ∀ type, f.returnType = some type → d.Covers type

structure WellFormed (d : Document) : Prop where
  names : d.types.Pairwise fun t u => t.name ≠ u.name
  /-- Who follows super types never comes to a type twice. -/
  acyclic : ∀ chain : List String, chain.IsChain d.Extends → chain.Nodup
  types : ∀ t ∈ d.types, d.Admits t

theorem forall_memberTypes_iff {t : TypeRecord} {P : TypeRef → Prop} :
    (∀ m ∈ t.memberTypes, P m.2) ↔ (∀ p ∈ t.properties, P p.type) ∧
      ∀ f ∈ t.functions, (∀ p ∈ f.params, P p.type) ∧ ∀ type, f.returnType = some type → P type := by
  simp only [TypeRecord.memberTypes, FunctionRecord.types, List.forall_mem_append, List.forall_mem_map,
    List.forall_mem_flatMap, Option.mem_toList]

section
variable (hnames : (d.types.map (·.name)).Nodup)
include hnames

theorem kind?_iff_declares {name : String} {kind : TypeKind} : d.kind? name = some kind ↔ d.Declares name kind := by
  rw [kind?_eq_some]
  constructor
  · rintro ⟨t, ht, hkind⟩
    obtain ⟨hmem, hname⟩ := type?_mem ht
    exact ⟨t, hmem, hname, hkind⟩
  · rintro ⟨t, ht, rfl, hkind⟩
    exact ⟨t, type?_of_mem hnames ht, hkind⟩

theorem resolves_iff_covers {type : TypeRef} : d.Resolves type ↔ d.Covers type := by
  constructor
  · intro h kind name hmentions
    exact (kind?_iff_declares hnames).mp (h _ (mentions_iff.mp hmentions))
  · rintro h ⟨kind, name⟩ hmem
    exact (kind?_iff_declares hnames).mpr (h kind name (mentions_iff.mpr hmem))

theorem accepts_iff_admits {t : TypeRecord} : d.Accepts t ↔ d.Admits t := by
  have hvalues : (t.kind = .enumKind →
        ∃ i, t.underlying = .integer i ∧ ∀ v ∈ t.enumValues, i.holds v.value.toInt = true) ↔
      (t.kind = .enumKind → ∃ i, t.underlyingType?.getD (.integer .uint8) = .integer i ∧
        ∀ v ∈ t.enumValues, i.Spans v.value.toInt) := by
    simp only [holds_iff_spans, TypeRecord.underlying]
  have htypes : (∀ m ∈ t.memberTypes, d.Resolves m.2) ↔ (∀ p ∈ t.properties, d.Covers p.type) ∧
      ∀ f ∈ t.functions, (∀ p ∈ f.params, d.Covers p.type) ∧ ∀ type, f.returnType = some type → d.Covers type := by
    simp only [resolves_iff_covers hnames]
    exact forall_memberTypes_iff
  constructor
  · intro h
    obtain ⟨hproperties, hfunctions⟩ := htypes.mp h.resolved
    refine ⟨h.members, fun parent hparent => ?_, hvalues.mp h.underlying, hproperties, fun f hf => (hfunctions f hf).1,
      fun f hf => (hfunctions f hf).2⟩
    exact (h.super parent hparent).imp_right (kind?_iff_declares hnames).mp
  · intro h
    refine ⟨h.members, fun parent hparent => ?_, hvalues.mpr h.values,
      htypes.mpr ⟨h.properties, fun f hf => ⟨h.params f hf, h.returns f hf⟩⟩⟩
    exact (h.super parent hparent).imp_right (kind?_iff_declares hnames).mpr

end

theorem consistent_iff_wellFormed : d.Consistent ↔ d.WellFormed := by
  have hpairwise : (d.types.map (·.name)).Nodup ↔ d.types.Pairwise fun t u => t.name ≠ u.name := List.pairwise_map
  constructor
  · intro h
    exact ⟨hpairwise.mp h.names, (noLoop_iff h.names).mp h.noLoop,
      fun t ht => (accepts_iff_admits h.names).mp (h.accepts t ht)⟩
  · intro h
    have hnames := hpairwise.mpr h.names
    exact ⟨hnames, (noLoop_iff hnames).mpr h.acyclic, fun t ht => (accepts_iff_admits hnames).mpr (h.types t ht)⟩

/-- Every climb of the check ends as it would without a bound, and exactly the documents pass that are well formed. -/
theorem validate_decides (d : Document) :
    (∀ name result, d.Climbs [name] name result ↔ d.loop? name = result) ∧
      (d.validate = .ok () ↔ d.WellFormed) :=
  ⟨fun _ _ => climbs_iff, validate_eq_ok.trans consistent_iff_wellFormed⟩

end Document
end EngineBridge
