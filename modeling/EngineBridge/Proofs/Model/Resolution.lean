import EngineBridge.Proofs.Lists
import EngineBridge.Proofs.Manifest.CrossReference
import EngineBridge.Proofs.Model.Invariants
import EngineBridge.Proofs.Model.Origins
import Mathlib

/-! Lowering and the check agree on names.

Whatever a lowered type refers to, lowering found it among the declarations, and the check finds it among the types that
were made of them. So the check of a lowered document is left with what lowering does not look at: whether members
have names of their own, where chains of super types lead, and which values an enum has room for. -/

namespace EngineBridge
open Outcome
variable {s : Scope}

/-! ### Types -/

/-- What the type mentions is declared, as what it is mentioned. -/
def Scope.Knows (s : Scope) (type : TypeRef) : Prop :=
  ∀ kind name, type.Mentions kind name → s.kind? name = some kind.typeKind

namespace Scope

theorem not_mentions_builtin {name : String} {type : TypeRef} (h : builtin? name = some type) {kind : ReferenceKind}
    {other : String} : ¬ type.Mentions kind other := by
  have hplain : ∀ p ∈ builtinTypes, p.2.references = [] := by decide
  obtain ⟨before, after, hsplit, -⟩ := List.lookup_eq_some_iff.mp h
  have hmem : (name, type) ∈ builtinTypes := by simp [hsplit]
  rw [mentions_iff, hplain _ hmem]
  exact List.not_mem_nil

theorem knows_declared {name : String} {type : TypeRef} (h : s.declared? name = some type) : s.Knows type := by
  obtain ⟨kind, hkind, rfl⟩ := Option.map_eq_some_iff.mp h
  rintro _ _ hmentions
  cases kind <;> cases hmentions <;> exact hkind

theorem Resolves.knows {e : TypeExpr} {type : TypeRef} (h : s.Resolves e type) : s.Knows type := by
  induction h with
  | builtin h => exact fun kind other hmentions => absurd hmentions (not_mentions_builtin h)
  | declared _ h => exact knows_declared h
  | array _ _ ih | set _ _ ih =>
    rintro kind other ⟨⟩
    next hmentions => exact ih kind other hmentions
  | map _ _ _ ihkey ihvalue =>
    rintro kind other ⟨⟩
    · next hmentions => exact ihkey kind other hmentions
    · next hmentions => exact ihvalue kind other hmentions
  | classOf _ hclass | softObject _ hclass =>
    rintro kind other ⟨⟩
    exact hclass
  | delegate => rintro kind other ⟨⟩

end Scope

/-! ### Declarations -/

/-- What the types of the function mention is declared. -/
structure FunctionRecord.Within (s : Scope) (f : FunctionRecord) : Prop where
  params : ∀ p ∈ f.params, s.Knows p.type
  returns : ∀ type, f.returnType = some type → s.Knows type

/-- What the type refers to is declared. -/
structure TypeRecord.Within (s : Scope) (t : TypeRecord) : Prop where
  super : ∀ parent, t.superType = some parent → t.kind = .classKind ∧ s.kind? parent = some .classKind
  properties : ∀ p ∈ t.properties, s.Knows p.type
  functions : ∀ f ∈ t.functions, f.Within s

namespace TypeDecl
variable {d : TypeDecl} {fallback : String} {t : TypeRecord}

theorem kinds_of_superType {parent : String} (h : d.superType s = some parent) :
    d.kind = .classKind ∧ s.kind? parent = some .classKind := by
  unfold superType at h
  split at h
  · next hkind _ =>
    split at h
    · next hclass =>
      cases h
      exact ⟨hkind, hclass⟩
    · cases h
  · cases h

/-- A lowered declaration has its name and its kind, and refers to what is declared. -/
theorem within_of_lower (h : d.lower s fallback = .ok t) : t.name = d.name ∧ t.kind = d.kind ∧ t.Within s := by
  have hknows : ∀ m ∈ t.memberTypes, s.Knows m.2 := fun m hm => by
    obtain ⟨e, -, hresolve⟩ := reads_of_lower h m hm
    exact (Scope.resolve_eq_ok.mp hresolve).knows
  obtain ⟨hproperties, hfunctions⟩ := Document.forall_memberTypes_iff.mp hknows
  have hwithin : ∀ f ∈ t.functions, f.Within s := fun f hf => ⟨(hfunctions f hf).1, (hfunctions f hf).2⟩
  unfold lower at h
  dsimp only at h
  split at h
  · obtain ⟨underlying, -, h⟩ := bind_eq_ok.mp h
    obtain ⟨values, -, h⟩ := bind_eq_ok.mp h
    cases h
    exact ⟨rfl, rfl, fun parent hparent => (nomatch hparent), hproperties, hwithin⟩
  all_goals
    obtain ⟨⟨ps, fs⟩, -, h⟩ := bind_eq_ok.mp h
    cases h
    exact ⟨rfl, rfl, fun parent hparent => kinds_of_superType hparent, hproperties, hwithin⟩

end TypeDecl

/-! ### Documents -/

namespace Document
variable {d : Document}

/-- Whatever the types of a document refer to is a type of it, of the kind that the reference is for. -/
structure Linked (d : Document) : Prop where
  super : ∀ t ∈ d.types, ∀ parent, t.superType = some parent → t.kind = .classKind ∧ d.Declares parent .classKind
  properties : ∀ t ∈ d.types, ∀ p ∈ t.properties, d.Covers p.type
  params : ∀ t ∈ d.types, ∀ f ∈ t.functions, ∀ p ∈ f.params, d.Covers p.type
  returns : ∀ t ∈ d.types, ∀ f ∈ t.functions, ∀ type, f.returnType = some type → d.Covers type

/-- What the check asks for beside that. -/
structure Orderly (d : Document) : Prop where
  members : ∀ t ∈ d.types,
    (t.properties.map (·.name) ++ t.functions.map (·.name) ++ t.enumValues.map (·.name)).Nodup
  acyclic : ∀ chain : List String, chain.IsChain d.Extends → chain.Nodup
  values : ∀ t ∈ d.types, t.kind = .enumKind → ∃ i, t.underlyingType?.getD (.integer .uint8) = .integer i ∧
    ∀ v ∈ t.enumValues, i.Spans v.value.toInt

section
variable (hnames : (d.types.map (·.name)).Nodup) (hlinked : d.Linked)
include hnames hlinked

theorem validate_eq_ok_iff_orderly : d.validate = .ok () ↔ d.Orderly := by
  rw [validate_eq_ok, consistent_iff_wellFormed]
  constructor
  · intro h
    exact ⟨fun t ht => (h.types t ht).members, h.acyclic, fun t ht => (h.types t ht).values⟩
  · intro h
    refine ⟨List.pairwise_map.mp hnames, h.acyclic, fun t ht => ?_⟩
    exact ⟨h.members t ht, hlinked.super t ht, h.values t ht, hlinked.properties t ht, hlinked.params t ht,
      hlinked.returns t ht⟩

end

/-- Of the faults that the check can find, those that have nothing to do with references. -/
def IsOwnFault : DocumentError → Prop
  | .duplicateMember _ _ | .invalidType _ _ => True
  | _ => False

theorem ownFault_of_checkInheritance {e : DocumentError} (h : d.checkInheritance = .error e) : IsOwnFault e := by
  obtain ⟨t, -, h⟩ := exists_of_forM_eq_error h
  split at h <;> cases h
  trivial

theorem ownFault_of_checkMembers {t : TypeRecord} {e : DocumentError} (h : t.checkMembers = .error e) :
    IsOwnFault e := by
  unfold TypeRecord.checkMembers at h
  split at h <;> cases h
  trivial

theorem ownFault_of_checkValues {t : TypeRecord} {e : DocumentError} (h : t.checkValues = .error e) :
    IsOwnFault e := by
  unfold TypeRecord.checkValues at h
  split at h
  · split at h
    · cases h
      trivial
    · split at h <;> cases h
      trivial
  · cases h

section
variable (hnames : (d.types.map (·.name)).Nodup) (hlinked : d.Linked)
include hnames hlinked

theorem ownFault_of_checkType {t : TypeRecord} (ht : t ∈ d.types) {e : DocumentError} (h : d.checkType t = .error e) :
    IsOwnFault e := by
  have hsuper : d.checkSuper t = .ok () := checkSuper_eq_ok.mpr fun parent hparent =>
    (hlinked.super t ht parent hparent).imp_right (kind?_iff_declares hnames).mpr
  have hcovers : ∀ m ∈ t.memberTypes, d.Covers m.2 := forall_memberTypes_iff.mpr
    ⟨hlinked.properties t ht, fun f hf => ⟨hlinked.params t ht f hf, hlinked.returns t ht f hf⟩⟩
  have hreferences : (t.memberTypes.forM fun m => d.checkReferences t.name m.1 m.2) = .ok () := forM_eq_ok.mpr fun m hm =>
    checkReferences_eq_ok.mpr ((resolves_iff_covers hnames).mpr (hcovers m hm))
  rcases bind_eq_error.mp h with h | ⟨-, -, h⟩
  · exact ownFault_of_checkMembers h
  rcases bind_eq_error.mp h with h | ⟨-, -, h⟩
  · cases hsuper.symm.trans h
  rcases bind_eq_error.mp h with h | ⟨-, -, h⟩
  · exact ownFault_of_checkValues h
  · cases hreferences.symm.trans h

theorem ownFault_of_validate {e : DocumentError} (h : d.validate = .error e) : IsOwnFault e := by
  unfold validate at h
  rw [firstRepeated_nil_eq_none.mpr hnames] at h
  have hrest : d.checkInheritance >>= (fun _ => d.types.forM d.checkType) = .error e := h
  rcases bind_eq_error.mp hrest with h | ⟨-, -, h⟩
  · exact ownFault_of_checkInheritance h
  · obtain ⟨t, ht, h⟩ := exists_of_forM_eq_error h
    exact ownFault_of_checkType hnames hlinked ht h

end

/-! ### Lowered documents -/

theorem names_of_lower {decls : List TypeDecl} {fallback : String} {types : List TypeRecord}
    (h : decls.mapM (·.lower s fallback) = .ok types) : types.map (·.name) = decls.map (·.name) := by
  have hforall := mapM_eq_ok.mp h
  clear h
  induction hforall with
  | nil => rfl
  | cons hlower _ ih => rw [List.map_cons, List.map_cons, ih, (TypeDecl.within_of_lower hlower).1]

section
variable {decls : List TypeDecl} {fallback : String}
  (htypes : decls.mapM (·.lower (decls.map fun d => (d.name, d.kind)) fallback) = .ok d.types)
include htypes

theorem declares_of_kind? (hnames : (decls.map (·.name)).Nodup) {name : String} {kind : TypeKind}
    (h : Scope.kind? (decls.map fun d => (d.name, d.kind)) name = some kind) : d.Declares name kind := by
  obtain ⟨decl, hdecl, rfl, rfl⟩ := (Scope.kind?_eq_some_iff hnames).mp h
  obtain ⟨t, ht, hlower⟩ := Paired.exists_right (mapM_eq_ok.mp htypes) hdecl
  obtain ⟨hname, hkind, -⟩ := TypeDecl.within_of_lower hlower
  exact ⟨t, ht, hname, hkind⟩

theorem linked_of_lower (hnames : (decls.map (·.name)).Nodup) : d.Linked := by
  have hwithin : ∀ t ∈ d.types, t.Within (decls.map fun d => (d.name, d.kind)) := by
    intro t ht
    obtain ⟨decl, -, hlower⟩ := Paired.exists_left (mapM_eq_ok.mp htypes) ht
    exact (TypeDecl.within_of_lower hlower).2.2
  have hcovers : ∀ type, Scope.Knows (decls.map fun d => (d.name, d.kind)) type → d.Covers type :=
    fun type hknows kind name hmentions => declares_of_kind? htypes hnames (hknows kind name hmentions)
  refine ⟨fun t ht parent hparent => ?_, fun t ht p hp => ?_, fun t ht f hf p hp => ?_, fun t ht f hf type htype => ?_⟩
  · exact ((hwithin t ht).super parent hparent).imp_right (declares_of_kind? htypes hnames)
  · exact hcovers _ ((hwithin t ht).properties p hp)
  · exact hcovers _ (((hwithin t ht).functions f hf).params p hp)
  · exact hcovers _ (((hwithin t ht).functions f hf).returns type htype)

end

/-- Declarations with distinct names whose types all resolve make a document in which every reference is one to a type
of it, so that the check can only find faults of other kinds; and exactly if there are none, it is the document of the
declarations. -/
theorem lowered_documents_are_linked (decls : List TypeDecl) (hnames : (decls.map (·.name)).Nodup)
    (fallback engineVersion : String) (attributes : DocumentAttributes) : ∃ scope, Scope.ofDecls decls = .ok scope ∧
      (∀ types, decls.mapM (·.lower scope fallback) = .ok types →
        Linked ⟨engineVersion, attributes, types⟩ ∧
          ∀ e, validate ⟨engineVersion, attributes, types⟩ = .error e →
            (∃ type member, e = .duplicateMember type member) ∨ ∃ type problem, e = .invalidType type problem) ∧
      ∀ d, ofDecls decls fallback engineVersion attributes = .ok d ↔
        d.engineVersion = engineVersion ∧ d.attributes = attributes ∧
          decls.mapM (·.lower scope fallback) = .ok d.types ∧ d.Orderly := by
  have hscope := Scope.ofDecls_of_distinctNames hnames
  refine ⟨_, hscope, fun types htypes => ?_, fun d => ?_⟩
  · have hlinked : Linked ⟨engineVersion, attributes, types⟩ := linked_of_lower htypes hnames
    have hdistinct : (types.map (·.name)).Nodup := (names_of_lower htypes).symm ▸ hnames
    refine ⟨hlinked, fun e he => ?_⟩
    have hown := ownFault_of_validate (d := ⟨engineVersion, attributes, types⟩) hdistinct hlinked he
    cases e with
    | duplicateMember type member => exact .inl ⟨type, member, rfl⟩
    | invalidType type problem => exact .inr ⟨type, problem, rfl⟩
    | _ => exact hown.elim
  · have hchecked : ∀ htypes : decls.mapM (·.lower (decls.map fun d => (d.name, d.kind)) fallback) = .ok d.types,
        d.validate = .ok () ↔ d.Orderly := fun htypes =>
      validate_eq_ok_iff_orderly ((names_of_lower htypes).symm ▸ hnames) (linked_of_lower htypes hnames)
    constructor
    · intro h
      unfold ofDecls at h
      obtain ⟨scope, hs, h⟩ := bind_eq_ok.mp h
      cases hscope.symm.trans hs
      obtain ⟨types, htypes, h⟩ := bind_eq_ok.mp h
      obtain ⟨⟨⟩, hvalid, h⟩ := bind_eq_ok.mp h
      cases h
      exact ⟨rfl, rfl, htypes, (hchecked htypes).mp hvalid⟩
    · rintro ⟨rfl, rfl, htypes, horderly⟩
      refine bind_eq_ok.mpr ⟨_, hscope, bind_eq_ok.mpr ⟨_, htypes, bind_eq_ok.mpr ⟨⟨⟩, ?_, rfl⟩⟩⟩
      exact (hchecked htypes).mpr horderly

open AssemblyManifest.PawnManifest in
/-- A class that extends one and holds an array of structs, each of which is declared. -/
theorem lowered_documents_are_linked_pawn : ([pawn, actor, vector, unit].map (·.name)).Nodup ∧
    ∃ scope types, Scope.ofDecls [pawn, actor, vector, unit] = .ok scope ∧
      [pawn, actor, vector, unit].mapM (·.lower scope "Game") = .ok types ∧
      types.map (fun t => (t.superType, t.properties.map (·.type))) =
        [(some "Actor", [.array (.struct "Vector")]), (none, []), (none, [.struct "Unit"]), (none, [])] ∧
      Linked ⟨"5.0", .empty, types⟩ := by
  have hnames : ([pawn, actor, vector, unit].map (·.name)).Nodup := by decide
  obtain ⟨scope, hscope, hlowered, -⟩ := lowered_documents_are_linked _ hnames "Game" "5.0" .empty
  cases (Scope.ofDecls_of_distinctNames hnames).symm.trans hscope
  have htypes : ∃ types, [pawn, actor, vector, unit].mapM (·.lower
        ([pawn, actor, vector, unit].map fun d => (d.name, d.kind)) "Game") = .ok types ∧
      types.map (fun t => (t.superType, t.properties.map (·.type))) =
        [(some "Actor", [.array (.struct "Vector")]), (none, []), (none, [.struct "Unit"]), (none, [])] :=
    ⟨_, by cbv, rfl⟩
  obtain ⟨types, htypes, hmembers⟩ := htypes
  exact ⟨hnames, _, types, hscope, htypes, hmembers, (hlowered types htypes).1⟩

end Document
end EngineBridge
