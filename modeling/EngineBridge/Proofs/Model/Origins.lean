import EngineBridge.Model.Resolve
import EngineBridge.Proofs.Lists
import EngineBridge.Proofs.Outcome

/-! Where the types of a document's members come from.

Lowering replaces type expressions by types and makes up none of its own: each type of a member is what an expression of the
declaration stands for. -/

namespace EngineBridge
open Outcome

variable {s : Scope} {owner : String}

theorem Scope.resolveIn_eq_ok {member : String} {e : TypeExpr} {type : TypeRef} (h : s.resolveIn owner member e = .ok type) :
    s.resolve e = .ok type := by
  unfold Scope.resolveIn at h
  cases hresolve : s.resolve e with
  | ok t =>
    rw [hresolve] at h
    cases h
    rfl
  | error e =>
    rw [hresolve] at h
    cases h

/-- How an expression stands for a type: what its name is, and what is asked of its arguments. -/
inductive Scope.Resolves (s : Scope) : TypeExpr → TypeRef → Prop
  | builtin {name : String} {type : TypeRef} (h : builtin? name = some type) : Resolves s ⟨name, []⟩ type
  | declared {name : String} {type : TypeRef} (hbuiltin : builtin? name = none) (h : s.declared? name = some type) :
    Resolves s ⟨name, []⟩ type
  | array {name : String} {a : TypeExpr} {type : TypeRef} (hname : wrappers.lookup name = some .arrayOf)
    (h : Resolves s a type) : Resolves s ⟨name, [a]⟩ (.array type)
  | set {name : String} {a : TypeExpr} {type : TypeRef} (hname : wrappers.lookup name = some .setOf)
    (h : Resolves s a type) : Resolves s ⟨name, [a]⟩ (.set type)
  | map {name : String} {a b : TypeExpr} {key value : TypeRef} (hname : mapNames.contains name = true)
    (hkey : Resolves s a key) (hvalue : Resolves s b value) : Resolves s ⟨name, [a, b]⟩ (.map key value)
  | classOf {name : String} {a : TypeExpr} (hname : wrappers.lookup name = some .subclassOf)
    (h : s.kind? a.name = some .classKind) : Resolves s ⟨name, [a]⟩ (.classOf a.name)
  | softObject {name : String} {a : TypeExpr} (hname : wrappers.lookup name = some .softObjectOf)
    (h : s.kind? a.name = some .classKind) : Resolves s ⟨name, [a]⟩ (.softObject a.name)
  | delegate {name : String} {a : TypeExpr} (hname : wrappers.lookup name = some .delegateOf) :
    Resolves s ⟨name, [a]⟩ (.delegate a.name)

namespace Scope

theorem Resolves.resolve_eq {e : TypeExpr} {type : TypeRef} (h : s.Resolves e type) : s.resolve e = .ok type := by
  induction h with
  | builtin h => rw [resolve, h]; rfl
  | declared hbuiltin h => rw [resolve, hbuiltin, h]; rfl
  | array hname _ ih | set hname _ ih =>
    rw [resolve, hname]
    dsimp only
    rw [ih]
    rfl
  | map hname _ _ ihkey ihvalue =>
    rw [resolve, if_pos hname, ihkey, ihvalue]
    rfl
  | classOf hname h | softObject hname h =>
    rw [resolve, hname]
    exact if_pos h
  | delegate hname => rw [resolve, hname]

theorem resolves_of_resolve : ∀ {e : TypeExpr} {type : TypeRef}, s.resolve e = .ok type → s.Resolves e type
  | ⟨name, []⟩, type, h => by
    rw [resolve] at h
    cases hbuiltin : builtin? name with
    | some t =>
      rw [hbuiltin] at h
      cases h
      exact .builtin hbuiltin
    | none =>
      cases hdeclared : s.declared? name with
      | some t =>
        rw [hbuiltin, hdeclared] at h
        cases h
        exact .declared hbuiltin hdeclared
      | none =>
        rw [hbuiltin, hdeclared] at h
        cases h
  | ⟨name, [a]⟩, type, h => by
    rw [resolve] at h
    split at h
    · next hname =>
      obtain ⟨t, ht, rfl⟩ := map_eq_ok.mp h
      exact .array hname (resolves_of_resolve ht)
    · next hname =>
      obtain ⟨t, ht, rfl⟩ := map_eq_ok.mp h
      exact .set hname (resolves_of_resolve ht)
    · next hname =>
      split at h
      · next hclass => cases h; exact .classOf hname hclass
      · cases h
    · next hname =>
      split at h
      · next hclass => cases h; exact .softObject hname hclass
      · cases h
    · next hname => cases h; exact .delegate hname
    · cases h
  | ⟨name, [a, b]⟩, type, h => by
    rw [resolve] at h
    split at h
    · next hname =>
      obtain ⟨key, hkey, h⟩ := bind_eq_ok.mp h
      obtain ⟨value, hvalue, h⟩ := bind_eq_ok.mp h
      cases h
      exact .map hname (resolves_of_resolve hkey) (resolves_of_resolve hvalue)
    · cases h
  | ⟨name, _ :: _ :: _ :: _⟩, type, h => by
    rw [resolve] at h
    · cases h
    all_goals simp

theorem resolve_eq_ok {e : TypeExpr} {type : TypeRef} : s.resolve e = .ok type ↔ s.Resolves e type :=
  ⟨resolves_of_resolve, Resolves.resolve_eq⟩

end Scope

/-- The type is what one of the expressions stands for. -/
def Scope.Reads (s : Scope) (es : List TypeExpr) (type : TypeRef) : Prop := ∃ e ∈ es, s.resolve e = .ok type

theorem Scope.Reads.mono {es es' : List TypeExpr} {type : TypeRef} (h : s.Reads es type) (hsub : ∀ e ∈ es, e ∈ es') :
    s.Reads es' type := by
  obtain ⟨e, he, hresolve⟩ := h
  exact ⟨e, hsub e he, hresolve⟩

theorem FieldDecl.reads_of_lower {f : FieldDecl} {p : PropertyRecord} (h : f.lower s owner = .ok (some p)) :
    s.Reads (MemberDecl.field f).types p.type := by
  unfold FieldDecl.lower at h
  split at h
  · cases h
  · obtain ⟨type, htype, h⟩ := bind_eq_ok.mp h
    cases h
    exact ⟨f.type, List.mem_singleton_self _, Scope.resolveIn_eq_ok htype⟩

theorem MethodDecl.reads_of_lower {m : MethodDecl} {f : FunctionRecord} (h : m.lower s owner = .ok (some f)) :
    ∀ type ∈ f.types, s.Reads (MemberDecl.method m).types type := by
  unfold MethodDecl.lower at h
  split at h
  · cases h
  obtain ⟨params, hparams, h⟩ := bind_eq_ok.mp h
  have hparam : ∀ p ∈ params, s.Reads (MemberDecl.method m).types p.type := by
    intro p hp
    obtain ⟨q, hq, hp⟩ := Paired.exists_left (mapM_eq_ok.mp hparams) hp
    obtain ⟨type, htype, hp⟩ := bind_eq_ok.mp hp
    cases hp
    exact ⟨q.type, List.mem_cons_of_mem _ (List.mem_map_of_mem hq), Scope.resolveIn_eq_ok htype⟩
  intro type htype
  split at h
  · cases h
    obtain ⟨p, hp, rfl⟩ := List.mem_map.mp (by simpa [FunctionRecord.types] using htype)
    exact hparam p hp
  · obtain ⟨ret, hret, h⟩ := bind_eq_ok.mp h
    obtain ⟨returned, hreturned, rfl⟩ := map_eq_ok.mp hret
    cases h
    rcases List.mem_append.mp htype with htype | htype
    · obtain ⟨p, hp, rfl⟩ := List.mem_map.mp htype
      exact hparam p hp
    · rw [List.mem_singleton.mp htype]
      exact ⟨m.ret, List.mem_cons_self, Scope.resolveIn_eq_ok hreturned⟩

theorem reads_of_lowerMembers {ms : List MemberDecl} {ps : List PropertyRecord} {fs : List FunctionRecord}
    (h : lowerMembers s owner ms = .ok (ps, fs)) :
    (∀ p ∈ ps, s.Reads (ms.flatMap MemberDecl.types) p.type) ∧
      ∀ f ∈ fs, ∀ type ∈ f.types, s.Reads (ms.flatMap MemberDecl.types) type := by
  induction ms generalizing ps fs with
  | nil =>
    cases h
    exact ⟨List.forall_mem_nil _, List.forall_mem_nil _⟩
  | cons m ms ih =>
    have hfirst : ∀ e ∈ m.types, e ∈ (m :: ms).flatMap MemberDecl.types := fun e he =>
      List.mem_flatMap.mpr ⟨m, List.mem_cons_self, he⟩
    have hmore : ∀ e ∈ ms.flatMap MemberDecl.types, e ∈ (m :: ms).flatMap MemberDecl.types := fun e he => by
      rw [List.flatMap_cons]
      exact List.mem_append_right _ he
    cases m with
    | field f =>
      obtain ⟨p, hp, h⟩ := bind_eq_ok.mp h
      obtain ⟨⟨ps', fs'⟩, hrest, h⟩ := bind_eq_ok.mp h
      cases h
      obtain ⟨hps, hfs⟩ := ih hrest
      refine ⟨fun q hq => ?_, fun g hg type htype => (hfs g hg type htype).mono hmore⟩
      rcases List.mem_append.mp hq with hq | hq
      · rw [Option.mem_toList.mp hq] at hp
        exact (FieldDecl.reads_of_lower hp).mono hfirst
      · exact (hps q hq).mono hmore
    | method m =>
      obtain ⟨f, hf, h⟩ := bind_eq_ok.mp h
      obtain ⟨⟨ps', fs'⟩, hrest, h⟩ := bind_eq_ok.mp h
      cases h
      obtain ⟨hps, hfs⟩ := ih hrest
      refine ⟨fun p hp => (hps p hp).mono hmore, fun g hg type htype => ?_⟩
      rcases List.mem_append.mp hg with hg | hg
      · rw [Option.mem_toList.mp hg] at hf
        exact (MethodDecl.reads_of_lower hf type htype).mono hfirst
      · exact (hfs g hg type htype).mono hmore

theorem TypeDecl.reads_of_lower {d : TypeDecl} {fallback : String} {t : TypeRecord} (h : d.lower s fallback = .ok t) :
    ∀ m ∈ t.memberTypes, s.Reads d.types m.2 := by
  have hmembers : ∀ {ps fs}, lowerMembers s d.name d.members = .ok (ps, fs) →
      ∀ m ∈ ps.map (fun p => (p.name, p.type)) ++ fs.flatMap (fun f => f.types.map (f.name, ·)), s.Reads d.types m.2 := by
    intro ps fs hlower m hm
    obtain ⟨hps, hfs⟩ := reads_of_lowerMembers hlower
    have hsub : ∀ e ∈ d.members.flatMap MemberDecl.types, e ∈ d.types := fun e he => List.mem_append_right _ he
    rcases List.mem_append.mp hm with hm | hm
    · obtain ⟨p, hp, rfl⟩ := List.mem_map.mp hm
      exact (hps p hp).mono hsub
    · obtain ⟨f, hf, hm⟩ := List.mem_flatMap.mp hm
      obtain ⟨type, htype, rfl⟩ := List.mem_map.mp hm
      exact (hfs f hf type htype).mono hsub
  unfold lower at h
  dsimp only at h
  split at h
  · obtain ⟨underlying, -, h⟩ := bind_eq_ok.mp h
    obtain ⟨values, -, h⟩ := bind_eq_ok.mp h
    cases h
    exact List.forall_mem_nil _
  all_goals
    obtain ⟨⟨ps, fs⟩, hlower, h⟩ := bind_eq_ok.mp h
    cases h
    exact hmembers hlower

/-- Every type of a member is what an expression of a declaration stands for. -/
theorem Document.reads_of_ofDecls {decls : List TypeDecl} {fallback version : String} {attributes : DocumentAttributes}
    {d : Document} (h : ofDecls decls fallback version attributes = .ok d) :
    ∃ s : Scope, ∀ t ∈ d.types, ∃ decl ∈ decls, ∀ m ∈ t.memberTypes, s.Reads decl.types m.2 := by
  obtain ⟨scope, -, h⟩ := bind_eq_ok.mp h
  obtain ⟨types, htypes, h⟩ := bind_eq_ok.mp h
  obtain ⟨_, -, h⟩ := bind_eq_ok.mp h
  cases h
  refine ⟨scope, fun t ht => ?_⟩
  obtain ⟨decl, hdecl, hlower⟩ := Paired.exists_left (mapM_eq_ok.mp htypes) ht
  exact ⟨decl, hdecl, TypeDecl.reads_of_lower hlower⟩

end EngineBridge
