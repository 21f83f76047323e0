import EngineBridge.Proofs.Model.Resolution

/-! Which types expressions stand for, said without resolving them.

A type that an expression denotes has a place for every argument, and every name of the expression is built in, declared, or
one that takes as many arguments as it has. Resolving finds these types, and others only where it reads no more of an
argument than its name. -/

namespace EngineBridge
open Outcome

namespace TypeExpr
variable {decls : List TypeDecl} {e a part : TypeExpr} {above : Option String} {name : String} {type : TypeRef}

/-! ### Parts of expressions -/

/-- The expression has the part, as an argument of the name above it unless it is the whole. -/
inductive Occurs (e : TypeExpr) : Option String → TypeExpr → Prop
  | whole : Occurs e none e
  | argument {above : Option String} {part arg : TypeExpr} (h : Occurs e above part) (harg : arg ∈ part.args) :
    Occurs e (some part.name) arg

theorem Occurs.of_argument (h : a.Occurs above part) (ha : a ∈ e.args) : e.Occurs (some (above.getD e.name)) part := by
  induction h with
  | whole => exact .argument .whole ha
  | argument _ harg ih => exact .argument ih harg

/-- What stands in an expression is the whole, one of its arguments, or stands within one of them. -/
theorem Occurs.cases_root (h : e.Occurs above part) : (above = none ∧ part = e) ∨
    ∃ a ∈ e.args, (above = some e.name ∧ part = a) ∨ a.Occurs above part ∧ above.isSome := by
  induction h with
  | whole => exact .inl ⟨rfl, rfl⟩
  | @argument above part arg _ harg ih =>
    rcases ih with ⟨-, rfl⟩ | ⟨a, ha, ⟨-, rfl⟩ | ⟨hoccurs, -⟩⟩
    · exact .inr ⟨arg, harg, .inl ⟨rfl, rfl⟩⟩
    · exact .inr ⟨part, ha, .inr ⟨.argument .whole harg, rfl⟩⟩
    · exact .inr ⟨a, ha, .inr ⟨.argument hoccurs harg, rfl⟩⟩

/-- The names that take the name of a class or a signature. -/
def referenceNames : List String := ["TSubclassOf", "TSoftObjectPtr", "TDelegate"]

/-- Where the name of a class or a signature is taken, no arguments stand behind it. -/
def BareReferences (e : TypeExpr) : Prop := ∀ name ∈ referenceNames, ∀ arg, e.Occurs (some name) arg → arg.args = []

theorem bareReferences_iff : e.BareReferences ↔
    (e.name ∈ referenceNames → ∀ a ∈ e.args, a.args = []) ∧ ∀ a ∈ e.args, a.BareReferences := by
  constructor
  · intro h
    exact ⟨fun hname a ha => h _ hname a (.argument .whole ha), fun a ha name hname _ hoccurs =>
      h name hname _ (hoccurs.of_argument ha)⟩
  · rintro ⟨hbare, hargs⟩ name hname part hoccurs
    rcases hoccurs.cases_root with ⟨habove, -⟩ | ⟨a, ha, ⟨habove, rfl⟩ | ⟨hoccurs, -⟩⟩
    · cases habove
    · cases habove
      exact hbare hname _ ha
    · exact hargs a ha name hname part hoccurs

theorem bareReferences_named : (named name).BareReferences :=
  bareReferences_iff.mpr ⟨fun _ => List.forall_mem_nil _, List.forall_mem_nil _⟩

theorem BareReferences.argument (h : e.BareReferences) (ha : a ∈ e.args) : a.BareReferences :=
  (bareReferences_iff.mp h).2 a ha

theorem BareReferences.eq_named (h : BareReferences ⟨name, [a]⟩) (hname : name ∈ referenceNames) : a = named a.name := by
  have hargs := (bareReferences_iff.mp h).1 hname a (List.mem_singleton_self a)
  obtain ⟨_, args⟩ := a
  cases hargs
  rfl

/-! ### Denotation -/

/-- The part may stand below that name: its own name is built in or declared and has no arguments, or takes as many as it
has, or it is the signature of a delegate. -/
inductive Known (decls : List TypeDecl) : Option String → TypeExpr → Prop
  | builtin {above : Option String} {name : String} {type : TypeRef} (h : (name, type) ∈ builtinTypes) :
    Known decls above (named name)
  | declared {above : Option String} {d : TypeDecl} (h : d ∈ decls) : Known decls above (named d.name)
  | single {above : Option String} {name : String} {wrapper : Wrapper} {a : TypeExpr} (h : (name, wrapper) ∈ wrappers) :
    Known decls above ⟨name, [a]⟩
  | pair {above : Option String} {name : String} {a b : TypeExpr} (h : name ∈ mapNames) : Known decls above ⟨name, [a, b]⟩
  | signature {name : String} : Known decls (some "TDelegate") (named name)

/-- How a declared type is referred to. -/
def referenceTo (d : TypeDecl) : TypeRef :=
  match d.kind with
  | .classKind => .object d.name
  | .structKind => .struct d.name
  | .enumKind => .enum d.name

/-- The type is made of the types of the arguments, or of the names that they are. -/
inductive Denotes (decls : List TypeDecl) : TypeExpr → TypeRef → Prop
  | builtin {name : String} {type : TypeRef} (h : (name, type) ∈ builtinTypes) : Denotes decls (named name) type
  | declared {d : TypeDecl} (hd : d ∈ decls) (h : d.name ∉ builtinTypes.map Prod.fst) :
    Denotes decls (named d.name) (referenceTo d)
  | array {name : String} {a : TypeExpr} {type : TypeRef} (hname : (name, Wrapper.arrayOf) ∈ wrappers)
    (h : Denotes decls a type) : Denotes decls ⟨name, [a]⟩ (.array type)
  | set {name : String} {a : TypeExpr} {type : TypeRef} (hname : (name, Wrapper.setOf) ∈ wrappers)
    (h : Denotes decls a type) : Denotes decls ⟨name, [a]⟩ (.set type)
  | map {name : String} {a b : TypeExpr} {key value : TypeRef} (hname : name ∈ mapNames) (hkey : Denotes decls a key)
    (hvalue : Denotes decls b value) : Denotes decls ⟨name, [a, b]⟩ (.map key value)
  | classOf {name : String} {d : TypeDecl} (hname : (name, Wrapper.subclassOf) ∈ wrappers) (hd : d ∈ decls)
    (hkind : d.kind = .classKind) : Denotes decls ⟨name, [named d.name]⟩ (.classOf d.name)
  | softObject {name : String} {d : TypeDecl} (hname : (name, Wrapper.softObjectOf) ∈ wrappers) (hd : d ∈ decls)
    (hkind : d.kind = .classKind) : Denotes decls ⟨name, [named d.name]⟩ (.softObject d.name)
  | delegate {name signature : String} (hname : (name, Wrapper.delegateOf) ∈ wrappers) :
    Denotes decls ⟨name, [named signature]⟩ (.delegate signature)

theorem name_mem_of_wrapper {wrapper : Wrapper} (h : (name, wrapper) ∈ wrappers) :
    name ∈ referenceNames ↔ wrapper ∈ [Wrapper.subclassOf, .softObjectOf, .delegateOf] := by
  simp only [wrappers, List.mem_cons, List.not_mem_nil, or_false, Prod.mk.injEq] at h
  rcases h with h | h | h | h | h | h | h | h | h | h <;> obtain ⟨rfl, rfl⟩ := h <;> simp [referenceNames]

theorem name_eq_of_delegate (h : (name, Wrapper.delegateOf) ∈ wrappers) : name = "TDelegate" := by
  simpa [wrappers] using h

theorem Denotes.known_root (h : e.Denotes decls type) (above : Option String) : e.Known decls above := by
  cases h with
  | builtin h => exact .builtin h
  | declared hd _ => exact .declared hd
  | array hname _ | set hname _ => exact .single hname
  | map hname _ _ => exact .pair hname
  | classOf hname _ _ | softObject hname _ _ => exact .single hname
  | delegate hname => exact .single hname

theorem Denotes.argument (h : e.Denotes decls type) (ha : a ∈ e.args) :
    (∃ t, a.Denotes decls t) ∨ a.Known decls (some e.name) ∧ a.args = [] := by
  cases h with
  | builtin | declared => cases ha
  | array _ h | set _ h =>
    rw [List.mem_singleton.mp ha]
    exact .inl ⟨_, h⟩
  | map _ hkey hvalue =>
    rcases List.mem_cons.mp ha with rfl | ha
    · exact .inl ⟨_, hkey⟩
    · rw [List.mem_singleton.mp ha]
      exact .inl ⟨_, hvalue⟩
  | classOf _ hd _ | softObject _ hd _ =>
    rw [List.mem_singleton.mp ha]
    exact .inr ⟨.declared hd, rfl⟩
  | delegate hname =>
    obtain rfl := name_eq_of_delegate hname
    rw [List.mem_singleton.mp ha]
    exact .inr ⟨.signature, rfl⟩

/-- On the way from the whole to a part, what is met denotes a type until it is a bare name. -/
theorem Denotes.known (h : e.Denotes decls type) (hoccurs : e.Occurs above part) : part.Known decls above := by
  have hmet : (∃ t, part.Denotes decls t) ∨ part.Known decls above ∧ part.args = [] := by
    induction hoccurs with
    | whole => exact .inl ⟨type, h⟩
    | argument _ harg ih =>
      rcases ih with ⟨t, ht⟩ | ⟨-, hnone⟩
      · exact ht.argument harg
      · rw [hnone] at harg
        cases harg
  rcases hmet with ⟨t, ht⟩ | ⟨hknown, -⟩
  · exact ht.known_root above
  · exact hknown

theorem Denotes.bareReferences (h : e.Denotes decls type) : e.BareReferences := by
  have hplain : ∀ {name : String} {wrapper : Wrapper}, (name, wrapper) ∈ wrappers →
      wrapper ∉ [Wrapper.subclassOf, .softObjectOf, .delegateOf] → name ∉ referenceNames := fun hname hwrapper hmem =>
    hwrapper ((name_mem_of_wrapper hname).mp hmem)
  have hbare : ∀ {name other : String}, BareReferences ⟨name, [named other]⟩ := fun {name other} =>
    bareReferences_iff.mpr ⟨fun _ => List.forall_mem_singleton.mpr rfl, List.forall_mem_singleton.mpr bareReferences_named⟩
  induction h with
  | builtin | declared => exact bareReferences_named
  | array hname _ ih | set hname _ ih =>
    exact bareReferences_iff.mpr ⟨fun hmem => absurd hmem (hplain hname (by simp)), List.forall_mem_singleton.mpr ih⟩
  | map hname _ _ ihkey ihvalue =>
    refine bareReferences_iff.mpr ⟨fun hmem => absurd hmem ?_, ?_⟩
    · simp only [mapNames, List.mem_cons, List.not_mem_nil, or_false] at hname
      rcases hname with rfl | rfl | rfl <;> simp [referenceNames]
    · exact List.forall_mem_cons.mpr ⟨ihkey, List.forall_mem_singleton.mpr ihvalue⟩
  | classOf | softObject | delegate => exact hbare

end TypeExpr

/-! ### Resolving -/

theorem builtin?_eq_some_iff {name : String} {type : TypeRef} : builtin? name = some type ↔ (name, type) ∈ builtinTypes := by
  refine ⟨fun h => ?_, Labelled.lookup_of_mem (by decide)⟩
  obtain ⟨before, after, hsplit, -⟩ := List.lookup_eq_some_iff.mp h
  simp [hsplit]

theorem wrappers_lookup_eq_some_iff {name : String} {wrapper : Wrapper} :
    wrappers.lookup name = some wrapper ↔ (name, wrapper) ∈ wrappers := by
  refine ⟨fun h => ?_, Labelled.lookup_of_mem (by decide)⟩
  obtain ⟨before, after, hsplit, -⟩ := List.lookup_eq_some_iff.mp h
  simp [hsplit]

namespace Scope
open TypeExpr
variable {decls : List TypeDecl} {e : TypeExpr} {type : TypeRef}

/-- The names of declarations and their kinds. -/
abbrev ofDistinct (decls : List TypeDecl) : Scope := decls.map fun d => (d.name, d.kind)

theorem declared?_eq_some_iff (h : DistinctNames decls) {name : String} :
    (ofDistinct decls).declared? name = some type ↔ ∃ d ∈ decls, d.name = name ∧ type = referenceTo d := by
  unfold declared?
  rw [Option.map_eq_some_iff]
  constructor
  · rintro ⟨kind, hkind, rfl⟩
    obtain ⟨d, hd, rfl, rfl⟩ := (kind?_eq_some_iff h).mp hkind
    exact ⟨d, hd, rfl, by unfold referenceTo; cases d.kind <;> rfl⟩
  · rintro ⟨d, hd, rfl, rfl⟩
    exact ⟨d.kind, (kind?_eq_some_iff h).mpr ⟨d, hd, rfl, rfl⟩, by unfold referenceTo; cases d.kind <;> rfl⟩

theorem resolve_of_denotes (hnames : DistinctNames decls) (h : e.Denotes decls type) :
    (ofDistinct decls).resolve e = .ok type := by
  have hclass : ∀ {d : TypeDecl}, d ∈ decls → d.kind = .classKind → (ofDistinct decls).kind? d.name = some .classKind :=
    fun hd hkind => (kind?_eq_some_iff hnames).mpr ⟨_, hd, rfl, hkind⟩
  refine resolve_eq_ok.mpr ?_
  induction h with
  | builtin h => exact .builtin (builtin?_eq_some_iff.mpr h)
  | @declared d hd h =>
    have hnone : builtin? d.name = none := Option.eq_none_iff_forall_ne_some.mpr fun type htype =>
      h (List.mem_map_of_mem (builtin?_eq_some_iff.mp htype))
    exact .declared hnone ((declared?_eq_some_iff hnames).mpr ⟨d, hd, rfl, rfl⟩)
  | array hname _ ih => exact .array (wrappers_lookup_eq_some_iff.mpr hname) ih
  | set hname _ ih => exact .set (wrappers_lookup_eq_some_iff.mpr hname) ih
  | map hname _ _ ihkey ihvalue => exact .map (List.contains_iff_mem.mpr hname) ihkey ihvalue
  | @classOf _ d hname hd hkind => exact .classOf (a := named d.name) (wrappers_lookup_eq_some_iff.mpr hname) (hclass hd hkind)
  | @softObject _ d hname hd hkind => exact .softObject (a := named d.name) (wrappers_lookup_eq_some_iff.mpr hname) (hclass hd hkind)
  | @delegate _ signature hname => exact .delegate (a := named signature) (wrappers_lookup_eq_some_iff.mpr hname)

/-- Where a class or a signature is named, the argument is that name. -/
theorem denotes_of_resolve (hnames : DistinctNames decls) (hbare : e.BareReferences)
    (h : (ofDistinct decls).resolve e = .ok type) : e.Denotes decls type := by
  have hresolves := resolve_eq_ok.mp h
  clear h
  induction hresolves with
  | builtin h => exact .builtin (builtin?_eq_some_iff.mp h)
  | declared hbuiltin h =>
    obtain ⟨d, hd, rfl, rfl⟩ := (declared?_eq_some_iff hnames).mp h
    -- A declaration is looked for only where no built-in type has the name.
    refine .declared hd fun hname => ?_
    obtain ⟨⟨_, type⟩, hmem, rfl⟩ := List.mem_map.mp hname
    cases hbuiltin.symm.trans (builtin?_eq_some_iff.mpr hmem)
  | @array name a _ hname _ ih =>
    exact .array (wrappers_lookup_eq_some_iff.mp hname) (ih (hbare.argument (List.mem_singleton_self a)))
  | @set name a _ hname _ ih =>
    exact .set (wrappers_lookup_eq_some_iff.mp hname) (ih (hbare.argument (List.mem_singleton_self a)))
  | @map name a b _ _ hname _ _ ihkey ihvalue =>
    exact .map (List.contains_iff_mem.mp hname) (ihkey (hbare.argument (by simp))) (ihvalue (hbare.argument (by simp)))
  | classOf hname hclass =>
    have hlookup := wrappers_lookup_eq_some_iff.mp hname
    obtain ⟨d, hd, hdname, hkind⟩ := (kind?_eq_some_iff hnames).mp hclass
    rw [hbare.eq_named ((name_mem_of_wrapper hlookup).mpr (by simp)), ← hdname]
    exact .classOf hlookup hd hkind
  | softObject hname hclass =>
    have hlookup := wrappers_lookup_eq_some_iff.mp hname
    obtain ⟨d, hd, hdname, hkind⟩ := (kind?_eq_some_iff hnames).mp hclass
    rw [hbare.eq_named ((name_mem_of_wrapper hlookup).mpr (by simp)), ← hdname]
    exact .softObject hlookup hd hkind
  | delegate hname =>
    have hlookup := wrappers_lookup_eq_some_iff.mp hname
    rw [hbare.eq_named ((name_mem_of_wrapper hlookup).mpr (by simp))]
    exact .delegate hlookup

theorem resolveIn_of_resolve {s : Scope} {owner member : String} (h : s.resolve e = .ok type) :
    s.resolveIn owner member e = .ok type := by
  unfold resolveIn
  rw [h]
  rfl

theorem ofDecls_eq_ok {scope : Scope} (h : ofDecls decls = .ok scope) : DistinctNames decls ∧ scope = ofDistinct decls := by
  unfold ofDecls at h
  split at h
  · cases h
  · next hrepeated => exact ⟨firstRepeated_nil_eq_none.mp hrepeated, (Except.ok.inj h).symm⟩

/-- The types that expressions denote are those that they resolve to, except for expressions in which arguments stand behind
the name of a class or a signature; and all names of an expression that denotes a type are known. -/
theorem denotes_iff_resolves {scope : Scope} (hscope : ofDecls decls = .ok scope) (owner member : String) (e : TypeExpr)
    (type : TypeRef) :
    (e.Denotes decls type ↔ scope.resolveIn owner member e = .ok type ∧ e.BareReferences) ∧
      (e.Denotes decls type → ∀ above part, e.Occurs above part → part.Known decls above) := by
  obtain ⟨hnames, rfl⟩ := ofDecls_eq_ok hscope
  refine ⟨⟨fun h => ?_, ?_⟩, fun h _ _ hoccurs => h.known hoccurs⟩
  · exact ⟨resolveIn_of_resolve (resolve_of_denotes hnames h), h.bareReferences⟩
  · rintro ⟨hresolve, hbare⟩
    exact denotes_of_resolve hnames hbare (resolveIn_eq_ok hresolve)

open AssemblyManifest.PawnManifest

/-- The values of a map are arrays of references to a class. -/
theorem denotes_iff_resolves_map :
    ∃ scope, ofDecls [actor, vector] = .ok scope ∧
      scope.resolveIn "Owner" "Member"
          ⟨"TMap", [named "Vector", ⟨"List", [⟨"TSubclassOf", [named "Actor"]⟩]⟩]⟩ =
        .ok (.map (.struct "Vector") (.array (.classOf "Actor"))) ∧
      Denotes [actor, vector] ⟨"TMap", [named "Vector", ⟨"List", [⟨"TSubclassOf", [named "Actor"]⟩]⟩]⟩
        (.map (.struct "Vector") (.array (.classOf "Actor"))) := by
  have hscope : ofDecls [actor, vector] = .ok (ofDistinct [actor, vector]) := by decide
  have hdenotes : Denotes [actor, vector] ⟨"TMap", [named "Vector", ⟨"List", [⟨"TSubclassOf", [named "Actor"]⟩]⟩]⟩
      (.map (.struct "Vector") (.array (.classOf "Actor"))) := by
    refine .map (by simp [mapNames]) ?_ (.array (by simp [wrappers]) ?_)
    · exact .declared (d := vector) (by simp) (by decide)
    · exact .classOf (d := actor) (by simp [wrappers]) (by simp) rfl
  exact ⟨_, hscope, ((denotes_iff_resolves hscope "Owner" "Member" _ _).1.mp hdenotes).1, hdenotes⟩

/-- What stands behind the name of a class is not read. -/
theorem argument_of_class_dropped :
    ∃ scope, ofDecls [actor] = .ok scope ∧
      scope.resolveIn "Owner" "Member" ⟨"TSubclassOf", [⟨"Actor", [named "Missing"]⟩]⟩ = .ok (.classOf "Actor") ∧
      Occurs ⟨"TSubclassOf", [⟨"Actor", [named "Missing"]⟩]⟩ (some "Actor") (named "Missing") ∧
      ¬ (named "Missing").Known [actor] (some "Actor") := by
  have hclass := (Occurs.whole (e := ⟨"TSubclassOf", [⟨"Actor", [named "Missing"]⟩]⟩)).argument (List.mem_singleton_self _)
  refine ⟨_, rfl, rfl, hclass.argument (List.mem_singleton_self _), fun hknown => ?_⟩
  generalize hname : named "Missing" = missing at hknown
  generalize habove : some "Actor" = above at hknown
  cases hknown with
  | @builtin _ name type h =>
    obtain rfl : "Missing" = name := congrArg TypeExpr.name hname
    simp [builtinTypes] at h
  | @declared _ d h =>
    rw [List.mem_singleton.mp h] at hname
    exact absurd (congrArg TypeExpr.name hname) (by decide)
  | single | pair => cases hname
  | signature => exact absurd habove (by decide)

end Scope
end EngineBridge
