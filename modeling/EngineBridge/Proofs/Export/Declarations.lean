import EngineBridge.Proofs.Export.Dispatch
import EngineBridge.Proofs.Export.Writing

/-! What a wrapper declares.

The wrapper of a type is one declaration of managed code whose contents are a list of smaller ones: the values of an enum,
the fields of a struct, the helpers and properties of a class, and the members of the functions that are shown. Every name
is spelled by the same rule. -/

namespace EngineBridge

/-- How managed code spells a name. -/
def spelled (name : String) : String := if managedKeywords.contains name then "@" ++ name else name

section
variable {name other s : String}

theorem managedIdentifier_eq_ok : managedIdentifier name = .ok s ↔ isIdentifier name = true ∧ s = spelled name := by
  unfold managedIdentifier spelled
  cases h : isIdentifier name <;> simp [eq_comm]

theorem at_lacks_keyword : ∀ k ∈ managedKeywords, '@' ∉ k.toList := by decide

/-- Names that are spelled alike are the same, as long as they are identifiers. -/
theorem spelled_inj (h : isIdentifier name = true) (h' : isIdentifier other = true) (heq : spelled name = spelled other) :
    name = other := by
  have hmark : ∀ {a b : String}, isIdentifier b = true → "@" ++ a ≠ b := by
    intro a b hb hab
    have hmem : '@' ∈ b.toList := by
      rw [← hab, String.toList_append]
      exact List.mem_append_left _ (by decide)
    obtain ⟨-, -, -, -, hall⟩ := isIdentifier_cons hb
    exact absurd (hall _ hmem) (by decide)
  unfold spelled at heq
  split at heq <;> split at heq
  · exact (String.append_right_inj "@").mp heq
  · exact absurd heq (hmark h')
  · exact absurd heq.symm (hmark h)
  · exact heq

/-- A name that is no keyword is spelled by itself only. -/
theorem spelled_eq_iff (h : isIdentifier name = true) (hother : isIdentifier other = true)
    (hkeyword : managedKeywords.contains other = false) : spelled name = other ↔ name = other := by
  have hself : spelled other = other := by
    unfold spelled
    rw [hkeyword]
    rfl
  constructor
  · intro heq
    exact spelled_inj h hother (heq.trans hself.symm)
  · rintro rfl
    exact hself

end

namespace Wrapper
open Outcome

/-! ### Declarations -/

/-- What a type declares. -/
inductive Declaration
  /-- A value of an enum. -/
  | value (v : EnumValue)
  /-- The engine's type behind a class. -/
  | nativeType (nativeName : String)
  | constructor (type : String)
  /-- The method that is called when an object is bound. -/
  | hook
  | property (p : PropertyRecord)
  /-- A field of a struct. -/
  | structField (p : PropertyRecord)
  /-- What is declared for a function. -/
  | member (m : FunctionMember)

namespace Declaration

/-- The code of a declaration. -/
def code : Declaration → Code
  | value v => .line (spelled v.name ++ " = " ++ toString v.value.toInt ++ ",")
  | nativeType nativeName =>
    .line ("public static readonly NativeType NativeType = NativeType.Find(\"" ++ nativeName ++ "\");")
  | constructor type => .block ("public " ++ type ++ "(IntPtr handle) : base(handle)") [.line "OnBindingInitialized();"]
  | hook => .line "partial void OnBindingInitialized();"
  | property p =>
    let getter := Code.line ("get => ReflectionAccess.Get<" ++ p.type.managedName ++ ">(this, \"" ++ p.name ++ "\");")
    let setter := Code.line ("set => ReflectionAccess.Set(this, \"" ++ p.name ++ "\", value);")
    .block ("public " ++ p.type.managedName ++ " " ++ spelled p.name)
      (if p.flags.contains PropertyFlags.readOnly then [getter] else [getter, setter])
  | structField p => .line ("public " ++ p.type.managedName ++ " " ++ spelled p.name ++ ";")
  | member m => m.2.code m.1

end Declaration

/-- What the wrapper of a type declares within the type. -/
def declarations (c : BindingContext) (fast : List FunctionId) (t : TypeRecord) : List Declaration :=
  match t.kind with
  | .enumKind => t.enumValues.map .value
  | .structKind => t.properties.map .structField ++ (members (services c fast t)).map .member
  | .classKind =>
    [.nativeType t.nativeName, .constructor (spelled t.name), .hook]
      ++ (t.properties.filter c.schema.exposesProperty).map .property ++ (members (services c fast t)).map .member

/-- The head of the declaration of a type. -/
def headline (t : TypeRecord) : String :=
  match t.kind with
  | .enumKind => "public enum " ++ spelled t.name ++ " : " ++ t.underlying.managedName
  | .structKind => "public partial struct " ++ spelled t.name
  | .classKind =>
    (if t.flags.contains TypeFlags.abstract then "public abstract partial class " else "public partial class ")
      ++ spelled t.name ++ " : " ++ (t.superType.map spelled).getD rootClass

/-- The lines in front of the declaration of a type. -/
def marks (t : TypeRecord) : List Code :=
  (if t.flags.contains TypeFlags.deprecated then [.line "[Obsolete]"] else [])
    ++ (if t.kind = .structKind then [.line "[StructLayout(LayoutKind.Sequential)]"] else [])

/-- The names that a wrapper spells for the properties and values of its type are identifiers. -/
structure NamesSpelled (c : BindingContext) (t : TypeRecord) : Prop where
  type : isIdentifier t.name = true
  module : isIdentifier t.module = true
  values : t.kind = .enumKind → ∀ v ∈ t.enumValues, isIdentifier v.name = true
  fields : t.kind = .structKind → ∀ p ∈ t.properties, isIdentifier p.name = true
  properties : t.kind = .classKind → ∀ p ∈ t.properties, c.schema.exposesProperty p = true → isIdentifier p.name = true
  super : t.kind = .classKind → ∀ parent, t.superType = some parent → isIdentifier parent = true

section
variable {c : BindingContext} {fast : List FunctionId} {t : TypeRecord} {entries : List ReportEntry} {code : List Code}

theorem enumValueCode_eq_ok {v : EnumValue} {line : Code} (h : enumValueCode v = .ok line) :
    isIdentifier v.name = true ∧ line = (Declaration.value v).code := by
  obtain ⟨name, hname, h⟩ := bind_eq_ok.mp h
  obtain ⟨hidentifier, rfl⟩ := managedIdentifier_eq_ok.mp hname
  exact ⟨hidentifier, (Except.ok.inj h).symm⟩

theorem structFieldCode_eq_ok {p : PropertyRecord} {line : Code} (h : structFieldCode p = .ok line) :
    isIdentifier p.name = true ∧ line = (Declaration.structField p).code := by
  obtain ⟨name, hname, h⟩ := bind_eq_ok.mp h
  obtain ⟨hidentifier, rfl⟩ := managedIdentifier_eq_ok.mp hname
  exact ⟨hidentifier, (Except.ok.inj h).symm⟩

theorem propertyCode_eq_ok {p : PropertyRecord} (h : propertyCode p = .ok code) :
    isIdentifier p.name = true ∧ code = [.blank, (Declaration.property p).code] := by
  obtain ⟨name, hname, h⟩ := bind_eq_ok.mp h
  obtain ⟨hidentifier, rfl⟩ := managedIdentifier_eq_ok.mp hname
  exact ⟨hidentifier, (Except.ok.inj h).symm⟩

theorem baseName_eq_ok {base : String} (h : baseName t = .ok base) :
    (∀ parent, t.superType = some parent → isIdentifier parent = true) ∧ base = (t.superType.map spelled).getD rootClass := by
  unfold baseName at h
  cases hparent : t.superType with
  | none =>
    rw [hparent] at h
    exact ⟨fun parent h => (nomatch h), (Except.ok.inj h).symm⟩
  | some parent =>
    rw [hparent] at h
    obtain ⟨hidentifier, rfl⟩ := managedIdentifier_eq_ok.mp h
    exact ⟨fun _ h => Option.some.inj h ▸ hidentifier, rfl⟩

/-- Lines that are written one for each item are those of the items. -/
theorem forall₂_map_eq {α β : Type} {P : α → Prop} {g : α → β} {R : α → β → Prop} (hR : ∀ x y, R x y → P x ∧ y = g x)
    {xs : List α} {ys : List β} (h : List.Forall₂ R xs ys) : (∀ x ∈ xs, P x) ∧ ys = xs.map g := by
  induction h with
  | nil => exact ⟨fun x hx => (nomatch hx), rfl⟩
  | cons h _ ih =>
    obtain ⟨hP, rfl⟩ := hR _ _ h
    obtain ⟨hall, rfl⟩ := ih
    exact ⟨List.forall_mem_cons.mpr ⟨hP, hall⟩, rfl⟩

theorem isBlank_code (d : Declaration) : d.code.isBlank = false := by
  cases d with
  | member m => rcases m with ⟨f, _ | _ | _⟩ <;> rfl
  | _ => rfl

theorem withoutBlanks_map {α : Type} (f : α → Declaration) (xs : List α) :
    withoutBlanks (xs.map fun x => (f x).code) = (xs.map f).map Declaration.code := by
  rw [List.map_map]
  refine List.filter_eq_self.mpr fun code hcode => ?_
  obtain ⟨x, -, rfl⟩ := List.mem_map.mp hcode
  rw [isBlank_code]
  rfl

theorem withoutBlanks_properties {ps : List PropertyRecord} :
    withoutBlanks ((ps.map fun p => [Code.blank, (Declaration.property p).code]).flatten) =
      (ps.map Declaration.property).map Declaration.code := by
  induction ps with
  | nil => rfl
  | cons p ps ih =>
    rw [List.map_cons, List.flatten_cons, withoutBlanks_append, ih]
    rfl

theorem withoutBlanks_functions (h : functionsCode c fast t = (entries, .ok code)) :
    withoutBlanks code = ((members (services c fast t)).map Declaration.member).map Declaration.code := by
  rw [(functionsCode_ok h).1, memberCode, List.map_map]
  exact List.map_congr_left fun _ _ => rfl

/-- The code of a type is its declaration, and what stands in it are the declarations of its parts. -/
theorem typeCode_declares (h : typeCode c fast t (spelled t.name) = (entries, .ok code))
    (htype : isIdentifier t.name = true) (hmodule : isIdentifier t.module = true) :
    NamesSpelled c t ∧ (t.kind ≠ .enumKind → ∀ s ∈ services c fast t, Spelled s) ∧
      ∃ contents, withoutBlanks contents = (declarations c fast t).map Declaration.code ∧
        code = (if t.kind = .structKind then [.line "[StructLayout(LayoutKind.Sequential)]"] else []) ++ [.block (headline t) contents] := by
  unfold declarations headline
  cases typeCode_eq_ok.mp h with
  | enumKind hkind hcode =>
    obtain ⟨values, hvalues, hcode⟩ := bind_eq_ok.mp hcode
    cases hcode
    obtain ⟨hnames, rfl⟩ := forall₂_map_eq (P := fun v => isIdentifier v.name = true)
      (g := fun v => (Declaration.value v).code) (fun _ _ => enumValueCode_eq_ok) (mapM_eq_ok.mp hvalues)
    simp only [hkind]
    refine ⟨⟨htype, hmodule, fun _ => hnames, ?_, ?_, ?_⟩, fun h => absurd rfl h,
      t.enumValues.map fun v => (Declaration.value v).code, withoutBlanks_map .value _, rfl⟩
    all_goals simp [hkind]
  | structKind hkind hfields hfunctions =>
    obtain ⟨hnames, rfl⟩ := forall₂_map_eq (P := fun p => isIdentifier p.name = true)
      (g := fun p => (Declaration.structField p).code) (fun _ _ => structFieldCode_eq_ok) (mapM_eq_ok.mp hfields)
    simp only [hkind]
    refine ⟨⟨htype, hmodule, ?_, fun _ => hnames, ?_, ?_⟩, fun _ => (functionsCode_ok hfunctions).2.2, _, ?_, rfl⟩
    · simp [hkind]
    · simp [hkind]
    · simp [hkind]
    · rw [withoutBlanks_append, withoutBlanks_map .structField, withoutBlanks_functions hfunctions, List.map_append]
  | classKind hkind hbase hproperties hfunctions =>
    obtain ⟨hnames, rfl⟩ := forall₂_map_eq (P := fun p => isIdentifier p.name = true)
      (g := fun p => [Code.blank, (Declaration.property p).code]) (fun _ _ => propertyCode_eq_ok)
      (mapM_eq_ok.mp hproperties)
    obtain ⟨hparent, rfl⟩ := baseName_eq_ok hbase
    simp only [hkind]
    refine ⟨⟨htype, hmodule, ?_, ?_, ?_, fun _ => hparent⟩, fun _ => (functionsCode_ok hfunctions).2.2, _, ?_, rfl⟩
    · simp [hkind]
    · simp [hkind]
    · exact fun _ p hp hshown => hnames p (List.mem_filter.mpr ⟨hp, hshown⟩)
    · rw [withoutBlanks_append, withoutBlanks_append, withoutBlanks_properties, withoutBlanks_functions hfunctions,
        List.map_append, List.map_append]
      rfl

/-- The file of a type declares its parts within the declaration of the type. -/
structure Declares (c : BindingContext) (fast : List FunctionId) (t : TypeRecord) (a : Artifact) : Prop where
  path : a.path = typePath t
  names : NamesSpelled c t
  functions : t.kind ≠ .enumKind → ∀ s ∈ services c fast t, Spelled s
  contents : ∃ contents, withoutBlanks contents = (declarations c fast t).map Declaration.code ∧
    a.contents = fileText ("namespace SharpBind." ++ spelled t.module) (marks t) (headline t) contents

theorem renderType_declares {a : Artifact} (h : renderType c fast t = (entries, .ok a)) : Declares c fast t a := by
  obtain ⟨name, module, code, hname, hmodule, hcode, rfl⟩ := renderType_eq_ok.mp h
  obtain ⟨htype, rfl⟩ := managedIdentifier_eq_ok.mp hname
  obtain ⟨hplace, rfl⟩ := managedIdentifier_eq_ok.mp hmodule
  obtain ⟨hspelled, hfunctions, contents, hcontents, rfl⟩ := typeCode_declares hcode htype hplace
  refine ⟨rfl, hspelled, hfunctions, contents, hcontents, ?_⟩
  unfold fileText marks
  rw [List.append_assoc]

/-- Every file that the pass makes is the wrapper of a type of the document. -/
theorem Collects.declares {output : Output} (h : Collects c fast output) {a : Artifact} (ha : a ∈ output.artifacts) :
    ∃ t ∈ c.document.types, Declares c fast t a := by
  rw [h.artifacts] at ha
  obtain ⟨t, ht, hok⟩ := List.mem_filterMap.mp ha
  refine ⟨t, ht, ?_⟩
  rcases hrender : renderType c fast t with ⟨entries, e | a'⟩ <;> rw [hrender] at hok
  · cases hok
  · cases hok
    exact renderType_declares hrender

/-! ### Signatures -/

/-- A parameter as a signature spells it. -/
def paramSpelled (p : ParamRecord) : String := directionMark p.direction ++ p.type.managedName ++ " " ++ spelled p.name

/-- A signature with its names spelled. -/
def signatureSpelled (f : FunctionRecord) : String :=
  returnTypeText f ++ " " ++ spelled f.name ++ "(" ++ String.intercalate ", " (f.params.map paramSpelled) ++ ")"

theorem signature_eq_ok {f : FunctionRecord} {text : String} (h : signature f = .ok text) :
    isIdentifier f.name = true ∧ (∀ p ∈ f.params, isIdentifier p.name = true) ∧ text = signatureSpelled f := by
  obtain ⟨params, hparams, h⟩ := bind_eq_ok.mp h
  obtain ⟨name, hname, h⟩ := bind_eq_ok.mp h
  obtain ⟨hidentifier, rfl⟩ := managedIdentifier_eq_ok.mp hname
  have hparam : ∀ p s, paramText p = .ok s → isIdentifier p.name = true ∧ s = paramSpelled p := by
    intro p s hs
    obtain ⟨name, hname, hs⟩ := bind_eq_ok.mp hs
    obtain ⟨hidentifier, rfl⟩ := managedIdentifier_eq_ok.mp hname
    exact ⟨hidentifier, (Except.ok.inj hs).symm⟩
  obtain ⟨hall, rfl⟩ := forall₂_map_eq hparam (mapM_eq_ok.mp hparams)
  exact ⟨hidentifier, hall, (Except.ok.inj h).symm⟩

end

end Wrapper
end EngineBridge
