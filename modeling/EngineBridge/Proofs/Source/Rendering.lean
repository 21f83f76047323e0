import EngineBridge.Proofs.Source.Words
import EngineBridge.Declaration.Basic

/-! The usual spelling of declarations, as tokens, and the declarations that it can spell. -/

namespace EngineBridge.Source

/-! ### Types -/

mutual
/-- A name, and its arguments between angle brackets. -/
def typeTokens : TypeExpr → List Token
  | ⟨name, []⟩ => [.name name]
  | ⟨name, e :: es⟩ => .name name :: .mark '<' :: (typeTokens e ++ (moreTypeTokens es ++ [.mark '>']))

/-- The arguments behind the first one. -/
def moreTypeTokens : List TypeExpr → List Token
  | [] => []
  | e :: es => .mark ',' :: typeTokens e ++ moreTypeTokens es
end

theorem moreTypeTokens_eq (es : List TypeExpr) : moreTypeTokens es = es.flatMap fun e => .mark ',' :: typeTokens e := by
  induction es with
  | nil => rw [moreTypeTokens, List.flatMap_nil]
  | cons e es ih => rw [moreTypeTokens, ih, List.flatMap_cons]

theorem typeTokens_args (name : String) (e : TypeExpr) (es : List TypeExpr) :
    typeTokens ⟨name, e :: es⟩ =
      .name name :: .mark '<' :: (separated (.mark ',') typeTokens (e :: es) ++ [.mark '>']) := by
  rw [typeTokens, moreTypeTokens_eq, separated, List.append_assoc]

theorem typeTokens_eq_cons (e : TypeExpr) : ∃ ts, typeTokens e = .name e.name :: ts := by
  rcases e with ⟨name, _ | ⟨e, es⟩⟩
  · exact ⟨[], by rw [typeTokens]⟩
  · exact ⟨_, by rw [typeTokens]⟩

/-! ### Attributes and modifiers -/

/-- How attributes are divided among brackets. -/
structure Grouping where
  groups : List Attribute → List (List Attribute)
  flatten_groups : ∀ attributes, (groups attributes).flatten = attributes
  ne_nil : ∀ attributes, ∀ group ∈ groups attributes, group ≠ []

/-- The arguments between parentheses, if there are any. -/
def argumentTokens : List String → List Token
  | [] => []
  | s :: ss => .mark '(' :: (separated (.mark ',') (fun s => [.quoted s]) (s :: ss) ++ [.mark ')'])

def attributeTokens (a : Attribute) : List Token := .name a.name :: argumentTokens a.args

def groupTokens (group : List Attribute) : List Token :=
  .mark '[' :: (separated (.mark ',') attributeTokens group ++ [.mark ']'])

def attributesTokens (g : Grouping) (attributes : List Attribute) : List Token :=
  (g.groups attributes).flatMap groupTokens

def modifiersTokens (modifiers : List String) : List Token := modifiers.flatMap fun m => [.name m]

/-! ### Members and variants -/

def ParamModifier.word : ParamModifier → String
  | .outward => "out"
  | .byRef => "ref"
  | .inward => "in"

def paramTokens (p : ParamDecl) : List Token :=
  (p.modifier.toList.map fun m => .name (ParamModifier.word m)) ++ (typeTokens p.type ++ [.name p.name])

def paramsTokens (params : List ParamDecl) : List Token :=
  .mark '(' :: (separated (.mark ',') paramTokens params ++ [.mark ')'])

def memberTokens (g : Grouping) : MemberDecl → List Token
  | .field f =>
    attributesTokens g f.attributes ++ (modifiersTokens f.modifiers ++ (typeTokens f.type ++ [.name f.name, .mark ';']))
  | .method m =>
    attributesTokens g m.attributes ++ (modifiersTokens m.modifiers ++
      (typeTokens m.ret ++ .name m.name :: (paramsTokens m.params ++ [.mark ';'])))

def valueTokens : Option Int64 → List Token
  | none => []
  | some n => [.mark '=', .number n]

def variantTokens (v : VariantDecl) : List Token := .name v.name :: valueTokens v.value

/-! ### Declarations -/

def kindWord : TypeKind → String
  | .classKind => "class"
  | .structKind => "struct"
  | .enumKind => "enum"

def baseTokens : Option TypeExpr → List Token
  | none => []
  | some e => .mark ':' :: typeTokens e

/-- Members, each with what ends it, or variants, each with a comma behind it. -/
def bodyTokens (g : Grouping) (d : TypeDecl) : List Token :=
  match d.kind with
  | .classKind | .structKind => d.members.flatMap (memberTokens g)
  | .enumKind => d.variants.flatMap fun v => variantTokens v ++ [.mark ',']

/-- A declaration without the namespace around it. -/
def bareTokens (g : Grouping) (d : TypeDecl) : List Token :=
  attributesTokens g d.attributes ++ (modifiersTokens d.modifiers ++
    .name (kindWord d.kind) :: .name d.name :: (baseTokens d.base ++ .mark '{' :: (bodyTokens g d ++ [.mark '}'])))

def declTokens (g : Grouping) (d : TypeDecl) : List Token :=
  match d.nspace with
  | none => bareTokens g d
  | some n => .name "namespace" :: .name n :: .mark '{' :: (bareTokens g d ++ [.mark '}'])

/-! ### What can be spelled -/

def SpellableType (e : TypeExpr) : Prop := ∀ s ∈ e.names, IsIdentifier s

instance : DecidablePred SpellableType := fun e => inferInstanceAs (Decidable (∀ s ∈ e.names, IsIdentifier s))

theorem SpellableType.name {e : TypeExpr} (h : SpellableType e) : IsIdentifier e.name := h _ e.name_mem_names

theorem SpellableType.arg {e a : TypeExpr} (h : SpellableType e) (ha : a ∈ e.args) : SpellableType a :=
  fun s hs => h s (TypeExpr.mem_names_of_arg ha hs)

structure SpellableAttribute (a : Attribute) : Prop where
  name : IsIdentifier a.name
  args : ∀ s ∈ a.args, '"' ∉ s.toList

structure SpellableParam (p : ParamDecl) : Prop where
  name : IsIdentifier p.name
  type : SpellableType p.type
  head : p.type.name ∉ ["out", "ref", "in"]

/-- What fields and methods have in common: what stands in front, the type and the name. -/
structure SpellableHead (attributes : List Attribute) (modifiers : List String) (type : TypeExpr) (name : String) :
    Prop where
  attributes : ∀ a ∈ attributes, SpellableAttribute a
  modifiers : ∀ m ∈ modifiers, m ∈ modifierWords
  head : type.name ∉ modifierWords
  type : SpellableType type
  name : IsIdentifier name

def SpellableMember : MemberDecl → Prop
  | .field f => SpellableHead f.attributes f.modifiers f.type f.name
  | .method m => SpellableHead m.attributes m.modifiers m.ret m.name ∧ ∀ p ∈ m.params, SpellableParam p

/-- A declaration that can be spelled. Only enums have variants, and only classes and structs have members. -/
structure SpellableDecl (d : TypeDecl) : Prop where
  module : d.module = none
  nspace : ∀ n ∈ d.nspace, IsPath n
  name : IsIdentifier d.name
  attributes : ∀ a ∈ d.attributes, SpellableAttribute a
  modifiers : ∀ m ∈ d.modifiers, m ∈ modifierWords
  base : ∀ e ∈ d.base, SpellableType e
  members : ∀ m ∈ d.members, SpellableMember m
  variants : ∀ v ∈ d.variants, IsIdentifier v.name
  noMembers : d.kind = .enumKind → d.members = []
  noVariants : d.kind ≠ .enumKind → d.variants = []

/-! ### The tokens are well formed -/

def AllValid (ts : List Token) : Prop := ∀ t ∈ ts, t.Valid

section
variable {t : Token} {ts us : List Token} {s : String} {c : Char}

@[simp] theorem valid_name : (Token.name s).Valid ↔ IsPath s := .rfl

@[simp] theorem valid_mark : (Token.mark c).Valid ↔ c ∈ marks := .rfl

@[simp] theorem allValid_nil : AllValid [] := List.forall_mem_nil _

@[simp] theorem allValid_cons : AllValid (t :: ts) ↔ t.Valid ∧ AllValid ts := List.forall_mem_cons

@[simp] theorem allValid_append : AllValid (ts ++ us) ↔ AllValid ts ∧ AllValid us := List.forall_mem_append

theorem allValid_flatMap {ι : Type} {tokens : ι → List Token} {is : List ι} (h : ∀ i ∈ is, AllValid (tokens i)) :
    AllValid (is.flatMap tokens) := fun t ht => by
  obtain ⟨i, hi, ht⟩ := List.mem_flatMap.mp ht
  exact h i hi t ht

theorem allValid_separated {ι : Type} {tokens : ι → List Token} {is : List ι} (hc : c ∈ marks)
    (h : ∀ i ∈ is, AllValid (tokens i)) : AllValid (separated (.mark c) tokens is) := by
  cases is with
  | nil => exact allValid_nil
  | cons i is =>
    obtain ⟨hfirst, hrest⟩ := List.forall_mem_cons.mp h
    exact allValid_append.mpr ⟨hfirst, allValid_flatMap fun j hj => allValid_cons.mpr ⟨hc, hrest j hj⟩⟩

end

section
variable {g : Grouping}

theorem valid_typeTokens {e : TypeExpr} (h : SpellableType e) : AllValid (typeTokens e) := by
  induction hn : (typeTokens e).length using Nat.strongRecOn generalizing e with
  | ind n ih =>
    subst hn
    rcases e with ⟨name, _ | ⟨a, as⟩⟩
    · rw [typeTokens]
      simpa using h.name.isPath
    · have hargs : ∀ b ∈ a :: as, AllValid (typeTokens b) := fun b hb => by
        refine ih _ ?_ (h.arg hb) rfl
        have hle := length_le_separated (.mark ',') typeTokens hb
        rw [typeTokens_args, List.length_cons, List.length_cons, List.length_append]
        omega
      have hlist : AllValid (separated (.mark ',') typeTokens (a :: as)) := allValid_separated (by decide) hargs
      rw [typeTokens_args]
      simp [h.name.isPath, hlist, marks]

theorem valid_argumentTokens {a : Attribute} (h : SpellableAttribute a) : AllValid (argumentTokens a.args) := by
  have hlist : AllValid (separated (.mark ',') (fun s => [.quoted s]) a.args) :=
    allValid_separated (by decide) fun s hs => allValid_cons.mpr ⟨h.args s hs, allValid_nil⟩
  cases hargs : a.args with
  | nil => exact allValid_nil
  | cons s ss =>
    rw [hargs] at hlist
    simp [argumentTokens, hlist, marks]

theorem valid_attributesTokens {as : List Attribute} (h : ∀ a ∈ as, SpellableAttribute a) :
    AllValid (attributesTokens g as) := by
  refine allValid_flatMap fun group hgroup => ?_
  have hlist : AllValid (separated (.mark ',') attributeTokens group) := allValid_separated (by decide) fun a ha => by
    replace ha : a ∈ as := g.flatten_groups as ▸ List.mem_flatten_of_mem hgroup ha
    simp [attributeTokens, (h a ha).name.isPath, valid_argumentTokens (h a ha)]
  simp [groupTokens, hlist, marks]

theorem isIdentifier_of_mem_modifierWords : ∀ m ∈ modifierWords, IsIdentifier m := by
  decide

theorem valid_modifiersTokens {ms : List String} (h : ∀ m ∈ ms, m ∈ modifierWords) : AllValid (modifiersTokens ms) :=
  allValid_flatMap fun m hm => by simpa using (isIdentifier_of_mem_modifierWords m (h m hm)).isPath

theorem valid_paramsTokens {ps : List ParamDecl} (h : ∀ p ∈ ps, SpellableParam p) : AllValid (paramsTokens ps) := by
  have hparam : ∀ p ∈ ps, AllValid (paramTokens p) := fun p hp => by
    have hmodifier : AllValid (p.modifier.toList.map fun m => .name (ParamModifier.word m)) := by
      cases p.modifier with
      | none => exact allValid_nil
      | some m => simpa using IsIdentifier.isPath (by cases m <;> decide)
    simp [paramTokens, hmodifier, valid_typeTokens (h p hp).type, (h p hp).name.isPath]
  have hlist : AllValid (separated (.mark ',') paramTokens ps) := allValid_separated (by decide) hparam
  simp [paramsTokens, hlist, marks]

theorem valid_memberTokens {m : MemberDecl} (h : SpellableMember m) : AllValid (memberTokens g m) := by
  cases m with
  | field f =>
    simp [memberTokens, valid_attributesTokens h.attributes, valid_modifiersTokens h.modifiers,
      valid_typeTokens h.type, h.name.isPath, marks]
  | method m =>
    obtain ⟨h, hps⟩ := h
    simp [memberTokens, valid_attributesTokens h.attributes, valid_modifiersTokens h.modifiers,
      valid_typeTokens h.type, h.name.isPath, valid_paramsTokens hps, marks]

theorem valid_variantTokens {v : VariantDecl} (h : IsIdentifier v.name) : AllValid (variantTokens v) := by
  have hvalue : AllValid (valueTokens v.value) := by
    cases v.value with
    | none => exact allValid_nil
    | some n => simp [valueTokens, Token.Valid, marks]
  simp [variantTokens, h.isPath, hvalue]

theorem valid_bareTokens {d : TypeDecl} (h : SpellableDecl d) : AllValid (bareTokens g d) := by
  have hkind : IsPath (kindWord d.kind) := IsIdentifier.isPath (by cases d.kind <;> decide)
  have hbase : AllValid (baseTokens d.base) := by
    cases hb : d.base with
    | none => exact allValid_nil
    | some e => simp [baseTokens, valid_typeTokens (h.base e hb), marks]
  have hbody : AllValid (bodyTokens g d) := by
    rw [bodyTokens]
    split
    · exact allValid_flatMap fun m hm => valid_memberTokens (h.members m hm)
    · exact allValid_flatMap fun m hm => valid_memberTokens (h.members m hm)
    · exact allValid_flatMap fun v hv => by simp [valid_variantTokens (h.variants v hv), marks]
  simp [bareTokens, valid_attributesTokens h.attributes, valid_modifiersTokens h.modifiers, hkind, h.name.isPath, hbase,
    hbody, marks]

theorem valid_declTokens {d : TypeDecl} (h : SpellableDecl d) : AllValid (declTokens g d) := by
  rw [declTokens]
  split
  · exact valid_bareTokens h
  · rename_i n hn
    have hword : IsPath "namespace" := IsIdentifier.isPath (by decide)
    simp [hword, h.nspace n hn, valid_bareTokens h, marks]

end
end EngineBridge.Source
