import EngineBridge.Proofs.Source.RoundTrip
import EngineBridge.Proofs.Source.SteadyMembers

/-! Types and whole files in front of a block whose inside changes. -/

namespace EngineBridge.Source
open EngineBridge.Parser

variable {α β : Type} {s : Swap} {pre ok mid : List Char → Prop} {p q : Parser α} {f : α → Parser β} {P : Char → Prop}
  {cs r : List Char} {a : α} {k : String}

/-! ### Keywords -/

theorem on_keyword_eq_some {o : Unit} (hstill : Still cs) (h : (keyword k).on cs = some (o, r)) :
    ∃ m, word.on cs = some (k, m) := by
  obtain ⟨m, hread, -⟩ := on_padded_eq_some hstill h
  obtain ⟨w, hread, -⟩ := on_map_eq_some hread
  rw [on_filtered, Option.filter_eq_some_iff] at hread
  obtain ⟨hword, hk⟩ := hread
  obtain rfl : w = k := beq_iff_eq.mp hk
  exact ⟨m, hword⟩

theorem on_keyword_of_word {w : String} {m : List Char} (hstill : Still cs) (hword : word.on cs = some (w, m)) (hw : w ≠ k) :
    (keyword k).on cs = none := by
  refine (on_padded_eq_none hstill).mpr (on_bind_of_none ?_)
  rw [on_filtered, hword, Option.filter_some, if_neg (by simpa using hw)]

theorem excludes_keyword {k' : String} (hk : k ≠ k') : Excludes Still (keyword k) (keyword k') := by
  intro cs o r hstill h
  obtain ⟨m, hword⟩ := on_keyword_eq_some hstill h
  exact on_keyword_of_word hstill hword hk

/-- Where another word is ahead, no modifier is. -/
theorem on_modifier_of_word {w : String} {m : List Char} (hstill : Still cs) (hword : word.on cs = some (w, m))
    (hw : w ∉ modifierWords) : modifier.on cs = none := by
  refine (on_padded_eq_none hstill).mpr ?_
  rw [on_checked, hword, Option.bind_some, if_neg (mt List.contains_iff_mem.mp hw)]
  rfl

/-! ### Types -/

instance : Shrinks openBrace := inferInstanceAs (Shrinks (padded (exactly ['{'])))

instance : Shrinks closeBrace := inferInstanceAs (Shrinks (padded (exactly ['}'])))

instance : Leaves Still openBrace := inferInstanceAs (Leaves Still (padded (exactly ['{'])))

instance : Leaves Still closeBrace := inferInstanceAs (Leaves Still (padded (exactly ['}'])))

theorem steady_openBrace : Steady s Still ok openBrace := (steady_exactly _).padded

theorem steady_closeBrace : Steady s Still ok closeBrace := (steady_exactly _).padded

theorem starts_openBrace : Starts Still (· = '{') openBrace := (starts_exactly _ _).padded

theorem starts_closeBrace : Starts Still (· = '}') closeBrace := (starts_exactly _ _).padded

/-- What is read between braces must be read up to the closing one. -/
theorem Steady.braced [Shrinks p] [Leaves Still p] (hp : Steady s Still (Front (· = '}')) p) :
    Steady s Still ok (Parser.between openBrace closeBrace p) :=
  steady_openBrace.between hp steady_closeBrace fun hstill h => starts_closeBrace hstill h

instance : Shrinks base := by
  unfold base
  infer_instance

instance : Leaves Still base := by
  unfold base
  infer_instance

theorem steady_base : Steady s Still (Front (· = '{')) base := by
  have hbases : Steady s Still (Front (· = '{')) (sepBy1 typeExpr (symbol ",")) :=
    steady_typeExpr.sepBy1 rfl (fun h => h.not (by decide)) (fun h => h.not (by decide)) fun h => h.not (by decide)
  have hcolon : Starts Still (· = ':') (do symbol ":"; sepBy1 typeExpr (symbol ",")) := (starts_symbol rfl).bind
  have hall := ((steady_symbol ":").seq fun _ => hbases).optional (hcolon.firm fun h => h.not (by decide))
  exact hall.map _

instance : Consumes recordKind := by
  unfold recordKind
  infer_instance

instance : Leaves Still recordKind := by
  unfold recordKind
  infer_instance

theorem steady_recordKind : Steady s Still ok recordKind :=
  (steady_named _ _).orElse_of_firm (firm_named _ _) (steady_named _ _)

/-- What stands behind the modifiers of a class or struct. -/
def recordAfter (attributes : List Attribute) (modifiers : List String) : Parser TypeDecl := do
  let kind ← recordKind
  let name ← identifier
  let base ← base
  let members ← between openBrace closeBrace (many member)
  return {
    name, kind, base, attributes, modifiers
    module := none, nspace := none
    members := members.filterMap id, variants := [] }

theorem record_eq : record = (do let as ← attributes; let ms ← modifiers; recordAfter as ms) := rfl

section Types
variable {as : List Attribute} {ms : List String}

instance : Consumes (recordAfter as ms) := by
  unfold recordAfter
  infer_instance

instance : Leaves Still (recordAfter as ms) := by
  unfold recordAfter
  infer_instance

theorem starts_recordKind : Starts Still (isIdentifierStart · = true) recordKind :=
  (starts_keyword _).bind.orElse (starts_keyword _).bind

theorem steady_recordAfter : Steady s Still ok (recordAfter as ms) := by
  refine steady_recordKind.seq fun _ => steady_identifier.seq fun _ => steady_base.bind (fun _ => ?_) fun hstill _ h => ?_
  · exact steady_members.braced.map _
  · exact starts_openBrace.bind.bind hstill h

instance : Consumes variant := by
  unfold variant
  infer_instance

instance : Leaves Still variant := by
  unfold variant
  infer_instance

theorem starts_variant : Starts Still (· ≠ '}') variant := by
  refine Starts.mono (.attributes_bind fun _ => starts_identifier.bind) ?_
  rintro _ (hc | hc | hc) rfl <;> cases hc

theorem steady_variant : Steady s Still (Front (¬ · = '=')) variant := by
  have hvalue : Steady s Still (Front (¬ · = '=')) (do symbol "="; integerLiteral) :=
    (steady_symbol _).seq fun _ => settled_number.steady.padded
  have hnone : Firm s Still (Front (¬ · = '=')) (do symbol "="; integerLiteral) := (starts_symbol rfl).bind.firm id
  refine .behind_attributes (fun _ => steady_identifier.seq fun _ => (hvalue.optional hnone).map _)
    (fun _ => starts_identifier.bind) ?_
  rintro (hc | hc) <;> cases hc

/-- What stands behind the modifiers of an enum. -/
def enumAfter (attributes : List Attribute) (modifiers : List String) : Parser TypeDecl := do
  keyword "enum"
  let name ← identifier
  let base ← base
  let variants ← between openBrace closeBrace (sepEndBy variant (symbol ","))
  return {
    name, base, attributes, modifiers, variants
    kind := .enumKind, module := none, nspace := none, members := [] }

theorem enumeration_eq : enumeration = (do let as ← attributes; let ms ← modifiers; enumAfter as ms) := rfl

instance : Consumes (enumAfter as ms) := by
  unfold enumAfter
  infer_instance

instance : Leaves Still (enumAfter as ms) := by
  unfold enumAfter
  infer_instance

theorem steady_enumAfter : Steady s Still ok (enumAfter as ms) := by
  have hvariants : Steady s Still (Front (· = '}')) (sepEndBy variant (symbol ",")) :=
    steady_variant.sepEndBy starts_variant (fun h => h.not (by decide)) (fun h => h.not (by decide)) (fun h => h rfl) (by decide)
  refine (steady_keyword _).seq fun _ => steady_identifier.seq fun _ => steady_base.bind (fun _ => ?_) fun hstill _ h => ?_
  · exact hvariants.braced.map _
  · exact starts_openBrace.bind.bind hstill h

theorem excludes_recordAfter : Excludes Still (enumAfter as ms) (recordAfter as ms) := by
  intro cs d r hstill h
  obtain ⟨_, m, henum, -⟩ := on_bind_eq_some h
  have hnone : ∀ k, "enum" ≠ k → (keyword k).on cs = none := fun k hk => excludes_keyword hk hstill henum
  exact on_bind_of_none ((on_orElse_of_none (on_bind_of_none (hnone _ (by decide)))).trans (on_bind_of_none (hnone _ (by decide))))

end Types

instance : Consumes record := by
  unfold record
  exact inferInstanceAs (Consumes (do let as ← attributes; let ms ← modifiers; recordAfter as ms))

instance : Leaves Still record :=
  inferInstanceAs (Leaves Still (do let as ← attributes; let ms ← modifiers; recordAfter as ms))

instance : Consumes enumeration :=
  inferInstanceAs (Consumes (do let as ← attributes; let ms ← modifiers; enumAfter as ms))

instance : Leaves Still enumeration :=
  inferInstanceAs (Leaves Still (do let as ← attributes; let ms ← modifiers; enumAfter as ms))

theorem starts_behindModifiers {f : List String → Parser β} (hf : ∀ ms, Starts Still (isIdentifierStart · = true) (f ms)) :
    Starts Still (isIdentifierStart · = true) (do let ms ← modifiers; f ms) := starts_modifier.many_bind hf

theorem steady_record : Steady s Still ok record := by
  rw [record_eq]
  exact .behind_attributes (fun _ => steady_modifiers.seq fun _ => steady_recordAfter)
    (fun _ => starts_behindModifiers fun _ => starts_recordKind.bind) (by decide)

theorem steady_enumeration : Steady s Still ok enumeration := by
  rw [enumeration_eq]
  exact .behind_attributes (fun _ => steady_modifiers.seq fun _ => steady_enumAfter)
    (fun _ => starts_behindModifiers fun _ => (starts_keyword _).bind) (by decide)

theorem excludes_record : Excludes Still enumeration record := by
  intro cs d r hstill h
  obtain ⟨as, m, has, h⟩ := on_bind_eq_some h
  obtain ⟨ms, m', hms, h⟩ := on_bind_eq_some h
  have hstill' : Still m' := Leaves.after (Leaves.after hstill has) hms
  exact (on_bind_of_some has).trans ((on_bind_of_some hms).trans (excludes_recordAfter hstill' h))

instance : Consumes typeDecl := by
  unfold typeDecl
  infer_instance

instance : Leaves Still typeDecl := by
  unfold typeDecl
  infer_instance

theorem steady_typeDecl : Steady s Still ok typeDecl :=
  (steady_record.orElse_apart steady_enumeration excludes_record).seq fun _ =>
    ((steady_symbol _).optional (firm_symbol (by decide))).map _

theorem starts_typeDecl : Starts Still (fun c => c = '[' ∨ isIdentifierStart c = true) typeDecl :=
  Starts.bind (.orElse (.attributes_bind fun _ => starts_behindModifiers fun _ => starts_recordKind.bind)
    (.attributes_bind fun _ => starts_behindModifiers fun _ => (starts_keyword _).bind))

theorem head?_of_word {w : String} {m : List Char} (hword : word.on cs = some (w, m)) :
    Front (isIdentifierStart · = true) cs := by
  have hstarts : Starts Anywhere (isIdentifierStart · = true) word := starts_word
  exact hstarts trivial hword

/-- A word that is no modifier and no kind of type begins no type. -/
theorem on_typeDecl_of_word {w : String} {m : List Char} (hstill : Still cs) (hword : word.on cs = some (w, m))
    (hw : w ∉ modifierWords) (hkind : w ∉ ["class", "struct", "enum"]) : typeDecl.on cs = none := by
  have hnone : ∀ k ∈ ["class", "struct", "enum"], (keyword k).on cs = none := fun k hk =>
    on_keyword_of_word hstill hword fun heq => hkind (heq ▸ hk)
  have hgroup : attributeGroup.on cs = none := starts_attributeGroup.on_eq_none hstill ((head?_of_word hword).mono fun c hc heq => by
    rw [heq] at hc
    cases hc)
  have hattributes : attributes.on cs = some ([], cs) := on_bind_of_some (p := many attributeGroup) (on_many_of_none hgroup)
  have hmodifiers : modifiers.on cs = some ([], cs) := on_many_of_none (on_modifier_of_word hstill hword hw)
  refine on_typeDecl_of_front hattributes hmodifiers (fun as ms => on_bind_of_none ?_) (hnone _ (by simp))
  exact (on_orElse_of_none (on_bind_of_none (hnone _ (by simp)))).trans (on_bind_of_none (hnone _ (by simp)))

theorem on_keyword_of_typeDecl {d : TypeDecl} (hk : k ∉ modifierWords) (hkind : k ∉ ["class", "struct", "enum"])
    (hstill : Still cs) (h : typeDecl.on cs = some (d, r)) : (keyword k).on cs = none := by
  rw [Option.eq_none_iff_forall_ne_some]
  rintro ⟨o, m⟩ hkeyword
  obtain ⟨m', hword⟩ := on_keyword_eq_some hstill hkeyword
  rw [on_typeDecl_of_word hstill hword hk hkind] at h
  cases h

/-! ### Files -/

instance : Consumes namespaceName := by
  unfold namespaceName
  infer_instance

instance : Leaves Still namespaceName := by
  unfold namespaceName
  infer_instance

theorem steady_namespaceName : Steady s Still ok namespaceName := settled_path.steady.padded.map _

/-- A directive. -/
def usingItem : Parser Item := do
  keyword "using"
  skipTo [';']
  symbol ";"
  return Item.skipped

/-- The namespace of what follows. -/
def namespaceItem : Parser Item := do
  keyword "namespace"
  let name ← namespaceName
  symbol ";"
  return .fileNamespace name

/-- A namespace with its declarations in braces. -/
def nestedItem (decls : Parser (List TypeDecl)) : Parser Item := do
  keyword "namespace"
  let name ← namespaceName
  let decls ← between openBrace closeBrace decls
  return .types (decls.map (TypeDecl.within (some name)))

def typeItem : Parser Item := do
  let d ← typeDecl
  return .types [d]

variable {decls : Parser (List TypeDecl)}

theorem item_eq : item decls = (usingItem <|> namespaceItem <|> nestedItem decls <|> typeItem) := rfl

instance : Consumes usingItem := by
  unfold usingItem
  infer_instance

instance : Leaves Still usingItem := by
  unfold usingItem
  infer_instance

instance : Consumes namespaceItem := by
  unfold namespaceItem
  infer_instance

instance : Leaves Still namespaceItem := by
  unfold namespaceItem
  infer_instance

instance [Shrinks decls] : Consumes (nestedItem decls) := by
  unfold nestedItem
  infer_instance

instance [Leaves Still decls] : Leaves Still (nestedItem decls) := by
  unfold nestedItem
  infer_instance

instance : Consumes typeItem := by
  unfold typeItem
  infer_instance

instance : Leaves Still typeItem := by
  unfold typeItem
  infer_instance

instance [Shrinks decls] : Consumes (item decls) :=
  inferInstanceAs (Consumes (usingItem <|> namespaceItem <|> nestedItem decls <|> typeItem))

instance [Leaves Still decls] : Leaves Still (item decls) :=
  inferInstanceAs (Leaves Still (usingItem <|> namespaceItem <|> nestedItem decls <|> typeItem))

theorem excludes_nested : Excludes Still (nestedItem decls) namespaceItem := by
  intro cs i r hstill h
  obtain ⟨_, m, hkeyword, h⟩ := on_bind_eq_some h
  obtain ⟨name, m', hname, h⟩ := on_bind_eq_some h
  have hstill' : Still m' := Leaves.after (Leaves.after hstill hkeyword) hname
  have hfront : Front (· = '{') m' := starts_openBrace.bind.bind hstill' h
  have hnone : (symbol ";").on m' = none := (starts_symbol rfl).on_eq_none hstill' (hfront.not (by decide))
  exact (on_bind_of_some hkeyword).trans ((on_bind_of_some hname).trans (on_bind_of_none hnone))

theorem excludes_using_namespace {f : Unit → Parser Item} : Excludes Still (keyword "namespace" >>= f) usingItem := by
  intro cs i r hstill h
  obtain ⟨_, m, hkeyword, -⟩ := on_bind_eq_some h
  exact on_bind_of_none (excludes_keyword (by decide) hstill hkeyword)

theorem excludes_keyword_type {f : Unit → Parser Item} (hk : k ∉ modifierWords) (hkind : k ∉ ["class", "struct", "enum"]) :
    Excludes Still typeItem (keyword k >>= f) := by
  intro cs i r hstill h
  obtain ⟨d, htype, -⟩ := on_map_eq_some h
  exact on_bind_of_none (on_keyword_of_typeDecl hk hkind hstill htype)

theorem steady_item [Shrinks decls] [Leaves Still decls] (hdecls : Steady s Still (Front (· = '}')) decls) :
    Steady s Still ok (item decls) := by
  have husing : Steady s Still ok usingItem :=
    (steady_keyword _).seq fun _ => (steady_skipTo _).seq fun _ => (steady_symbol _).seq fun _ => steady_pure _
  have hnamespace : Steady s Still ok namespaceItem :=
    (steady_keyword _).seq fun _ => steady_namespaceName.seq fun _ => (steady_symbol _).seq fun _ => steady_pure _
  have hnested : Steady s Still ok (nestedItem decls) :=
    (steady_keyword _).seq fun _ => steady_namespaceName.seq fun _ => hdecls.braced.map _
  have htype : Steady s Still ok typeItem := steady_typeDecl.map _
  have hlast := hnested.orElse_apart htype (excludes_keyword_type (by decide) (by decide))
  have hrest := hnamespace.orElse_apart hlast (excludes_nested.orElse (excludes_keyword_type (by decide) (by decide)))
  exact husing.orElse_apart hrest
    (excludes_using_namespace.orElse (excludes_using_namespace.orElse (excludes_keyword_type (by decide) (by decide))))

theorem starts_item : Starts Still (fun c => c = '[' ∨ isIdentifierStart c = true) (item decls) := by
  have hkeyword : ∀ (k : String) (f : Unit → Parser Item), Starts Still (fun c => c = '[' ∨ isIdentifierStart c = true)
      (keyword k >>= f) := fun k f => ((starts_keyword k).mono fun _ => .inr).bind
  exact (hkeyword _ _).orElse ((hkeyword _ _).orElse ((hkeyword _ _).orElse starts_typeDecl.bind))

instance : Guarded itemsWith where
  agree {n p q} _ _ h := by
    have hbraced := AgreeBelow.bind (.refl openBrace) fun _ => h.bind fun a => .refl (do closeBrace; return a)
    have hnested : AgreeBelow (n + 1) (nestedItem p) (nestedItem q) :=
      .behind fun _ => .bind (.refl namespaceName) fun _ => hbraced.bind fun _ => .refl _
    have hitem := AgreeBelow.orElse (.refl usingItem) (.orElse (.refl namespaceItem) (hnested.orElse (.refl typeItem)))
    exact AgreeBelow.bind hitem.many fun _ => .refl _
  shrinks p _ := by
    unfold itemsWith
    infer_instance

instance (n : Nat) : Leaves Still (unfolded itemsWith n) := by
  induction n with
  | zero => exact ⟨fun _ h => nomatch h⟩
  | succ n ih => exact ⟨fun hstill h => (inferInstance : Leaves Still (many (item (unfolded itemsWith n)) >>= fun _ => _)).after hstill h⟩

theorem declarations_eq : declarations = recursive itemsWith := rfl

instance : Shrinks declarations := inferInstanceAs (Shrinks (recursive itemsWith))

instance : Leaves Still declarations := ⟨fun {cs _ _} hstill h => by
  rw [declarations_eq, on_recursive_eq_unfolded (Nat.lt_succ_self cs.length)] at h
  exact Leaves.after hstill h⟩

theorem on_declarations (cs : List Char) : declarations.on cs = (itemsWith declarations).on cs := by
  rw [declarations_eq]
  exact on_recursive cs

/-- Declarations are read up to the brace that closes them. -/
theorem steady_declarations : Steady s Still (Front (· = '}')) declarations := by
  refine Steady.recursive (f := itemsWith) fun n ih => ?_
  have hnone : Starts Still (· ≠ '}') (item (unfolded itemsWith n)) := starts_item.mono (by
    rintro _ (hc | hc) rfl <;> cases hc)
  exact ((steady_item ih).many_of_firm (Firm.at_close hnone)).map _

theorem parseFile_eq_ok_iff {cs : List Char} {ds : List TypeDecl} :
    parseFile (String.ofList cs) = .ok ds ↔ file.on cs = some (ds, []) := by
  have hparse : parseFile (String.ofList cs) = (parseAll file cs).mapError (Diagnostic.ofFailure cs) := by
    rw [parseFile, parseText, String.toList_ofList]
  constructor
  · intro h
    rcases hall : parseAll file cs with e | ds'
    · rw [hparse, hall] at h
      cases h
    · rw [hparse, hall] at h
      cases h
      exact on_of_parseAll_eq_ok hall
  · intro h
    rw [hparse, parseAll_eq_ok h]
    rfl

end EngineBridge.Source
