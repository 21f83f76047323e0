import EngineBridge.Proofs.Source.Literals
import EngineBridge.Proofs.Source.Marked
import EngineBridge.Proofs.Source.Places

/-! The values that are written for the variants of an enum.

An enum is found in a file by what is read in front of it and in front of its variants. If 64 bits with a sign can hold each of
the integers that are written, and no zero stands in front of one, then the variants have these values. Any other integer stops
the reader within the enum, and the file is refused. -/

namespace EngineBridge.Source
open EngineBridge.Parser Relation

variable {cs z r tail rest : List Char} {name k : String} {d : TypeDecl}

/-! ### Variants -/

/-- A variant up to its value. -/
def variantHead : Parser String := do
  let _ ← attributes
  identifier

/-- The value that may stand behind the name. -/
def variantRest (name : String) : Parser VariantDecl := do
  let value ← optional (do symbol "="; integerLiteral)
  return ⟨name, value⟩

theorem on_variant_of_head (h : variantHead.on cs = some (name, r)) : variant.on cs = (variantRest name).on r := by
  obtain ⟨as, m, has, hname⟩ := on_bind_eq_some h
  exact (on_bind_of_some has).trans (on_bind_of_some hname)

/-- A variant as it is written. -/
structure WrittenVariant where
  name : String
  literal : Option IntLiteral

namespace WrittenVariant

/-- What is written for its value can be read as a whole. -/
def Plain (v : WrittenVariant) : Prop := ∀ l ∈ v.literal, l.Plain

/-- The variant is called so and has the value that is written. -/
structure Declares (v : WrittenVariant) (x : VariantDecl) : Prop where
  name : x.name = v.name
  value : x.value.map Int64.toInt = v.literal.map IntLiteral.value

end WrittenVariant

/-- The variant is written here, up to the rest. -/
inductive VariantAt : WrittenVariant → List Char → List Char → Prop
  | bare {name : String} {cs rest : List Char} (hhead : variantHead.on cs = some (name, rest)) : VariantAt ⟨name, none⟩ cs rest
  | valued {name : String} {l : IntLiteral} {cs gap gap' rest : List Char}
    (hhead : variantHead.on cs = some (name, '=' :: (gap ++ (l.chars ++ (gap' ++ rest))))) (hgap : Gap gap) (hgap' : Gap gap') :
    VariantAt ⟨name, some l⟩ cs rest

/-- The variants are written here with commas between, and perhaps one behind the last, up to the closing brace. -/
inductive VariantsAt (tail : List Char) : List WrittenVariant → List Char → Prop
  | nil : VariantsAt tail [] ('}' :: tail)
  | last {v : WrittenVariant} {cs : List Char} (hv : VariantAt v cs ('}' :: tail)) : VariantsAt tail [v] cs
  | more {v : WrittenVariant} {vs : List WrittenVariant} {cs gap next : List Char} (hv : VariantAt v cs (',' :: (gap ++ next)))
    (hgap : Gap gap) (hsolid : Solid next) (h : VariantsAt tail vs next) : VariantsAt tail (v :: vs) cs

/-- What is left goes on within a value. -/
def Stuck (r : List Char) : Prop := Front (fun c => c = '=' ∨ isIdentifierPart c = true) r

theorem Stuck.solid (h : Stuck r) : Solid r := fun c hc hstart => by
  obtain ⟨d, hd, hP⟩ := h
  cases hd.symm.trans hc
  fin_cases hstart <;> revert hP <;> decide

theorem Stuck.head_ne (h : Stuck r) {c : Char} (hc : c ∈ [',', '}']) : r.head? ≠ some c := fun heq => by
  obtain ⟨d, hd, hP⟩ := h
  cases hd.symm.trans heq
  fin_cases hc <;> revert hP <;> decide

namespace VariantAt
variable {v : WrittenVariant}

section
variable (h : VariantAt v cs rest) (hrest : Marked rest)
include h hrest

theorem on_variant_of_plain (hhead : rest.head? ≠ some '=') (hv : v.Plain) : ∃ x, variant.on cs = some (x, rest) ∧ v.Declares x := by
  cases h with
  | @bare name _ _ hname =>
    have hnone : (do symbol "="; integerLiteral).on rest = none :=
      on_bind_of_none (on_symbol_of_head '=' rfl (hrest.ends .none).solid hhead)
    exact ⟨⟨name, none⟩, (on_variant_of_head hname).trans (on_bind_of_some (on_optional_of_none hnone)), rfl, rfl⟩
  | @valued name l _ gap gap' _ hname hgap hgap' =>
    obtain ⟨n, hread, hvalue⟩ := l.on_integerLiteral_of_plain (hrest.ends hgap') (hv l rfl)
    have hsolid : Solid (l.chars ++ (gap' ++ rest)) := l.solid
    have hsign := on_symbol (s := "=") rfl (by decide) hgap hsolid
    refine ⟨⟨name, some n⟩, (on_variant_of_head hname).trans ?_, rfl, congrArg some hvalue⟩
    exact on_bind_of_some (on_optional_of_some ((on_bind_of_some hsign).trans hread))

theorem on_variant_of_not_plain (hv : ¬ v.Plain) : ∃ x r, variant.on cs = some (x, r) ∧ Stuck r := by
  cases h with
  | bare => exact absurd (fun _ hl => nomatch hl) hv
  | @valued name l _ gap gap' _ hname hgap hgap' =>
    have hl : ¬ l.Plain := fun hl => hv fun l' heq => Option.some.inj heq ▸ hl
    have hsolid : Solid (l.chars ++ (gap' ++ rest)) := l.solid
    have hsign := on_symbol (s := "=") rfl (by decide) hgap hsolid
    rcases l.on_integerLiteral_of_not_plain (hrest.ends hgap') hl with hnone | ⟨n, c, more, hread, hpart⟩
    · refine ⟨⟨name, none⟩, '=' :: (gap ++ (l.chars ++ (gap' ++ rest))), (on_variant_of_head hname).trans ?_, ⟨'=', rfl, .inl rfl⟩⟩
      exact on_bind_of_some (on_optional_of_none ((on_bind_of_some hsign).trans hnone))
    · refine ⟨⟨name, some n⟩, c :: more, (on_variant_of_head hname).trans ?_, ⟨c, rfl, .inr hpart⟩⟩
      exact on_bind_of_some (on_optional_of_some ((on_bind_of_some hsign).trans hread))

end

end VariantAt

theorem on_variant_of_close : variant.on ('}' :: tail) = none :=
  starts_variant.on_eq_none (on_trivia_of_solid (solid_cons (by decide))) ⟨'}', rfl, by simp⟩

namespace VariantsAt
variable {vs : List WrittenVariant}

/-- By induction on the list: a comma leads to the next variant, or is the one behind the last. -/
theorem on_sepBy1_of_plain (h : VariantsAt tail vs cs) (hne : vs ≠ []) (hall : ∀ v ∈ vs, v.Plain) :
    ∃ xs r o, (sepBy1 variant (symbol ",")).on cs = some (xs, r) ∧ (optional (symbol ",")).on r = some (o, '}' :: tail) ∧
      List.Forall₂ WrittenVariant.Declares vs xs := by
  have hclose : (symbol ",").on ('}' :: tail) = none := on_symbol_of_head ',' rfl (solid_cons (by decide)) (by simp)
  induction h with
  | nil => exact absurd rfl hne
  | @last v cs hv =>
    obtain ⟨x, hread, hx⟩ := hv.on_variant_of_plain (marked_cons (by decide)) (by simp) (hall v List.mem_cons_self)
    exact ⟨[x], _, _, on_sepBy1_single hread (on_bind_of_none hclose), on_optional_of_none hclose, .cons hx .nil⟩
  | @more v vs cs gap next hv hgap hsolid h ih =>
    obtain ⟨hplain, hrest⟩ := List.forall_mem_cons.mp hall
    obtain ⟨x, hread, hx⟩ := hv.on_variant_of_plain (marked_cons (by decide)) (by simp) hplain
    have hcomma := on_symbol (s := ",") rfl (by decide) hgap hsolid
    rcases eq_or_ne vs [] with rfl | hmore
    · cases h with
      | nil =>
        have hend : (do symbol ","; variant).on (',' :: (gap ++ '}' :: tail)) = none :=
          (on_bind_of_some hcomma).trans on_variant_of_close
        exact ⟨[x], _, _, on_sepBy1_single hread hend, on_optional_of_some hcomma, .cons hx .nil⟩
    · obtain ⟨xs, r, o, hxs, hend, hdeclares⟩ := ih hmore hrest
      refine ⟨x :: xs, r, o, on_sepBy1_cons hread hcomma ?_ hxs, hend, .cons hx hdeclares⟩
      simp only [List.length_cons, List.length_append]
      omega

theorem on_sepEndBy_of_plain (h : VariantsAt tail vs cs) (hall : ∀ v ∈ vs, v.Plain) :
    ∃ xs, (sepEndBy variant (symbol ",")).on cs = some (xs, '}' :: tail) ∧ List.Forall₂ WrittenVariant.Declares vs xs := by
  rcases eq_or_ne vs [] with rfl | hne
  · cases h with
    | nil => exact ⟨[], on_sepEndBy_of_none on_variant_of_close, .nil⟩
  · obtain ⟨xs, r, o, hxs, hend, hdeclares⟩ := h.on_sepBy1_of_plain hne hall
    exact ⟨xs, on_sepEndBy_of_some hxs hend, hdeclares⟩

theorem on_sepBy1_of_not_plain (h : VariantsAt tail vs cs) (hsome : ∃ v ∈ vs, ¬ v.Plain) :
    ∃ xs r, (sepBy1 variant (symbol ",")).on cs = some (xs, r) ∧ Stuck r := by
  have hstuck : ∀ {v : WrittenVariant} {cs rest : List Char}, VariantAt v cs rest → Marked rest → ¬ v.Plain →
      ∃ xs r, (sepBy1 variant (symbol ",")).on cs = some (xs, r) ∧ Stuck r := by
    intro v cs rest hv hrest hplain
    obtain ⟨x, r, hread, hr⟩ := hv.on_variant_of_not_plain hrest hplain
    exact ⟨[x], r, on_sepBy1_single hread (on_bind_of_none (on_symbol_of_head ',' rfl hr.solid (hr.head_ne (by simp)))), hr⟩
  induction h with
  | nil =>
    obtain ⟨v, hv, -⟩ := hsome
    cases hv
  | last hv =>
    obtain ⟨v, hmem, hplain⟩ := hsome
    cases List.mem_singleton.mp hmem
    exact hstuck hv (marked_cons (by decide)) hplain
  | @more v vs cs gap next hv hgap hsolid h ih =>
    -- The list is read as far as the first variant that is not plain.
    by_cases hplain : v.Plain
    · obtain ⟨x, hread, -⟩ := hv.on_variant_of_plain (marked_cons (by decide)) (by simp) hplain
      obtain ⟨v', hmem, hplain'⟩ := hsome
      rcases List.mem_cons.mp hmem with rfl | hmem
      · exact absurd hplain hplain'
      obtain ⟨xs, r, hxs, hr⟩ := ih ⟨v', hmem, hplain'⟩
      refine ⟨x :: xs, r, on_sepBy1_cons hread (on_symbol rfl (by decide) hgap hsolid) ?_ hxs, hr⟩
      simp only [List.length_cons, List.length_append]
      omega
    · exact hstuck hv (marked_cons (by decide)) hplain

end VariantsAt

/-! ### Enums -/

/-- An enum up to its opening brace, without its variants. -/
def enumHead : Parser TypeDecl := do
  let attributes ← attributes
  let modifiers ← modifiers
  keyword "enum"
  let name ← identifier
  let base ← base
  openBrace
  return {
    name, base, attributes, modifiers
    kind := .enumKind, module := none, nspace := none, members := [], variants := [] }

/-- The variants that stand behind the opening brace. -/
def enumRest (d : TypeDecl) : Parser TypeDecl := do
  let variants ← sepEndBy variant (symbol ",")
  closeBrace
  return { d with variants }

theorem starts_enumHead : Starts Still (fun c => c = '[' ∨ isIdentifierStart c = true) enumHead :=
  .attributes_bind fun _ => starts_behindModifiers fun _ => (starts_keyword _).bind

theorem on_enumeration_of_head (h : enumHead.on cs = some (d, r)) : enumeration.on cs = (enumRest d).on r := by
  obtain ⟨as, cs₁, has, h⟩ := on_bind_eq_some h
  obtain ⟨ms, cs₂, hms, h⟩ := on_bind_eq_some h
  obtain ⟨_, cs₃, henum, h⟩ := on_bind_eq_some h
  obtain ⟨name, cs₄, hname, h⟩ := on_bind_eq_some h
  obtain ⟨base, cs₅, hbase, h⟩ := on_bind_eq_some h
  obtain ⟨_, hopen, rfl⟩ := on_map_eq_some h
  refine (on_bind_of_some has).trans ((on_bind_of_some hms).trans ((on_bind_of_some henum).trans ?_))
  exact (on_bind_of_some hname).trans ((on_bind_of_some hbase).trans (on_between_bind hopen))

section
variable (hstill : Still cs)
include hstill

theorem on_record_of_enumHead (h : enumHead.on cs = some (d, r)) : record.on cs = none := by
  obtain ⟨as, cs₁, has, h⟩ := on_bind_eq_some h
  obtain ⟨ms, cs₂, hms, h⟩ := on_bind_eq_some h
  obtain ⟨_, cs₃, henum, -⟩ := on_bind_eq_some h
  have hstill₂ : Still cs₂ := Leaves.after (Leaves.after hstill has) hms
  have hnone : ∀ k, "enum" ≠ k → (keyword k).on cs₂ = none := fun k hk => excludes_keyword hk hstill₂ henum
  have hkind : recordKind.on cs₂ = none :=
    (on_orElse_of_none (on_bind_of_none (hnone _ (by decide)))).trans (on_bind_of_none (hnone _ (by decide)))
  exact (on_bind_of_some has).trans ((on_bind_of_some hms).trans (on_bind_of_none hkind))

/-- A word that is no modifier and not the one for enums begins no enum. -/
theorem on_keyword_of_enumHead (h : enumHead.on cs = some (d, r)) (hk : k ∉ modifierWords) (hne : k ≠ "enum") :
    (keyword k).on cs = none := by
  rw [Option.eq_none_iff_forall_ne_some]
  rintro ⟨_, m⟩ hkeyword
  obtain ⟨m', hword⟩ := on_keyword_eq_some hstill hkeyword
  have hgroup : attributeGroup.on cs = none := starts_attributeGroup.on_eq_none hstill ((head?_of_word hword).mono fun c hc heq => by
    rw [heq] at hc
    cases hc)
  have hattributes : attributes.on cs = some ([], cs) := on_bind_of_some (p := many attributeGroup) (on_many_of_none hgroup)
  have hmodifiers : modifiers.on cs = some ([], cs) := on_many_of_none (on_modifier_of_word hstill hword hk)
  have hnone : enumHead.on cs = none := (on_bind_of_some hattributes).trans ((on_bind_of_some hmodifiers).trans
    (on_bind_of_none (on_keyword_of_word hstill hword hne)))
  rw [h] at hnone
  cases hnone

theorem on_item_of_enumHead (h : enumHead.on cs = some (d, r)) : (item declarations).on cs = typeItem.on cs := by
  have husing : usingItem.on cs = none := on_bind_of_none (on_keyword_of_enumHead hstill h (by decide) (by decide))
  have hkeyword := on_keyword_of_enumHead hstill h (k := "namespace") (by decide) (by decide)
  have hnamespace : namespaceItem.on cs = none := on_bind_of_none hkeyword
  have hnested : (nestedItem declarations).on cs = none := on_bind_of_none hkeyword
  exact (on_orElse_of_none husing).trans ((on_orElse_of_none hnamespace).trans (on_orElse_of_none hnested))

end

theorem on_closeBrace (htail : trivia.on tail = some ((), r)) : closeBrace.on ('}' :: tail) = some ((), r) := by
  have hbrace : (exactly ['}']).on ('}' :: tail) = some ((), tail) := by
    rw [on_exactly]
    simp
  exact (on_bind_of_some (on_trivia_of_solid (solid_cons (by decide)))).trans ((on_bind_of_some hbrace).trans (on_bind_of_some htail))

/-- An enum begins at the place, and these are its variants up to the closing brace. -/
def EnumAt (z : List Char) (d : TypeDecl) (vs : List WrittenVariant) (tail : List Char) : Prop :=
  ∃ body, enumHead.on z = some (d, body) ∧ VariantsAt tail vs body

namespace EnumAt
variable {vs : List WrittenVariant} (h : EnumAt z d vs tail)
include h

theorem nspace : d.nspace = none := by
  obtain ⟨body, hhead, -⟩ := h
  obtain ⟨as, _, -, hhead⟩ := on_bind_eq_some hhead
  obtain ⟨ms, _, -, hhead⟩ := on_bind_eq_some hhead
  obtain ⟨_, _, -, hhead⟩ := on_bind_eq_some hhead
  obtain ⟨name, _, -, hhead⟩ := on_bind_eq_some hhead
  obtain ⟨base, _, -, hhead⟩ := on_bind_eq_some hhead
  obtain ⟨_, -, rfl⟩ := on_map_eq_some hhead
  rfl

variable (hstill : Still z)
include hstill

theorem front : Front (fun c => c = '[' ∨ isIdentifierStart c = true) z := by
  obtain ⟨body, hhead, -⟩ := h
  exact starts_enumHead hstill hhead

theorem solid : Solid z := fun c hc hstart => by
  obtain ⟨d, hd, hP⟩ := h.front hstill
  cases hd.symm.trans hc
  fin_cases hstart <;> rcases hP with hP | hP <;> cases hP

theorem on_typeDecl_of_plain (hall : ∀ v ∈ vs, v.Plain) : ∃ variants, List.Forall₂ WrittenVariant.Declares vs variants ∧
    ∀ m, trivia.on tail = some ((), m) →
      typeDecl.on z = (do let _ ← optional (symbol ";"); return { d with variants } : Parser TypeDecl).on m := by
  obtain ⟨body, hhead, hvariants⟩ := h
  obtain ⟨xs, hxs, hdeclares⟩ := hvariants.on_sepEndBy_of_plain hall
  refine ⟨xs, hdeclares, fun m htail => ?_⟩
  have henum : enumeration.on z = some ({ d with variants := xs }, m) :=
    (on_enumeration_of_head hhead).trans ((on_bind_of_some hxs).trans (on_bind_of_some (on_closeBrace htail)))
  exact on_bind_of_some ((on_orElse_of_none (on_record_of_enumHead hstill hhead)).trans henum)

theorem on_item_of_not_plain (hsome : ∃ v ∈ vs, ¬ v.Plain) : (item declarations).on z = none := by
  obtain ⟨body, hhead, hvariants⟩ := h
  obtain ⟨xs, r, hxs, hr⟩ := hvariants.on_sepBy1_of_not_plain hsome
  have hcomma : (symbol ",").on r = none := on_symbol_of_head ',' rfl hr.solid (hr.head_ne (by simp))
  have hclose : closeBrace.on r = none :=
    starts_closeBrace.on_eq_none (on_trivia_of_solid hr.solid) (hr.mono fun c hc heq => by
      subst heq
      revert hc
      decide)
  have hrest : (enumRest d).on body = none :=
    (on_bind_of_some (on_sepEndBy_of_some hxs (on_optional_of_none hcomma))).trans (on_bind_of_none hclose)
  have htype : typeDecl.on z = none := on_bind_of_none
    ((on_orElse_of_none (on_record_of_enumHead hstill hhead)).trans ((on_enumeration_of_head hhead).trans hrest))
  exact (on_item_of_enumHead hstill hhead).trans (on_bind_of_none htype)

end EnumAt

/-- In a file that is accepted, every enum has the values that are written. Where each is plain, the enum is read with them;
otherwise the file is refused. -/
theorem enum_values_of_literals {source : List Char} {vs : List WrittenVariant} (hplace : Reached z source)
    (h : EnumAt z d vs tail) :
    ((∀ v ∈ vs, v.Plain) → ∃ variants, List.Forall₂ WrittenVariant.Declares vs variants ∧
      (∃ w, typeDecl.on z = some ({ d with variants }, w)) ∧
      (∀ ds, parseFile (String.ofList source) = .ok ds → ∃ nspace, { d with variants, nspace } ∈ ds) ∧
      ∀ front, Gap front → Gap tail → parseFile (String.ofList (front ++ z)) = .ok [{ d with variants }]) ∧
    ((∃ v ∈ vs, ¬ v.Plain) → ∃ e, parseFile (String.ofList source) = .error e) := by
  have hstill := hplace.still
  have hfront := h.front hstill
  refine ⟨fun hall => ?_, fun hsome => ?_⟩
  · obtain ⟨variants, hdeclares, hread⟩ := h.on_typeDecl_of_plain hstill hall
    obtain ⟨_, m, hm⟩ := total_trivia tail
    obtain ⟨o, w, hw⟩ := total_optional (p := symbol ";") m
    have htype : typeDecl.on z = some ({ d with variants }, w) := (hread m hm).trans (on_bind_of_some hw)
    refine ⟨variants, hdeclares, ⟨w, htype⟩, fun ds hparse => ?_, fun front hgap htail => ?_⟩
    · obtain ⟨n, hn⟩ := hplace.mem_of_parseFile (on_item_of_type hstill (on_bind_of_some htype)) hparse
      exact ⟨n, by simpa [TypeDecl.within, h.nspace] using hn⟩
    · have hsolid : Solid [] := by
        intro c hc
        cases hc
      have hempty : trivia.on tail = some ((), []) := by
        rw [← List.append_nil tail]
        exact on_trivia htail hsolid
      have hsemicolon : (optional (symbol ";")).on [] = some (none, []) :=
        on_optional_of_none (on_symbol_of_head ';' rfl hsolid (by simp))
      have htype : typeDecl.on z = some ({ d with variants }, []) := (hread [] hempty).trans (on_bind_of_some hsemicolon)
      exact parseFile_of_item hgap (h.solid hstill) (on_item_of_type hstill (on_bind_of_some htype))
  · refine hplace.exists_error (h.on_item_of_not_plain hstill hsome) (unclosed_of_front hstill hfront ?_)
    rintro c hc rfl
    rcases hc with hc | hc <;> cases hc

namespace Modes

def minusFive : IntLiteral := .decimal true ⟨'5', [], fun d hd => by cases List.mem_singleton.mp hd; rfl⟩

def mask : IntLiteral := .hexadecimal 'x' (by simp) ⟨'7', ['F'], fun d hd => by fin_cases hd <;> rfl⟩

def written : List WrittenVariant := [⟨"A", some minusFive⟩, ⟨"B", some mask⟩, ⟨"C", none⟩]

def behind : List Char := " \x7d".toList

def third : List Char := 'C' :: '\x7d' :: behind

def second : List Char := "B = ".toList ++ mask.chars ++ ", ".toList ++ third

def first : List Char := "A = ".toList ++ minusFive.chars ++ ", ".toList ++ second

/-- The enum, in a namespace. -/
def place : List Char := "enum Mode \x7b ".toList ++ first

def source : List Char := "namespace Game \x7b ".toList ++ place

def mode : TypeDecl where
  name := "Mode"
  kind := .enumKind
  module := none
  nspace := none
  base := none
  attributes := []
  modifiers := []
  members := []
  variants := []

set_option maxRecDepth 4000 in
theorem reached : Reached place source := by
  have hhead : nestedHead.on source = some ("Game", place) := by cbv
  exact ⟨source, on_trivia_of_solid (solid_cons (by decide)), .nested .refl hhead (.here .refl)⟩

set_option maxRecDepth 4000 in
theorem enumAt : EnumAt place mode written behind := by
  have hgap : Gap [' '] := .blank rfl .none
  have hhead : enumHead.on place = some (mode, first) := by cbv
  have hfirst : VariantAt ⟨"A", some minusFive⟩ first (',' :: ([' '] ++ second)) := by
    have hname : variantHead.on first = some ("A", '=' :: ([' '] ++ (minusFive.chars ++ ([] ++ ',' :: ([' '] ++ second))))) := by cbv
    exact .valued hname hgap .none
  have hsecond : VariantAt ⟨"B", some mask⟩ second (',' :: ([' '] ++ third)) := by
    have hname : variantHead.on second = some ("B", '=' :: ([' '] ++ (mask.chars ++ ([] ++ ',' :: ([' '] ++ third))))) := by cbv
    exact .valued hname hgap .none
  have hthird : VariantAt ⟨"C", none⟩ third ('\x7d' :: behind) := .bare (by cbv)
  exact ⟨first, hhead, .more hfirst hgap (solid_cons (by decide)) (.more hsecond hgap (solid_cons (by decide)) (.last hthird))⟩

theorem plain_of_mem : ∀ v ∈ written, v.Plain := by
  have hfive : minusFive.value = -5 := rfl
  have hmask : mask.value = 127 := by simp [mask, IntLiteral.value, Digits.number, Digits.chars, Nat.ofDigits, digitValue]
  intro v hv l hl
  simp only [written, List.mem_cons, List.not_mem_nil, or_false] at hv
  rcases hv with rfl | rfl | rfl <;> cases hl
  · exact ⟨fun h => h.2 rfl, by rw [hfive]; omega, by rw [hfive]; omega⟩
  · exact ⟨fun h => absurd h.1 (by decide), by rw [hmask]; omega, by rw [hmask]; omega⟩

theorem enum_values_of_literals_mode :
    Reached place source ∧ EnumAt place mode written behind ∧ (∀ v ∈ written, v.Plain) ∧
      ∃ variants, List.Forall₂ WrittenVariant.Declares written variants ∧
        ∀ ds, parseFile (String.ofList source) = .ok ds → ∃ nspace, { mode with variants, nspace } ∈ ds := by
  obtain ⟨variants, hdeclares, -, hmem, -⟩ := (enum_values_of_literals reached enumAt).1 plain_of_mem
  exact ⟨reached, enumAt, plain_of_mem, variants, hdeclares, hmem⟩

end Modes

/-- The number 15, with a zero in front. -/
def IntLiteral.paddedFifteen : IntLiteral := .hexadecimal 'x' (by simp) ⟨'0', ['F'], fun d hd => by fin_cases hd <;> rfl⟩

set_option maxRecDepth 4000 in
/-- A zero in front of a number that could be held makes the reader stop within it. -/
theorem leading_zero_refused : IntLiteral.paddedFifteen.value = 15 ∧
    ∃ e, parseFile (String.ofList ("enum Mode \x7b A = ".toList ++ IntLiteral.paddedFifteen.chars ++ " \x7d".toList)) = .error e :=
  ⟨by simp [IntLiteral.paddedFifteen, IntLiteral.value, Digits.number, Digits.chars, Nat.ofDigits, digitValue], _, by cbv⟩

end EngineBridge.Source
