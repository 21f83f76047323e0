import EngineBridge.Proofs.Export.Declarations
import EngineBridge.Proofs.Export.Lines
import EngineBridge.Proofs.Source.SteadyFiles

/-! Wrappers as source files.

The constructor of a class hands its argument on to the constructor of the base. The reader of source files knows
constructors, but none that do this: it reads the wrapper of a class up to there and refuses the file. -/

namespace EngineBridge
open EngineBridge.Parser EngineBridge.Source

/-! ### Spelled names -/

section
variable {name : String} {d : Char} {gap rest : List Char}

theorem toNat_lt_of_inName {c : Char} (h : inName c = true) : c.toNat < 128 := by
  delta inName Char.isAlphanum Char.isAlpha Char.isUpper Char.isLower at h
  simp only [Char.isDigit, Bool.or_eq_true,
    Bool.and_eq_true, decide_eq_true_eq, beq_iff_eq, ge_iff_le, UInt32.le_iff_toNat_le] at h
  rcases h with ((⟨-, h⟩ | ⟨-, h⟩) | ⟨-, h⟩) | rfl
  · exact Nat.lt_of_le_of_lt h (by decide)
  · exact Nat.lt_of_le_of_lt h (by decide)
  · exact Nat.lt_of_le_of_lt h (by decide)
  · decide

theorem isIdentifierPart_of_inName {c : Char} (h : inName c = true) : isIdentifierPart c = true := by
  unfold isIdentifierPart
  rw [if_pos (toNat_lt_of_inName h)]
  exact h

theorem isIdentifierStart_of_startsName {c : Char} (h : startsName c = true) : isIdentifierStart c = true := by
  unfold isIdentifierStart
  rw [if_pos (toNat_lt_of_inName (inName_of_startsName h))]
  exact h

/-- Identifiers of generated code are identifiers of source text. -/
theorem isIdentifier_source (h : isIdentifier name = true) : IsIdentifier name := by
  obtain ⟨c, cs, hchars, hstart, hparts⟩ := EngineBridge.isIdentifier_cons h
  unfold IsIdentifier isIdentifierText
  rw [hchars]
  rw [hchars, List.forall_mem_cons] at hparts
  simp only [isIdentifierStart_of_startsName hstart, Bool.true_and, List.all_eq_true]
  exact fun d hd => isIdentifierPart_of_inName (hparts.2 d hd)

/-- A spelled name is the name, with an at sign in front if it is a keyword. -/
theorem spelled_cases (name : String) : spelled name = name ∧ name ∉ managedKeywords ∨
    (spelled name).toList = '@' :: name.toList ∧ name ∈ managedKeywords := by
  unfold spelled
  split
  · next h => exact .inr ⟨by simp, List.contains_iff_mem.mp h⟩
  · next h => exact .inl ⟨rfl, mt List.contains_iff_mem.mpr h⟩

theorem solid_spelled (h : isIdentifier name = true) : Solid ((spelled name).toList ++ rest) := by
  rcases spelled_cases name with ⟨heq, -⟩ | ⟨heq, -⟩ <;> rw [heq]
  · exact solid_word (isIdentifier_source h)
  · exact solid_cons (by decide)

theorem head_spelled (h : isIdentifier name = true) (hd : isIdentifierStart d = false) (hat : d ≠ '@') :
    ((spelled name).toList ++ rest).head? ≠ some d := by
  rcases spelled_cases name with ⟨heq, -⟩ | ⟨heq, -⟩ <;> rw [heq]
  · exact head_word (isIdentifier_source h) hd
  · simpa using hat.symm

theorem on_identifier_spelled (h : isIdentifier name = true) (hends : Ends gap rest) :
    identifier.on ((spelled name).toList ++ (gap ++ rest)) = some (name, rest) := by
  rcases spelled_cases name with ⟨heq, -⟩ | ⟨heq, -⟩ <;> rw [heq]
  · exact on_identifier (isIdentifier_source h) hends
  · exact on_identifier_marked (isIdentifier_source h) hends

end

namespace Wrapper
section
variable {name nativeName parent module : String} {gap gap' rest : List Char} {as : List Attribute} {ms : List String}

/-! ### The members of a class -/

/-- The parameter of the constructor, with the colon behind it. -/
def handleText (rest : List Char) : List Char :=
  '(' :: ("IntPtr".toList ++ ([' '] ++ ("handle".toList ++ ([] ++ ')' :: ([' '] ++ ':' :: rest)))))

def constructorText (name : String) (rest : List Char) : List Char :=
  "public".toList ++ ([' '] ++ ((spelled name).toList ++ ([] ++ handleText rest)))

theorem on_params_handle (rest : List Char) : ∃ ps, params.on (handleText rest) = some (ps, ':' :: rest) := by
  have hname : Ends [' '] ("handle".toList ++ ([] ++ ')' :: ([' '] ++ ':' :: rest))) :=
    .blanks (by decide) (solid_word (by decide))
  exact ⟨_, on_params_single (solid_word (by decide))
    (on_param (by decide) (by decide) (by decide) hname (.mark (by decide)) (by simp)) (gap_of_blanks (by decide))
    (solid_cons (by decide))⟩

theorem on_memberAfter_constructor (h : isIdentifier name = true) :
    (memberAfter as ms).on ((spelled name).toList ++ ([] ++ handleText rest)) = none := by
  have hends : Ends [] (handleText rest) := .mark (by decide)
  obtain ⟨ps, hparams⟩ := on_params_handle rest
  have htype : ∀ e r, typeExpr.on ((spelled name).toList ++ ([] ++ handleText rest)) = some (e, r) → identifier.on r = none := by
    intro e r he
    rcases spelled_cases name with ⟨heq, -⟩ | ⟨heq, -⟩ <;> rw [heq] at he
    · have hname := on_typeExpr (isIdentifier_source h) hends fun d hd => by fin_cases hd <;> simp [handleText]
      obtain ⟨-, rfl⟩ := Prod.mk.inj (Option.some.inj (hname.symm.trans he))
      exact on_identifier_of_mark (by decide) (by decide) (by decide)
    · rw [List.cons_append, on_typeExpr_of_mark (by decide) (by decide)] at he
      cases he
  exact on_memberAfter_of_constructor (solid_spelled h) (head_spelled h (by decide) (by decide)) htype
    (on_identifier_spelled h hends) hparams on_methodBody_colon

/-- The name of a class may be read as a modifier; then the parentheses are all that is left. -/
theorem on_modifiers_constructor (rest : List Char) (h : isIdentifier name = true) : ∃ ms tail,
    modifiers.on ((spelled name).toList ++ ([] ++ handleText rest)) = some (ms, tail) ∧
      ∀ as ms', (memberAfter as ms').on tail = none := by
  have hends : Ends [] (handleText rest) := .mark (by decide)
  rcases spelled_cases name with ⟨heq, -⟩ | ⟨heq, -⟩
  · by_cases hmem : name ∈ modifierWords
    · have hrest : modifiers.on (handleText rest) = some ([], handleText rest) := on_modifiers_of_mark (by decide) (by decide)
      refine ⟨[name], handleText rest, ?_, fun as ms' => ?_⟩
      · rw [heq]
        exact on_modifiers_cons (isIdentifier_source h) hmem hends hrest
      · exact on_memberAfter_of_mark (by decide) (by decide) (by decide) (by decide)
    · refine ⟨[], (spelled name).toList ++ ([] ++ handleText rest), ?_, fun as ms' => on_memberAfter_constructor h⟩
      rw [heq]
      exact on_modifiers_of_ne (isIdentifier_source h) hmem hends.breaks
  · refine ⟨[], (spelled name).toList ++ ([] ++ handleText rest), ?_, fun as ms' => on_memberAfter_constructor h⟩
    rw [heq]
    exact on_modifiers_of_mark (by decide) (by decide)

theorem on_member_constructor (h : isIdentifier name = true) : member.on (constructorText name rest) = none := by
  have hpublic : IsIdentifier "public" := by decide
  have hends : Ends [' '] ((spelled name).toList ++ ([] ++ handleText rest)) := .blanks (by decide) (solid_spelled h)
  obtain ⟨ms, tail, hname, hafter⟩ := on_modifiers_constructor rest h
  refine (on_bind_of_some (on_attributes_of_head (solid_word hpublic) (head_word hpublic (by decide)))).trans ?_
  exact (on_bind_of_some (on_modifiers_cons hpublic (by decide) hends hname)).trans (hafter _ _)

/-- The value of the field for the engine's type. -/
def findText (nativeName : String) : List Char :=
  "NativeType".toList ++ (".Find(\"".toList ++ (nativeName.toList ++ "\")".toList))

def nativeFieldText (nativeName : String) (gap rest : List Char) : List Char :=
  "NativeType".toList ++ ([' '] ++ ("NativeType".toList ++ ([' '] ++ '=' :: ([' '] ++ (findText nativeName ++
    ';' :: (gap ++ rest))))))

def nativeTypeText (nativeName : String) (gap rest : List Char) : List Char :=
  "public".toList ++ ([' '] ++ ("static".toList ++ ([' '] ++ ("readonly".toList ++ ([' '] ++ nativeFieldText nativeName gap rest)))))

theorem length_lt_nativeTypeText : rest.length < (nativeTypeText nativeName gap rest).length := by
  unfold nativeTypeText nativeFieldText
  -- The lengths of the words do not matter.
  generalize "public".toList = publicWord, "static".toList = staticWord, "readonly".toList = readonlyWord,
    "NativeType".toList = typeWord, findText nativeName = value
  simp only [List.length_append, List.length_cons]
  omega

theorem on_member_nativeType (hfree : ';' ∉ nativeName.toList) (hgap : Gap gap) (hrest : Solid rest) :
    ∃ m, member.on (nativeTypeText nativeName gap rest) = some (m, rest) := by
  have hword : ∀ s ∈ ["public", "static", "readonly", "NativeType"], IsIdentifier s := by decide
  have hends : ∀ {s : String} {cs : List Char}, s ∈ ["public", "static", "readonly", "NativeType"] → Ends [' '] (s.toList ++ cs) :=
    fun hs => .blanks (by decide) (solid_word (hword _ hs))
  have hvalue : Solid (findText nativeName) := solid_word (s := "NativeType") (by decide)
  have hne : findText nativeName ≠ [] := List.append_ne_nil_of_left_ne_nil (by decide) _
  have hsemicolon : ';' ∉ findText nativeName := by
    have hfront : ';' ∉ "NativeType".toList := by decide
    have hopen : ';' ∉ ".Find(\"".toList := by decide
    have hclose : ';' ∉ "\")".toList := by decide
    intro hmem
    rcases List.mem_append.mp hmem with hmem | hmem
    · exact hfront hmem
    rcases List.mem_append.mp hmem with hmem | hmem
    · exact hopen hmem
    · exact (List.mem_append.mp hmem).elim hfree hclose
  have hfield : Ends [' '] (nativeFieldText nativeName gap rest) := hends (by decide)
  -- Three words are modifiers, and the fourth is the type of the field.
  have hmodifiers : modifiers.on (nativeTypeText nativeName gap rest) =
      some (["public", "static", "readonly"], nativeFieldText nativeName gap rest) := by
    refine on_modifiers_cons (hword _ (by decide)) (by decide) (hends (by decide)) ?_
    refine on_modifiers_cons (hword _ (by decide)) (by decide) (hends (by decide)) ?_
    refine on_modifiers_cons (hword _ (by decide)) (by decide) hfield ?_
    exact on_modifiers_of_ne (hword _ (by decide)) (by decide) (hends (s := "NativeType") (by decide)).breaks
  have hattributes : attributes.on (nativeTypeText nativeName gap rest) = some ([], nativeTypeText nativeName gap rest) :=
    on_attributes_of_head (solid_word (hword _ (by decide))) (head_word (hword _ (by decide)) (by decide))
  have hafter : (memberAfter [] ["public", "static", "readonly"]).on (nativeFieldText nativeName gap rest) =
      some (some (.field ⟨"NativeType", ⟨"NativeType", []⟩, [], ["public", "static", "readonly"]⟩), rest) :=
    on_memberAfter_field (hword _ (by decide)) (hword _ (by decide)) (hends (by decide)) hvalue hne
      hsemicolon hgap hrest
  exact ⟨_, (on_bind_of_some hattributes).trans ((on_bind_of_some hmodifiers).trans hafter)⟩

/-! ### The class -/

/-- What stands behind the colon in the head of a class. -/
def bodyText (nativeName name : String) (gap gap' rest : List Char) : List Char :=
  '{' :: (gap ++ nativeTypeText nativeName gap' (constructorText name rest))

/-- The body of the class is read up to the constructor, and not beyond. -/
theorem on_body (h : isIdentifier name = true) (hfree : ';' ∉ nativeName.toList) (hgap : Gap gap) (hgap' : Gap gap') :
    (between openBrace closeBrace (many member)).on (bodyText nativeName name gap gap' rest) = none := by
  have hpublic : IsIdentifier "public" := by decide
  have hsolid : Solid (constructorText name rest) := solid_word hpublic
  obtain ⟨m, hfield⟩ := on_member_nativeType hfree hgap' hsolid
  have hmembers : on (many member) (nativeTypeText nativeName gap' (constructorText name rest)) =
      some ([m], constructorText name rest) := by
    exact on_many_of_some hfield length_lt_nativeTypeText (on_many_of_none (on_member_constructor h))
  refine (on_bind_of_some (on_symbol (s := "\x7b") rfl (by decide) hgap (solid_word hpublic))).trans ?_
  refine (on_bind_of_some hmembers).trans (on_bind_of_none ?_)
  exact on_symbol_of_head (s := "\x7d") '}' rfl hsolid (head_word hpublic (by decide))

/-- The head of a class behind the keyword, up to its body. -/
def headText (name parent : String) (gap rest : List Char) : List Char :=
  (spelled name).toList ++ ([' '] ++ ':' :: ([' '] ++ ((spelled parent).toList ++ (gap ++ rest))))

/-- The base is read up to the body of the class, or not at all. -/
theorem rest_of_base {b : Option TypeExpr} {r : List Char} (hparent : isIdentifier parent = true)
    (hends : Ends gap ('{' :: rest)) (h : base.on (':' :: ([' '] ++ ((spelled parent).toList ++ (gap ++ '{' :: rest)))) = some (b, r)) :
    r = '{' :: rest ∨ ∃ cs, r = ':' :: cs := by
  have hcolon : (symbol ":").on (':' :: ([' '] ++ ((spelled parent).toList ++ (gap ++ '{' :: rest)))) =
      some ((), (spelled parent).toList ++ (gap ++ '{' :: rest)) :=
    on_symbol rfl (by decide) (gap_of_blanks (by decide)) (solid_spelled hparent)
  rcases spelled_cases parent with ⟨heq, -⟩ | ⟨heq, -⟩
  · rw [heq] at h hcolon
    have htype := on_typeExpr (isIdentifier_source hparent) hends fun d hd => by fin_cases hd <;> simp
    have hcomma : (symbol ",").on ('{' :: rest) = none := on_symbol_of_head ',' rfl hends.solid (by simp)
    have hbases : (sepBy1 typeExpr (symbol ",")).on (parent.toList ++ (gap ++ '{' :: rest)) = some ([⟨parent, []⟩], '{' :: rest) :=
      (on_bind_of_some htype).trans (on_bind_of_some (on_many_of_none (on_bind_of_none hcomma)))
    have hlist : (do symbol ":"; sepBy1 typeExpr (symbol ",")).on (':' :: ([' '] ++ (parent.toList ++ (gap ++ '{' :: rest)))) =
        some ([⟨parent, []⟩], '{' :: rest) := (on_bind_of_some hcolon).trans hbases
    have hread := on_bind_of_some (f := fun bases => pure (bases.bind List.head?)) (on_optional_of_some hlist)
    obtain ⟨-, rfl⟩ := Prod.mk.inj (Option.some.inj (hread.symm.trans h))
    exact .inl rfl
  · have hnone : (do symbol ":"; sepBy1 typeExpr (symbol ",")).on
        (':' :: ([' '] ++ ((spelled parent).toList ++ (gap ++ '{' :: rest)))) = none := by
      refine (on_bind_of_some hcolon).trans (on_bind_of_none ?_)
      rw [heq]
      exact on_typeExpr_of_mark (by decide) (by decide)
    have hread := on_bind_of_some (f := fun bases => pure (bases.bind List.head?)) (on_optional_of_none hnone)
    obtain ⟨-, rfl⟩ := Prod.mk.inj (Option.some.inj (hread.symm.trans h))
    exact .inr ⟨_, rfl⟩

def classText (name parent nativeName : String) (gap gap' gap'' rest : List Char) : List Char :=
  "class".toList ++ ([' '] ++ headText name parent gap (bodyText nativeName name gap' gap'' rest))

def partialText (cs : List Char) : List Char := "partial".toList ++ ([' '] ++ cs)

/-- The modifiers of a class. -/
def modifiersText (abstract : Bool) (cs : List Char) : List Char :=
  "public".toList ++ ([' '] ++ if abstract then "abstract".toList ++ ([' '] ++ partialText cs) else partialText cs)

/-- The mark of a class that is out of date, and the modifiers. -/
def frontText (deprecated abstract : Bool) (gap cs : List Char) : List Char :=
  if deprecated then '[' :: ("Obsolete".toList ++ ']' :: (gap ++ modifiersText abstract cs)) else modifiersText abstract cs

theorem on_modifiers_front (abstract : Bool) {s : String} (hs : IsIdentifier s) (hmem : s ∉ modifierWords) (hrest : Breaks rest) :
    ∃ ms, modifiers.on (modifiersText abstract (s.toList ++ rest)) = some (ms, s.toList ++ rest) := by
  have hpartial : modifiers.on (partialText (s.toList ++ rest)) = some (["partial"], s.toList ++ rest) :=
    on_modifiers_cons (by decide) (by decide) (.blanks (by decide) (solid_word hs)) (on_modifiers_of_ne hs hmem hrest)
  have hends : Ends [' '] (partialText (s.toList ++ rest)) := .blanks (by decide) (solid_word (by decide))
  cases abstract with
  | false => exact ⟨_, on_modifiers_cons (by decide) (by decide) hends hpartial⟩
  | true =>
    have habstract := on_modifiers_cons (s := "abstract") (by decide) (by decide) hends hpartial
    exact ⟨_, on_modifiers_cons (by decide) (by decide) (.blanks (by decide) (solid_word (by decide))) habstract⟩

theorem on_attributes_front (rest : List Char) (deprecated abstract : Bool) (hgap : Gap gap) :
    ∃ as, attributes.on (frontText deprecated abstract gap rest) = some (as, modifiersText abstract rest) := by
  have hpublic : IsIdentifier "public" := by decide
  cases deprecated with
  | false => exact ⟨_, on_attributes_of_head (solid_word hpublic) (head_word hpublic (by decide))⟩
  | true => exact ⟨_, on_attributes_single (by decide) hgap (solid_word hpublic) (head_word hpublic (by decide))⟩

end

section
variable {name nativeName parent module : String} {gap₁ gap₂ gap₃ gap₄ rest : List Char} (hname : isIdentifier name = true)
  (hparent : isIdentifier parent = true) (hfree : ';' ∉ nativeName.toList) (h₂ : Gap gap₂) (hne₂ : gap₂ ≠ []) (h₃ : Gap gap₃)
  (h₄ : Gap gap₄)
include hname hparent hfree h₂ hne₂ h₃ h₄

theorem on_typeDecl_class (deprecated abstract : Bool) (h₁ : Gap gap₁) :
    typeDecl.on (frontText deprecated abstract gap₁ (classText name parent nativeName gap₂ gap₃ gap₄ rest)) = none := by
  have hclass : IsIdentifier "class" := by decide
  have hends : Ends [' '] (headText name parent gap₂ (bodyText nativeName name gap₃ gap₄ rest)) :=
    .blanks (by decide) (solid_spelled hname)
  obtain ⟨as, has⟩ := on_attributes_front (classText name parent nativeName gap₂ gap₃ gap₄ rest) deprecated abstract h₁
  obtain ⟨ms, hms⟩ := on_modifiers_front abstract hclass (by decide) hends.breaks
  refine on_typeDecl_of_front has hms (fun as ms => ?_) (on_keyword_of_ne hclass (by decide) hends.breaks)
  have hkind : ((do keyword "class"; return TypeKind.classKind) <|> (do keyword "struct"; return TypeKind.structKind)).on
      (classText name parent nativeName gap₂ gap₃ gap₄ rest) = some (.classKind, headText name parent gap₂
        (bodyText nativeName name gap₃ gap₄ rest)) := on_orElse_of_some (on_bind_of_some (on_keyword hclass hends))
  have hcolon : Ends [' '] (':' :: ([' '] ++ ((spelled parent).toList ++ (gap₂ ++ bodyText nativeName name gap₃ gap₄ rest)))) :=
    .blanks (by decide) (solid_cons (by decide))
  have hbody : Ends gap₂ (bodyText nativeName name gap₃ gap₄ rest) := .of_gap h₂ hne₂ (solid_cons (by decide))
  refine (on_bind_of_some hkind).trans ((on_bind_of_some (on_identifier_spelled hname hcolon)).trans ?_)
  rcases hbase : base.on (':' :: ([' '] ++ ((spelled parent).toList ++ (gap₂ ++ bodyText nativeName name gap₃ gap₄ rest))))
    with _ | ⟨b, r⟩
  · exact on_bind_of_none hbase
  · refine (on_bind_of_some hbase).trans (on_bind_of_none ?_)
    obtain rfl | ⟨cs, rfl⟩ := rest_of_base hparent hbody hbase
    · exact on_body hname hfree h₃ h₄
    · exact on_bind_of_none (on_symbol_of_head (s := "\x7b") '{' rfl (solid_cons (by decide)) (by simp))

/-- The class is no part of a file. -/
theorem on_item_class {decls : Parser (List TypeDecl)} (deprecated abstract : Bool) (h₁ : Gap gap₁) :
    (item decls).on (frontText deprecated abstract gap₁ (classText name parent nativeName gap₂ gap₃ gap₄ rest)) = none := by
  have hpublic : IsIdentifier "public" := by decide
  have hkeyword : ∀ k ∈ ["using", "namespace"], (keyword k).on
      (frontText deprecated abstract gap₁ (classText name parent nativeName gap₂ gap₃ gap₄ rest)) = none := by
    intro k hk
    cases deprecated with
    | false =>
      refine on_keyword_of_ne hpublic ?_ (Ends.blanks (by decide) ?_).breaks
      · rintro rfl
        exact absurd hk (by decide)
      · cases abstract <;> exact solid_word (by decide)
    | true => exact on_keyword_of_mark (by decide) (by decide)
  exact on_item_of_none (hkeyword _ (by decide)) (hkeyword _ (by decide))
    (on_typeDecl_class hname hparent hfree h₂ hne₂ h₃ h₄ deprecated abstract h₁)

end

/-! ### The namespace -/

section
variable {root module : String} {gap gap' cs rest : List Char} {n : String} {r : List Char}

/-- The name of a namespace within another, up to what stands between its braces. -/
def nspaceText (root module : String) (gap rest : List Char) : List Char :=
  root.toList ++ '.' :: ((spelled module).toList ++ (gap ++ rest))

/-- The name is read up to the brace, or up to the mark of a keyword. -/
theorem rest_of_namespaceName (hroot : IsIdentifier root) (hmodule : isIdentifier module = true) (hends : Ends gap ('{' :: rest))
    (h : namespaceName.on (nspaceText root module gap ('{' :: rest)) = some (n, r)) : r = '{' :: rest ∨ ∃ cs, r = '.' :: cs := by
  rcases spelled_cases module with ⟨heq, -⟩ | ⟨heq, -⟩
  · -- A module that is no keyword is the last part of the name.
    have hparts : ∀ q ∈ [module], IsIdentifier q := fun q hq => List.mem_singleton.mp hq ▸ isIdentifier_source hmodule
    have hvalid : IsPath (String.intercalate "." [root, module]) :=
      ⟨[root, module], List.cons_ne_nil _ _, List.forall_mem_cons.mpr ⟨hroot, hparts⟩, rfl⟩
    have hpath := (reads_path hroot hparts).on_padded hvalid hends.between hends.solid fun _ => hends.breaks
    have htext : (Token.name (String.intercalate "." [root, module])).chars ++ (gap ++ '{' :: rest) =
        nspaceText root module gap ('{' :: rest) := by
      rw [Token.chars, toList_path, nspaceText, heq]
      simp [pathTail]
    rw [htext] at hpath
    obtain ⟨-, rfl⟩ := Prod.mk.inj (Option.some.inj ((on_bind_of_some hpath).symm.trans h))
    exact .inl rfl
  · have htext : nspaceText root module gap ('{' :: rest) = root.toList ++ '.' :: '@' :: (module.toList ++ (gap ++ '{' :: rest)) := by
      rw [nspaceText, heq]
      simp
    rw [htext] at h
    -- The mark in front of a keyword begins no word, so the name ends before the point.
    have hmore : (do text "."; word).on ('.' :: '@' :: (module.toList ++ (gap ++ '{' :: rest))) = none := by
      have hpoint : (text ".").on ('.' :: '@' :: (module.toList ++ (gap ++ '{' :: rest))) =
          some ((), '@' :: (module.toList ++ (gap ++ '{' :: rest))) := by
        rw [text, on_exactly]
        simp
      exact (on_bind_of_some hpoint).trans (on_word_of_mark (by decide))
    have hword : word.on (root.toList ++ '.' :: '@' :: (module.toList ++ (gap ++ '{' :: rest))) =
        some (root, '.' :: '@' :: (module.toList ++ (gap ++ '{' :: rest))) := on_word hroot fun c hc => by
      cases hc
      decide
    have hpath : path.on (root.toList ++ '.' :: '@' :: (module.toList ++ (gap ++ '{' :: rest))) =
        some ([root], '.' :: '@' :: (module.toList ++ (gap ++ '{' :: rest))) :=
      (on_bind_of_some hword).trans (on_bind_of_some (on_many_of_none hmore))
    have hpadded : (padded path).on (root.toList ++ '.' :: '@' :: (module.toList ++ (gap ++ '{' :: rest))) =
        some ([root], '.' :: '@' :: (module.toList ++ (gap ++ '{' :: rest))) := by
      refine (on_bind_of_some (on_trivia_of_solid (solid_word hroot))).trans ((on_bind_of_some hpath).trans ?_)
      exact on_bind_of_some (on_trivia_of_solid (solid_cons (by decide)))
    obtain ⟨-, rfl⟩ := Prod.mk.inj (Option.some.inj ((on_bind_of_some hpadded).symm.trans h))
    exact .inr ⟨_, rfl⟩

def namespaceText (module : String) (gap gap' cs : List Char) : List Char :=
  "namespace".toList ++ ([' '] ++ nspaceText "SharpBind" module gap ('{' :: (gap' ++ cs)))

/-- A namespace is refused when what it begins with is refused. -/
theorem on_item_namespace {decls : Parser (List TypeDecl)} (hmodule : isIdentifier module = true) (hgap : Gap gap) (hne : gap ≠ [])
    (hgap' : Gap gap') (hcs : Solid cs) (hhead : cs.head? ≠ some '}') (hdecls : ∀ ds r, decls.on cs = some (ds, r) → r = cs) :
    (item decls).on (namespaceText module gap gap' cs) = none := by
  have hroot : Solid (nspaceText "SharpBind" module gap ('{' :: (gap' ++ cs))) := solid_word (s := "SharpBind") (by decide)
  have hword : IsIdentifier "namespace" := by decide
  have hends : Ends [' '] (nspaceText "SharpBind" module gap ('{' :: (gap' ++ cs))) := .blanks (by decide) hroot
  have hkeyword : (keyword "namespace").on (namespaceText module gap gap' cs) =
      some ((), nspaceText "SharpBind" module gap ('{' :: (gap' ++ cs))) := on_keyword hword hends
  have hblock : ∀ n r, namespaceName.on (nspaceText "SharpBind" module gap ('{' :: (gap' ++ cs))) = some (n, r) →
      (symbol ";").on r = none ∧ (between openBrace closeBrace decls).on r = none := by
    intro n r hn
    obtain rfl | ⟨more, rfl⟩ := rest_of_namespaceName (by decide) hmodule (.of_gap hgap hne (solid_cons (by decide))) hn
    · refine ⟨on_symbol_of_head ';' rfl (solid_cons (by decide)) (by simp), ?_⟩
      refine (on_bind_of_some (on_symbol (s := "\x7b") rfl (by decide) hgap' hcs)).trans ?_
      rcases hread : decls.on cs with _ | ⟨ds, r⟩
      · exact on_bind_of_none hread
      · obtain rfl := hdecls ds r hread
        exact (on_bind_of_some hread).trans (on_bind_of_none (on_symbol_of_head (s := "\x7d") '}' rfl hcs hhead))
    · have hsolid : Solid ('.' :: more) := solid_cons (by decide)
      exact ⟨on_symbol_of_head ';' rfl hsolid (by simp),
        on_bind_of_none (on_symbol_of_head (s := "\x7b") '{' rfl hsolid (by simp))⟩
  -- In turn: a directive, both kinds of namespaces, and a type.
  refine (on_orElse_of_none (on_bind_of_none (on_keyword_of_ne hword (by decide) hends.breaks))).trans ?_
  rcases hname : namespaceName.on (nspaceText "SharpBind" module gap ('{' :: (gap' ++ cs))) with _ | ⟨n, r⟩
  · refine (on_orElse_of_none ((on_bind_of_some hkeyword).trans (on_bind_of_none hname))).trans ?_
    refine (on_orElse_of_none ((on_bind_of_some hkeyword).trans (on_bind_of_none hname))).trans ?_
    exact on_bind_of_none (on_typeDecl_of_ne hword (by decide) (by decide) hends.breaks)
  · obtain ⟨hsemicolon, hbraces⟩ := hblock n r hname
    refine (on_orElse_of_none ((on_bind_of_some hkeyword).trans ((on_bind_of_some hname).trans (on_bind_of_none hsemicolon)))).trans ?_
    refine (on_orElse_of_none ((on_bind_of_some hkeyword).trans ((on_bind_of_some hname).trans (on_bind_of_none hbraces)))).trans ?_
    exact on_bind_of_none (on_typeDecl_of_ne hword (by decide) (by decide) hends.breaks)

end

/-! ### The file -/

/-- The comments that a file begins with, and the line about missing values. -/
def bannerText : List Char :=
  '/' :: '/' :: " <auto-generated>".toList ++ '\n' ::
    ('/' :: '/' :: " Generated by sharpbind. Changes to this file are lost on regeneration.".toList ++ '\n' ::
      ('/' :: '/' :: " </auto-generated>".toList ++ '\n' :: '\n' :: ('#' :: "nullable enable".toList ++ '\n' :: [])))

/-- A directive, with the end of its line and perhaps an empty one. -/
def usingText (name : String) (gap rest : List Char) : List Char :=
  "using".toList ++ ([' '] ++ (name.toList ++ ';' :: (gap ++ rest)))

/-- The file up to its namespace. -/
def openingText (rest : List Char) : List Char :=
  bannerText ++ usingText "System" ['\n'] (usingText "System.Collections.Generic" ['\n']
    (usingText "System.Runtime.InteropServices" ['\n'] (usingText "SharpBind.Runtime" ['\n', '\n'] rest)))

theorem unlines_head (rest : List Char) : unlines (Code.writtenAll 0 head) ++ rest = openingText rest := by
  have hlines : unlines (Code.writtenAll 0 head) = openingText [] := by decide +kernel
  rw [hlines]
  unfold openingText usingText
  generalize bannerText = banner, "using".toList = word, "System".toList = system,
    "System.Collections.Generic".toList = generic, "System.Runtime.InteropServices".toList = services,
    "SharpBind.Runtime".toList = runtime
  simp only [List.append_assoc, List.cons_append, List.append_nil]

theorem gap_bannerText : Gap bannerText :=
  .line (by decide) (.line (by decide) (.line (by decide) (.blank (by decide) (.directive (by decide) .none))))

/-- The names of the directives. -/
def openedNames : List String :=
  ["System", "System.Collections.Generic", "System.Runtime.InteropServices", "SharpBind.Runtime"]

section
variable {name : String} {gap rest tail : List Char} {items : List Item} {decls : Parser (List TypeDecl)}

theorem on_items_usingText (hname : name ∈ openedNames) (hgap : Gap gap) (hrest : Solid rest)
    (hmore : on (many (item decls)) rest = some (items, tail)) :
    on (many (item decls)) (usingText name gap rest) = some (.skipped :: items, tail) := by
  have hsolid : Solid name.toList := by
    fin_cases hname <;> exact solid_cons (by decide)
  have hnames : ∀ n ∈ openedNames, n.toList ≠ [] ∧ ';' ∉ n.toList := by decide
  exact on_items_using hsolid (hnames name hname).1 (hnames name hname).2 hgap hrest hmore

/-- A file is read up to where its namespace is refused. -/
theorem on_file_opening (hrest : Solid rest) (h : (item Source.declarations).on rest = none) :
    file.on (openingText rest) = some ([], rest) := by
  have hsolid : ∀ {name gap rest}, Solid (usingText name gap rest) := solid_word (s := "using") (by decide)
  have hitems : on (many (item Source.declarations)) (usingText "System" ['\n'] (usingText "System.Collections.Generic" ['\n']
      (usingText "System.Runtime.InteropServices" ['\n'] (usingText "SharpBind.Runtime" ['\n', '\n'] rest)))) =
      some ([.skipped, .skipped, .skipped, .skipped], rest) := by
    refine on_items_usingText (by decide) (gap_of_blanks (by decide)) hsolid ?_
    refine on_items_usingText (by decide) (gap_of_blanks (by decide)) hsolid ?_
    refine on_items_usingText (by decide) (gap_of_blanks (by decide)) hsolid ?_
    exact on_items_usingText (by decide) (gap_of_blanks (by decide)) hrest (on_many_of_none h)
  refine (on_bind_of_some (on_trivia gap_bannerText hsolid)).trans ?_
  rw [on_declarations]
  exact on_bind_of_some hitems

end

/-- Where a line stands behind blank lines only, these are all in front of it. -/
theorem exists_blanks {contents code : List Code} {c : Code} (h : withoutBlanks contents = c :: code) :
    ∃ n more, contents = List.replicate n .blank ++ c :: more ∧ withoutBlanks more = code := by
  induction contents with
  | nil => cases h
  | cons first contents ih =>
    by_cases hblank : first.isBlank = true
    · obtain rfl : first = .blank := by
        cases first <;> first | rfl | cases hblank
      obtain ⟨n, more, rfl, hmore⟩ := ih h
      exact ⟨n + 1, more, rfl, hmore⟩
    · have hkept : withoutBlanks (first :: contents) = first :: withoutBlanks contents := by
        unfold withoutBlanks
        rw [List.filter_cons_of_pos (by simpa using hblank)]
      obtain ⟨rfl, hmore⟩ := List.cons.inj (hkept.symm.trans h)
      exact ⟨0, contents, rfl, hmore⟩

section
variable {depth n : Nat} {line : String} {code : List Code}

theorem unlines_blanks : unlines (Code.writtenAll depth (List.replicate n .blank ++ code)) =
    List.replicate n '\n' ++ unlines (Code.writtenAll depth code) := by
  induction n with
  | zero => rfl
  | succ n ih =>
    rw [List.replicate_succ, List.replicate_succ, List.cons_append, List.cons_append, ← ih]
    rfl

theorem toList_indented (h : line ≠ "") : (indented depth line).toList = List.replicate (4 * depth) ' ' ++ line.toList := by
  unfold indented
  rw [if_neg h, String.toList_append, CodeWriter.indent, String.toList_ofList]

theorem unlines_line (depth : Nat) (h : line ≠ "") (code : List Code) (tail : List Char) : unlines (Code.writtenAll depth (.line line :: code)) ++ tail =
    List.replicate (4 * depth) ' ' ++ (line.toList ++ '\n' :: (unlines (Code.writtenAll depth code) ++ tail)) := by
  rw [Code.writtenAll_cons, Code.written, unlines_append, unlines_cons, toList_indented h]
  simp

/-- A block begins with its head, whatever stands in it. -/
theorem unlines_block (depth : Nat) (h : line ≠ "") (body code : List Code) (tail : List Char) : ∃ rest,
    unlines (Code.writtenAll depth (.block line body :: code)) ++ tail =
      List.replicate (4 * depth) ' ' ++ (line.toList ++ '\n' :: (List.replicate (4 * depth) ' ' ++
        '{' :: '\n' :: (unlines (Code.writtenAll (depth + 1) body) ++ rest))) := by
  refine ⟨(indented depth "\x7d").toList ++ '\n' :: unlines (Code.writtenAll depth code) ++ tail, ?_⟩
  rw [Code.writtenAll_cons, Code.written, unlines_append, unlines_cons, unlines_cons, unlines_append, toList_indented h,
    toList_indented (by decide)]
  simp

end

/-! ### Lines of a wrapper -/

theorem constructorLine (name : String) (rest : List Char) :
    ("public " ++ spelled name ++ "(IntPtr handle) : base(handle)").toList ++ rest =
      constructorText name (" base(handle)".toList ++ rest) := by
  have hpublic : "public ".toList = "public".toList ++ [' '] := rfl
  have hhandle : "(IntPtr handle) : base(handle)".toList =
      '(' :: ("IntPtr".toList ++ ' ' :: ("handle".toList ++ ')' :: ' ' :: ':' :: " base(handle)".toList)) := rfl
  rw [String.toList_append, String.toList_append, hpublic, hhandle]
  unfold constructorText handleText
  generalize "public".toList = publicWord, "IntPtr".toList = typeWord, "handle".toList = handleWord,
    " base(handle)".toList = closing
  simp only [List.append_assoc, List.cons_append, List.nil_append]

theorem nativeTypeLine (nativeName : String) (gap rest : List Char) :
    ("public static readonly NativeType NativeType = NativeType.Find(\"" ++ nativeName ++ "\");").toList ++ (gap ++ rest) =
      nativeTypeText nativeName gap rest := by
  have hfront : "public static readonly NativeType NativeType = NativeType.Find(\"".toList = "public".toList ++ ([' '] ++
      ("static".toList ++ ([' '] ++ ("readonly".toList ++ ([' '] ++ ("NativeType".toList ++ ([' '] ++ ("NativeType".toList ++
        ([' '] ++ '=' :: ([' '] ++ ("NativeType".toList ++ ".Find(\"".toList))))))))))) := by decide +kernel
  have hback : "\");".toList = "\")".toList ++ [';'] := rfl
  rw [String.toList_append, String.toList_append, hfront, hback]
  unfold nativeTypeText nativeFieldText findText
  generalize "public".toList = publicWord, "static".toList = staticWord, "readonly".toList = readonlyWord,
    "NativeType".toList = typeWord, ".Find(\"".toList = findWord, "\")".toList = closing
  simp only [List.append_assoc, List.cons_append, List.nil_append]

theorem modifiersLine (abstract : Bool) (cs : List Char) :
    (if abstract then "public abstract partial class " else "public partial class ").toList ++ cs =
      modifiersText abstract ("class".toList ++ ([' '] ++ cs)) := by
  cases abstract <;> rfl

theorem headLine (name parent : String) (abstract : Bool) (gap rest : List Char) :
    ((if abstract then "public abstract partial class " else "public partial class ") ++ spelled name ++ " : " ++
      spelled parent).toList ++ (gap ++ rest) =
      modifiersText abstract ("class".toList ++ ([' '] ++ headText name parent gap rest)) := by
  have hcolon : " : ".toList = [' '] ++ ':' :: [' '] := rfl
  rw [← modifiersLine, String.toList_append, String.toList_append, String.toList_append, hcolon, headText]
  simp only [List.append_assoc, List.cons_append, List.nil_append]

theorem namespaceLine (module : String) (gap gap' cs : List Char) :
    ("namespace SharpBind." ++ spelled module).toList ++ (gap ++ '{' :: (gap' ++ cs)) = namespaceText module gap gap' cs := by
  have hfront : "namespace SharpBind.".toList = "namespace".toList ++ ([' '] ++ ("SharpBind".toList ++ ['.'])) := rfl
  rw [String.toList_append, hfront]
  unfold namespaceText nspaceText
  generalize "namespace".toList = namespaceWord, "SharpBind".toList = rootWord
  simp only [List.append_assoc, List.cons_append, List.nil_append]

/-! ### The wrapper of a class -/

theorem ne_empty_of_append {front back : String} (h : front ≠ "") : front ++ back ≠ "" := by
  rw [Ne, String.append_eq_empty_iff]
  exact fun hempty => h hempty.1

/-- Blanks that begin a line. -/
def lineGap (n depth : Nat) : List Char := '\n' :: (List.replicate n '\n' ++ List.replicate (4 * depth) ' ')

theorem lineGap_blank (n depth : Nat) : (lineGap n depth).all isBlank = true := by
  simp [lineGap, isBlank]

theorem lineGap_append (n depth : Nat) (cs : List Char) :
    lineGap n depth ++ cs = '\n' :: (List.replicate n '\n' ++ (List.replicate (4 * depth) ' ' ++ cs)) := by
  rw [lineGap, List.cons_append, List.append_assoc]

section
variable {c : BindingContext} {fast : List FunctionId} {t : TypeRecord} {a : Artifact} {contents code : List Code}
variable {parent : String}

/-- The declaration of a class begins with the field for the engine's type and the constructor. -/
theorem unlines_contents (tail : List Char) (h : withoutBlanks contents =
      (Declaration.nativeType t.nativeName).code :: (Declaration.constructor (spelled t.name)).code :: code) :
    ∃ n n' rest, '\n' :: (unlines (Code.writtenAll 2 contents) ++ tail) =
      lineGap n 2 ++ nativeTypeText t.nativeName (lineGap n' 2) (constructorText t.name rest) := by
  obtain ⟨n, more, rfl, hmore⟩ := exists_blanks h
  obtain ⟨n', more', rfl, -⟩ := exists_blanks hmore
  have hfield : "public static readonly NativeType NativeType = NativeType.Find(\"" ++ t.nativeName ++ "\");" ≠ "" :=
    ne_empty_of_append (ne_empty_of_append (by decide))
  have hconstructor : "public " ++ spelled t.name ++ "(IntPtr handle) : base(handle)" ≠ "" :=
    ne_empty_of_append (ne_empty_of_append (by decide))
  obtain ⟨rest, hlast⟩ : ∃ rest, unlines (Code.writtenAll 2 ((Declaration.constructor (spelled t.name)).code :: more')) ++ tail =
      List.replicate (4 * 2) ' ' ++ constructorText t.name rest := by
    obtain ⟨rest, hrest⟩ := unlines_block 2 hconstructor [.line "OnBindingInitialized();"] more' tail
    exact ⟨_, hrest.trans (congrArg (List.replicate (4 * 2) ' ' ++ ·) (constructorLine t.name _))⟩
  have hrest : '\n' :: (unlines (Code.writtenAll 2
      (List.replicate n' .blank ++ (Declaration.constructor (spelled t.name)).code :: more')) ++ tail) =
      lineGap n' 2 ++ constructorText t.name rest := by
    rw [unlines_blanks, List.append_assoc, hlast, lineGap_append]
  refine ⟨n, n', rest, ?_⟩
  rw [unlines_blanks, List.append_assoc, Declaration.code, unlines_line 2 hfield, hrest, nativeTypeLine, lineGap_append]

/-- The class begins with its modifiers, its head and these members. -/
theorem unlines_class (tail : List Char) (hhead : headline t =
      (if t.flags.contains TypeFlags.abstract then "public abstract partial class " else "public partial class ") ++
        spelled t.name ++ " : " ++ spelled parent)
    (h : withoutBlanks contents =
      (Declaration.nativeType t.nativeName).code :: (Declaration.constructor (spelled t.name)).code :: code) :
    ∃ n n' rest, '\n' :: (unlines (Code.writtenAll 1 [.block (headline t) contents]) ++ tail) = lineGap 0 1 ++
      modifiersText (t.flags.contains TypeFlags.abstract)
        (classText t.name parent t.nativeName (lineGap 0 1) (lineGap n 2) (lineGap n' 2) rest) := by
  have hne : headline t ≠ "" := by
    rw [hhead]
    refine ne_empty_of_append (ne_empty_of_append (ne_empty_of_append ?_))
    split <;> decide
  obtain ⟨more, hmore⟩ := unlines_block 1 hne contents [] tail
  obtain ⟨n, n', rest, hinner⟩ := unlines_contents more h
  refine ⟨n, n', rest, ?_⟩
  rw [hmore, hinner, hhead, Wrapper.classText, ← headLine, bodyText, lineGap_append 0 1, lineGap_append 0 1]
  rfl

/-- In front of a class that is out of date stands a mark. -/
theorem unlines_front (tail : List Char) (hkind : t.kind = .classKind) (hhead : headline t =
      (if t.flags.contains TypeFlags.abstract then "public abstract partial class " else "public partial class ") ++
        spelled t.name ++ " : " ++ spelled parent)
    (h : withoutBlanks contents =
      (Declaration.nativeType t.nativeName).code :: (Declaration.constructor (spelled t.name)).code :: code) :
    ∃ n n' rest, '\n' :: (unlines (Code.writtenAll 1 (Wrapper.marks t ++ [.block (headline t) contents])) ++ tail) = lineGap 0 1 ++
      frontText (t.flags.contains TypeFlags.deprecated) (t.flags.contains TypeFlags.abstract) (lineGap 0 1)
        (classText t.name parent t.nativeName (lineGap 0 1) (lineGap n 2) (lineGap n' 2) rest) := by
  obtain ⟨n, n', rest, hclass⟩ := unlines_class tail hhead h
  refine ⟨n, n', rest, ?_⟩
  have hmarks : Wrapper.marks t = if t.flags.contains TypeFlags.deprecated then [.line "[Obsolete]"] else [] := by
    unfold Wrapper.marks
    rw [hkind]
    exact List.append_nil _
  rw [hmarks]
  cases t.flags.contains TypeFlags.deprecated with
  | false => exact hclass
  | true =>
    have hline := unlines_line 1 (show "[Obsolete]" ≠ "" by decide) [.block (headline t) contents] tail
    rw [if_pos rfl, List.cons_append, List.nil_append, hline, hclass, lineGap_append 0 1]
    rfl

/-- The wrapper of a class as the reader meets it: behind the directives, a namespace with the class, whose constructor
hands on its argument. -/
theorem Declares.classText (h : Declares c fast t a) (hkind : t.kind = .classKind) :
    ∃ parent n n' rest, isIdentifier parent = true ∧
      a.contents.toList = openingText (namespaceText t.module ['\n'] (lineGap 0 1)
        (frontText (t.flags.contains TypeFlags.deprecated) (t.flags.contains TypeFlags.abstract) (lineGap 0 1)
          (classText t.name parent t.nativeName (lineGap 0 1) (lineGap n 2) (lineGap n' 2) rest))) := by
  obtain ⟨contents, hcontents, htext⟩ := h.contents
  obtain ⟨parent, hparent, hhead⟩ : ∃ parent, isIdentifier parent = true ∧ headline t =
      (if t.flags.contains TypeFlags.abstract then "public abstract partial class " else "public partial class ") ++
        spelled t.name ++ " : " ++ spelled parent := by
    unfold headline
    cases hsuper : t.superType with
    | none => exact ⟨rootClass, by decide, by rw [hkind]; rfl⟩
    | some parent => exact ⟨parent, h.names.super hkind parent hsuper, by rw [hkind]; rfl⟩
  have hne : "namespace SharpBind." ++ spelled t.module ≠ "" := ne_empty_of_append (by decide)
  have hmembers : withoutBlanks contents = (Declaration.nativeType t.nativeName).code ::
      (Declaration.constructor (spelled t.name)).code :: _ := hcontents.trans (by rw [declarations, hkind]; rfl)
  obtain ⟨more, hmore⟩ := unlines_block 0 hne (Wrapper.marks t ++ [.block (headline t) contents]) [] []
  obtain ⟨n, n', rest, hfront⟩ := unlines_front more hkind hhead hmembers
  refine ⟨parent, n, n', rest, hparent, ?_⟩
  rw [List.append_nil, hfront] at hmore
  rw [htext, fileText, render_written, Code.writtenAll_append, unlines_append, unlines_head, hmore, ← namespaceLine]
  rfl

/-- The wrapper of a class is no source file. -/
theorem Declares.refused (h : Declares c fast t a) (hkind : t.kind = .classKind) (hfree : Lacks ';' t.nativeName)
    (ds : List TypeDecl) : parseFile a.contents ≠ .ok ds := by
  obtain ⟨parent, n, n', rest, hparent, htext⟩ := h.classText hkind
  have hgap : ∀ n depth, Gap (lineGap n depth) := fun n depth => gap_of_blanks (lineGap_blank n depth)
  generalize hcs : frontText (t.flags.contains TypeFlags.deprecated) (t.flags.contains TypeFlags.abstract) (lineGap 0 1)
    (Wrapper.classText t.name parent t.nativeName (lineGap 0 1) (lineGap n 2) (lineGap n' 2) rest) = cs at htext
  have hclass : ∀ decls : Parser (List TypeDecl), (item decls).on cs = none := fun decls => hcs ▸
    on_item_class h.names.type hparent hfree (hgap _ _) (List.cons_ne_nil _ _) (hgap _ _) (hgap _ _) _ _ (hgap _ _)
  obtain ⟨hsolid, hhead⟩ : Solid cs ∧ cs.head? ≠ some '}' := by
    subst hcs
    unfold frontText
    cases t.flags.contains TypeFlags.deprecated
    · exact ⟨solid_word (s := "public") (by decide), head_word (s := "public") (by decide) (by decide)⟩
    · exact ⟨solid_cons (by decide), by simp⟩
  have hdecls : ∀ ds r, Source.declarations.on cs = some (ds, r) → r = cs := by
    intro ds r hread
    rw [on_declarations] at hread
    have hnone := on_bind_of_some (f := fun items => pure (flatten none items)) (on_many_of_none (hclass Source.declarations))
    exact (Prod.mk.inj (Option.some.inj (hread.symm.trans hnone))).2
  have hnamespace := on_item_namespace h.names.module (hgap 0 0) (List.cons_ne_nil _ _) (hgap 0 1) hsolid hhead hdecls
  have hfile := on_file_opening (solid_word (s := "namespace") (by decide)) hnamespace
  intro hparse
  rw [← String.ofList_toList (s := a.contents), parseFile_eq_ok_iff, htext] at hparse
  cases hparse.symm.trans hfile

end

end Wrapper
end EngineBridge
