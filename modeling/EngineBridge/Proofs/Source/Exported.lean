import EngineBridge.Proofs.Source.SteadyFiles
import EngineBridge.Proofs.Text.Yields

/-! Which declarations of a source text are exported, and which words their types are made of.

An attribute is read behind an opening bracket of the text. So where all brackets of a text begin other marks, or belong to
arrays, nothing that is read from it is exported, however it is read. The names in a type are words of the text. -/

namespace EngineBridge.Source
open EngineBridge.Parser

variable {α : Type} {Q : List Char → Prop} [Inherited Q] {P : α → Prop} {p : Parser α} {cs rest : List Char} {c : Char}

instance : Inherited Anywhere := ⟨fun _ _ => trivial⟩

/-! ### Words -/

/-- The text has only characters of identifiers. -/
def IsWordText (s : String) : Prop := (s.toList.all fun c => isIdentifierStart c || isIdentifierPart c) = true

instance (s : String) : Decidable (IsWordText s) := inferInstanceAs (Decidable (_ = true))

omit [Inherited Q] in
theorem yields_word : Yields Q IsWordText word := by
  intro cs rest s _ h
  obtain ⟨c, mid, hstart, h⟩ := on_bind_eq_some h
  obtain ⟨ds, hrun, rfl⟩ := on_map_eq_some h
  rw [on_run] at hrun
  obtain ⟨rfl, -⟩ := Prod.mk.inj (Option.some.inj hrun)
  have hc : isIdentifierStart c = true := by
    rw [on_satisfy] at hstart
    split at hstart
    · cases hstart
    · split at hstart <;> cases hstart
      assumption
  unfold IsWordText
  rw [String.toList_ofList, List.all_cons, hc, Bool.true_or, Bool.true_and, List.all_eq_true]
  intro d hd
  rw [List.all_eq_true.mp List.all_takeWhile d hd, Bool.or_true]

theorem yields_padded [Shrinks p] (h : Yields Q P p) : Yields Q P (Source.padded p) :=
  .seq fun _ => h.bind fun _ ha => .seq fun _ => .pure ha

theorem yields_lastOfPath : Yields Q IsWordText lastOfPath := by
  have hpath : Yields Q (fun ws => ∀ w ∈ ws, IsWordText w) path := yields_word.sepBy1
  refine (yields_padded hpath).bind fun ws hws => .pure ?_
  have hmem : ws.getLastD "" ∈ "" :: ws := List.getLastD_mem_cons
  rcases List.mem_cons.mp hmem with hlast | hlast
  · rw [hlast]
    exact rfl
  · exact hws _ hlast

/-- All names in the type are words. -/
def InWords (e : TypeExpr) : Prop := ∀ n ∈ e.names, IsWordText n

theorem inWords_mk {name : String} {args : List TypeExpr} (hname : IsWordText name) (hargs : ∀ e ∈ args, InWords e) :
    InWords ⟨name, args⟩ := by
  intro n hn
  rcases TypeExpr.mem_names.mp hn with rfl | ⟨e, he, hn⟩
  · exact hname
  · exact hargs e he n hn

theorem inWords_rank {e : TypeExpr} (he : InWords e) (rank : List Unit) :
    InWords (rank.foldl (fun e _ => ⟨"TArray", [e]⟩) e) := by
  induction rank generalizing e with
  | nil => exact he
  | cons _ rank ih => exact ih (inWords_mk (by decide) (by simpa using he))

theorem yields_typeExpr : Yields Q InWords typeExpr := by
  refine .recursive fun te _ hte => yields_lastOfPath.bind fun name hname => ?_
  have hargs : Yields Q (fun es => ∀ e ∈ es, InWords e) (Parser.between (symbol "<") (symbol ">") (Parser.sepBy1 te (symbol ","))) :=
    hte.sepBy1.between
  refine hargs.optional.bind fun args hargs => .seq fun _ => .seq fun rank => .pure (inWords_rank (inWords_mk hname ?_) rank)
  cases args with
  | none => exact List.forall_mem_nil _
  | some es => exact hargs es rfl

theorem yields_param : Yields Q (fun x => InWords x.type) param :=
  .seq fun _ => .seq fun _ => yields_typeExpr.bind fun _ htype => .seq fun _ => .seq fun _ => .pure htype

theorem yields_params : Yields Q (fun xs => ∀ x ∈ xs, InWords x.type) params := yields_param.sepEndBy.between

theorem yields_memberAfter {as : List Attribute} {ms : List String} :
    Yields Q (fun o => ∀ m ∈ o, ∀ e ∈ m.types, InWords e) (memberAfter as ms) := by
  refine .orElse ?method (.orElse ?field ?constructor)
  case method =>
    refine yields_typeExpr.bind fun ret hret => .seq fun _ => yields_params.bind fun xs hxs => .seq fun _ => .pure ?_
    rintro _ ⟨⟩ e he
    rcases List.mem_cons.mp he with rfl | he
    · exact hret
    · obtain ⟨x, hx, rfl⟩ := List.mem_map.mp he
      exact hxs x hx
  case field =>
    refine yields_typeExpr.bind fun type htype => .seq fun _ => .seq fun _ => .pure ?_
    rintro _ ⟨⟩ e he
    rw [List.mem_singleton.mp he]
    exact htype
  case constructor =>
    exact .seq fun _ => .seq fun _ => .seq fun _ => .seq fun _ => .pure fun _ h => nomatch h

theorem yields_base : Yields Q (fun b => ∀ e ∈ b, InWords e) base := by
  have hbases : Yields Q (fun es => ∀ e ∈ es, InWords e) (do symbol ":"; Parser.sepBy1 typeExpr (symbol ",")) :=
    .seq fun _ => yields_typeExpr.sepBy1
  refine hbases.optional.bind fun es hes => .pure fun e he => ?_
  obtain ⟨es', rfl, hhead⟩ := Option.bind_eq_some_iff.mp he
  exact hes es' rfl e (List.mem_of_head? hhead)

/-- The types in a declaration are made of words. -/
def TypesInWords (d : TypeDecl) : Prop := ∀ e ∈ d.types, InWords e

theorem yields_recordAfter {as : List Attribute} {ms : List String} : Yields Q TypesInWords (recordAfter as ms) := by
  refine .seq fun _ => .seq fun _ => yields_base.bind fun b hb => ?_
  have hmember : Yields Q (fun o => ∀ m ∈ o, ∀ e ∈ m.types, InWords e) member := .seq fun _ => .seq fun _ => yields_memberAfter
  refine hmember.many.between.bind fun members hmembers => .pure fun e he => ?_
  rcases List.mem_append.mp he with he | he
  · exact hb e (Option.mem_toList.mp he)
  · obtain ⟨m, hm, he⟩ := List.mem_flatMap.mp he
    obtain ⟨o, ho, hm⟩ := List.mem_filterMap.mp hm
    exact hmembers o ho m hm e he

theorem yields_enumAfter {as : List Attribute} {ms : List String} : Yields Q TypesInWords (enumAfter as ms) := by
  refine .seq fun _ => .seq fun _ => yields_base.bind fun b hb => .seq fun _ => .pure fun e he => ?_
  rw [TypeDecl.types, List.flatMap_nil, List.append_nil] at he
  exact hb e (Option.mem_toList.mp he)

theorem yields_typesInWords : Yields Q TypesInWords typeDecl := by
  have hrecord : Yields Q TypesInWords record := .seq fun _ => .seq fun _ => yields_recordAfter
  have henum : Yields Q TypesInWords enumeration := .seq fun _ => .seq fun _ => yields_enumAfter
  exact (hrecord.orElse henum).bind fun _ hd => .seq fun _ => .pure hd

/-! ### Files -/

/-- What a part of a file declares. -/
def Item.decls : Item → List TypeDecl
  | .types ds => ds
  | _ => []

section
variable {D : TypeDecl → Prop}

theorem forall_mem_flatten (hD : ∀ d nspace, D d → D (TypeDecl.within nspace d)) {items : List Item}
    (h : ∀ i ∈ items, ∀ d ∈ i.decls, D d) (nspace : Option String) : ∀ d ∈ flatten nspace items, D d := by
  induction items generalizing nspace with
  | nil => exact List.forall_mem_nil _
  | cons i items ih =>
    obtain ⟨hi, hitems⟩ := List.forall_mem_cons.mp h
    cases i with
    | skipped => exact ih hitems nspace
    | fileNamespace name => exact ih hitems (some name)
    | types ds =>
      refine List.forall_mem_append.mpr ⟨fun d hd => ?_, ih hitems nspace⟩
      obtain ⟨d', hd', rfl⟩ := List.mem_map.mp hd
      exact hD d' nspace (hi d' hd')

/-- What is known of each declaration by itself, in whatever namespace it is, is known of all in a file. -/
theorem yields_file (hD : ∀ d nspace, D d → D (TypeDecl.within nspace d)) (h : Yields Q D typeDecl) :
    Yields Q (fun ds => ∀ d ∈ ds, D d) file := by
  have hitem : ∀ (decls : Parser (List TypeDecl)) [Shrinks decls], Yields Q (fun ds => ∀ d ∈ ds, D d) decls →
      Yields Q (fun i => ∀ d ∈ i.decls, D d) (item decls) := by
    intro decls _ hdecls
    refine .orElse ?skipped (.orElse ?fileNamespace (.orElse ?nested ?types))
    case skipped => exact .seq fun _ => .seq fun _ => .seq fun _ => .pure (List.forall_mem_nil _)
    case fileNamespace => exact .seq fun _ => .seq fun _ => .seq fun _ => .pure (List.forall_mem_nil _)
    case nested =>
      refine .seq fun _ => .seq fun _ => hdecls.between.bind fun ds hds => .pure fun d hd => ?_
      obtain ⟨d', hd', rfl⟩ := List.mem_map.mp hd
      exact hD d' _ (hds d' hd')
    case types => exact h.bind fun d hd => .pure (List.forall_mem_singleton.mpr hd)
  have hdeclarations : Yields Q (fun ds => ∀ d ∈ ds, D d) (Parser.recursive itemsWith) :=
    .recursive fun decls _ hdecls => (hitem decls hdecls).many.bind fun items hitems => .pure (forall_mem_flatten hD hitems none)
  exact .seq fun _ => hdeclarations

theorem forall_mem_of_parseFile (hD : ∀ d nspace, D d → D (TypeDecl.within nspace d)) (h : Yields Q D typeDecl)
    {source : String} {ds : List TypeDecl} (hQ : Q source.toList) (hparse : parseFile source = .ok ds) : ∀ d ∈ ds, D d := by
  rw [← String.ofList_toList (s := source), parseFile_eq_ok_iff] at hparse
  exact yields_file hD h hQ hparse

end

/-- The types in all declarations of a file are made of words. -/
theorem typesInWords_of_parseFile {source : String} {ds : List TypeDecl} (h : parseFile source = .ok ds) :
    ∀ d ∈ ds, TypesInWords d :=
  forall_mem_of_parseFile (Q := Anywhere) (fun _ _ hd => hd) yields_typesInWords trivial h

/-! ### Marks that export nothing -/

/-- The marks that export nothing, behind their opening brackets. -/
def idleMarks : List String := ["Obsolete]", "StructLayout(LayoutKind.Sequential)]"]

/-- Behind an opening bracket stands one of these marks, the closing bracket or a digit. -/
def opensIdly (cs : List Char) : Bool :=
  idleMarks.any (·.toList.isPrefixOf cs) || cs.head?.any fun c => c == ']' || c.isDigit

theorem opensIdly_cases (h : opensIdly cs = true) : (∃ mark ∈ idleMarks, ∃ rest, cs = mark.toList ++ rest) ∨
    ∃ c rest, cs = c :: rest ∧ (c = ']' ∨ c.isDigit = true) := by
  unfold opensIdly at h
  rcases Bool.or_eq_true_iff.mp h with h | h
  · obtain ⟨mark, hmark, h⟩ := List.any_eq_true.mp h
    obtain ⟨rest, rfl⟩ := List.isPrefixOf_iff_prefix.mp h
    exact .inl ⟨mark, hmark, rest, rfl⟩
  · cases cs with
    | nil => cases h
    | cons c rest => exact .inr ⟨c, rest, rfl, by simpa using h⟩

/-- No opening bracket of the text begins an attribute that exports a type. -/
def unmarked : List Char → Bool
  | [] => true
  | c :: cs => (c != '[' || opensIdly cs) && unmarked cs

/-- No opening bracket of the text begins an attribute that exports a type. -/
abbrev Unmarked (cs : List Char) : Prop := unmarked cs = true

theorem unmarked_cons : Unmarked (c :: cs) ↔ (c = '[' → opensIdly cs = true) ∧ Unmarked cs := by
  simp [Unmarked, unmarked, imp_iff_not_or]

instance : Inherited Unmarked where
  of_suffix := by
    rintro _ rest ⟨front, rfl⟩ h
    induction front with
    | nil => exact h
    | cons c front ih => exact ih (unmarked_cons.mp h).2

/-- None of the attributes exports a type. -/
def Idle (as : List Attribute) : Prop := ∀ a ∈ as, a.name ∈ ["Obsolete", "StructLayout"]

theorem Idle.not_exported {d : TypeDecl} (h : Idle d.attributes) : d.isExported = false := by
  have hnames : ∀ kind : TypeKind, ∀ name ∈ ["Obsolete", "StructLayout"], Attribute.isNamed kind.marker ⟨name, []⟩ = false := by
    intro kind
    cases kind <;> decide
  unfold TypeDecl.isExported Attribute.find?
  rw [Option.isSome_eq_false_iff, Option.isNone_iff_eq_none, List.find?_eq_none]
  intro a ha
  rw [Bool.not_eq_true]
  exact hnames d.kind a.name (h a ha)

/-- No number begins like a word. -/
theorem on_integerLiteral_of_start (hc : isIdentifierStart c = true) : integerLiteral.on (c :: cs) = none := by
  have hdigit : c.isDigit = false := Bool.eq_false_iff.mpr fun h => by
    rw [not_isIdentifierStart_of_isDigit h] at hc
    cases hc
  have hne : ∀ d, isIdentifierStart d = false → c ≠ d := by
    rintro d hd rfl
    rw [hd] at hc
    cases hc
  have hmark : ∀ t : List Char, (exactly ('0' :: t)).on (c :: cs) = none := fun t => on_exactly_cons (hne _ (by decide))
  have hhex : hexLiteral.on (c :: cs) = none := on_bind_of_none ((on_orElse_of_none (hmark _)).trans (hmark _))
  have hdigits : (digits Char.isDigit).on (c :: cs) = none := by
    refine (on_orElse_of_none (on_bind_of_none ?_)).trans (on_bind_of_none (hmark _))
    simp [on_satisfy, hdigit]
  have hsign : (text "-").on (c :: cs) = none := on_exactly_cons (hne _ (by decide))
  have hdecimal : decimalLiteral.on (c :: cs) = none := by
    rw [decimalLiteral, on_checked, on_bind_of_some (on_optional_of_none hsign), on_bind_of_none hdigits, Option.bind_none]
  exact on_padded_of_none (solid_cons (Token.Begins.solid (t := .name "") hc)) ((on_orElse_of_none hhex).trans hdecimal)

/-- An argument that is a name. -/
theorem on_attributeArguments_name {part : String} {parts : List String} (hpart : IsIdentifier part)
    (hparts : ∀ q ∈ parts, IsIdentifier q) (rest : List Char) :
    attributeArguments.on ('(' :: ((String.intercalate "." (part :: parts)).toList ++ ')' :: ']' :: rest)) =
      some ([String.intercalate "." (part :: parts)], ']' :: rest) := by
  generalize hname : String.intercalate "." (part :: parts) = name
  have hpath : path.on (name.toList ++ ')' :: ']' :: rest) = some (part :: parts, ')' :: ']' :: rest) := by
    rw [← hname]
    exact on_path hpart hparts (Ends.mark (c := ')') (by decide)).breaks
  obtain ⟨c, cs, hchars, hstart⟩ : ∃ c cs, name.toList = c :: cs ∧ isIdentifierStart c = true := by
    obtain ⟨c, cs, hchars, hstart, -⟩ := isIdentifier_cons hpart
    refine ⟨c, cs ++ pathTail parts, ?_, hstart⟩
    rw [← hname, toList_path, hchars]
    rfl
  rw [hchars, List.cons_append] at hpath ⊢
  have hfront : Solid (c :: (cs ++ ')' :: ']' :: rest)) := solid_cons (Token.Begins.solid (t := .name "") hstart)
  have hclose : Solid (')' :: ']' :: rest) := solid_cons (by decide)
  have hquoted : quotedText.on (c :: (cs ++ ')' :: ']' :: rest)) = none := by
    refine on_bind_of_none (on_exactly_cons ?_)
    rintro rfl
    cases hstart
  have hvalue : argumentValue.on (c :: (cs ++ ')' :: ']' :: rest)) = some (name, ')' :: ']' :: rest) := by
    refine (on_bind_of_some (on_trivia_of_solid hfront)).trans ?_
    refine (on_bind_of_some ((on_orElse_of_none hquoted).trans ((on_orElse_of_none
      (on_bind_of_none (on_integerLiteral_of_start hstart))).trans (on_bind_of_some hpath)))).trans ?_
    rw [hname]
    exact on_bind_of_some (on_trivia_of_solid hclose)
  have hbar : (symbol "|").on (')' :: ']' :: rest) = none := on_symbol_of_head '|' rfl hclose (by simp)
  have hcomma : (symbol ",").on (')' :: ']' :: rest) = none := on_symbol_of_head ',' rfl hclose (by simp)
  have hargument : attributeArgument.on (c :: (cs ++ ')' :: ']' :: rest)) = some ([name], ')' :: ']' :: rest) := by
    refine (on_orElse_of_none ?_).trans ((on_bind_of_some hvalue).trans (on_bind_of_some (on_many_of_none (on_bind_of_none hbar))))
    -- The first word is no key: a point or the parenthesis stands behind it.
    obtain ⟨d, ds, hbehind, hd⟩ : ∃ d ds, pathTail parts ++ ')' :: ']' :: rest = d :: ds ∧ d ∈ ['.', ')'] := by
      cases parts with
      | nil => exact ⟨_, _, rfl, by decide⟩
      | cons q parts => exact ⟨_, _, rfl, by decide⟩
    have hsolid : Solid (d :: ds) := solid_cons (by fin_cases hd <;> decide)
    have hword : word.on (c :: (cs ++ ')' :: ']' :: rest)) = some (part, d :: ds) := by
      rw [← List.cons_append, ← hchars, ← hname, toList_path, List.append_assoc, hbehind]
      refine on_word hpart fun x hx => ?_
      cases hx
      fin_cases hd <;> decide
    have hkey : (padded word).on (c :: (cs ++ ')' :: ']' :: rest)) = some (part, d :: ds) :=
      (on_bind_of_some (on_trivia_of_solid hfront)).trans ((on_bind_of_some hword).trans (on_bind_of_some (on_trivia_of_solid hsolid)))
    refine (on_bind_of_some hkey).trans (on_bind_of_none (on_symbol_of_head '=' rfl hsolid ?_))
    fin_cases hd <;> simp
  have hlist : (sepBy1 attributeArgument (symbol ",")).on (c :: (cs ++ ')' :: ']' :: rest)) =
      some ([[name]], ')' :: ']' :: rest) :=
    (on_bind_of_some hargument).trans (on_bind_of_some (on_many_of_none (on_bind_of_none hcomma)))
  have hall : (sepEndBy attributeArgument (symbol ",")).on (c :: (cs ++ ')' :: ']' :: rest)) =
      some ([[name]], ')' :: ']' :: rest) :=
    on_bind_of_some (on_optional_of_some ((on_bind_of_some hlist).trans (on_bind_of_some (on_optional_of_none hcomma))))
  have hopen : (symbol "(").on ('(' :: c :: (cs ++ ')' :: ']' :: rest)) = some ((), c :: (cs ++ ')' :: ']' :: rest)) :=
    on_symbol rfl (by decide) .none hfront
  have hend : (symbol ")").on (')' :: ']' :: rest) = some ((), ']' :: rest) :=
    on_symbol rfl (by decide) .none (solid_cons (by decide))
  have hgroups : (between (symbol "(") (symbol ")") (sepEndBy attributeArgument (symbol ","))).on
      ('(' :: c :: (cs ++ ')' :: ']' :: rest)) = some ([[name]], ']' :: rest) :=
    (on_bind_of_some hopen).trans ((on_bind_of_some hall).trans (on_bind_of_some hend))
  exact on_bind_of_some hgroups

/-- Behind each of the marks stands its closing bracket. -/
theorem on_oneAttribute_of_mark {mark : String} (hmark : mark ∈ idleMarks) (rest : List Char) :
    ∃ a, oneAttribute.on (mark.toList ++ rest) = some (a, ']' :: rest) ∧ a.name ∈ ["Obsolete", "StructLayout"] := by
  simp only [idleMarks, List.mem_cons, List.not_mem_nil, or_false] at hmark
  rcases hmark with rfl | rfl
  · have hname : lastOfPath.on ("Obsolete".toList ++ ([] ++ ']' :: rest)) = some ("Obsolete", ']' :: rest) :=
      on_lastOfPath (by decide) (.mark (by decide))
    have hargs : attributeArguments.on (']' :: rest) = none :=
      on_bind_of_none (on_bind_of_none (on_symbol_of_head '(' rfl (solid_cons (by decide)) (by simp)))
    exact ⟨⟨"Obsolete", []⟩, (on_bind_of_some hname).trans (on_bind_of_some (on_optional_of_none hargs)), by decide⟩
  · have hargs := @on_attributeArguments_name "LayoutKind" ["Sequential"] (by decide) (by decide) rest
    have hname : lastOfPath.on ("StructLayout".toList ++ ([] ++ '(' :: ("LayoutKind.Sequential".toList ++ ')' :: ']' :: rest))) =
        some ("StructLayout", '(' :: ("LayoutKind.Sequential".toList ++ ')' :: ']' :: rest)) :=
      on_lastOfPath (by decide) (.mark (by decide))
    exact ⟨⟨"StructLayout", ["LayoutKind.Sequential"]⟩, (on_bind_of_some hname).trans (on_bind_of_some (on_optional_of_some hargs)),
      by decide⟩

theorem on_oneAttribute_of_closed (hc : c = ']' ∨ c.isDigit = true) : Solid (c :: cs) ∧ oneAttribute.on (c :: cs) = none := by
  have hstart : isIdentifierStart c = false := by
    rcases hc with rfl | hc
    · decide
    · exact not_isIdentifierStart_of_isDigit hc
  have hsolid : c ∉ gapStarts := by
    intro hgap
    rcases hc with rfl | hc
    · exact absurd hgap (by decide)
    · fin_cases hgap <;> cases hc
  exact ⟨solid_cons hsolid, on_bind_of_none (on_lastOfPath_of_mark hstart hsolid)⟩

theorem yields_attributeGroup : Yields Unmarked Idle attributeGroup := by
  intro cs rest as hcs h
  obtain ⟨_, inside, hopen, h⟩ := on_bind_eq_some h
  obtain ⟨as, mid, has, h⟩ := on_bind_eq_some h
  obtain ⟨_, -, rfl⟩ := on_map_eq_some h
  obtain ⟨_, cs₁, hgap, hopen⟩ := on_bind_eq_some hopen
  obtain ⟨_, cs₂, hbracket, hopen⟩ := on_bind_eq_some hopen
  obtain ⟨_, htrivia, -⟩ := on_map_eq_some hopen
  obtain rfl : cs₁ = '[' :: cs₂ := on_exactly_eq_some hbracket
  have hunmarked : Unmarked ('[' :: cs₂) := Inherited.of_suffix (Shrinks.suffix hgap) hcs
  have hinside : Solid cs₂ → inside = cs₂ := fun hsolid => by
    rw [on_trivia_of_solid hsolid] at htrivia
    exact (Prod.mk.inj (Option.some.inj htrivia)).2.symm
  obtain ⟨a, mid', ha, hmore⟩ := on_bind_eq_some has
  rcases opensIdly_cases ((unmarked_cons.mp hunmarked).1 rfl) with ⟨mark, hmark, r, rfl⟩ | ⟨c, r, rfl, hc⟩
  · -- The mark is one attribute, and its closing bracket ends the list.
    have hsolid : Solid (mark.toList ++ r) := by
      simp only [idleMarks, List.mem_cons, List.not_mem_nil, or_false] at hmark
      rcases hmark with rfl | rfl <;> exact solid_cons (by decide)
    rw [hinside hsolid] at ha
    obtain ⟨a', ha', hname⟩ := on_oneAttribute_of_mark hmark r
    obtain ⟨rfl, rfl⟩ := Prod.mk.inj (Option.some.inj (ha.symm.trans ha'))
    have hcomma : (symbol ",").on (']' :: r) = none := on_symbol_of_head ',' rfl (solid_cons (by decide)) (by simp)
    have hend := on_bind_of_some (f := fun as => pure (a :: as)) (on_many_of_none (p := do symbol ","; oneAttribute) (on_bind_of_none hcomma))
    obtain ⟨rfl, -⟩ := Prod.mk.inj (Option.some.inj (hmore.symm.trans hend))
    exact List.forall_mem_singleton.mpr hname
  · obtain ⟨hsolid, hnone⟩ : Solid (c :: r) ∧ oneAttribute.on (c :: r) = none := on_oneAttribute_of_closed hc
    rw [hinside hsolid, hnone] at ha
    cases ha

theorem yields_attributes : Yields Unmarked Idle attributes := by
  refine yields_attributeGroup.many.bind fun groups hgroups => .pure fun a ha => ?_
  obtain ⟨as, has, ha⟩ := List.mem_flatten.mp ha
  exact hgroups as has a ha

theorem yields_idle : Yields Unmarked (fun d => Idle d.attributes) typeDecl := by
  have hrecord : Yields Unmarked (fun d => Idle d.attributes) record :=
    yields_attributes.bind fun as has => .seq fun ms => .seq fun _ => .seq fun _ => .seq fun _ => .seq fun _ => .pure has
  have henum : Yields Unmarked (fun d => Idle d.attributes) enumeration :=
    yields_attributes.bind fun as has => .seq fun ms => .seq fun _ => .seq fun _ => .seq fun _ => .seq fun _ => .pure has
  exact (hrecord.orElse henum).bind fun _ hd => .seq fun _ => .pure hd

/-- Nothing in a file without marks is exported. -/
theorem not_exported_of_unmarked {source : String} {ds : List TypeDecl} (h : Unmarked source.toList)
    (hparse : parseFile source = .ok ds) : ds.filter (·.isExported) = [] := by
  rw [List.filter_eq_nil_iff]
  intro d hd
  have hidle : Idle d.attributes := forall_mem_of_parseFile (fun _ _ hd => hd) yields_idle h hparse d hd
  rw [hidle.not_exported]
  exact Bool.false_ne_true

end EngineBridge.Source
