import EngineBridge.Proofs.Source.Rendering
import EngineBridge.Source.Parse

/-! The grammar reads back what the rendering spells, from the types up to whole files. -/

namespace EngineBridge.Source
open EngineBridge.Parser

variable {ts : List Token} {g : Grouping} {s : String}

/-- A list with commas between its parts ends before any other mark. -/
theorem refuses_comma (c : Char) (hc : c ≠ ',') (ts : List Token) : Refuses (symbol ",") (.mark c :: ts) :=
  refuses_symbol ',' rfl (by decide) fun h => hc (by cases h; rfl)

/-- A list of parameters, members or declarations ends here. -/
def Closes (ts : List Token) : Prop := ∀ t ∈ ts.head?, ∃ c ∈ [')', '}'], t = .mark c

theorem Closes.nil : Closes [] := by
  rintro t ⟨⟩

theorem Closes.mark {c : Char} (hc : c ∈ [')', '}']) : Closes (.mark c :: ts) := by
  rintro t ⟨⟩
  exact ⟨c, hc, rfl⟩

theorem Closes.not_name (h : Closes ts) (s : String) : ts.head? ≠ some (.name s) := by
  intro hs
  obtain ⟨c, -, hc⟩ := h _ hs
  cases hc

theorem Closes.not_mark (h : Closes ts) {c : Char} (hc : c ∉ [')', '}']) : ts.head? ≠ some (.mark c) := by
  intro hmark
  obtain ⟨d, hd, heq⟩ := h _ hmark
  cases heq
  exact hc hd

/-! ### Types -/

/-- What may stand behind a type: nothing that the type would go on with. -/
def EndsType (ts : List Token) : Prop := ∀ c ∈ ['<', '?', '['], ts.head? ≠ some (.mark c)

theorem EndsType.mark {c : Char} (h : c ∉ ['<', '?', '[']) : EndsType (.mark c :: ts) := by
  rintro d hd heq
  cases heq
  exact h hd

theorem EndsType.name : EndsType (.name s :: ts) := by
  rintro d hd heq
  cases heq

/-- What could follow the name and the arguments is not there. -/
theorem takes_typeEnd (e : TypeExpr) (hts : EndsType ts) :
    Takes (do
      let _ ← optional (symbol "?")
      let rank ← many (symbol "[]")
      return rank.foldl (fun e _ => ⟨"TArray", [e]⟩) e) ts e ts := by
  have hquestion : Refuses (symbol "?") ts := refuses_symbol '?' rfl (by decide) (hts '?' (by decide))
  have hbracket : Refuses (symbol "[]") ts := refuses_symbol '[' rfl (by decide) (hts '[' (by decide))
  refine Takes.bind hquestion.optional ?_
  refine Takes.bind hbracket.many ?_
  exact .pure

/-- By induction on how often the description of types may be unfolded: the arguments have fewer tokens. -/
theorem takes_unfolded_typeExpr (n : Nat) (e : TypeExpr) (hn : (typeTokens e).length ≤ n) (he : SpellableType e)
    (ts : List Token) (hts : EndsType ts) : Takes (unfolded typeExprWith n) (typeTokens e ++ ts) e ts := by
  induction n generalizing e ts with
  | zero =>
    -- No type is without tokens.
    obtain ⟨us, hus⟩ := typeTokens_eq_cons e
    rw [hus] at hn
    cases hn
  | succ n ih =>
    rcases e with ⟨name, _ | ⟨a, as⟩⟩
    · have hangle : Refuses (symbol "<") ts := refuses_symbol '<' rfl (by decide) (hts '<' (by decide))
      rw [typeTokens]
      refine Takes.bind (takes_lastOfPath he.name ts) ?_
      refine Takes.bind hangle.bind.optional ?_
      exact takes_typeEnd _ hts
    · rw [typeTokens_args] at hn ⊢
      have hargs : TakesEach (unfolded typeExprWith n) typeTokens id EndsType (a :: as) := by
        intro e hmem us hus
        have hlength := length_le_separated (.mark ',') typeTokens hmem
        simp only [List.length_cons, List.length_append] at hn
        exact ih e (by omega) (he.arg hmem) us hus
      have hlist := hargs.sepBy1 (takes_symbol ',' rfl) (fun _ => .mark (by decide)) (.mark (by decide))
        (refuses_comma '>' (by decide) ts).bind
      rw [List.map_id] at hlist
      rw [List.cons_append, List.cons_append, List.append_assoc, List.singleton_append]
      refine Takes.bind (takes_lastOfPath he.name _) ?_
      refine Takes.bind (Takes.between (takes_symbol '<' rfl _) hlist (takes_symbol '>' rfl ts)).optional ?_
      exact takes_typeEnd _ hts

theorem takes_typeExpr {e : TypeExpr} (he : SpellableType e) (hts : EndsType ts) :
    Takes typeExpr (typeTokens e ++ ts) e ts := by
  refine Takes.recursive fun n hn => ?_
  rw [List.length_append] at hn
  exact takes_unfolded_typeExpr (n + 1) e (by omega) he ts hts

theorem refuses_typeExpr (h : Closes ts) : Refuses typeExpr ts :=
  Refuses.recursive fun _ => (refuses_lastOfPath h.not_name).bind

/-! ### Attributes and modifiers -/

theorem takes_attributeArgument (hs : '"' ∉ s.toList) (hts : ts.head? ≠ some (.mark '|')) :
    Takes attributeArgument (.quoted s :: ts) [s] ts := by
  have hkey : Refuses (padded word) (.quoted s :: ts) := (refuses_word (by simp)).padded
  have hbar : Refuses (symbol "|") ts := refuses_symbol '|' rfl (by decide) hts
  refine hkey.bind.orElse ?_
  exact (takes_argumentValue hs ts).bind (hbar.bind.many.bind .pure)

theorem takes_attribute {a : Attribute} (ha : SpellableAttribute a) (hts : ts.head? ≠ some (.mark '(')) :
    Takes oneAttribute (attributeTokens a ++ ts) a ts := by
  rcases a with ⟨name, _ | ⟨s, ss⟩⟩
  · have hparen : Refuses attributeArguments ts := (refuses_symbol '(' rfl (by decide) hts).bind.bind
    refine Takes.bind (takes_lastOfPath ha.name _) ?_
    refine Takes.bind hparen.optional ?_
    exact .pure
  · have hargs : TakesEach attributeArgument (fun s => [.quoted s]) (fun s => [s])
        (fun ts => ts.head? ≠ some (.mark '|')) (s :: ss) := fun s hmem ts hts =>
      takes_attributeArgument (ha.args s hmem) hts
    have hlist := hargs.sepEndBy (takes_symbol ',' rfl) (by simp) (by simp) (fun h => by cases h)
      (refuses_comma ')' (by decide) ts)
    have hparens : Takes attributeArguments (argumentTokens (s :: ss) ++ ts) (s :: ss) ts := by
      rw [argumentTokens, List.cons_append, List.append_assoc, List.singleton_append]
      refine Takes.bind (Takes.between (takes_symbol '(' rfl _) hlist (takes_symbol ')' rfl ts)) ?_
      rw [← List.flatMap_def, List.flatMap_singleton']
      exact .pure
    refine Takes.bind (takes_lastOfPath ha.name _) ?_
    refine Takes.bind hparens.optional ?_
    exact .pure

theorem takes_group {group : List Attribute} (hne : group ≠ []) (h : ∀ a ∈ group, SpellableAttribute a) :
    Takes (between (symbol "[") (symbol "]") (sepBy1 oneAttribute (symbol ","))) (groupTokens group ++ ts) group
      ts := by
  obtain ⟨a, as, rfl⟩ := List.exists_cons_of_ne_nil hne
  have hattributes : TakesEach oneAttribute attributeTokens id (fun ts => ts.head? ≠ some (.mark '(')) (a :: as) :=
    fun b hmem ts hts => takes_attribute (h b hmem) hts
  have hlist := hattributes.sepBy1 (takes_symbol ',' rfl) (by simp) (by simp) (refuses_comma ']' (by decide) ts).bind
  rw [List.map_id] at hlist
  rw [groupTokens, List.cons_append, List.append_assoc, List.singleton_append]
  exact .between (takes_symbol '[' rfl _) hlist (takes_symbol ']' rfl ts)

theorem takes_no_attributes (hts : ts.head? ≠ some (.mark '[')) : Takes attributes ts [] ts := by
  have hbracket : Refuses (symbol "[") ts := refuses_symbol '[' rfl (by decide) hts
  refine Takes.bind hbracket.bind.many ?_
  exact .pure

theorem takes_attributes {as : List Attribute} (h : ∀ a ∈ as, SpellableAttribute a)
    (hts : ts.head? ≠ some (.mark '[')) : Takes attributes (attributesTokens g as ++ ts) as ts := by
  have hgroups : TakesEach (between (symbol "[") (symbol "]") (sepBy1 oneAttribute (symbol ","))) groupTokens id
      (fun _ => True) (g.groups as) := fun group hmem ts _ =>
    takes_group (g.ne_nil as group hmem) fun a ha =>
      h a (g.flatten_groups as ▸ List.mem_flatten_of_mem hmem ha)
  have hbracket : Refuses (symbol "[") ts := refuses_symbol '[' rfl (by decide) hts
  have hlist := hgroups.many (fun _ _ => List.cons_ne_nil _ _) (fun _ _ _ => trivial) trivial hbracket.bind
  rw [List.map_id] at hlist
  refine Takes.bind hlist ?_
  rw [g.flatten_groups]
  exact .pure

theorem takes_modifiers {ms : List String} (h : ∀ m ∈ ms, m ∈ modifierWords)
    (hts : ∀ s, ts.head? = some (.name s) → IsIdentifier s ∧ s ∉ modifierWords) :
    Takes modifiers (modifiersTokens ms ++ ts) ms ts := by
  have hmodifiers : TakesEach modifier (fun m => [.name m]) id (fun _ => True) ms := fun m hmem ts _ =>
    takes_modifier (isIdentifier_of_mem_modifierWords m (h m hmem)) (h m hmem) ts
  have hlist := hmodifiers.many (fun _ _ => List.cons_ne_nil _ _) (fun _ _ _ => trivial) trivial (refuses_modifier hts)
  rwa [List.map_id] at hlist

/-! ### Parameters -/

theorem takes_paramModifier (m : ParamModifier) (ts : List Token) :
    Takes paramModifier (.name (ParamModifier.word m) :: ts) m ts := by
  have hrefuse : ∀ {k}, ParamModifier.word m ≠ k → Refuses (keyword k) (.name (ParamModifier.word m) :: ts) :=
    fun hne => refuses_keyword fun s hs => by
      cases hs
      exact ⟨by cases m <;> decide, hne⟩
  cases m with
  | outward => exact Takes.orElse ((takes_keyword (by decide) ts).bind .pure)
  | byRef =>
    refine Refuses.orElse (hrefuse (by decide)).bind ?_
    exact Takes.orElse ((takes_keyword (by decide) ts).bind .pure)
  | inward =>
    refine Refuses.orElse (hrefuse (by decide)).bind ?_
    refine Refuses.orElse (hrefuse (by decide)).bind ?_
    exact (takes_keyword (by decide) ts).bind .pure

theorem refuses_paramModifier (h : ∀ s, ts.head? = some (.name s) → IsIdentifier s ∧ s ∉ ["out", "ref", "in"]) :
    Refuses paramModifier ts := by
  have hrefuse : ∀ {k}, k ∈ ["out", "ref", "in"] → Refuses (keyword k) ts := fun hk =>
    refuses_keyword fun s hs => ⟨(h s hs).1, fun heq => (h s hs).2 (heq ▸ hk)⟩
  refine Refuses.orElse_refuses (hrefuse (by decide)).bind ?_
  exact Refuses.orElse_refuses (hrefuse (by decide)).bind (hrefuse (by decide)).bind

theorem takes_param {p : ParamDecl} (hp : SpellableParam p) (hts : ts.head? ≠ some (.mark '=')) :
    Takes param (paramTokens p ++ ts) p ts := by
  obtain ⟨us, hus⟩ := typeTokens_eq_cons p.type
  have hmodifier : Takes (optional paramModifier) (paramTokens p ++ ts) p.modifier
      (typeTokens p.type ++ .name p.name :: ts) := by
    rcases p with ⟨name, type, _ | m⟩
    · have hnone : Refuses paramModifier (typeTokens type ++ .name name :: ts) := refuses_paramModifier fun s hs => by
        rw [hus] at hs
        cases hs
        exact ⟨hp.type.name, hp.head⟩
      simpa [paramTokens] using hnone.optional
    · simpa [paramTokens] using (takes_paramModifier m _).optional
  have hfirst : (paramTokens p ++ ts).head? ≠ some (.mark '[') := by
    rcases p with ⟨name, type, _ | m⟩ <;> simp [paramTokens, hus]
  have hdefault : Refuses (symbol "=") ts := refuses_symbol '=' rfl (by decide) hts
  refine Takes.bind (takes_no_attributes hfirst) ?_
  refine Takes.bind hmodifier ?_
  refine Takes.bind (takes_typeExpr hp.type .name) ?_
  refine Takes.bind (takes_identifier hp.name ts) ?_
  refine Takes.bind hdefault.bind.optional ?_
  exact .pure

theorem refuses_param (h : Closes ts) : Refuses param ts := by
  have hmodifier : Refuses paramModifier ts := refuses_paramModifier fun s hs => absurd hs (h.not_name s)
  refine Takes.bind_refuses (takes_no_attributes (h.not_mark (by decide))) ?_
  refine Takes.bind_refuses hmodifier.optional ?_
  exact (refuses_typeExpr h).bind

theorem takes_params {ps : List ParamDecl} (h : ∀ p ∈ ps, SpellableParam p) (ts : List Token) :
    Takes params (paramsTokens ps ++ ts) ps ts := by
  have hparams : TakesEach param paramTokens id (fun ts => ts.head? ≠ some (.mark '=')) ps := fun p hmem ts hts =>
    takes_param (h p hmem) hts
  have hlist := hparams.sepEndBy (takes_symbol ',' rfl) (by simp) (by simp)
    (fun _ => refuses_param (.mark (by decide))) (refuses_comma ')' (by decide) ts)
  rw [List.map_id] at hlist
  rw [paramsTokens, List.cons_append, List.append_assoc, List.singleton_append]
  exact .between (takes_symbol '(' rfl _) hlist (takes_symbol ')' rfl ts)

/-! ### Members -/

theorem takes_field {type : TypeExpr} {name : String} (as : List Attribute) (ms : List String)
    (htype : SpellableType type) (hname : IsIdentifier name) (ts : List Token) :
    Takes (memberAfter as ms) (typeTokens type ++ .name name :: .mark ';' :: ts) (some (.field ⟨name, type, as, ms⟩))
      ts := by
  have hparen : Refuses params (.mark ';' :: ts) := (refuses_symbol '(' rfl (by decide) (by simp)).bind
  have hequals : Refuses initializer (.mark ';' :: ts) := (refuses_symbol '=' rfl (by decide) (by simp)).bind
  have htail : Takes fieldTail (.mark ';' :: ts) () ts := Takes.orElse (hequals.optional.bind (takes_symbol ';' rfl ts))
  refine Refuses.orElse ?_ (Takes.orElse ?_)
  -- A method would begin in the same way; it is given up where its parameters are missing.
  · refine Takes.bind_refuses (takes_typeExpr htype .name) ?_
    exact (takes_identifier hname _).bind_refuses hparen.bind
  · refine Takes.bind (takes_typeExpr htype .name) ?_
    refine Takes.bind (takes_identifier hname _) ?_
    exact htail.bind .pure

theorem takes_method {ret : TypeExpr} {name : String} {ps : List ParamDecl} (as : List Attribute) (ms : List String)
    (hret : SpellableType ret) (hname : IsIdentifier name) (hps : ∀ p ∈ ps, SpellableParam p) (ts : List Token) :
    Takes (memberAfter as ms) (typeTokens ret ++ .name name :: (paramsTokens ps ++ .mark ';' :: ts))
      (some (.method ⟨name, ret, ps, as, ms⟩)) ts := by
  have hbody : Takes methodBody (.mark ';' :: ts) () ts := Takes.orElse (takes_symbol ';' rfl ts)
  refine Takes.orElse ?_
  refine Takes.bind (takes_typeExpr hret .name) ?_
  refine Takes.bind (takes_identifier hname _) ?_
  refine Takes.bind (takes_params hps _) ?_
  exact hbody.bind .pure

/-- The name that a type begins with. -/
theorem head_typeTokens (e : TypeExpr) (ts : List Token) : (typeTokens e ++ ts).head? = some (.name e.name) := by
  obtain ⟨us, hus⟩ := typeTokens_eq_cons e
  rw [hus]
  rfl

theorem head_modifiersTokens (ms : List String) (h : ts.head? = some (.name s)) :
    (modifiersTokens ms ++ ts).head? ≠ some (.mark '[') := by
  cases ms with
  | nil => simp [modifiersTokens, h]
  | cons m ms => simp [modifiersTokens]

theorem takes_member {m : MemberDecl} (hm : SpellableMember m) (ts : List Token) :
    Takes member (memberTokens g m ++ ts) (some m) ts := by
  have hfront : ∀ {as ms type name us}, SpellableHead as ms type name →
      Takes (memberAfter as ms) (typeTokens type ++ us) (some m) ts →
      Takes member (attributesTokens g as ++ (modifiersTokens ms ++ (typeTokens type ++ us))) (some m) ts := by
    intro as ms type name us h hafter
    have hhead := head_typeTokens type us
    refine Takes.bind (takes_attributes h.attributes (head_modifiersTokens ms hhead)) ?_
    refine Takes.bind (takes_modifiers h.modifiers fun s hs => ?_) hafter
    cases hhead.symm.trans hs
    exact ⟨h.type.name, h.head⟩
  cases m with
  | field f =>
    have hfield := hfront hm (takes_field f.attributes f.modifiers hm.type hm.name ts)
    simpa [memberTokens] using hfield
  | method m =>
    obtain ⟨hhead, hps⟩ := hm
    have hmethod := hfront hhead (takes_method m.attributes m.modifiers hhead.type hhead.name hps ts)
    simpa [memberTokens] using hmethod

/-- Nothing stands in front of what is not there. -/
theorem refuses_front {α : Type} {p : List Attribute → List String → Parser α} (h : Closes ts)
    (hp : Refuses (p [] []) ts) : Refuses (do let as ← attributes; let ms ← modifiers; p as ms) ts := by
  have hmodifier : Refuses modifier ts := refuses_modifier fun s hs => absurd hs (h.not_name s)
  refine Takes.bind_refuses (takes_no_attributes (h.not_mark (by decide))) ?_
  exact Takes.bind_refuses hmodifier.many hp

theorem refuses_member (h : Closes ts) : Refuses member ts := by
  have htype := refuses_typeExpr h
  have htilde : Refuses (symbol "~") ts := refuses_symbol '~' rfl (by decide) (h.not_mark (by decide))
  refine refuses_front h ?_
  refine Refuses.orElse_refuses htype.bind (Refuses.orElse_refuses htype.bind ?_)
  exact htilde.optional.bind_refuses (refuses_identifier h.not_name).bind

theorem takes_members {ms : List MemberDecl} (h : ∀ m ∈ ms, SpellableMember m) (ts : List Token) :
    Takes (between openBrace closeBrace (many member))
      (.mark '{' :: (ms.flatMap (memberTokens g) ++ .mark '}' :: ts)) (ms.map some) ts := by
  have hmembers : TakesEach member (memberTokens g) some (fun _ => True) ms := fun m hmem ts _ =>
    takes_member (h m hmem) ts
  have hne : ∀ m ∈ ms, memberTokens g m ≠ [] := fun m _ => by cases m <;> simp [memberTokens]
  have hend : Refuses member (.mark '}' :: ts) := refuses_member (.mark (by decide))
  have hlist := hmembers.many hne (fun _ _ _ => trivial) trivial hend
  exact .between (takes_openBrace _) hlist (takes_closeBrace ts)

/-! ### Declarations -/

theorem takes_base {b : Option TypeExpr} (hb : ∀ e ∈ b, SpellableType e) (ts : List Token) :
    Takes base (baseTokens b ++ .mark '{' :: ts) b (.mark '{' :: ts) := by
  cases b with
  | none =>
    have hcolon : Refuses (symbol ":") (.mark '{' :: ts) := refuses_symbol ':' rfl (by decide) (by simp)
    refine Takes.bind hcolon.bind.optional ?_
    exact .pure
  | some e =>
    have htypes : Takes (sepBy1 typeExpr (symbol ",")) (typeTokens e ++ .mark '{' :: ts) [e] (.mark '{' :: ts) :=
      (takes_typeExpr (hb e rfl) (.mark (by decide))).bind ((refuses_comma '{' (by decide) ts).bind.many.bind .pure)
    refine Takes.bind ((takes_symbol ':' rfl _).bind htypes).optional ?_
    exact .pure

/-- The kind of a class or struct. -/
def recordKind : Parser TypeKind :=
  (do keyword "class"; return TypeKind.classKind) <|> (do keyword "struct"; return .structKind)

theorem refuses_kindWord {k : TypeKind} (hne : kindWord k ≠ s) (ts : List Token) :
    Refuses (keyword s) (.name (kindWord k) :: ts) :=
  refuses_keyword fun t ht => by
    cases ht
    exact ⟨by cases k <;> decide, hne⟩

theorem takes_recordKind {k : TypeKind} (hk : k ≠ .enumKind) (ts : List Token) :
    Takes recordKind (.name (kindWord k) :: ts) k ts := by
  cases k with
  | classKind => exact Takes.orElse ((takes_keyword (by decide) ts).bind .pure)
  | structKind =>
    refine Refuses.orElse (refuses_kindWord (by decide) ts).bind ?_
    exact (takes_keyword (by decide) ts).bind .pure
  | enumKind => exact absurd rfl hk

theorem kindWord_not_modifier (k : TypeKind) : IsIdentifier (kindWord k) ∧ kindWord k ∉ modifierWords := by
  cases k <;> decide

section
variable {d : TypeDecl}

theorem bareTokens_append (g : Grouping) (d : TypeDecl) (ts : List Token) :
    bareTokens g d ++ ts = attributesTokens g d.attributes ++ (modifiersTokens d.modifiers ++
      .name (kindWord d.kind) :: .name d.name ::
        (baseTokens d.base ++ .mark '{' :: (bodyTokens g d ++ .mark '}' :: ts))) := by
  simp [bareTokens]

theorem takes_declAttributes (h : SpellableDecl d) :
    Takes attributes (attributesTokens g d.attributes ++ (modifiersTokens d.modifiers ++ .name (kindWord d.kind) :: ts))
      d.attributes (modifiersTokens d.modifiers ++ .name (kindWord d.kind) :: ts) :=
  takes_attributes h.attributes (head_modifiersTokens _ rfl)

theorem takes_declModifiers (h : SpellableDecl d) :
    Takes modifiers (modifiersTokens d.modifiers ++ .name (kindWord d.kind) :: ts) d.modifiers
      (.name (kindWord d.kind) :: ts) :=
  takes_modifiers h.modifiers fun s hs => by
    cases hs
    exact kindWord_not_modifier d.kind

theorem takes_record (h : SpellableDecl d) (hkind : d.kind ≠ .enumKind) (ts : List Token) :
    Takes record (bareTokens g d ++ ts) { d with nspace := none } ts := by
  have hbody : bodyTokens g d = d.members.flatMap (memberTokens g) := by
    rw [bodyTokens]
    split
    · rfl
    · rfl
    · exact absurd ‹_› hkind
  have hvalue : { d with nspace := none } = { d with
      module := none, nspace := none, members := (d.members.map some).filterMap id, variants := [] } := by
    rw [List.filterMap_map, Function.id_comp, List.filterMap_some, ← h.module, ← h.noVariants hkind]
  rw [bareTokens_append, hbody, hvalue]
  refine Takes.bind (takes_declAttributes h) ?_
  refine Takes.bind (takes_declModifiers h) ?_
  refine Takes.bind (takes_recordKind hkind _) ?_
  refine Takes.bind (takes_identifier h.name _) ?_
  refine Takes.bind (takes_base h.base _) ?_
  refine Takes.bind (takes_members h.members ts) ?_
  exact .pure

theorem refuses_record (h : SpellableDecl d) (hkind : d.kind = .enumKind) (ts : List Token) :
    Refuses record (bareTokens g d ++ ts) := by
  have hword : ∀ {k}, k ≠ .enumKind → kindWord d.kind ≠ kindWord k := by
    intro k hk
    rw [hkind]
    cases k <;> simp_all [kindWord]
  rw [bareTokens_append]
  refine Takes.bind_refuses (takes_declAttributes h) ?_
  refine Takes.bind_refuses (takes_declModifiers h) ?_
  refine Refuses.bind (Refuses.orElse_refuses ?_ ?_)
  · exact (refuses_kindWord (hword (k := .classKind) (by decide)) _).bind
  · exact (refuses_kindWord (hword (k := .structKind) (by decide)) _).bind

theorem takes_variant {v : VariantDecl} (hv : IsIdentifier v.name) (hts : ts.head? ≠ some (.mark '=')) :
    Takes variant (variantTokens v ++ ts) v ts := by
  rcases v with ⟨name, value⟩
  have hvalue : Takes (optional (do symbol "="; integerLiteral)) (valueTokens value ++ ts) value ts := by
    cases value with
    | none => exact (refuses_symbol '=' rfl (by decide) hts).bind.optional
    | some n => exact ((takes_symbol '=' rfl _).bind (takes_integerLiteral n ts)).optional
  refine Takes.bind (takes_no_attributes (by simp [variantTokens])) ?_
  refine Takes.bind (takes_identifier hv _) ?_
  exact hvalue.bind .pure

theorem refuses_variant (h : Closes ts) : Refuses variant ts :=
  (takes_no_attributes (h.not_mark (by decide))).bind_refuses (refuses_identifier h.not_name).bind

theorem takes_variants {vs : List VariantDecl} (h : ∀ v ∈ vs, IsIdentifier v.name) (ts : List Token) :
    Takes (between openBrace closeBrace (sepEndBy variant (symbol ",")))
      (.mark '{' :: ((vs.flatMap fun v => variantTokens v ++ [.mark ',']) ++ .mark '}' :: ts)) vs ts := by
  have hvariants : TakesEach variant variantTokens id (fun ts => ts.head? ≠ some (.mark '=')) vs := fun v hmem ts hts =>
    takes_variant (h v hmem) hts
  have hend : Refuses variant (.mark '}' :: ts) := refuses_variant (.mark (by decide))
  have hlist := hvariants.sepEndBy_closed (takes_symbol (s := ",") ',' rfl) (by simp) hend
  rw [List.map_id] at hlist
  exact .between (takes_openBrace _) hlist (takes_closeBrace ts)

theorem takes_enumeration (h : SpellableDecl d) (hkind : d.kind = .enumKind) (ts : List Token) :
    Takes enumeration (bareTokens g d ++ ts) { d with nspace := none } ts := by
  have hbody : bodyTokens g d = d.variants.flatMap fun v => variantTokens v ++ [.mark ','] := by
    rw [bodyTokens, hkind]
  have hvalue : { d with nspace := none } = { d with
      kind := .enumKind, module := none, nspace := none, members := [] } := by
    rw [← h.module, ← h.noMembers hkind, ← hkind]
  rw [bareTokens_append, hbody, hvalue]
  refine Takes.bind (takes_declAttributes h) ?_
  refine Takes.bind (takes_declModifiers h) ?_
  rw [hkind]
  refine Takes.bind (takes_keyword (by decide) _) ?_
  refine Takes.bind (takes_identifier h.name _) ?_
  refine Takes.bind (takes_base h.base _) ?_
  refine Takes.bind (takes_variants h.variants ts) ?_
  exact .pure

theorem takes_typeDecl (h : SpellableDecl d) (hts : ts.head? ≠ some (.mark ';')) :
    Takes typeDecl (bareTokens g d ++ ts) { d with nspace := none } ts := by
  have hdecl : Takes (record <|> enumeration) (bareTokens g d ++ ts) { d with nspace := none } ts := by
    by_cases hkind : d.kind = .enumKind
    · exact (refuses_record h hkind ts).orElse (takes_enumeration h hkind ts)
    · exact (takes_record h hkind ts).orElse
  have hsemicolon : Refuses (symbol ";") ts := refuses_symbol ';' rfl (by decide) hts
  exact hdecl.bind (hsemicolon.optional.bind .pure)

theorem refuses_typeDecl (h : Closes ts) : Refuses typeDecl ts := by
  have hkeyword : ∀ k, Refuses (keyword k) ts := fun k => refuses_keyword fun s hs => absurd hs (h.not_name s)
  have hrecord : Refuses record ts :=
    refuses_front h (Refuses.orElse_refuses (hkeyword _).bind (hkeyword _).bind).bind
  have henumeration : Refuses enumeration ts := refuses_front h (hkeyword _).bind
  exact (hrecord.orElse_refuses henumeration).bind

/-! ### Files -/

/-- The words and marks that a declaration may begin with. -/
theorem head_bareTokens (g : Grouping) (h : SpellableDecl d) (ts : List Token) :
    ∃ t, (bareTokens g d ++ ts).head? = some t ∧
      (t = .mark '[' ∨ ∃ s, t = .name s ∧ IsIdentifier s ∧ s ≠ "using" ∧ s ≠ "namespace") := by
  rw [bareTokens_append, attributesTokens]
  cases g.groups d.attributes with
  | cons group groups => exact ⟨_, rfl, .inl rfl⟩
  | nil =>
    cases hms : d.modifiers with
    | nil => exact ⟨_, rfl, .inr ⟨_, rfl, by cases d.kind <;> decide⟩⟩
    | cons m ms =>
      have hm : m ∈ modifierWords := h.modifiers m (hms ▸ List.mem_cons_self)
      have hwords : ∀ m ∈ modifierWords, IsIdentifier m ∧ m ≠ "using" ∧ m ≠ "namespace" := by decide
      exact ⟨_, rfl, .inr ⟨m, rfl, hwords m hm⟩⟩

/-- What a file is made of, given a parser for the declarations within a namespace. -/
def itemsWith (decls : Parser (List TypeDecl)) : Parser (List TypeDecl) := do
  let items ← many (item decls)
  return flatten none items

theorem takes_item {decls : Parser (List TypeDecl)} (h : SpellableDecl d)
    (hdecls : ∀ n ∈ d.nspace, ∀ ts, Takes decls (bareTokens g d ++ .mark '}' :: ts) [{ d with nspace := none }]
      (.mark '}' :: ts))
    (hts : ts.head? ≠ some (.mark ';')) : Takes (item decls) (declTokens g d ++ ts) (.types [d]) ts := by
  cases hn : d.nspace with
  | none =>
    have hkeyword : ∀ k ∈ ["using", "namespace"], Refuses (keyword k) (bareTokens g d ++ ts) := by
      intro k hk
      obtain ⟨t, hhead, ht⟩ := head_bareTokens g h ts
      refine refuses_keyword fun s hs => ?_
      rw [hhead] at hs
      cases hs
      rcases ht with ht | ⟨s, ht, hs, husing, hnamespace⟩ <;> cases ht
      refine ⟨hs, ?_⟩
      rintro rfl
      simp_all
    have hvalue : { d with nspace := none } = d := by rw [← hn]
    rw [declTokens, hn]
    -- Directives and both kinds of namespaces fail at their first word.
    refine Refuses.orElse (hkeyword _ (by simp)).bind ?_
    refine Refuses.orElse (hkeyword _ (by simp)).bind ?_
    refine Refuses.orElse (hkeyword _ (by simp)).bind ?_
    refine Takes.bind (takes_typeDecl h hts) ?_
    rw [hvalue]
    exact .pure
  | some n =>
    have husing : ∀ us, Refuses (keyword "using") (.name "namespace" :: us) := fun us =>
      refuses_keyword fun s hs => by
        cases hs
        decide
    have hname : ∀ us, Takes namespaceName (.name n :: us) n us := takes_namespaceName (h.nspace n hn)
    have hnamespace : ∀ us, Takes (keyword "namespace") (.name "namespace" :: us) () us := takes_keyword (by decide)
    have hvalue : TypeDecl.within (some n) { d with nspace := none } = d := by
      rw [TypeDecl.within, ← hn]
      rfl
    have hsemicolon : ∀ us, Refuses (symbol ";") (.mark '{' :: us) := fun us =>
      refuses_symbol ';' rfl (by decide) (by simp)
    rw [declTokens, hn]
    simp only [List.cons_append, List.append_assoc, List.nil_append]
    refine Refuses.orElse (husing _).bind ?_
    -- The namespace of a whole file would have a semicolon behind its name.
    refine Refuses.orElse ((hnamespace _).bind_refuses ((hname _).bind_refuses (hsemicolon _).bind)) ?_
    refine Takes.orElse ?_
    refine Takes.bind (hnamespace _) ?_
    refine Takes.bind (hname _) ?_
    refine Takes.bind (Takes.between (takes_openBrace _) (hdecls n hn ts) (takes_closeBrace ts)) ?_
    rw [List.map_singleton, hvalue]
    exact .pure

theorem refuses_item {decls : Parser (List TypeDecl)} (h : Closes ts) : Refuses (item decls) ts := by
  have hkeyword : ∀ k, Refuses (keyword k) ts := fun k => refuses_keyword fun s hs => absurd hs (h.not_name s)
  refine Refuses.orElse_refuses (hkeyword _).bind ?_
  refine Refuses.orElse_refuses (hkeyword _).bind ?_
  refine Refuses.orElse_refuses (hkeyword _).bind ?_
  exact (refuses_typeDecl h).bind

theorem flatten_types (ds : List TypeDecl) : flatten none (ds.map fun d => .types [d]) = ds := by
  induction ds with
  | nil => rfl
  | cons d ds ih =>
    have hnspace : (d.nspace <|> none) = d.nspace := by cases d.nspace <;> rfl
    have hwithin : TypeDecl.within none d = d := by rw [TypeDecl.within, hnspace]
    rw [List.map_cons, flatten, ih, List.map_singleton, hwithin]
    rfl

theorem head_declTokens (g : Grouping) (h : SpellableDecl d) (ts : List Token) :
    ∃ t, (declTokens g d ++ ts).head? = some t ∧ t ≠ .mark ';' := by
  rw [declTokens]
  split
  · obtain ⟨t, hhead, ht⟩ := head_bareTokens g h ts
    refine ⟨t, hhead, ?_⟩
    rcases ht with rfl | ⟨s, rfl, -⟩ <;> simp
  · exact ⟨_, rfl, by simp⟩

/-- Declarations one after the other. A namespace must be readable if one of them is within one. -/
theorem takes_itemsWith {decls : Parser (List TypeDecl)} {ds : List TypeDecl} (h : ∀ d ∈ ds, SpellableDecl d)
    (hdecls : ∀ d ∈ ds, ∀ n ∈ d.nspace, ∀ ts, Takes decls (bareTokens g d ++ .mark '}' :: ts)
      [{ d with nspace := none }] (.mark '}' :: ts))
    (hts : Closes ts) : Takes (itemsWith decls) (ds.flatMap (declTokens g) ++ ts) ds ts := by
  have hitems : TakesEach (item decls) (declTokens g) (fun d => .types [d])
      (fun ts => ts.head? ≠ some (.mark ';')) ds := fun d hd ts hts => takes_item (h d hd) (hdecls d hd) hts
  have hne : ∀ d ∈ ds, declTokens g d ≠ [] := fun d hd heq => by
    obtain ⟨t, hhead, -⟩ := head_declTokens g (h d hd) []
    rw [heq] at hhead
    cases hhead
  have hfollow : ∀ d ∈ ds, ∀ ts, (declTokens g d ++ ts).head? ≠ some (.mark ';') := fun d hd ts heq => by
    obtain ⟨t, hhead, ht⟩ := head_declTokens g (h d hd) ts
    rw [heq] at hhead
    cases hhead
    exact ht rfl
  have hlist := hitems.many hne hfollow (hts.not_mark (by decide)) (refuses_item hts)
  refine Takes.bind hlist ?_
  rw [flatten_types]
  exact .pure

theorem SpellableDecl.bare (h : SpellableDecl d) : SpellableDecl { d with nspace := none } :=
  { h with nspace := fun _ hn => by cases hn }

/-- Within a namespace a declaration has none of its own, so one more unfolding reads it. -/
theorem takes_declarations {ds : List TypeDecl} (h : ∀ d ∈ ds, SpellableDecl d) :
    Takes declarations (ds.flatMap (declTokens g)) ds [] := by
  refine Takes.recursive fun n hn => ?_
  have hnamespace : ∀ d ∈ ds, ∀ name ∈ d.nspace, ∀ ts, Takes (unfolded itemsWith n) (bareTokens g d ++ .mark '}' :: ts)
      [{ d with nspace := none }] (.mark '}' :: ts) := by
    intro d hd name hname ts
    cases n with
    | zero =>
      obtain ⟨t, hhead, -⟩ := head_declTokens g (h d hd) []
      have hmem : t ∈ ds.flatMap (declTokens g) :=
        List.mem_flatMap.mpr ⟨d, hd, by simpa using List.mem_of_mem_head? hhead⟩
      exact absurd (List.length_pos_of_mem hmem) (Nat.not_lt.mpr hn)
    | succ n =>
      have hbare : ∀ e ∈ [{ d with nspace := none }], SpellableDecl e := by
        simpa using (h d hd).bare
      have hread : Takes (itemsWith (unfolded itemsWith n))
          ([{ d with nspace := none }].flatMap (declTokens g) ++ .mark '}' :: ts) [{ d with nspace := none }]
          (.mark '}' :: ts) :=
        takes_itemsWith hbare (by simp) (.mark (by decide))
      rwa [List.flatMap_singleton] at hread
  have hitems : Takes (itemsWith (unfolded itemsWith n)) (ds.flatMap (declTokens g) ++ []) ds [] :=
    takes_itemsWith h hnamespace .nil
  rwa [List.append_nil] at hitems

/-! ### Texts -/

/-- The text spells the declarations, with gaps between the tokens and around them. -/
def Renders (g : Grouping) (ds : List TypeDecl) (source : String) : Prop :=
  ∃ gap cs, source.toList = gap ++ cs ∧ Gap gap ∧ Spells (ds.flatMap (declTokens g)) cs

theorem parseFile_of_renders {ds : List TypeDecl} {source : String} (h : ∀ d ∈ ds, SpellableDecl d)
    (hsource : Renders g ds source) : parseFile source = .ok ds := by
  obtain ⟨gap, cs, hchars, hgap, hspells⟩ := hsource
  have hlaid : Laid (ds.flatMap (declTokens g)) cs := ⟨hspells, allValid_flatMap fun d hd => valid_declTokens (h d hd)⟩
  obtain ⟨rest, hrest, hread, -⟩ := takes_declarations h cs hlaid
  obtain rfl : rest = [] := by
    cases hrest.spells
    rfl
  have hfile : file.on (gap ++ cs) = some (ds, []) := by
    rw [file, on_bind, on_trivia hgap hlaid.solid]
    exact hread
  rw [parseFile, parseText, hchars, parseAll_eq_ok hfile]
  rfl

/-- All attributes between one pair of brackets. -/
def together : Grouping where
  groups attributes := if attributes = [] then [] else [attributes]
  flatten_groups attributes := by split <;> simp [*]
  ne_nil attributes group hmem := by
    split at hmem
    · cases hmem
    · cases List.mem_singleton.mp hmem
      assumption

def sampleClass : TypeDecl where
  name := "Actor"
  kind := .classKind
  module := none
  nspace := some "Game.Core"
  base := some (.named "Object")
  attributes := [⟨"UClass", ["Engine"]⟩]
  modifiers := ["public"]
  members := [.field ⟨"Counts", ⟨"TArray", [.named "int"]⟩, [], []⟩,
    .method ⟨"Tick", .named "void", [⟨"delta", .named "float", some .byRef⟩], [], ["static"]⟩]
  variants := []

def sampleEnum : TypeDecl where
  name := "Mode"
  kind := .enumKind
  module := none
  nspace := none
  base := none
  attributes := []
  modifiers := []
  members := []
  variants := [⟨"Idle", none⟩, ⟨"Off", some (-1)⟩]

theorem spellable_sampleClass : SpellableDecl sampleClass where
  module := rfl
  nspace n hn := by
    cases hn
    exact ⟨["Game", "Core"], by decide, by decide, rfl⟩
  name := by decide
  attributes := List.forall_mem_singleton.mpr ⟨by decide, by decide⟩
  modifiers := by decide
  base := by decide
  members := by
    have hparam : SpellableParam ⟨"delta", .named "float", some .byRef⟩ := ⟨by decide, by decide, by decide⟩
    refine List.forall_mem_cons.mpr ⟨?_, List.forall_mem_singleton.mpr ⟨?_, List.forall_mem_singleton.mpr hparam⟩⟩
    · exact ⟨List.forall_mem_nil _, by decide, by decide, by decide, by decide⟩
    · exact ⟨List.forall_mem_nil _, by decide, by decide, by decide, by decide⟩
  variants := List.forall_mem_nil _
  noMembers := by decide
  noVariants _ := rfl

theorem spellable_sampleEnum : SpellableDecl sampleEnum where
  module := rfl
  nspace n hn := by cases hn
  name := by decide
  attributes := List.forall_mem_nil _
  modifiers := by decide
  base := by decide
  members := List.forall_mem_nil _
  variants := by decide
  noMembers _ := rfl
  noVariants h := absurd rfl h

def sampleSource : String :=
  "// a class and an enum\n" ++
  "namespace Game.Core \x7b [ UClass ( \"Engine\" ) ] public class Actor : Object \x7b " ++
  "TArray < int > Counts ; static void Tick ( ref float delta ) ; \x7d \x7d " ++
  "enum Mode \x7b Idle , Off = -1 , \x7d "

theorem parseFile_sampleSource : parseFile sampleSource = .ok [sampleClass, sampleEnum] := by
  have hgap : Gap "// a class and an enum\n".toList := by
    show Gap ('/' :: '/' :: " a class and an enum".toList ++ '\n' :: [])
    exact .line (by decide) .none
  refine parseFile_of_renders (g := together) ?_ ⟨_, _, ?_, hgap, spells_blanks _⟩
  · exact List.forall_mem_cons.mpr ⟨spellable_sampleClass, List.forall_mem_singleton.mpr spellable_sampleEnum⟩
  · decide +kernel

end
end EngineBridge.Source
