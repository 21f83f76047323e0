import EngineBridge.Proofs.Source.SteadyGrammar

/-! Members, types and whole files in front of a block whose inside changes. -/

namespace EngineBridge.Source
open EngineBridge.Parser

variable {α β : Type} {s : Swap} {pre ok mid : List Char → Prop} {p q : Parser α} {f : α → Parser β} {P : Char → Prop}
  {cs r : List Char} {a : α}

/-! ### Parameters -/

instance (ends : List Char) : Shrinks (skipTo ends) := by
  unfold skipTo
  infer_instance

theorem steady_skipTo (ends : List Char) : Steady s pre ok (skipTo ends) := by
  have hskip : Steady s Anywhere Anywhere (skipTo ends) := (steady_run _).seq fun _ => steady_pure _
  exact hskip.mono (fun _ => trivial) fun _ => trivial

theorem total_skipTo (ends : List Char) : Total (skipTo ends) := (total_run _).bind fun _ => total_pure ()

/-- What is skipped ends at a mark. -/
theorem leaves_skipTo {ends : List Char} (h : ∀ c ∈ ends, c ∉ gapStarts) : Leaves Still (skipTo ends) := ⟨fun {cs _ _} _ hread => by
  obtain ⟨_, hrun, -⟩ := on_map_eq_some hread
  rw [on_run] at hrun
  obtain ⟨-, rfl⟩ := Prod.mk.inj (Option.some.inj hrun)
  refine still_of_solid fun c hc => h c ?_
  have hstop := List.head?_dropWhile_not (!ends.contains ·) cs
  rw [Option.mem_def.mp hc] at hstop
  simpa using hstop⟩

instance : Leaves Still (skipTo [',', ')']) := leaves_skipTo (by simp [gapStarts])

instance : Leaves Still (skipTo [';']) := leaves_skipTo (by simp [gapStarts])

instance : Shrinks paramModifier := by
  unfold paramModifier
  infer_instance

instance : Leaves Still paramModifier := by
  unfold paramModifier
  infer_instance

theorem starts_paramModifier : Starts Still (isIdentifierStart · = true) paramModifier :=
  (starts_keyword _).bind.orElse ((starts_keyword _).bind.orElse (starts_keyword _).bind)

/-- A value that a keyword stands for. -/
theorem steady_named (k : String) (a : α) : Steady s Still ok (do keyword k; return a) := (steady_keyword k).seq fun _ => steady_pure a

theorem firm_named (k : String) (a : α) : Firm s Still ok (do keyword k; return a) :=
  (firm_keyword k).bind_total fun _ => total_pure a

theorem steady_paramModifier : Steady s Still ok paramModifier :=
  (steady_named _ _).orElse_of_firm (firm_named _ _) ((steady_named _ _).orElse_of_firm (firm_named _ _) (steady_named _ _))

theorem firm_paramModifier : Firm s Still ok paramModifier := (firm_named _ _).orElse ((firm_named _ _).orElse (firm_named _ _))

instance : Consumes param := by
  unfold param
  infer_instance

instance : Leaves Still param := by
  unfold param
  infer_instance

theorem not_starts_of {c d : Char} (hd : isIdentifierStart d = false) (h : isIdentifierStart c = true) : c ≠ d := by
  rintro rfl
  rw [hd] at h
  cases h

theorem starts_param : Starts Still (fun c => c = '[' ∨ isIdentifierStart c = true) param :=
  .attributes_bind fun _ => starts_paramModifier.optional_bind fun _ => starts_typeExpr.bind

theorem steady_param : Steady s Still ok param := by
  have hdefault : Steady s Still ok (do symbol "="; skipTo [',', ')']) := (steady_symbol _).seq fun _ => steady_skipTo _
  have hnone : Firm s Still ok (do symbol "="; skipTo [',', ')']) :=
    (firm_symbol (by decide)).bind_total fun _ => total_skipTo _
  refine .behind_attributes (fun _ => (steady_paramModifier.optional firm_paramModifier).seq fun _ => ?_)
    (fun _ => starts_paramModifier.optional_bind fun _ => starts_typeExpr.bind) (by decide)
  refine steady_typeExpr.bind (fun _ => steady_identifier.seq fun _ => (hdefault.optional hnone).map _) fun hstill _ h => ?_
  exact starts_identifier.bind.front_not (by decide) hstill h

instance : Shrinks params := by
  unfold params
  infer_instance

instance : Leaves Still params := by
  unfold params
  infer_instance

theorem starts_params : Starts Still (· = '(') params := (starts_symbol rfl).bind

theorem steady_params : Steady s Still ok params := by
  have hparam : Steady s Still Anywhere param := steady_param
  have hlist : Steady s Still (Front (· = ')')) (sepEndBy param (symbol ",")) :=
    hparam.sepEndBy starts_param (fun _ => trivial) (fun _ => trivial) (by decide) (by decide)
  exact (steady_symbol _).between hlist (steady_symbol _) fun hstill h => starts_symbol rfl hstill h

/-! ### Bodies -/

/-- A block without the gaps around it. -/
def blockWith (block : Parser Unit) : Parser Unit := between (exactly ['{']) (exactly ['}']) do
  let _ ← many (bodyPiece block)

/-- Braces and what they enclose, without the gaps around them. -/
def braces : Parser Unit := recursive blockWith

instance (quote : Char) : Consumes (quoted quote) := by
  unfold quoted
  infer_instance

instance {block : Parser Unit} [Consumes block] : Consumes (bodyPiece block) := by
  unfold bodyPiece
  infer_instance

instance {block : Parser Unit} [Shrinks block] : Shrinks (bodyPiece block) := by
  unfold bodyPiece
  infer_instance

instance : Guarded blockWith where
  agree h := by
    have hpiece := AgreeBelow.orElse (.refl comment)
      (.orElse (.refl (quoted '"')) (.orElse (.refl (quoted '\'')) (.orElse h (.refl (do
        let _ ← satisfy fun c => c ∉ ['{', '}', '"', '\''])))))
    have hinside := AgreeBelow.bind hpiece.many fun _ => .refl (pure ())
    exact .behind fun _ => hinside.bind fun _ => .refl _
  shrinks p _ := by
    unfold blockWith
    infer_instance

instance (n : Nat) : Consumes (unfolded blockWith n) where
  length_lt h := by
    cases n with
    | zero => cases h
    | succ n => exact (inferInstance : Consumes (exactly ['{'] >>= fun _ => _)).length_lt h

theorem starts_blockWith (n : Nat) : Starts Anywhere (· = '{') (unfolded blockWith n) := by
  intro cs a r hpre h
  cases n with
  | zero => cases h
  | succ n => exact (starts_exactly '{' []).bind hpre h

instance : Consumes braces where
  suffix h := (inferInstance : Shrinks (recursive blockWith)).suffix h
  length_lt {cs _ _} h := (inferInstance : Consumes (unfolded blockWith (cs.length + 1))).length_lt h

theorem starts_braces : Starts Anywhere (· = '{') braces := fun cs _ _ hpre h => starts_blockWith (cs.length + 1) hpre h

theorem starts_quoted (quote : Char) : Starts Anywhere (· = quote) (quoted quote) := (starts_exactly quote []).bind

theorem steady_quoted (quote : Char) : Steady s Anywhere Anywhere (quoted quote) :=
  (steady_exactly _).seq fun _ => (steady_skipTo _).seq fun _ => steady_exactly _

theorem starts_comment : Starts Anywhere (· = '/') comment :=
  (starts_text rfl).bind.orElse (starts_text rfl).bind

/-- A character that is read for itself. -/
theorem starts_plain : Starts Anywhere (· ∉ ['{', '}', '"', '\'']) (do
    let _ ← satisfy fun c => c ∉ ['{', '}', '"', '\'']) :=
  (starts_satisfy _).bind.mono fun c hc => by simpa using hc

/-- The pieces of a body are told apart by their first characters, but for a slash. -/
theorem steady_bodyPiece {block : Parser Unit} (hblock : Steady s Anywhere Anywhere block)
    (hstarts : Starts Anywhere (· = '{') block) : Steady s Anywhere Anywhere (bodyPiece block) := by
  have hplain : Steady s Anywhere Anywhere (do let _ ← satisfy fun c => c ∉ ['{', '}', '"', '\'']) :=
    (steady_satisfy _).seq fun _ => steady_pure _
  have hunquoted : ∀ q ∈ ['"', '\''], Excludes Anywhere
      (block <|> (do let _ ← satisfy fun c => c ∉ ['{', '}', '"', '\''])) (quoted q) := fun q hq => by
    refine Excludes.orElse ((starts_quoted q).excludes hstarts ?_) ((starts_quoted q).excludes starts_plain ?_)
    · rintro _ rfl rfl
      simp at hq
    · rintro _ hc rfl
      fin_cases hq <;> simp at hc
  have hquotes : Excludes Anywhere (quoted '\'') (quoted '"') := (starts_quoted _).excludes (starts_quoted _) fun c hc heq => by
    rw [heq] at hc
    cases hc
  have hblocks := hblock.orElse_apart hplain (hstarts.excludes starts_plain fun c hc heq => hc (by simp [heq]))
  have hcharacters := (steady_quoted '\'').orElse_apart hblocks (hunquoted _ (by simp))
  have hstrings := (steady_quoted '"').orElse_apart hcharacters (hquotes.orElse (hunquoted _ (by simp)))
  exact steady_comment.orElse_of_firm firm_comment hstrings

theorem starts_bodyPiece {block : Parser Unit} (hstarts : Starts Anywhere (· = '{') block) :
    Starts Anywhere (· ≠ '}') (bodyPiece block) :=
  (starts_comment.mono fun c hc => by rw [hc]; decide).orElse
    (((starts_quoted _).mono fun c hc => by rw [hc]; decide).orElse
      (((starts_quoted _).mono fun c hc => by rw [hc]; decide).orElse
        ((hstarts.mono fun c hc => by rw [hc]; decide).orElse
          (starts_plain.mono fun c hc heq => hc (by simp [heq])))))

theorem Firm.at_close {c : Char} (hp : Starts pre (· ≠ c) p) [Carried pre] : Firm s pre (Front (· = c)) p :=
  hp.firm fun hfront => hfront.mono fun _ hc hne => hne hc

/-- The inside of a block is read up to the brace that closes it. -/
theorem steady_pieces {block : Parser Unit} [Consumes block] (hblock : Steady s Anywhere Anywhere block)
    (hstarts : Starts Anywhere (· = '{') block) : Steady s Anywhere (Front (· = '}')) (many (bodyPiece block)) :=
  (steady_bodyPiece hblock hstarts).many_of_firm (Firm.at_close (starts_bodyPiece hstarts))

theorem steady_braces : Steady s Anywhere Anywhere braces := by
  refine .recursive fun n ih => ?_
  have hclose : Starts Anywhere (· = '}') (exactly ['}']) := starts_exactly '}' []
  exact (steady_exactly _).between ((steady_pieces ih (starts_blockWith n)).map _) (steady_exactly _) fun hpre h => hclose hpre h

theorem block_eq : block = padded braces := rfl

instance : Consumes block := inferInstanceAs (Consumes (padded braces))

instance : Leaves Still block := inferInstanceAs (Leaves Still (padded braces))

theorem starts_block : Starts Still (· = '{') block := by
  have hbraces : Starts Still (· = '{') braces := fun cs a r _ h => starts_braces trivial h
  exact hbraces.padded

theorem steady_block : Steady s Still ok block := by
  have hbraces : Steady s Still Anywhere braces := steady_braces.mono (fun _ => trivial) id
  exact hbraces.padded

/-! ### What ends a member -/

instance : Shrinks arrowBody := by
  unfold arrowBody
  infer_instance

instance : Leaves Still arrowBody := by
  unfold arrowBody
  infer_instance

theorem starts_arrowBody : Starts Still (· = '=') arrowBody := (starts_text rfl).bind.padded

theorem steady_arrowBody : Steady s Still ok arrowBody := by
  have hinside : Steady s Anywhere Anywhere (do text "=>"; skipTo [';']; text ";") :=
    (steady_text _).seq fun _ => (steady_skipTo _).seq fun _ => steady_text _
  exact Steady.padded (hinside.mono (fun _ => trivial) id)

instance : Shrinks initializer := by
  unfold initializer
  infer_instance

instance : Leaves Still initializer := by
  unfold initializer
  infer_instance

theorem starts_initializer : Starts Still (· = '=') initializer := (starts_symbol rfl).bind

theorem steady_initializer : Steady s Still ok initializer := (steady_symbol _).seq fun _ => steady_skipTo _

theorem firm_initializer : Firm s Still ok initializer := (firm_symbol (by decide)).bind_total fun _ => total_skipTo _

instance : Shrinks methodBody := by
  unfold methodBody
  infer_instance

instance : Leaves Still methodBody := by
  unfold methodBody
  infer_instance

theorem steady_methodBody : Steady s Still ok methodBody := by
  have hblock : Excludes Still block arrowBody := starts_arrowBody.excludes starts_block fun c hc heq => by
    rw [heq] at hc
    cases hc
  exact (steady_symbol ";").orElse_of_firm (firm_symbol (by decide)) (steady_arrowBody.orElse_apart steady_block hblock)

/-- The end of a field. -/
def fieldEnd : Parser Unit := do
  let _ ← optional initializer
  symbol ";"

/-- A block and the value behind it. -/
def blockEnd : Parser Unit := do
  block
  let _ ← optional (do initializer; symbol ";")

instance : Shrinks fieldEnd := by
  unfold fieldEnd
  infer_instance

instance : Shrinks blockEnd := by
  unfold blockEnd
  infer_instance

instance : Shrinks fieldTail := inferInstanceAs (Shrinks (fieldEnd <|> blockEnd <|> arrowBody))

instance : Leaves Still fieldEnd := by
  unfold fieldEnd
  infer_instance

instance : Leaves Still blockEnd := by
  unfold blockEnd
  infer_instance

instance : Leaves Still fieldTail := inferInstanceAs (Leaves Still (fieldEnd <|> blockEnd <|> arrowBody))

theorem starts_fieldEnd : Starts Still (fun c => c = '=' ∨ c = ';') fieldEnd :=
  (starts_initializer.mono fun _ => .inl).optional_bind fun _ => (starts_symbol rfl).mono fun _ => .inr

theorem starts_blockEnd : Starts Still (· = '{') blockEnd := starts_block.bind

theorem on_exactly_eq_some {t : List Char} {o : Unit} (h : (exactly t).on cs = some (o, r)) : cs = t ++ r := by
  rw [on_exactly] at h
  split at h
  · next hfront =>
    obtain ⟨r', rfl⟩ := hfront
    rw [List.drop_left] at h
    cases h
    rfl
  · cases h

theorem on_symbol_append {t : String} (hstill : Still (t.toList ++ cs)) (h : trivia.on cs = some ((), r)) :
    (symbol t).on (t.toList ++ cs) = some ((), r) := by
  have htext : (text t).on (t.toList ++ cs) = some ((), cs) := by
    rw [text, on_exactly, if_pos (List.prefix_append _ _), List.drop_left]
  exact (on_padded_of_still hstill).trans ((on_bind_of_some htext).trans (on_bind_of_some h))

/-- What an arrow begins is read as a value, too, with the same end. -/
theorem on_fieldEnd_of_arrow (hstill : Still cs) (h : arrowBody.on cs = some ((), r)) : fieldEnd.on cs = some ((), r) := by
  obtain ⟨m, hinside, hgap⟩ := on_padded_eq_some hstill h
  obtain ⟨_, t, harrow, hinside⟩ := on_bind_eq_some hinside
  obtain ⟨_, t', hskip, hend⟩ := on_bind_eq_some hinside
  obtain rfl : cs = "=>".toList ++ t := on_exactly_eq_some harrow
  obtain rfl : t' = ";".toList ++ m := on_exactly_eq_some hend
  have hsign : (symbol "=").on ("=>".toList ++ t) = some ((), '>' :: t) :=
    on_symbol_append (t := "=") hstill (still_of_solid (solid_cons (by decide)))
  have hvalue : (skipTo [';']).on ('>' :: t) = some ((), ";".toList ++ m) := by
    obtain ⟨_, hrun, -⟩ := on_map_eq_some hskip
    rw [on_run] at hrun
    have hdrop := (Prod.mk.inj (Option.some.inj hrun)).2
    refine on_bind_of_some (a := '>' :: t.takeWhile (fun c => !([';'].contains c))) ?_
    rw [on_run, ← hdrop, List.takeWhile_cons_of_pos (by decide), List.dropWhile_cons_of_pos (by decide)]
  have hinitializer : initializer.on ("=>".toList ++ t) = some ((), ";".toList ++ m) := (on_bind_of_some hsign).trans hvalue
  exact (on_bind_of_some (on_optional_of_some hinitializer)).trans
    (on_symbol_append (still_of_solid (solid_cons (by decide))) hgap)

/-- Nothing but a value may begin with an equals sign behind a field. -/
theorem steady_fieldTail : Steady s Still (Front (¬ · = '=')) fieldTail := by
  have hfield : Steady s Still (Front (¬ · = '=')) fieldEnd :=
    (steady_initializer.optional firm_initializer).seq fun _ => steady_symbol _
  have hvalue : Steady s Still (Front (¬ · = '=')) (do initializer; symbol ";") :=
    steady_initializer.seq fun _ => steady_symbol _
  have hblock : Steady s Still (Front (¬ · = '=')) blockEnd :=
    steady_block.seq fun _ => (hvalue.optional (starts_initializer.bind.firm id)).map fun _ => ()
  have harrow : Excludes Still arrowBody blockEnd := starts_blockEnd.excludes starts_arrowBody fun c hc heq => by
    rw [hc] at heq
    cases heq
  have hfirm : Firm s Still (Front (· = '{')) fieldEnd := starts_fieldEnd.firm fun hfront => hfront.mono fun c hc => by
    rw [hc]
    decide
  refine hfield.orElse hfirm (hblock.orElse_apart steady_arrowBody harrow) fun hstill hnone hread => ?_
  rcases on_orElse_eq_some hread with hread | ⟨-, hread⟩
  · exact starts_blockEnd hstill hread
  · rw [on_fieldEnd_of_arrow hstill hread] at hnone
    cases hnone

/-! ### Members -/

section Members
variable {as : List Attribute} {ms : List String}

/-- What begins with a type and a name. -/
def typed (f : TypeExpr → String → Parser β) : Parser β := do
  let type ← typeExpr
  let name ← identifier
  f type name

def methodAfter (as : List Attribute) (ms : List String) : Parser (Option MemberDecl) := typed fun type name => do
  let params ← params
  methodBody
  return some (.method ⟨name, type, params, as, ms⟩)

def fieldAfter (as : List Attribute) (ms : List String) : Parser (Option MemberDecl) := typed fun type name => do
  fieldTail
  return some (.field ⟨name, type, as, ms⟩)

/-- A constructor or a finalizer. -/
def constructor : Parser (Option MemberDecl) := do
  let _ ← optional (symbol "~")
  let _ ← identifier
  let _ ← params
  methodBody
  return none

theorem memberAfter_eq : memberAfter as ms = (methodAfter as ms <|> fieldAfter as ms <|> constructor) := rfl

instance {f : TypeExpr → String → Parser β} [∀ type name, Shrinks (f type name)] : Consumes (typed f) := by
  unfold typed
  infer_instance

instance {f : TypeExpr → String → Parser β} [∀ type name, Leaves Still (f type name)] : Leaves Still (typed f) := by
  unfold typed
  infer_instance

instance : Consumes (methodAfter as ms) := by
  unfold methodAfter
  infer_instance

instance : Consumes (fieldAfter as ms) := by
  unfold fieldAfter
  infer_instance

instance : Consumes constructor := by
  unfold constructor
  infer_instance

instance : Leaves Still (methodAfter as ms) := by
  unfold methodAfter
  infer_instance

instance : Leaves Still (fieldAfter as ms) := by
  unfold fieldAfter
  infer_instance

instance : Leaves Still constructor := by
  unfold constructor
  infer_instance

theorem Steady.typed {f : TypeExpr → String → Parser β} [∀ type name, Shrinks (f type name)]
    (hf : ∀ type name, Steady s Still ok (f type name)) : Steady s Still ok (typed f) :=
  steady_typeExpr.bind (fun type => steady_identifier.seq fun name => hf type name) fun hstill _ h =>
    starts_identifier.bind.front_not (by decide) hstill h

theorem steady_methodAfter : Steady s Still ok (methodAfter as ms) :=
  .typed fun _ _ => steady_params.seq fun _ => steady_methodBody.map _

theorem steady_fieldAfter : Steady s Still (Front (¬ · = '=')) (fieldAfter as ms) :=
  .typed fun _ _ => steady_fieldTail.map _

theorem steady_constructor : Steady s Still ok constructor :=
  ((steady_symbol _).optional (firm_symbol (by decide))).seq fun _ => steady_identifier.seq fun _ => steady_params.seq fun _ =>
    steady_methodBody.map _

theorem starts_fieldTail : Starts Still (· ≠ '(') fieldTail := by
  refine (starts_fieldEnd.mono ?_).orElse ((starts_blockEnd.mono ?_).orElse (starts_arrowBody.mono ?_))
  · rintro _ (rfl | rfl) <;> decide
  · rintro _ rfl
    decide
  · rintro _ rfl
    decide

theorem excludes_method : Excludes Still (fieldAfter as ms) (methodAfter as ms) := by
  intro cs m r hstill h
  obtain ⟨type, cs₁, htype, h⟩ := on_bind_eq_some h
  obtain ⟨name, cs₂, hname, h⟩ := on_bind_eq_some h
  have hstill₂ : Still cs₂ := Leaves.after (Leaves.after hstill htype) hname
  have hparams : params.on cs₂ = none := starts_params.on_eq_none hstill₂ (starts_fieldTail.bind hstill₂ h)
  exact (on_bind_of_some htype).trans ((on_bind_of_some hname).trans (on_bind_of_none hparams))

/-- A name with a parenthesis behind it is all of a type. -/
theorem rest_of_name {name : String} {type : TypeExpr} {m : List Char} (hstill : Still cs) (hname : identifier.on cs = some (name, m))
    (hm : Front (· = '(') m) (htype : typeExpr.on cs = some (type, r)) : r = m := by
  have hnone : ∀ {β : Type} {d : Char} {q : Parser β}, Starts Still (· = d) q → '(' ≠ d → q.on m = none := fun hq hd =>
    hq.on_eq_none (Leaves.after hstill hname) (hm.mono fun c hc => by rwa [hc])
  obtain ⟨m₀, hread, hgap⟩ := on_padded_eq_some hstill hname
  obtain ⟨o, cs', hat, hword⟩ := on_bind_eq_some hread
  rcases on_optional_eq_some hat with ⟨_, -, hat⟩ | ⟨-, -, rfl⟩
  · -- A name with a mark is no type.
    have hstarts : Starts Still (· = '@') (text "@") := starts_text rfl
    have hnot : typeExpr.on cs = none := starts_typeExpr.on_eq_none hstill ((hstarts hstill hat).mono fun c hc => by
      rw [hc]
      decide)
    rw [hnot] at htype
    cases htype
  rw [typeExpr, on_recursive] at htype
  obtain ⟨last, m₂, hlast, hrest⟩ := on_bind_eq_some htype
  obtain ⟨ps, hlast, -⟩ := on_map_eq_some hlast
  obtain ⟨m₁, hpath, hgap'⟩ := on_padded_eq_some hstill hlast
  rcases path_of_word hword hgap with hsingle | ⟨hpoint, -⟩
  · rw [hsingle] at hpath
    cases hpath
    obtain rfl : m₂ = m := (Prod.mk.inj (Option.some.inj (hgap'.symm.trans hgap))).2
    -- The parenthesis begins neither arguments nor a question mark nor brackets.
    have hargs : (between (symbol "<") (symbol ">") (sepBy1 typeExpr (symbol ","))).on m₂ = none :=
      hnone (starts_symbol rfl).bind (by decide)
    have hnullable : (symbol "?").on m₂ = none := hnone (starts_symbol rfl) (by decide)
    have hrank : (symbol "[]").on m₂ = none := hnone (starts_symbol rfl) (by decide)
    have hend := (on_bind_of_some (on_optional_of_none hargs)).symm.trans hrest
    replace hend := (on_bind_of_some (on_optional_of_none hnullable)).symm.trans hend
    replace hend := (on_bind_of_some (on_many_of_none hrank)).symm.trans hend
    exact (Prod.mk.inj (Option.some.inj hend)).2.symm
  · obtain ⟨c, hc, rfl⟩ := hm
    obtain ⟨d, hd, rfl⟩ := hpoint
    rw [hc] at hd
    cases hd

/-- A constructor's name is a type, but no name stands behind it. -/
theorem excludes_typed {f : TypeExpr → String → Parser (Option MemberDecl)} : Excludes Still constructor (typed f) := by
  intro cs m r hstill h
  obtain ⟨o, cs₁, htilde, hmore⟩ := on_bind_eq_some h
  rcases on_optional_eq_some htilde with ⟨_, -, htilde⟩ | ⟨-, -, rfl⟩
  · have hfront : Front (· = '~') cs := starts_symbol rfl hstill htilde
    have htype : typeExpr.on cs = none := starts_typeExpr.on_eq_none hstill (hfront.mono fun c hc => by
      rw [hc]
      decide)
    exact on_bind_of_none htype
  obtain ⟨name, cs₂, hname, hparams⟩ := on_bind_eq_some hmore
  have hstill₂ : Still cs₂ := Leaves.after hstill hname
  have hfront : Front (· = '(') cs₂ := starts_params.bind hstill₂ hparams
  rcases htype : typeExpr.on cs₁ with _ | ⟨type, cs₃⟩
  · exact on_bind_of_none htype
  · obtain rfl := rest_of_name hstill hname hfront htype
    have hnone : identifier.on cs₃ = none := starts_identifier.on_eq_none hstill₂ (hfront.mono fun c hc => by
      rw [hc]
      decide)
    exact (on_bind_of_some htype).trans (on_bind_of_none hnone)

instance : Consumes (memberAfter as ms) := inferInstanceAs (Consumes (methodAfter as ms <|> fieldAfter as ms <|> constructor))

instance : Leaves Still (memberAfter as ms) :=
  inferInstanceAs (Leaves Still (methodAfter as ms <|> fieldAfter as ms <|> constructor))

theorem steady_memberAfter : Steady s Still (Front (¬ · = '=')) (memberAfter as ms) := by
  have hfield : Steady s Still (Front (¬ · = '=')) (fieldAfter as ms) := steady_fieldAfter
  have hrest := hfield.orElse_apart steady_constructor excludes_typed
  exact steady_methodAfter.orElse_apart hrest (excludes_method.orElse excludes_typed)

/-- The characters that a member without attributes may begin with. -/
def StartsMember (c : Char) : Prop := isIdentifierStart c = true ∨ c = '~' ∨ c = '@'

theorem starts_constructor : Starts Still StartsMember constructor := by
  refine Starts.optional_bind ((starts_symbol rfl).mono fun c hc => .inr (.inl hc)) fun _ => ?_
  refine (starts_identifier.mono ?_).bind
  rintro c (rfl | hc)
  · exact .inr (.inr rfl)
  · exact .inl hc

theorem starts_memberAfter : Starts Still StartsMember (memberAfter as ms) := by
  have htyped : ∀ (f : TypeExpr → String → Parser (Option MemberDecl)), Starts Still StartsMember (typed f) := fun f =>
    (starts_typeExpr.mono fun _ => .inl).bind
  exact (htyped _).orElse ((htyped _).orElse starts_constructor)

theorem starts_afterModifiers : Starts Still StartsMember (do let ms ← modifiers; memberAfter as ms) :=
  (starts_modifier.mono fun _ => .inl).many_bind fun _ => starts_memberAfter

instance : Leaves Still modifiers := by
  unfold modifiers
  infer_instance

instance : Shrinks modifiers := inferInstanceAs (Shrinks (many modifier))

instance : Consumes member := by
  unfold member
  infer_instance

instance : Leaves Still member := by
  unfold member
  infer_instance

theorem starts_member : Starts Still (fun c => c = '[' ∨ StartsMember c) member :=
  .attributes_bind fun _ => starts_afterModifiers

theorem steady_member : Steady s Still (Front (¬ · = '=')) member := by
  have hafter : ∀ as, Steady s Still (Front (¬ · = '=')) (do let ms ← modifiers; memberAfter as ms) := fun _ =>
    steady_modifiers.seq fun _ => steady_memberAfter
  exact .behind_attributes hafter (fun _ => starts_afterModifiers) (by rintro (hc | hc | hc) <;> cases hc)

/-- Members are read up to the brace that closes them. -/
theorem steady_members : Steady s Still (Front (· = '}')) (many member) := by
  have hnone : Starts Still (· ≠ '}') member := starts_member.mono (by rintro _ (hc | hc | hc | hc) rfl <;> cases hc)
  refine steady_member.many (Firm.at_close hnone) (fun hstill h => ?_) fun hfront => hfront.not (by decide)
  exact starts_member.front_not (by rintro (hc | hc | hc | hc) <;> cases hc) hstill h

end Members

end EngineBridge.Source
