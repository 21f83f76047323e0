import EngineBridge.Proofs.Source.SteadyTokens
import EngineBridge.Source.Grammar

/-! The grammar in front of a block whose inside changes: what each parser must find where it stops. -/

namespace EngineBridge.Source
open EngineBridge.Parser

variable {α β : Type} {s : Swap} {pre ok mid : List Char → Prop} {p q : Parser α} {f : α → Parser β} {P : Char → Prop}
  {cs r : List Char} {a : α}

/-! ### Lists -/

theorem Steady.between {opening closing : Parser Unit} [Shrinks opening] [Shrinks p] [Shrinks closing] [Leaves pre opening]
    [Leaves pre p] [Leaves pre closing] (hopening : Steady s pre Anywhere opening) (hp : Steady s pre mid p)
    (hclosing : Steady s pre ok closing) (hmid : ∀ {cs r}, pre cs → closing.on cs = some ((), r) → mid cs) :
    Steady s pre ok (between opening closing p) := by
  refine hopening.seq fun _ => hp.bind (fun a => hclosing.map fun _ => a) fun hpre _ hread => ?_
  obtain ⟨_, m, hclose, -⟩ := on_bind_eq_some hread
  exact hmid hpre hclose

instance {opening closing : Parser Unit} [Leaves pre opening] [Leaves pre p] [Leaves pre closing] :
    Leaves pre (between opening closing p) := by
  unfold Parser.between
  infer_instance

instance {opening closing : Parser Unit} [Consumes p] [Leaves pre opening] [Leaves pre p] [Leaves pre closing] :
    Leaves pre (between opening closing (many p)) := inferInstanceAs (Leaves pre (opening >>= fun _ => many p >>= _))

instance {separator : Parser Unit} [Shrinks separator] [Consumes p] [Leaves pre separator] [Leaves pre p] :
    Leaves pre (sepBy1 p separator) := by
  unfold Parser.sepBy1
  infer_instance

instance {separator : Parser Unit} [Shrinks separator] [Consumes p] [Leaves pre separator] [Leaves pre p] :
    Leaves pre (sepEndBy p separator) := by
  unfold Parser.sepEndBy
  infer_instance

/-- Where the list ends, no separator with another value is ahead. -/
theorem Steady.list [Consumes p] [Leaves Still p] {t : String} {c : Char} (ht : t.toList = [c]) (hp : Steady s Still mid p)
    (hc : ∀ {cs}, Front (· = c) cs → mid cs) (hmid : ∀ {cs}, ok cs → mid cs) (hend : Firm s Still ok (do symbol t; p)) :
    Steady s Still ok (sepBy1 p (symbol t)) := by
  have hmore : Starts Still (· = c) (do symbol t; p) := (starts_symbol ht).bind
  have hnext : ∀ {cs a r}, Still cs → (do symbol t; p).on cs = some (a, r) → mid cs := fun h hread => hc (hmore h hread)
  have hrest : Steady s Still ok (Parser.many (do symbol t; p)) :=
    ((steady_symbol t).seq fun _ => hp).many hend hnext hmid
  refine hp.bind (fun a => hrest.map fun as => a :: as) fun h hok hread => ?_
  obtain ⟨as, hlist, -⟩ := on_map_eq_some (p := Parser.many (do symbol t; p)) hread
  rcases on_many_eq_some hlist with ⟨-, -, rfl⟩ | ⟨_, _, _, -, hfirst, -, -⟩
  · exact hmid hok
  · exact hnext h hfirst

theorem Steady.sepBy1 [Consumes p] [Leaves Still p] {t : String} {c : Char} (ht : t.toList = [c]) (hp : Steady s Still mid p)
    (hc : ∀ {cs}, Front (· = c) cs → mid cs) (hmid : ∀ {cs}, ok cs → mid cs) (hok : ∀ {cs}, ok cs → Front (¬ · = c) cs) :
    Steady s Still ok (sepBy1 p (symbol t)) := by
  have hmore : Starts Still (· = c) (do symbol t; p) := (starts_symbol ht).bind
  exact hp.list ht hc hmid (hmore.firm hok)

theorem Front.not {c d : Char} (h : Front (· = d) cs) (hne : d ≠ c) : Front (¬ · = c) cs := by
  obtain ⟨d, hd, rfl⟩ := h
  exact ⟨d, hd, hne⟩

/-- The closing mark of a list is ahead, in front of the block. -/
def ClosedBy (s : Swap) (d : Char) (cs : List Char) : Prop := Front (· = d) cs ∧ ∃ u, cs = s.old u

/-- The closing mark of a list is ahead, or a comma and the closing mark. -/
def Trails (s : Swap) (d : Char) (cs : List Char) : Prop :=
  ClosedBy s d cs ∨ Front (· = ',') cs ∧ ∃ r, (symbol ",").on cs = some ((), r) ∧ ClosedBy s d r

theorem firm_more {d : Char} (hstarts : Starts Still P p) (hd : ¬ P d) (hne : d ≠ ',') :
    Firm s Still (Trails s d) (do symbol ","; p) := by
  have hnone : Firm s Still (Front (· = d)) p := hstarts.firm fun hfront => by
    obtain ⟨d, hhead, rfl⟩ := hfront
    exact ⟨d, hhead, hd⟩
  have hmore : Starts Still (· = ',') (do symbol ","; p) := (starts_symbol rfl).bind
  have hcomma : Firm s Still (Front (· = d)) (do symbol ","; p) := hmore.firm fun hfront => hfront.not hne
  intro u hclear hstill htrails h
  rcases htrails with ⟨hfront, -⟩ | ⟨-, _, hread, hfront, u₂, rfl⟩
  · exact hcomma hclear hstill hfront h
  · have hnew : (symbol ",").on (s.new u) = some ((), s.new u₂) := steady_symbol "," hclear hstill hfront hread
    obtain ⟨u₃, heq, hsuffix⟩ := s.between (List.suffix_refl _) (Shrinks.suffix hread)
    rw [← s.old_inj heq] at hsuffix
    rw [on_bind_of_some hread] at h
    rw [on_bind_of_some hnew]
    exact hnone (hclear.of_suffix hsuffix) (Leaves.after hstill hread) hfront h

/-- A list with a closing mark behind it: a last comma is read as such because no value begins with that mark. -/
theorem Steady.sepEndBy [Consumes p] [Leaves Still p] {d : Char} (hp : Steady s Still mid p) (hstarts : Starts Still P p)
    (hcomma : ∀ {cs}, Front (· = ',') cs → mid cs) (hclose : ∀ {cs}, Front (· = d) cs → mid cs) (hd : ¬ P d) (hne : d ≠ ',') :
    Steady s Still (Front (· = d)) (sepEndBy p (symbol ",")) := by
  have htrails : ∀ {cs}, Trails s d cs → mid cs := by
    rintro cs (⟨hfront, -⟩ | ⟨hfront, -⟩)
    · exact hclose hfront
    · exact hcomma hfront
  have hlist : Steady s Still (Trails s d) (Parser.sepBy1 p (symbol ",")) := hp.list rfl hcomma htrails (firm_more hstarts hd hne)
  have hlast : Steady s Still (ClosedBy s d) (do let as ← Parser.sepBy1 p (symbol ","); let _ ← Parser.optional (symbol ","); return as) := by
    refine hlist.bind (fun as => ((steady_symbol _).optional (firm_symbol (by decide))).map fun _ => as) fun hstill hclosed hread => ?_
    obtain ⟨_, hlast, -⟩ := on_map_eq_some hread
    rcases on_optional_eq_some hlast with ⟨_, -, hcomma⟩ | ⟨-, -, rfl⟩
    · exact .inr ⟨starts_symbol rfl hstill hcomma, _, hcomma, hclosed⟩
    · exact .inl hclosed
  have hfirm : Firm s Still (ClosedBy s d) (do let as ← Parser.sepBy1 p (symbol ","); let _ ← Parser.optional (symbol ","); return as) :=
    (hstarts.bind (f := fun a => Parser.many (do symbol ","; p) >>= fun as => pure (a :: as))).bind.firm fun hclosed => by
      obtain ⟨⟨d, hhead, rfl⟩, -⟩ := hclosed
      exact ⟨d, hhead, hd⟩
  have hall := (hlast.optional hfirm).map fun as => as.getD []
  exact hall.mono id fun hfront => ⟨hfront, _, rfl⟩

/-! ### Types -/

theorem Front.mono {Q : Char → Prop} (h : Front P cs) (hPQ : ∀ c, P c → Q c) : Front Q cs := by
  obtain ⟨c, hc, hP⟩ := h
  exact ⟨c, hc, hPQ c hP⟩

theorem Starts.front_not {d : Char} (hp : Starts pre P p) (hd : ¬ P d) (hpre : pre cs) (hread : p.on cs = some (a, r)) :
    Front (¬ · = d) cs :=
  (hp hpre hread).mono fun _ hc heq => hd (heq ▸ hc)

instance : Consumes (symbol "[]") := by
  have : Consumes (text "[]") := consumes_text rfl
  exact inferInstanceAs (Consumes (padded (text "[]")))

instance : Guarded typeExprWith where
  agree h := by
    have hmore := AgreeBelow.many (.bind (.refl (symbol ",")) fun _ => h)
    have hlist := AgreeBelow.bind h fun a => .bind hmore fun as => .refl (pure (a :: as))
    have hargs := AgreeBelow.bind (.refl (symbol "<")) fun _ => .bind hlist fun as => .refl (do symbol ">"; return as)
    exact .behind fun _ => .bind hargs.optional fun _ => .refl _
  shrinks p _ := by
    unfold typeExprWith
    infer_instance

instance (n : Nat) : Consumes (unfolded typeExprWith n) where
  length_lt h := by
    cases n with
    | zero => cases h
    | succ n => exact (inferInstance : Consumes (lastOfPath >>= fun _ => _)).length_lt h

instance (n : Nat) : Leaves Still (unfolded typeExprWith n) := by
  induction n with
  | zero => exact ⟨fun _ h => nomatch h⟩
  | succ n ih => exact ⟨fun hstill h => (inferInstance : Leaves Still (lastOfPath >>= fun _ => _)).after hstill h⟩

instance : Consumes typeExpr where
  suffix h := (inferInstance : Shrinks (recursive typeExprWith)).suffix h
  length_lt h := by
    rw [typeExpr, on_recursive] at h
    exact (inferInstance : Consumes (lastOfPath >>= fun _ => _)).length_lt h

instance : Leaves Still typeExpr := ⟨fun {cs _ _} hstill h =>
  (inferInstance : Leaves Still (unfolded typeExprWith (cs.length + 1))).after hstill h⟩

theorem starts_typeExpr : Starts Still (isIdentifierStart · = true) typeExpr := by
  intro cs a r hstill h
  rw [typeExpr, on_recursive] at h
  exact starts_lastOfPath.bind hstill h

theorem on_symbol_of_still {t : String} {c d : Char} {t' : List Char} (ht : t.toList = c :: t') (hstill : Still (d :: cs))
    (hd : d ≠ c) : (symbol t).on (d :: cs) = none :=
  (on_padded_eq_none hstill).mpr (on_text_of_head ht hd)

/-- A type is read to its end where no arguments may follow. -/
theorem steady_typeExpr : Steady s Still (Front (¬ · = '<')) typeExpr := by
  refine .recursive fun n ih => ?_
  have hlist : Steady s Still (Front (· = '>')) (Parser.sepBy1 (unfolded typeExprWith n) (symbol ",")) :=
    ih.sepBy1 rfl (fun h => h.not (by decide)) (fun h => h.not (by decide)) fun h => h.not (by decide)
  have hargs : Steady s Still (Front (¬ · = '<'))
      (Parser.between (symbol "<") (symbol ">") (Parser.sepBy1 (unfolded typeExprWith n) (symbol ","))) :=
    (steady_symbol _).between hlist (steady_symbol _) fun hstill h => starts_symbol rfl hstill h
  have hnone : Firm s Still (Front (¬ · = '<'))
      (Parser.between (symbol "<") (symbol ">") (Parser.sepBy1 (unfolded typeExprWith n) (symbol ","))) :=
    (starts_symbol rfl).bind.firm id
  refine steady_lastOfPath.seq fun _ => (hargs.optional hnone).bind (fun _ =>
    ((steady_symbol _).optional (firm_symbol (by decide))).seq fun _ =>
      ((steady_symbol _).many_of_firm (firm_symbol (by decide))).map _) ?_
  intro _ cs _ r hstill hr h
  rcases cs with _ | ⟨c, cs⟩
  · obtain ⟨d, hd, -⟩ := hr
    rw [List.suffix_nil.mp (Shrinks.suffix h)] at hd
    cases hd
  by_cases hc : c = '<'
  · subst hc
    -- Behind the bracket neither mark can be read, so it would be where the type ends.
    have hnullable : (optional (symbol "?")).on ('<' :: cs) = some (none, '<' :: cs) :=
      on_optional_of_none (on_symbol_of_still rfl hstill (by decide))
    have hrank : on (many (symbol "[]")) ('<' :: cs) = some ([], '<' :: cs) :=
      on_many_of_none (on_symbol_of_still rfl hstill (by decide))
    rw [on_bind_of_some hnullable, on_bind_of_some hrank] at h
    cases h
    exact hr
  · exact ⟨c, rfl, hc⟩

/-! ### Attributes and modifiers -/

instance : Consumes quotedText := by
  have : Consumes (text "\"") := consumes_text rfl
  unfold quotedText
  infer_instance

instance (isDigit : Char → Bool) : Consumes (digits isDigit) := by
  have : Consumes (text "0") := consumes_text rfl
  unfold digits
  infer_instance

instance : Consumes hexLiteral := by
  unfold hexLiteral
  infer_instance

instance : Consumes decimalLiteral := by
  unfold decimalLiteral
  infer_instance

instance : Consumes integerLiteral := by
  unfold integerLiteral
  infer_instance

instance : Leaves Still integerLiteral := by
  unfold integerLiteral
  infer_instance

instance : Consumes argumentValue := by
  unfold argumentValue
  infer_instance

instance : Leaves Still argumentValue := by
  unfold argumentValue
  infer_instance

theorem starts_digits {isDigit : Char → Bool} {d : Char} (h : isDigit d = false) (hzero : '0' ≠ d) :
    Starts pre (· ≠ d) (digits isDigit) := by
  have hdigit : Starts pre (· ≠ d) (satisfy fun c => isDigit c && c != '0') := (starts_satisfy _).mono fun c hc heq => by
    rw [heq, h] at hc
    cases hc
  exact hdigit.bind.orElse ((starts_text rfl).mono fun c hc => hc ▸ hzero).bind

/-- No number begins with such a character. -/
theorem starts_number {d : Char} (h : d.isDigit = false) (hminus : '-' ≠ d) : Starts pre (· ≠ d) (hexLiteral <|> decimalLiteral) := by
  have hzero : '0' ≠ d := by
    rintro rfl
    cases h
  have hmark : Starts pre (· = '0') (text "0x" <|> text "0X") := (starts_text rfl).orElse (starts_text rfl)
  have hsign : Starts pre (· ≠ d) (text "-") := (starts_text rfl).mono fun c hc => hc ▸ hminus
  exact (hmark.mono fun c hc => hc ▸ hzero).bind.orElse (hsign.optional_bind fun _ => (starts_digits h hzero).bind).checked

theorem steady_argumentValue : Steady s Still ok argumentValue := by
  have hquoted : Steady s Anywhere Anywhere quotedText :=
    (steady_text _).seq fun _ => (steady_run _).seq fun _ => (steady_text _).seq fun _ => steady_pure _
  have hnumber : Steady s Still Anywhere (do let n ← integerLiteral; return toString n.toInt) := settled_number.steady.padded.map _
  have hfirm : Firm s Still Anywhere (do let n ← integerLiteral; return toString n.toInt) :=
    settled_number.firm.padded.bind_total fun _ => total_pure _
  have hname : Settled (do let p ← path; return String.intercalate "." p) := settled_path.bind fun _ => .pure _
  have hrest := hnumber.orElse_of_firm hfirm hname.steady
  have hstart : Starts Still (· ≠ '"') (do let p ← path; return String.intercalate "." p) :=
    (starts_word.mono fun c hc heq => by
      rw [heq] at hc
      cases hc).bind.bind
  have hapart : Excludes Still ((do let n ← integerLiteral; return toString n.toInt) <|>
      (do let p ← path; return String.intercalate "." p)) quotedText :=
    (starts_text rfl).bind.excludes ((starts_number (by decide) (by decide)).padded.bind.orElse hstart) fun c hc => hc
  exact ((hquoted.mono (fun _ => trivial) id).orElse_apart hrest hapart).padded

/-- A path goes on behind its first word only with a point that touches the word. -/
theorem path_of_word {w : String} {m₀ m : List Char} (hword : word.on cs = some (w, m₀)) (hgap : trivia.on m₀ = some ((), m)) :
    path.on cs = some ([w], m₀) ∨ Front (· = '.') m ∧ m = m₀ := by
  rcases hmore : (do text "."; word : Parser String).on m₀ with _ | ⟨w', m₁⟩
  · exact .inl ((on_bind_of_some hword).trans (on_bind_of_some (on_many_of_none hmore)))
  · have hstarts : Starts Anywhere (· = '.') (do text "."; word) := (starts_text rfl).bind
    have hpoint := hstarts trivial hmore
    obtain ⟨c, hc, rfl⟩ := hpoint
    have hstill : Still m₀ := still_of_solid fun d hd => by
      cases hc.symm.trans hd
      decide
    obtain rfl : m = m₀ := (Prod.mk.inj (Option.some.inj (hgap.symm.trans hstill))).2
    exact .inr ⟨⟨_, hc, rfl⟩, rfl⟩

/-- Where a list of values begins with a word, it goes on behind that word or stops there. -/
theorem rest_of_key {w : String} {vs : List String} {m : List Char} (hstill : Still cs)
    (hkey : (padded word).on cs = some (w, m)) (hread : (sepBy1 argumentValue (symbol "|")).on cs = some (vs, r)) :
    r <:+ m ∧ (r = m ∨ Front (¬ · = '=') m) := by
  obtain ⟨m₀, hword, hgap⟩ := on_padded_eq_some hstill hkey
  obtain ⟨v, m', hvalue, hmore⟩ := on_bind_eq_some hread
  obtain ⟨m₁, hpath, hgap'⟩ := on_padded_eq_some hstill hvalue
  have hsuffix : r <:+ m' := Shrinks.suffix hmore
  have hstarts : Starts Still (isIdentifierStart · = true) word := starts_word
  obtain ⟨c, hc, hstart⟩ := hstarts hstill hword
  -- A word begins neither a quoted text nor a number, so the first value is a path.
  have hquoted : quotedText.on cs = none := (starts_text rfl).bind.on_eq_none hstill ⟨c, hc, fun heq => by
    rw [heq] at hstart
    cases hstart⟩
  have hnumber : integerLiteral.on cs = none := by
    have hdigit : c.isDigit = false := Bool.eq_false_iff.mpr fun h => by
      rw [not_isIdentifierStart_of_isDigit h] at hstart
      cases hstart
    have hminus : '-' ≠ c := by
      rintro rfl
      cases hstart
    exact (starts_number hdigit hminus).padded.on_eq_none hstill ⟨c, hc, fun h => h rfl⟩
  rw [on_orElse_of_none hquoted, on_orElse_of_none (on_bind_of_none hnumber)] at hpath
  obtain ⟨ps, hpath, -⟩ := on_map_eq_some hpath
  -- The path is the word alone, or goes on behind it with a point.
  rcases path_of_word hword hgap with hsingle | ⟨hpoint, rfl⟩
  · rw [hsingle] at hpath
    cases hpath
    obtain rfl : m' = m := (Prod.mk.inj (Option.some.inj (hgap'.symm.trans hgap))).2
    obtain ⟨vs', hlist, -⟩ := on_map_eq_some (p := many (do symbol "|"; argumentValue)) hmore
    refine ⟨hsuffix, ?_⟩
    rcases on_many_eq_some hlist with ⟨-, -, rfl⟩ | ⟨_, _, _, -, hbar, -, -⟩
    · exact .inl rfl
    · exact .inr ((starts_symbol rfl).bind.front_not (by decide) (still_of_trivia hgap) hbar)
  · obtain ⟨w', m₂, hfirst, hparts⟩ := on_bind_eq_some hpath
    obtain rfl : m₂ = m := (Prod.mk.inj (Option.some.inj (hfirst.symm.trans hword))).2
    have hpath : m₁ <:+ m₂ := Shrinks.suffix hparts
    exact ⟨(hsuffix.trans (Shrinks.suffix hgap')).trans hpath, .inr (hpoint.not (by decide))⟩

instance : Consumes attributeArgument := by
  unfold attributeArgument
  infer_instance

instance : Leaves Still attributeArgument := by
  unfold attributeArgument
  infer_instance

theorem starts_attributeArgument : Starts Still (· ≠ ')') attributeArgument := by
  have hword : Starts Still (· ≠ ')') word := starts_word.mono fun c hc heq => by
    rw [heq] at hc
    cases hc
  have hquoted : Starts Still (· ≠ ')') quotedText := (starts_text rfl).bind.mono fun c hc => hc ▸ by decide
  have hvalue : Starts Still (· ≠ ')') argumentValue :=
    (hquoted.orElse ((starts_number (by decide) (by decide)).padded.bind.orElse hword.bind.bind)).padded
  exact hword.padded.bind.orElse hvalue.bind

/-- A value without a key stays one, as no equals sign follows it. -/
theorem steady_attributeArgument : Steady s Still (Front fun c => c = ',' ∨ c = ')') attributeArgument := by
  have hkeyed : Steady s Still Anywhere (do
      let key ← padded word
      symbol "="
      let value ← argumentValue
      return [key ++ "=" ++ value]) :=
    settled_word.steady.padded.seq fun _ => (steady_symbol _).seq fun _ => steady_argumentValue.map _
  have hvalue : Steady s Still Anywhere argumentValue := steady_argumentValue
  have hlist : Steady s Still (Front fun c => c = ',' ∨ c = ')') (sepBy1 argumentValue (symbol "|")) :=
    hvalue.sepBy1 rfl (fun _ => trivial) (fun _ => trivial) fun hfront =>
      hfront.mono fun c hc heq => by
        rw [heq] at hc
        revert hc
        decide
  have hkey : Steady s Still Anywhere (padded word) := settled_word.steady.padded
  have hfirm : Firm s Still Anywhere (padded word) := settled_word.firm.padded
  intro u a u₁ hclear hstill hok h
  -- With a key it is read as it was. Without one, the word in front still has no equals sign behind it.
  rcases on_orElse_eq_some h with h | ⟨-, h⟩
  · exact on_orElse_of_some (hkeyed hclear hstill trivial h)
  refine (on_orElse_of_none ?_).trans (hlist hclear hstill hok h)
  rcases hword : (padded word).on (s.old u) with _ | ⟨w, m⟩
  · exact on_bind_of_none (hfirm hclear hstill trivial hword)
  · obtain ⟨hsuffix, hm⟩ := rest_of_key hstill hword h
    obtain ⟨u₂, rfl, hu₂⟩ := s.between hsuffix (Shrinks.suffix hword)
    have hfront : Front (¬ · = '=') (s.old u₂) := by
      rcases hm with heq | hfront
      · rw [← heq]
        exact hok.mono fun c hc heq => by
          rw [heq] at hc
          revert hc
          decide
      · exact hfront
    have hnew := hkey hclear hstill trivial hword
    have hstill₂ : Still (s.new u₂) := Carried.new (hclear.of_suffix hu₂) (Leaves.after hstill hword)
    exact (on_bind_of_some hnew).trans (on_bind_of_none ((starts_symbol rfl).on_eq_none hstill₂ hfront.new))

instance : Shrinks attributeArguments := by
  unfold attributeArguments
  infer_instance

instance : Leaves Still attributeArguments := by
  unfold attributeArguments
  infer_instance

theorem steady_attributeArguments : Steady s Still ok attributeArguments := by
  have hlist : Steady s Still (Front (· = ')')) (sepEndBy attributeArgument (symbol ",")) :=
    steady_attributeArgument.sepEndBy starts_attributeArgument (fun h => h.mono fun _ => .inl) (fun h => h.mono fun _ => .inr)
      (fun h => h rfl) (by decide)
  exact ((steady_symbol _).between hlist (steady_symbol _) fun hstill h => starts_symbol rfl hstill h).map _

instance : Consumes oneAttribute := by
  unfold oneAttribute
  infer_instance

instance : Leaves Still oneAttribute := by
  unfold oneAttribute
  infer_instance

theorem steady_oneAttribute : Steady s Still (Front (¬ · = '(')) oneAttribute := by
  have hnone : Firm s Still (Front (¬ · = '(')) attributeArguments := (starts_symbol rfl).bind.bind.firm id
  exact steady_lastOfPath.seq fun _ => (steady_attributeArguments.optional hnone).map _

/-- A group of attributes in brackets. -/
def attributeGroup : Parser (List Attribute) := between (symbol "[") (symbol "]") (sepBy1 oneAttribute (symbol ","))

instance : Consumes attributeGroup where
  suffix h := (inferInstance : Shrinks (between (symbol "[") (symbol "]") (sepBy1 oneAttribute (symbol ",")))).suffix h
  length_lt h := by
    obtain ⟨_, m, hopen, hmore⟩ := on_bind_eq_some h
    exact Nat.lt_of_lt_of_le ((inferInstance : Consumes (sepBy1 oneAttribute (symbol ",") >>= fun _ => _)).length_lt hmore)
      (Shrinks.suffix hopen).length_le

instance : Leaves Still attributeGroup := by
  unfold attributeGroup
  infer_instance

theorem starts_attributeGroup : Starts Still (· = '[') attributeGroup := (starts_symbol rfl).bind

theorem steady_attributeGroup : Steady s Still ok attributeGroup := by
  have hlist : Steady s Still (Front (· = ']')) (sepBy1 oneAttribute (symbol ",")) :=
    steady_oneAttribute.sepBy1 rfl (fun h => h.not (by decide)) (fun h => h.not (by decide)) fun h => h.not (by decide)
  exact (steady_symbol _).between hlist (steady_symbol _) fun hstill h => starts_symbol rfl hstill h

instance : Shrinks attributes := inferInstanceAs (Shrinks (many attributeGroup >>= fun _ => _))

instance : Leaves Still attributes := inferInstanceAs (Leaves Still (many attributeGroup >>= fun _ => _))

theorem steady_attributes : Steady s Still (Front (¬ · = '[')) attributes := by
  have hall : Steady s Still (Front (¬ · = '[')) (many attributeGroup) :=
    steady_attributeGroup.many_of_firm (starts_attributeGroup.firm id)
  exact hall.map List.flatten

theorem Starts.attributes_bind {f : List Attribute → Parser β} (hf : ∀ as, Starts Still P (f as)) :
    Starts Still (fun c => c = '[' ∨ P c) (attributes >>= f) := by
  intro cs b r hstill h
  obtain ⟨as, m, hread, hmore⟩ := on_bind_eq_some h
  obtain ⟨groups, hgroups, -⟩ := on_map_eq_some (p := many attributeGroup) hread
  rcases on_many_eq_some hgroups with ⟨-, -, rfl⟩ | ⟨_, _, _, -, hfirst, -, -⟩
  · exact (hf as hstill hmore).mono fun _ => .inr
  · exact (starts_attributeGroup hstill hfirst).mono fun _ => .inl

/-- Behind the attributes no bracket is ahead. -/
theorem Steady.behind_attributes {f : List Attribute → Parser β} [∀ as, Shrinks (f as)] (hf : ∀ as, Steady s Still ok (f as))
    (hstarts : ∀ as, Starts Still P (f as)) (hP : ¬ P '[') : Steady s Still ok (attributes >>= f) :=
  steady_attributes.bind hf fun hstill _ h => (hstarts _).front_not hP hstill h

instance : Consumes modifier := by
  unfold modifier
  infer_instance

instance : Leaves Still modifier := by
  unfold modifier
  infer_instance

theorem starts_modifier : Starts Still (isIdentifierStart · = true) modifier := starts_word.checked.padded

theorem steady_modifiers : Steady s Still ok modifiers :=
  Steady.many_of_firm (settled_word.checked _).steady.padded (settled_word.checked _).firm.padded

end EngineBridge.Source
