import EngineBridge.Proofs.Source.Steady

/-! Gaps and tokens in front of a block whose inside changes. Only a comment can tell the difference: one that is never
closed is none, and may become one. -/

namespace EngineBridge.Source
open EngineBridge.Parser

variable {α β : Type} {s : Swap} {pre ok mid : List Char → Prop} {p q : Parser α} {f : α → Parser β} {P : Char → Prop}
  {cs r : List Char} {a : α}

/-! ### Gaps -/

theorem shrinks_text (t : String) : Shrinks (text t) := inferInstanceAs (Shrinks (exactly t.toList))

instance (t : String) : Shrinks (text t) := shrinks_text t

theorem consumes_text {t : String} {c : Char} {t' : List Char} (h : t.toList = c :: t') : Consumes (text t) where
  length_lt hread := by
    rw [text, h] at hread
    exact Consumes.length_lt hread

theorem starts_text {t : String} {c : Char} {t' : List Char} (h : t.toList = c :: t') : Starts pre (· = c) (text t) := by
  rw [text, h]
  exact starts_exactly c t'

theorem steady_text (t : String) : Steady s pre ok (text t) := steady_exactly _

theorem settled_text {t : String} (h : '{' ∉ t.toList) : Settled (text t) := settled_exactly h

theorem total_run (test : Char → Bool) : Total (run test) := fun cs => ⟨_, _, on_run test cs⟩

theorem total_pure (a : α) : Total (pure a : Parser α) := fun cs => ⟨a, cs, rfl⟩

theorem Total.bind (hp : Total p) (hf : ∀ a, Total (f a)) : Total (p >>= f) := fun cs => by
  obtain ⟨a, r, hread⟩ := hp cs
  rw [on_bind_of_some hread]
  exact hf a r

theorem total_many [Consumes p] : Total (many p) := by
  intro cs
  induction hn : cs.length using Nat.strongRecOn generalizing cs with
  | _ n ih =>
    subst hn
    rcases hread : p.on cs with _ | ⟨a, m⟩
    · exact ⟨[], cs, on_many_of_none hread⟩
    · have hlt := Consumes.length_lt hread
      obtain ⟨as, r, hmore⟩ := ih _ hlt m rfl
      exact ⟨a :: as, r, on_many_of_some hread hlt hmore⟩

/-- The comment that ends with its line. -/
def lineComment : Parser Unit := do
  text "//"
  let _ ← restOfLine

/-- A character that does not close a comment. -/
def unclosed : Parser Char := do
  notHere (text "*/")
  satisfy fun _ => true

/-- The comment that is closed. -/
def blockComment : Parser Unit := do
  text "/*"
  let _ ← many unclosed
  text "*/"

instance : Consumes (text "//") := consumes_text rfl

instance : Consumes (text "/*") := consumes_text rfl

instance : Consumes (text "#") := consumes_text rfl

instance : Shrinks restOfLine := inferInstanceAs (Shrinks (run _))

instance : Consumes lineComment := by
  unfold lineComment
  infer_instance

instance : Consumes unclosed := by
  unfold unclosed
  infer_instance

instance : Consumes blockComment := by
  unfold blockComment
  infer_instance

instance : Consumes comment := inferInstanceAs (Consumes (lineComment <|> blockComment))

instance : Consumes directive := by
  unfold directive
  infer_instance

instance : Consumes triviaPiece := by
  unfold triviaPiece
  infer_instance

theorem steady_restOfLine : Steady s pre ok restOfLine := steady_run _

theorem total_restOfLine : Total restOfLine := total_run _

theorem steady_unclosed : Steady s Anywhere Anywhere unclosed := by
  have hnot : Steady s Anywhere Anywhere (notHere (text "*/")) := by
    intro u a u₁ hclear hpre hok h
    rw [on_notHere] at h ⊢
    rcases hclose : (text "*/").on (s.old u) with _ | r
    · rw [hclose] at h
      have hnew := (settled_text (by decide)).firm hclear hpre hpre hclose
      obtain ⟨rfl, hu⟩ := Prod.mk.inj (Option.some.inj h)
      rw [hnew, s.old_inj hu]
      rfl
    · rw [hclose] at h
      cases h
  exact hnot.seq fun _ => steady_satisfy _

/-- Inside a comment nothing is read where it is closed. -/
theorem on_unclosed_of_closed (cs : List Char) : unclosed.on ('*' :: '/' :: cs) = none := by
  have hclose : (text "*/").on ('*' :: '/' :: cs) = some ((), cs) := by
    rw [text, on_exactly]
    exact if_pos ⟨cs, rfl⟩
  exact on_bind_of_none (by rw [on_notHere, hclose]; rfl)

theorem steady_blockComment : Steady s Anywhere Anywhere blockComment := by
  have hinside : Steady s Anywhere (['*', '/'] <+: ·) (many unclosed) := by
    refine Steady.many steady_unclosed ?_ (fun _ _ => trivial) fun _ => trivial
    intro u _ _ hclosed _
    obtain ⟨w, hw⟩ := hclosed
    rcases u with _ | ⟨c, _ | ⟨d, u⟩⟩ <;> cases hw
    exact on_unclosed_of_closed _
  refine (steady_text _).seq fun _ => hinside.bind (fun _ => steady_text _) fun _ _ hclose => ?_
  rw [text, on_exactly] at hclose
  split at hclose
  · assumption
  · cases hclose

theorem on_unclosed_of_open {c : Char} (h : ¬ ['*', '/'] <+: c :: cs) : unclosed.on (c :: cs) = some (c, cs) := by
  have hopen : (text "*/").on (c :: cs) = none := by
    rw [text, on_exactly]
    exact if_neg h
  have hnot : (notHere (text "*/")).on (c :: cs) = some ((), c :: cs) := by
    rw [on_notHere, hopen]
    rfl
  exact on_bind_of_some hnot

/-- The inside of a comment ends where the comment is closed, if it is. -/
theorem on_many_unclosed (h : ['*', '/'] <:+: cs) : ∃ inside r, on (many unclosed) cs = some (inside, '*' :: '/' :: r) := by
  induction cs with
  | nil => simp at h
  | cons c cs ih =>
    by_cases hfront : ['*', '/'] <+: c :: cs
    · obtain ⟨r, hr⟩ := hfront
      rw [← hr]
      exact ⟨[], r, on_many_of_none (on_unclosed_of_closed r)⟩
    · obtain ⟨inside, r, hmore⟩ := ih ((List.infix_cons_iff.mp h).resolve_left hfront)
      exact ⟨c :: inside, r, on_many_of_some (on_unclosed_of_open hfront) (Nat.lt_succ_self _) hmore⟩

/-- The comment is refused where nothing closes it. -/
theorem on_blockComment_iff (cs : List Char) : blockComment.on ('/' :: '*' :: cs) = none ↔ ¬ ['*', '/'] <:+: cs := by
  have hopen : (text "/*").on ('/' :: '*' :: cs) = some ((), cs) := by
    rw [text, on_exactly]
    exact if_pos ⟨cs, rfl⟩
  have hafter : blockComment.on ('/' :: '*' :: cs) = (do let _ ← many unclosed; text "*/" : Parser Unit).on cs :=
    on_bind_of_some hopen
  rw [hafter]
  constructor
  · intro hnone hclosed
    obtain ⟨inside, r, hinside⟩ := on_many_unclosed hclosed
    have hclose : (text "*/").on ('*' :: '/' :: r) = some ((), r) := by
      rw [text, on_exactly]
      exact if_pos ⟨r, rfl⟩
    have hread := (on_bind_of_some (f := fun _ => text "*/") hinside).trans hclose
    rw [hnone] at hread
    cases hread
  · intro hopen
    obtain ⟨inside, r, hinside⟩ := total_many (p := unclosed) cs
    have hsuffix : r <:+ cs := Shrinks.suffix hinside
    refine (on_bind_of_some hinside).trans ?_
    rw [text, on_exactly]
    exact if_neg fun hfront => hopen (hfront.isInfix.trans hsuffix.isInfix)

theorem on_text_of_head {t : String} {c d : Char} {t' : List Char} (h : t.toList = c :: t') (hd : d ≠ c) :
    (text t).on (d :: cs) = none := by
  rw [text, h]
  exact on_exactly_cons hd

theorem firm_comment : Firm s Anywhere Anywhere comment := by
  have hline : Firm s Anywhere Anywhere lineComment :=
    (settled_text (by decide)).firm.bind_total fun _ => total_restOfLine.bind fun _ => total_pure ()
  have hblock : Firm s Anywhere Anywhere blockComment := by
    intro u hclear hpre hok h
    by_cases hopen : ['/', '*'] <+: u
    · obtain ⟨t, rfl⟩ := hopen
      exact (on_blockComment_iff _).mpr fun hclosed =>
        (on_blockComment_iff _).mp h (hclear t (List.suffix_refl _) hclosed)
    · have hnone : (text "/*").on (s.old u) = none := by
        rw [text, on_exactly, if_neg]
        intro hfront
        obtain ⟨w, hw⟩ := hfront
        rcases u with _ | ⟨c, _ | ⟨d, u⟩⟩ <;> cases hw
        exact hopen ⟨u, rfl⟩
      exact on_bind_of_none ((settled_text (by decide)).firm hclear hpre hok hnone)
  exact hline.orElse hblock

theorem steady_comment : Steady s Anywhere Anywhere comment := by
  have hline : Steady s Anywhere Anywhere lineComment := (steady_text _).seq fun _ => steady_restOfLine.seq fun _ => steady_pure _
  have hfirm : Firm s Anywhere Anywhere lineComment :=
    (settled_text (by decide)).firm.bind_total fun _ => total_restOfLine.bind fun _ => total_pure ()
  exact hline.orElse_of_firm hfirm steady_blockComment

theorem steady_trivia : Steady s pre ok trivia := by
  have hline : Steady s Anywhere Anywhere directive := (steady_text _).seq fun _ => steady_restOfLine.seq fun _ => steady_pure _
  have hfirm : Firm s Anywhere Anywhere directive :=
    (settled_text (by decide)).firm.bind_total fun _ => total_restOfLine.bind fun _ => total_pure ()
  have hblank : Settled (do let _ ← satisfy isBlank) := (settled_satisfy rfl).bind fun _ => .pure ()
  have hpiece : Steady s Anywhere Anywhere triviaPiece :=
    steady_comment.orElse_of_firm firm_comment (hline.orElse_of_firm hfirm hblank.steady)
  have hstop : Firm s Anywhere Anywhere triviaPiece := firm_comment.orElse (hfirm.orElse hblank.firm)
  have hmany : Steady s Anywhere Anywhere (many triviaPiece) := hpiece.many_of_firm hstop
  have htrivia : Steady s Anywhere Anywhere trivia := hmany.seq fun _ => steady_pure _
  exact htrivia.mono (fun _ => trivial) fun _ => trivial

/-! ### Words and marks with gaps around them -/

theorem total_trivia : Total trivia := (total_many (p := triviaPiece)).bind fun _ => total_pure ()

instance : Shrinks trivia := inferInstanceAs (Shrinks (many triviaPiece >>= fun _ => pure ()))

theorem still_of_trivia (h : trivia.on cs = some ((), r)) : Still r := by
  obtain ⟨as, m, hread, hmore⟩ := on_bind_eq_some (p := many triviaPiece) h
  cases hmore
  exact on_bind_of_some (p := many triviaPiece) (on_many_of_none (on_of_on_many hread))

theorem still_of_solid (h : Solid cs) : Still cs := on_trivia_of_solid h

instance : Carried Still := ⟨fun hclear h => steady_trivia hclear h h h⟩

theorem on_padded_of_still (h : Still cs) : (padded p).on cs = (do let a ← p; trivia; return a : Parser α).on cs :=
  on_bind_of_some h

theorem on_padded_eq_some (h : Still cs) (hread : (padded p).on cs = some (a, r)) :
    ∃ m, p.on cs = some (a, m) ∧ trivia.on m = some ((), r) := by
  rw [on_padded_of_still h] at hread
  obtain ⟨b, m, hvalue, hmore⟩ := on_bind_eq_some hread
  obtain ⟨_, m', htrivia, heq⟩ := on_bind_eq_some hmore
  obtain ⟨rfl, rfl⟩ := Prod.mk.inj (Option.some.inj heq)
  exact ⟨m, hvalue, htrivia⟩

instance [Shrinks p] : Shrinks (padded p) := by
  unfold padded
  infer_instance

instance [Consumes p] : Consumes (padded p) := by
  unfold padded
  infer_instance

instance : Leaves Still (padded p) := ⟨fun h hread => by
  obtain ⟨m, -, htrivia⟩ := on_padded_eq_some h hread
  exact still_of_trivia htrivia⟩

theorem Steady.padded [Shrinks p] (hp : Steady s Still Anywhere p) : Steady s Still ok (padded p) := by
  intro u a u₁ hclear hstill _ h
  obtain ⟨m, hread, htrivia⟩ := on_padded_eq_some hstill h
  obtain ⟨u₂, rfl, hsuffix⟩ := s.between (Shrinks.suffix htrivia) (Shrinks.suffix hread)
  rw [on_padded_of_still (Carried.new hclear hstill), on_bind_of_some (hp hclear hstill trivial hread)]
  have hgap : Steady s Anywhere Anywhere trivia := steady_trivia
  exact on_bind_of_some (hgap (hclear.of_suffix hsuffix) trivial trivial htrivia)

theorem on_padded_eq_none (h : Still cs) : (Source.padded p).on cs = none ↔ p.on cs = none := by
  rw [on_padded_of_still h]
  constructor
  · intro hnone
    rcases hread : p.on cs with _ | ⟨a, m⟩
    · rfl
    · obtain ⟨_, r, htrivia⟩ := total_trivia m
      rw [on_bind_of_some hread, on_bind_of_some htrivia] at hnone
      cases hnone
  · exact on_bind_of_none

theorem Firm.padded (hp : Firm s Still ok p) : Firm s Still ok (padded p) := by
  intro u hclear hstill hok h
  rw [on_padded_eq_none hstill] at h
  rw [on_padded_eq_none (Carried.new hclear hstill)]
  exact hp hclear hstill hok h

theorem Starts.padded (hp : Starts Still P p) : Starts Still P (padded p) := by
  intro cs a r hstill hread
  obtain ⟨m, hread, -⟩ := on_padded_eq_some hstill hread
  exact hp hstill hread

instance (t : String) : Shrinks (symbol t) := inferInstanceAs (Shrinks (padded (text t)))

instance (t : String) : Leaves Still (symbol t) := inferInstanceAs (Leaves Still (padded (text t)))

theorem steady_symbol (t : String) : Steady s Still ok (symbol t) := (steady_text t).padded

theorem firm_symbol {t : String} (h : '{' ∉ t.toList) : Firm s Still ok (symbol t) := (settled_text h).firm.padded

theorem starts_symbol {t : String} {c : Char} {t' : List Char} (h : t.toList = c :: t') : Starts Still (· = c) (symbol t) :=
  (starts_text h).padded

theorem settled_word : Settled word := by
  have hstart : isIdentifierStart '{' = false := by decide
  have hpart : isIdentifierPart '{' = false := by decide
  exact (settled_satisfy hstart).bind fun _ => (settled_run hpart).bind fun _ => .pure _

theorem starts_word : Starts pre (isIdentifierStart · = true) word := (starts_satisfy _).bind

instance : Consumes word := by
  unfold word
  infer_instance

instance (k : String) : Consumes (keyword k) := by
  unfold keyword
  infer_instance

instance (k : String) : Leaves Still (keyword k) := by
  unfold keyword
  infer_instance

theorem settled_keyword (k : String) : Settled (do let _ ← filtered word (· == k)) :=
  (settled_word.filtered _).bind fun _ => .pure ()

theorem steady_keyword (k : String) : Steady s Still ok (keyword k) := (settled_keyword k).steady.padded

theorem firm_keyword (k : String) : Firm s Still ok (keyword k) := (settled_keyword k).firm.padded

theorem starts_keyword (k : String) : Starts Still (isIdentifierStart · = true) (keyword k) := by
  have hword : Starts Still (isIdentifierStart · = true) (filtered word (· == k)) := by
    intro cs a r hstill hread
    rw [on_filtered, Option.filter_eq_some_iff] at hread
    exact starts_word hstill hread.1
  exact hword.bind.padded

instance : Consumes identifier := by
  unfold identifier
  infer_instance

instance : Leaves Still identifier := by
  unfold identifier
  infer_instance

theorem settled_identifier : Settled (do let _ ← optional (text "@"); word) :=
  (settled_text (by decide)).optional.bind fun _ => settled_word

theorem steady_identifier : Steady s Still ok identifier := settled_identifier.steady.padded

theorem starts_identifier : Starts Still (fun c => c = '@' ∨ isIdentifierStart c = true) identifier :=
  Starts.padded (((starts_text rfl).mono fun _ => .inl).optional_bind fun _ => starts_word.mono fun _ => .inr)

instance : Consumes path := by
  unfold path
  infer_instance

theorem settled_path : Settled path :=
  settled_word.bind fun _ => ((settled_text (by decide)).bind fun _ => settled_word).many.bind fun _ => .pure _

instance : Consumes lastOfPath := by
  unfold lastOfPath
  infer_instance

instance : Leaves Still lastOfPath := by
  unfold lastOfPath
  infer_instance

theorem steady_lastOfPath : Steady s Still ok lastOfPath := settled_path.steady.padded.seq fun _ => steady_pure _

theorem starts_lastOfPath : Starts Still (isIdentifierStart · = true) lastOfPath := starts_word.bind.padded.bind

theorem settled_digits {isDigit : Char → Bool} (h : isDigit '{' = false) : Settled (digits isDigit) := by
  have hfirst : (isDigit '{' && '{' != '0') = false := by rw [h]; rfl
  exact ((settled_satisfy hfirst).bind fun _ => (settled_run h).bind fun _ => .pure _).orElse
    ((settled_text (by decide)).bind fun _ => .pure _)

theorem settled_number : Settled (hexLiteral <|> decimalLiteral) := by
  have hhex : isHexDigit '{' = false := by decide
  have hdigit : Char.isDigit '{' = false := by decide
  have hmark : Settled (text "0x" <|> text "0X") := (settled_text (by decide)).orElse (settled_text (by decide))
  have hsigned : Settled (do let sign ← optional (text "-"); let ds ← digits Char.isDigit; return (sign.isSome, ds)) :=
    (settled_text (by decide)).optional.bind fun _ => (settled_digits hdigit).bind fun _ => .pure _
  exact (hmark.bind fun _ => (settled_digits hhex).checked _).orElse (hsigned.checked _)

end EngineBridge.Source
