import EngineBridge.Proofs.Source.Balanced
import EngineBridge.Proofs.Source.SteadyFiles
import EngineBridge.Source.Parse
import Mathlib.Logic.Relation

/-! The inside of a block does not matter.

A block is found in a file by what is read in front of it: items, the head of a type, members, the head of a member, and for a
block within a block the pieces of the outer one. All of this is read again when the inside of the block changes, and behind
the block nothing has changed. -/

namespace EngineBridge.Source
open EngineBridge.Parser Relation

variable {α : Type} {s : Swap} {pre ok mid : List Char → Prop} {p : Parser α} {u u₁ cs y r w x back : List Char} {a : α}

/-! ### Repetitions around a place -/

/-- The parser leads from one place to another. -/
def Leads (p : Parser α) (cs r : List Char) : Prop := ∃ a, p.on cs = some (a, r)

theorem suffix_of_leads [Shrinks p] (h : ReflTransGen (Leads p) cs r) : r <:+ cs := by
  induction h with
  | refl => exact List.suffix_refl _
  | tail _ hlast ih =>
    obtain ⟨a, hread⟩ := hlast
    exact (Shrinks.suffix hread).trans ih

theorem Leaves.leads [Leaves pre p] (h : ReflTransGen (Leads p) cs r) (hpre : pre cs) : pre r := by
  induction h with
  | refl => exact hpre
  | tail _ hlast ih =>
    obtain ⟨a, hread⟩ := hlast
    exact Leaves.after ih hread

/-- On the way to a place where something is read, something is read. -/
theorem leads_of_leads (h : ReflTransGen (Leads p) cs y) (hread : p.on y = some (a, r)) : ∃ b m, p.on cs = some (b, m) := by
  rcases h.cases_head with rfl | ⟨m, ⟨b, hfirst⟩, -⟩
  · exact ⟨a, r, hread⟩
  · exact ⟨b, m, hfirst⟩

/-- The values in front of the place are read again, and from there on all is the same. -/
theorem on_many_alike [Consumes p] [Leaves pre p] (hp : Steady s pre mid p)
    (hnext : ∀ {cs a r}, pre cs → p.on cs = some (a, r) → mid cs) (hpass : ReflTransGen (Leads p) (s.old u) (s.old u₁))
    (hclear : s.Clear u) (hpre : pre (s.old u)) (hold : p.on (s.old u₁) = some (a, r)) (hnew : p.on (s.new u₁) = some (a, r)) :
    on (many p) (s.new u) = on (many p) (s.old u) := by
  generalize hcs : s.old u = cs at hpass hpre
  induction hpass using ReflTransGen.head_induction_on generalizing u with
  | refl =>
    rw [s.old_inj hcs, on_many, on_many, hold, hnew]
    dsimp only
    rw [if_pos (Consumes.length_lt hold), if_pos (Consumes.length_lt hnew)]
  | head hfirst hmore ih =>
    obtain ⟨b, hread⟩ := hfirst
    subst hcs
    obtain ⟨u₂, rfl, hsuffix⟩ := s.between (suffix_of_leads hmore) (Shrinks.suffix hread)
    have hpre₂ := Leaves.after hpre hread
    obtain ⟨c, m, hahead⟩ := leads_of_leads hmore hold
    have hagain := hp hclear hpre (hnext hpre₂ hahead) hread
    rw [on_many, on_many, hread, hagain]
    dsimp only
    rw [if_pos (Consumes.length_lt hread), if_pos (Consumes.length_lt hagain), ih (hclear.of_suffix hsuffix) rfl hpre₂]

/-! ### Blocks within blocks -/

/-- The block at `x` is the one at this place, or a block within that. -/
inductive Within (x : List Char) : List Char → Prop
  | here : Within x x
  | deeper {inside y w : List Char} (hpass : ReflTransGen (Leads (bodyPiece braces)) inside y)
    (hread : braces.on y = some ((), w)) (h : Within x y) : Within x ('{' :: inside)

theorem Within.suffix (h : Within x y) : x <:+ y := by
  induction h with
  | here => exact List.suffix_refl _
  | deeper hpass _ _ ih => exact (ih.trans (suffix_of_leads hpass)).trans (List.suffix_cons _ _)

/-- The change leaves the block a block with the same end. -/
structure Swap.Kept (s : Swap) (back : List Char) : Prop where
  old : braces.on (s.old []) = some ((), back)
  new : braces.on (s.new []) = some ((), back)

theorem steady_piece : Steady s Anywhere Anywhere (bodyPiece braces) := steady_bodyPiece steady_braces starts_braces

theorem on_braces_within (hkept : s.Kept back) (hclear : s.Clear u) (h : Within (s.old []) (s.old u))
    (hread : braces.on (s.old u) = some ((), w)) : braces.on (s.new u) = some ((), w) := by
  generalize hcs : s.old u = cs at h
  induction h generalizing u w with
  | here =>
    obtain rfl := s.old_inj hcs
    rw [hkept.old] at hread
    rw [hkept.new, hread]
  | @deeper inside y _ hpass hinner h ih =>
    obtain ⟨u₁, rfl, hu₁⟩ := s.between (h.suffix.trans (suffix_of_leads hpass)) (hcs ▸ List.suffix_cons '{' inside)
    obtain rfl : u = '{' :: u₁ := s.old_inj hcs
    obtain ⟨u₂, rfl, hu₂⟩ := s.between h.suffix (suffix_of_leads hpass)
    have hinside := hclear.of_suffix hu₁
    have hagain := ih (hinside.of_suffix hu₂) hinner rfl
    have hfront : Front (· = '{') (s.old u₂) := starts_braces trivial hinner
    obtain ⟨as, hpieces⟩ := on_braces_eq_some hread
    have halike := on_many_alike steady_piece (fun _ _ => trivial) hpass hinside trivial
      ((on_piece_of_brace hfront).trans hinner) ((on_piece_of_brace hfront.new).trans hagain)
    exact on_braces_of_pieces ⟨as, halike.trans hpieces⟩

/-! ### Members -/

/-- A value behind the block of a property. -/
def valueBehind : Parser Unit := do
  let _ ← optional (do initializer; symbol ";")

/-- The members that have a block. -/
inductive BlockForm
  | method
  | property
  | constructor

namespace BlockForm

/-- What stands between the modifiers and the block, read as the member that it will be. -/
def front (attributes : List Attribute) (modifiers : List String) : BlockForm → Parser (Option MemberDecl)
  | method => typed fun type name => do
    let params ← params
    return some (.method ⟨name, type, params, attributes, modifiers⟩)
  | property => typed fun type name => return some (.field ⟨name, type, attributes, modifiers⟩)
  | constructor => do
    let _ ← optional (symbol "~")
    let _ ← identifier
    let _ ← params
    return none

/-- What may stand behind the block. -/
def behind : BlockForm → Parser Unit
  | property => valueBehind
  | _ => pure ()

/-- All that stands in front of the block. -/
def head (f : BlockForm) : Parser (Option MemberDecl) := do
  let attributes ← attributes
  let modifiers ← modifiers
  f.front attributes modifiers

variable {f : BlockForm} {as : List Attribute} {ms : List String} {d : Option MemberDecl}

instance : Shrinks (f.front as ms) := by
  cases f <;> unfold front <;> infer_instance

instance : Leaves Still (f.front as ms) := by
  cases f <;> unfold front <;> infer_instance

instance : Shrinks f.head := by
  unfold head
  infer_instance

instance : Leaves Still f.head := by
  unfold head
  infer_instance

theorem starts_front : Starts Still StartsMember (f.front as ms) := by
  cases f with
  | method | property => exact (starts_typeExpr.mono fun _ => .inl).bind
  | constructor =>
    refine Starts.optional_bind ((starts_symbol rfl).mono fun c hc => .inr (.inl hc)) fun _ => ?_
    refine (starts_identifier.mono ?_).bind
    rintro c (rfl | hc)
    · exact .inr (.inr rfl)
    · exact .inl hc

theorem steady_front : Steady s Still ok (f.front as ms) := by
  cases f with
  | method => exact .typed fun _ _ => steady_params.map _
  | property => exact .typed fun _ _ => steady_pure _
  | constructor =>
    exact ((steady_symbol _).optional (firm_symbol (by decide))).seq fun _ => steady_identifier.seq fun _ => steady_params.map _

theorem steady_head : Steady s Still ok f.head :=
  .behind_attributes (fun _ => steady_modifiers.seq fun _ => steady_front)
    (fun _ => (starts_modifier.mono fun _ => .inl).many_bind fun _ => starts_front) (by rintro (hc | hc | hc) <;> cases hc)

end BlockForm

theorem on_methodBody_of_block (hstill : Still y) (h : block.on y = some ((), r)) : methodBody.on y = some ((), r) := by
  have hfront : Front (· = '{') y := starts_block hstill h
  have hend : (symbol ";").on y = none := (starts_symbol rfl).on_eq_none hstill (hfront.not (by decide))
  have harrow : arrowBody.on y = none := starts_arrowBody.on_eq_none hstill (hfront.not (by decide))
  exact (on_orElse_of_none hend).trans ((on_orElse_of_none harrow).trans h)

theorem total_valueBehind : Total valueBehind := by
  intro cs
  rcases hvalue : (do initializer; symbol ";" : Parser Unit).on cs with _ | ⟨_, r⟩
  · exact ⟨(), cs, on_bind_of_some (on_optional_of_none hvalue)⟩
  · exact ⟨(), r, on_bind_of_some (on_optional_of_some hvalue)⟩

theorem on_fieldTail_of_block (hstill : Still y) (h : block.on y = some ((), r)) : fieldTail.on y = valueBehind.on r := by
  have hfront : Front (· = '{') y := starts_block hstill h
  have hfield : fieldEnd.on y = none := starts_fieldEnd.on_eq_none hstill (hfront.mono fun c hc => by
    rw [hc]
    decide)
  have hblock : blockEnd.on y = valueBehind.on r := on_bind_of_some h
  obtain ⟨_, m, hbehind⟩ := total_valueBehind r
  rw [hbehind] at hblock ⊢
  exact (on_orElse_of_none hfield).trans (on_orElse_of_some hblock)

/-- A member with a block is what its head says, and ends behind the block. -/
theorem on_member_of_block {f : BlockForm} {d : Option MemberDecl} (hstill : Still cs) (hhead : f.head.on cs = some (d, y))
    (hblock : block.on y = some ((), r)) : member.on cs = (do f.behind; return d).on r := by
  have hstill' : Still y := Leaves.after hstill hhead
  obtain ⟨as, cs₁, has, hhead⟩ := on_bind_eq_some hhead
  obtain ⟨ms, cs₂, hms, hfront⟩ := on_bind_eq_some hhead
  have hstill₂ : Still cs₂ := Leaves.after (Leaves.after hstill has) hms
  refine (on_bind_of_some has).trans ((on_bind_of_some hms).trans ?_)
  rw [memberAfter_eq]
  cases f with
  | method =>
    obtain ⟨type, cs₃, htype, hfront⟩ := on_bind_eq_some hfront
    obtain ⟨name, cs₄, hname, hfront⟩ := on_bind_eq_some hfront
    obtain ⟨ps, hparams, rfl⟩ := on_map_eq_some hfront
    refine on_orElse_of_some ((on_bind_of_some htype).trans ((on_bind_of_some hname).trans ((on_bind_of_some hparams).trans ?_)))
    exact on_bind_of_some (on_methodBody_of_block hstill' hblock)
  | property =>
    obtain ⟨type, cs₃, htype, hfront⟩ := on_bind_eq_some hfront
    obtain ⟨name, hname, rfl⟩ := on_map_eq_some hfront
    -- Without parameters it is no method, and the block is the end of a field.
    have hparams : params.on y = none := starts_params.on_eq_none hstill' ((starts_block hstill' hblock).not (by decide))
    have hmethod : (methodAfter as ms).on cs₂ = none :=
      (on_bind_of_some htype).trans ((on_bind_of_some hname).trans (on_bind_of_none hparams))
    obtain ⟨_, m, hbehind⟩ := total_valueBehind r
    have htail := (on_fieldTail_of_block hstill' hblock).trans hbehind
    have hfield : (fieldAfter as ms).on cs₂ = some (some (.field ⟨name, type, as, ms⟩), m) :=
      (on_bind_of_some htype).trans ((on_bind_of_some hname).trans (on_bind_of_some htail))
    have hend : (do BlockForm.property.behind; return some (MemberDecl.field ⟨name, type, as, ms⟩) : Parser _).on r =
        some (some (MemberDecl.field ⟨name, type, as, ms⟩), m) := on_bind_of_some (p := valueBehind) hbehind
    exact (on_orElse_of_none hmethod).trans ((on_orElse_of_some hfield).trans hend.symm)
  | constructor =>
    obtain ⟨o, cs₃, htilde, hfront⟩ := on_bind_eq_some hfront
    obtain ⟨name, cs₄, hname, hfront⟩ := on_bind_eq_some hfront
    obtain ⟨ps, hparams, rfl⟩ := on_map_eq_some hfront
    -- What is read as a constructor is neither a method nor a field.
    have hctor : constructor.on cs₂ = some (none, r) :=
      (on_bind_of_some htilde).trans ((on_bind_of_some hname).trans ((on_bind_of_some hparams).trans
        (on_bind_of_some (on_methodBody_of_block hstill' hblock))))
    exact (on_orElse_of_none (excludes_typed hstill₂ hctor)).trans
      ((on_orElse_of_none (excludes_typed hstill₂ hctor)).trans hctor)

/-- The block at `x` is in the member here. -/
def InMember (x cs : List Char) : Prop :=
  ∃ (f : BlockForm) (d : Option MemberDecl) (y w : List Char),
    f.head.on cs = some (d, y) ∧ braces.on y = some ((), w) ∧ Within x y

theorem InMember.suffix (h : InMember x cs) : x <:+ cs := by
  obtain ⟨f, d, y, w, hhead, -, hwithin⟩ := h
  exact hwithin.suffix.trans (Shrinks.suffix hhead)

theorem on_block_of_braces (hstill : Still y) (h : braces.on y = some ((), w)) (hgap : trivia.on w = some ((), r)) :
    block.on y = some ((), r) :=
  (on_padded_of_still hstill).trans ((on_bind_of_some h).trans (on_bind_of_some hgap))

theorem on_member_alike (hkept : s.Kept back) (hclear : s.Clear u) (hstill : Still (s.old u)) (h : InMember (s.old []) (s.old u)) :
    ∃ d r, member.on (s.old u) = some (d, r) ∧ member.on (s.new u) = some (d, r) := by
  obtain ⟨f, d, y, w, hhead, hbraces, hwithin⟩ := h
  obtain ⟨u₁, rfl, hsuffix⟩ := s.between hwithin.suffix (Shrinks.suffix hhead)
  have hstill₁ : Still (s.old u₁) := Leaves.after hstill hhead
  have hclear₁ := hclear.of_suffix hsuffix
  obtain ⟨_, r, hgap⟩ := total_trivia w
  have hsteady : Steady s Still Anywhere f.head := BlockForm.steady_head
  have hold := on_member_of_block hstill hhead (on_block_of_braces hstill₁ hbraces hgap)
  have hnew := on_member_of_block (Carried.new hclear hstill) (hsteady hclear hstill trivial hhead)
    (on_block_of_braces (Carried.new hclear₁ hstill₁) (on_braces_within hkept hclear₁ hwithin hbraces) hgap)
  obtain ⟨_, r', hbehind⟩ : ∃ o r', f.behind.on r = some (o, r') := by
    cases f with
    | method | constructor => exact ⟨(), r, rfl⟩
    | property => exact total_valueBehind r
  exact ⟨d, r', hold.trans (on_bind_of_some hbehind), hnew.trans (on_bind_of_some hbehind)⟩

end EngineBridge.Source
