import EngineBridge.Proofs.Source.Blocks

/-! Places in a file that the reader of declarations comes to.

What is read at such a place is among the declarations of the file, wherever in a namespace that is. Where nothing can be read
and no brace closes what is open, the file is refused. -/

namespace EngineBridge.Parser
variable {α : Type} {p : Parser α} [Consumes p] {a : α} {as : List α} {cs y r w : List Char}

open Relation EngineBridge.Source

theorem exists_on_many_of_leads (hpass : ReflTransGen (Leads p) cs y) (hend : p.on y = none) :
    ∃ as, on (many p) cs = some (as, y) := by
  induction hpass using ReflTransGen.head_induction_on with
  | refl => exact ⟨[], on_many_of_none hend⟩
  | head hfirst _ ih =>
    obtain ⟨b, hread⟩ := hfirst
    obtain ⟨as, hmore⟩ := ih
    exact ⟨b :: as, on_many_of_some hread (Consumes.length_lt hread) hmore⟩

theorem mem_of_on_many (hpass : ReflTransGen (Leads p) cs y) (hread : p.on y = some (a, w))
    (hmany : on (many p) cs = some (as, r)) : a ∈ as := by
  have hcons : ∀ {cs m : List Char} {b : α} {as : List α}, p.on cs = some (b, m) → on (many p) cs = some (as, r) →
      ∃ bs, as = b :: bs ∧ on (many p) m = some (bs, r) := by
    intro cs m b as hfirst hmany
    rw [on_many, hfirst] at hmany
    dsimp only at hmany
    rw [if_pos (Consumes.length_lt hfirst)] at hmany
    obtain ⟨⟨bs, r'⟩, hbs, heq⟩ := Option.map_eq_some_iff.mp hmany
    cases heq
    exact ⟨bs, rfl, hbs⟩
  induction hpass using ReflTransGen.head_induction_on generalizing as with
  | refl =>
    obtain ⟨bs, rfl, -⟩ := hcons hread hmany
    exact List.mem_cons_self
  | head hfirst _ ih =>
    obtain ⟨b, hfirst⟩ := hfirst
    obtain ⟨bs, rfl, hbs⟩ := hcons hfirst hmany
    exact List.mem_cons_of_mem _ (ih hbs)

end EngineBridge.Parser

namespace EngineBridge.Source
open EngineBridge.Parser Relation

variable {z cs y r w : List Char} {d : TypeDecl} {ds : List TypeDecl} {name : String} {n : Option String}

/-- From the first text the reader of declarations comes to the other, where it tries to read an item. -/
inductive Comes (z : List Char) : List Char → Prop
  | here {cs : List Char} (hpass : ReflTransGen (Leads (item declarations)) cs z) : Comes z cs
  | nested {cs y inside : List Char} {name : String} (hpass : ReflTransGen (Leads (item declarations)) cs y)
    (hhead : nestedHead.on y = some (name, inside)) (h : Comes z inside) : Comes z cs

/-- Something is left that closes nothing. -/
def Unclosed (r : List Char) : Prop := r ≠ [] ∧ closeBrace.on r = none

theorem Comes.still (h : Comes z cs) (hstill : Still cs) : Still z := by
  induction h with
  | here hpass => exact Leaves.leads hpass hstill
  | nested hpass hhead _ ih => exact ih (Leaves.after (Leaves.leads hpass hstill) hhead)

/-! ### Namespaces -/

theorem word_of_nestedHead (hstill : Still y) (h : nestedHead.on y = some (name, r)) : ∃ m, word.on y = some ("namespace", m) := by
  obtain ⟨_, m, hkeyword, -⟩ := on_bind_eq_some h
  exact on_keyword_eq_some hstill hkeyword

theorem unclosed_of_front {P : Char → Prop} (hstill : Still y) (h : Front P y) (hP : ∀ c, P c → c ≠ '}') : Unclosed y := by
  refine ⟨?_, starts_closeBrace.on_eq_none hstill (h.mono hP)⟩
  rintro rfl
  obtain ⟨c, hc, -⟩ := h
  cases hc

theorem unclosed_of_nestedHead (hstill : Still y) (h : nestedHead.on y = some (name, r)) : Unclosed y := by
  obtain ⟨m, hword⟩ := word_of_nestedHead hstill h
  refine unclosed_of_front hstill (head?_of_word hword) fun c hc heq => ?_
  subst heq
  cases hc

/-- Where a namespace begins, nothing else does. -/
theorem on_item_of_nestedHead (hstill : Still y) (h : nestedHead.on y = some (name, r)) :
    (item declarations).on y = (nestedRest name).on r := by
  obtain ⟨m, hword⟩ := word_of_nestedHead hstill h
  have husing : usingItem.on y = none := on_bind_of_none (on_keyword_of_word hstill hword (by decide))
  have hnamespace : namespaceItem.on y = none := by
    obtain ⟨_, m₁, hkeyword, h⟩ := on_bind_eq_some h
    obtain ⟨name, m₂, hname, h⟩ := on_bind_eq_some h
    have hstill₂ : Still m₂ := Leaves.after (Leaves.after hstill hkeyword) hname
    have hfront : Front (· = '{') m₂ := starts_openBrace.bind hstill₂ h
    have hnone : (symbol ";").on m₂ = none := (starts_symbol rfl).on_eq_none hstill₂ (hfront.not (by decide))
    exact (on_bind_of_some hkeyword).trans ((on_bind_of_some hname).trans (on_bind_of_none hnone))
  have htype : typeItem.on y = none := on_bind_of_none (on_typeDecl_of_word hstill hword (by decide) (by decide))
  refine (on_orElse_of_none husing).trans ((on_orElse_of_none hnamespace).trans ((on_orElse _ _ _).trans ?_))
  show ((nestedItem declarations).on y).or (typeItem.on y) = _
  rw [on_nestedItem_of_head h, htype, Option.or_none]

theorem on_declarations_of_leads (hpass : ReflTransGen (Leads (item declarations)) cs y) (hend : (item declarations).on y = none) :
    ∃ ds, declarations.on cs = some (ds, y) := by
  obtain ⟨items, hitems⟩ := exists_on_many_of_leads hpass hend
  exact ⟨flatten none items, (on_declarations cs).trans (on_bind_of_some (p := many (item declarations)) hitems)⟩

/-- Where nothing is read at the place, something is left that closes nothing. -/
theorem Comes.unclosed (h : Comes z cs) (hstill : Still cs) (hnone : (item declarations).on z = none) (hz : Unclosed z) :
    ∃ ds r, declarations.on cs = some (ds, r) ∧ Unclosed r := by
  induction h with
  | here hpass =>
    obtain ⟨ds, hds⟩ := on_declarations_of_leads hpass hnone
    exact ⟨ds, z, hds, hz⟩
  | @nested cs y inside name hpass hhead _ ih =>
    have hstill₁ : Still y := Leaves.leads hpass hstill
    obtain ⟨ds, r, hds, hr⟩ := ih (Leaves.after hstill₁ hhead)
    have hitem : (item declarations).on y = none :=
      (on_item_of_nestedHead hstill₁ hhead).trans ((on_bind_of_some hds).trans (on_bind_of_none hr.2))
    obtain ⟨ds', hds'⟩ := on_declarations_of_leads hpass hitem
    exact ⟨ds', y, hds', unclosed_of_nestedHead hstill₁ hhead⟩

/-! ### Declarations -/

theorem within_within (a b : Option String) : TypeDecl.within b (TypeDecl.within a d) = TypeDecl.within (a <|> b) d := by
  obtain ⟨name, kind, module, nspace, base, attributes, modifiers, members, variants⟩ := d
  cases nspace <;> rfl

theorem mem_flatten {items : List Item} (h : Item.types ds ∈ items) (hd : TypeDecl.within n d ∈ ds) (start : Option String) :
    ∃ n, TypeDecl.within n d ∈ flatten start items := by
  induction items generalizing start with
  | nil => cases h
  | cons i items ih =>
    rcases List.mem_cons.mp h with rfl | hlater
    · exact ⟨n <|> start, List.mem_append_left _ (List.mem_map.mpr ⟨_, hd, within_within _ _⟩)⟩
    · cases i with
      | skipped => exact ih hlater start
      | fileNamespace name => exact ih hlater (some name)
      | types ds' =>
        obtain ⟨n, hmem⟩ := ih hlater start
        exact ⟨n, List.mem_append_right _ hmem⟩

/-- What is read at the place is among the declarations that are read, unless they stop before. -/
theorem Comes.mem (h : Comes z cs) (hstill : Still cs) (hitem : (item declarations).on z = some (.types [d], w))
    (hread : declarations.on cs = some (ds, r)) (hend : ¬ Unclosed r) : ∃ n, TypeDecl.within n d ∈ ds := by
  induction h generalizing ds r with
  | here hpass =>
    rw [on_declarations] at hread
    obtain ⟨items, hitems, rfl⟩ := on_map_eq_some hread
    have hself : TypeDecl.within none d ∈ [d] := by
      unfold TypeDecl.within
      cases hn : d.nspace <;> simp [← hn]
    exact mem_flatten (mem_of_on_many hpass hitem hitems) hself none
  | @nested cs y inside name hpass hhead _ ih =>
    have hstill₁ : Still y := Leaves.leads hpass hstill
    have hnested := on_item_of_nestedHead hstill₁ hhead
    rcases hrest : (nestedRest name).on inside with _ | ⟨i, w'⟩
    · obtain ⟨ds', hds'⟩ := on_declarations_of_leads hpass (hnested.trans hrest)
      cases hread.symm.trans hds'
      exact absurd (unclosed_of_nestedHead hstill₁ hhead) hend
    · rw [on_declarations] at hread
      obtain ⟨items, hitems, rfl⟩ := on_map_eq_some hread
      have hmem := mem_of_on_many hpass (hnested.trans hrest) hitems
      obtain ⟨ds', r', hds', hrest⟩ := on_bind_eq_some hrest
      obtain ⟨_, hclose, rfl⟩ := on_map_eq_some hrest
      have hclosed : ¬ Unclosed r' := fun hopen => by
        rw [hopen.2] at hclose
        cases hclose
      obtain ⟨n, hn⟩ := ih (Leaves.after hstill₁ hhead) hds' hclosed
      exact mem_flatten hmem (List.mem_map.mpr ⟨_, hn, within_within _ _⟩) none

/-! ### Files -/

/-- The reader of files comes to the place. -/
def Reached (z source : List Char) : Prop := ∃ cs, trivia.on source = some ((), cs) ∧ Comes z cs

namespace Reached
variable {source : List Char} (h : Reached z source)
include h

theorem still : Still z := by
  obtain ⟨cs, hgap, hcomes⟩ := h
  exact hcomes.still (still_of_trivia hgap)

theorem mem_of_parseFile (hitem : (item declarations).on z = some (.types [d], w))
    (hparse : parseFile (String.ofList source) = .ok ds) : ∃ n, TypeDecl.within n d ∈ ds := by
  obtain ⟨cs, hgap, hcomes⟩ := h
  rw [parseFile_eq_ok_iff] at hparse
  have hfile : file.on source = declarations.on cs := on_bind_of_some hgap
  exact hcomes.mem (still_of_trivia hgap) hitem (hfile.symm.trans hparse) fun hopen => hopen.1 rfl

theorem exists_error (hnone : (item declarations).on z = none) (hz : Unclosed z) :
    ∃ e, parseFile (String.ofList source) = .error e := by
  obtain ⟨cs, hgap, hcomes⟩ := h
  obtain ⟨ds, r, hds, hr⟩ := hcomes.unclosed (still_of_trivia hgap) hnone hz
  have hfile : file.on source = some (ds, r) := (on_bind_of_some hgap).trans hds
  cases hparse : parseFile (String.ofList source) with
  | error e => exact ⟨e, rfl⟩
  | ok ds' =>
    cases hfile.symm.trans (parseFile_eq_ok_iff.mp hparse)
    exact absurd rfl hr.1

end Reached

end EngineBridge.Source
