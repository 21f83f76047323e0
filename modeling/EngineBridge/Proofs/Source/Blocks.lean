import Mathlib
import EngineBridge.Proofs.Source.Bodies

/-! Files in which the inside of a block changes.

A block of a member is found through the types and namespaces around it. What is read in front of it is read again after the
change, the member is the same, and so are all declarations of the file. -/

namespace EngineBridge.Source
open EngineBridge.Parser Relation

variable {α β : Type} {s : Swap} {pre ok : List Char → Prop} {p opening closing : Parser α} {d : TypeDecl} {i : Item} {name : String}
  {u x cs r w back : List Char}

/-! ### Classes and structs -/

theorem on_bind_congr {f : α → Parser β} {cs' : List Char} (h : p.on cs = p.on cs') : (p >>= f).on cs = (p >>= f).on cs' := by
  rw [on_bind, h, ← on_bind]

theorem on_between_bind {opening closing : Parser Unit} {f : α → Parser β} (h : opening.on cs = some ((), r)) :
    (between opening closing p >>= f).on cs = (do let a ← p; closing; f a).on r := by
  have hopened : (between opening closing p).on cs = (do let a ← p; closing; return a).on r := on_bind_of_some h
  rw [on_bind, hopened]
  simp only [on_bind, Option.bind_assoc]
  rfl

/-- A class or struct up to its opening brace, without its members. -/
def recordHead : Parser TypeDecl := do
  let attributes ← attributes
  let modifiers ← modifiers
  let kind ← recordKind
  let name ← identifier
  let base ← base
  openBrace
  return { name, kind, base, attributes, modifiers, module := none, nspace := none, members := [], variants := [] }

/-- The members that stand behind the opening brace. -/
def recordRest (d : TypeDecl) : Parser TypeDecl := do
  let members ← many member
  closeBrace
  return { d with members := members.filterMap id }

instance : Shrinks recordHead := by
  unfold recordHead
  infer_instance

instance : Leaves Still recordHead := by
  unfold recordHead
  infer_instance

theorem steady_recordHead : Steady s Still ok recordHead := by
  refine .behind_attributes (fun as => steady_modifiers.seq fun ms => ?_)
    (fun _ => starts_behindModifiers fun _ => starts_recordKind.bind) (by decide)
  refine steady_recordKind.seq fun _ => steady_identifier.seq fun _ => steady_base.bind (fun _ => ?_) fun hstill _ h => ?_
  · exact steady_openBrace.map _
  · exact starts_openBrace.bind hstill h

theorem on_record_of_head (h : recordHead.on cs = some (d, r)) : record.on cs = (recordRest d).on r := by
  obtain ⟨as, cs₁, has, h⟩ := on_bind_eq_some h
  obtain ⟨ms, cs₂, hms, h⟩ := on_bind_eq_some h
  obtain ⟨kind, cs₃, hkind, h⟩ := on_bind_eq_some h
  obtain ⟨name, cs₄, hname, h⟩ := on_bind_eq_some h
  obtain ⟨base, cs₅, hbase, h⟩ := on_bind_eq_some h
  obtain ⟨_, hopen, rfl⟩ := on_map_eq_some h
  refine (on_bind_of_some has).trans ((on_bind_of_some hms).trans ((on_bind_of_some hkind).trans ?_))
  exact (on_bind_of_some hname).trans ((on_bind_of_some hbase).trans (on_between_bind hopen))

/-- The block at `x` is in the class or struct here. -/
def InRecord (x cs : List Char) : Prop :=
  ∃ (d : TypeDecl) (inside y : List Char),
    recordHead.on cs = some (d, inside) ∧ ReflTransGen (Leads member) inside y ∧ InMember x y

theorem InRecord.suffix (h : InRecord x cs) : x <:+ cs := by
  obtain ⟨d, inside, y, hhead, hpass, hmember⟩ := h
  exact (hmember.suffix.trans (suffix_of_leads hpass)).trans (Shrinks.suffix hhead)

theorem on_record_alike (hkept : s.Kept back) (hclear : s.Clear u) (hstill : Still (s.old u)) (h : InRecord (s.old []) (s.old u)) :
    record.on (s.new u) = record.on (s.old u) := by
  obtain ⟨d, inside, y, hhead, hpass, hmember⟩ := h
  obtain ⟨u₁, rfl, hu₁⟩ := s.between (hmember.suffix.trans (suffix_of_leads hpass)) (Shrinks.suffix hhead)
  obtain ⟨u₂, rfl, hu₂⟩ := s.between hmember.suffix (suffix_of_leads hpass)
  have hclear₁ := hclear.of_suffix hu₁
  have hstill₁ : Still (s.old u₁) := Leaves.after hstill hhead
  obtain ⟨m, r, hold, hnew⟩ := on_member_alike hkept (hclear₁.of_suffix hu₂) (Leaves.leads hpass hstill₁) hmember
  have hnext : ∀ {cs m r}, Still cs → member.on cs = some (m, r) → Front (¬ · = '=') cs := fun hcs hread =>
    starts_member.front_not (by rintro (hc | hc | hc | hc) <;> cases hc) hcs hread
  have hmembers := on_many_alike steady_member hnext hpass hclear₁ hstill₁ hold hnew
  have hsteady : Steady s Still Anywhere recordHead := steady_recordHead
  rw [on_record_of_head hhead, on_record_of_head (hsteady hclear hstill trivial hhead)]
  exact on_bind_congr (p := many member) hmembers

/-! ### Namespaces -/

/-- A namespace up to its opening brace. -/
def nestedHead : Parser String := do
  keyword "namespace"
  let name ← namespaceName
  openBrace
  return name

/-- The declarations that stand behind the opening brace. -/
def nestedRest (name : String) : Parser Item := do
  let decls ← declarations
  closeBrace
  return .types (decls.map (TypeDecl.within (some name)))

instance : Shrinks nestedHead := by
  unfold nestedHead
  infer_instance

instance : Leaves Still nestedHead := by
  unfold nestedHead
  infer_instance

theorem steady_nestedHead : Steady s Still ok nestedHead :=
  (steady_keyword _).seq fun _ => steady_namespaceName.seq fun _ => steady_openBrace.map _

theorem on_nestedItem_of_head (h : nestedHead.on cs = some (name, r)) :
    (nestedItem declarations).on cs = (nestedRest name).on r := by
  obtain ⟨_, cs₁, hkeyword, h⟩ := on_bind_eq_some h
  obtain ⟨name, cs₂, hname, h⟩ := on_bind_eq_some h
  obtain ⟨_, hopen, rfl⟩ := on_map_eq_some h
  exact (on_bind_of_some hkeyword).trans ((on_bind_of_some hname).trans (on_between_bind hopen))

/-! ### Declarations -/

theorem on_item_of_nested (hstill : Still cs) (h : (nestedItem declarations).on cs = some (i, r)) :
    (item declarations).on cs = some (i, r) := by
  have husing : usingItem.on cs = none := excludes_using_namespace hstill h
  exact (on_orElse_of_none husing).trans ((on_orElse_of_none (excludes_nested hstill h)).trans (on_orElse_of_some h))

theorem on_item_of_type (hstill : Still cs) (h : typeItem.on cs = some (i, r)) : (item declarations).on cs = some (i, r) := by
  have husing : usingItem.on cs = none := excludes_keyword_type (by decide) (by decide) hstill h
  have hnamespace : namespaceItem.on cs = none := excludes_keyword_type (by decide) (by decide) hstill h
  have hnested : (nestedItem declarations).on cs = none := excludes_keyword_type (by decide) (by decide) hstill h
  exact (on_orElse_of_none husing).trans ((on_orElse_of_none hnamespace).trans ((on_orElse_of_none hnested).trans h))

theorem total_optional : Total (optional p) := by
  intro cs
  rcases hread : p.on cs with _ | ⟨a, r⟩
  · exact ⟨_, _, on_optional_of_none hread⟩
  · exact ⟨_, _, on_optional_of_some hread⟩

/-- A class or struct is an item, whatever stands behind it. -/
theorem on_typeItem_of_record (h : record.on cs = some (d, r)) :
    typeItem.on cs = (do let _ ← optional (symbol ";"); return Item.types [d] : Parser Item).on r := by
  have hdecl : typeDecl.on cs = (do let _ ← optional (symbol ";"); return d : Parser TypeDecl).on r :=
    on_bind_of_some (on_orElse_of_some h)
  obtain ⟨_, w, hsemicolon⟩ := total_optional (p := symbol ";") r
  rw [on_bind_of_some hsemicolon] at hdecl ⊢
  exact on_bind_of_some hdecl

/-- The block at `x` is in one of the declarations that begin here. -/
inductive InDeclarations (x : List Char) : List Char → Prop
  | record {cs y w : List Char} {d : TypeDecl} (hpass : ReflTransGen (Leads (item declarations)) cs y)
    (hread : record.on y = some (d, w)) (h : InRecord x y) : InDeclarations x cs
  | nested {cs y inside w : List Char} {name : String} {i : Item} (hpass : ReflTransGen (Leads (item declarations)) cs y)
    (hhead : nestedHead.on y = some (name, inside)) (hread : (nestedItem declarations).on y = some (i, w))
    (h : InDeclarations x inside) : InDeclarations x cs

theorem InDeclarations.suffix (h : InDeclarations x cs) : x <:+ cs := by
  induction h with
  | record hpass _ h => exact h.suffix.trans (suffix_of_leads hpass)
  | nested hpass hhead _ _ ih => exact (ih.trans (Shrinks.suffix hhead)).trans (suffix_of_leads hpass)

theorem on_declarations_of_item {u₁ : List Char} (hclear : s.Clear u) (hstill : Still (s.old u))
    (hpass : ReflTransGen (Leads (item declarations)) (s.old u) (s.old u₁)) (hold : (item declarations).on (s.old u₁) = some (i, r))
    (hnew : (item declarations).on (s.new u₁) = some (i, r)) : declarations.on (s.new u) = declarations.on (s.old u) := by
  have hsteady : Steady s Still Anywhere (item declarations) := steady_item steady_declarations
  have hitems := on_many_alike hsteady (fun _ _ => trivial) hpass hclear hstill hold hnew
  rw [on_declarations, on_declarations]
  exact on_bind_congr (p := many (item declarations)) hitems

theorem on_declarations_alike (hkept : s.Kept back) (hclear : s.Clear u) (hstill : Still (s.old u))
    (h : InDeclarations (s.old []) (s.old u)) : declarations.on (s.new u) = declarations.on (s.old u) := by
  generalize hcs : s.old u = cs at h
  induction h generalizing u with
  | @record cs y w d hpass hread h =>
    subst hcs
    obtain ⟨u₁, rfl, hu₁⟩ := s.between h.suffix (suffix_of_leads hpass)
    have hclear₁ := hclear.of_suffix hu₁
    have hstill₁ : Still (s.old u₁) := Leaves.leads hpass hstill
    have hagain := (on_record_alike hkept hclear₁ hstill₁ h).trans hread
    obtain ⟨_, r, hsemicolon⟩ := total_optional (p := symbol ";") w
    have hold := (on_typeItem_of_record hread).trans (on_bind_of_some hsemicolon)
    have hnew := (on_typeItem_of_record hagain).trans (on_bind_of_some hsemicolon)
    exact on_declarations_of_item hclear hstill hpass (on_item_of_type hstill₁ hold)
      (on_item_of_type (Carried.new hclear₁ hstill₁) hnew)
  | @nested cs y inside w name i hpass hhead hread h ih =>
    subst hcs
    obtain ⟨u₁, rfl, hu₁⟩ := s.between (h.suffix.trans (Shrinks.suffix hhead)) (suffix_of_leads hpass)
    obtain ⟨u₂, rfl, hu₂⟩ := s.between h.suffix (Shrinks.suffix hhead)
    have hclear₁ := hclear.of_suffix hu₁
    have hstill₁ : Still (s.old u₁) := Leaves.leads hpass hstill
    have hsteady : Steady s Still Anywhere nestedHead := steady_nestedHead
    have hinside := ih (hclear₁.of_suffix hu₂) (Leaves.after hstill₁ hhead) rfl
    have hagain : (nestedItem declarations).on (s.new u₁) = some (i, w) := by
      rw [on_nestedItem_of_head (hsteady hclear₁ hstill₁ trivial hhead), ← hread, on_nestedItem_of_head hhead]
      exact on_bind_congr hinside
    exact on_declarations_of_item hclear hstill hpass (on_item_of_nested hstill₁ hread)
      (on_item_of_nested (Carried.new hclear₁ hstill₁) hagain)

/-! ### Files -/

/-- The text with a block in it. -/
def blockText (front inside behind : List Char) : List Char := front ++ '{' :: (inside ++ '}' :: behind)

/-- These parts of a file are what stands in front of the block of a member or a block within that, inside, and behind. -/
structure IsBlock (front inside behind : List Char) : Prop where
  place : ∃ cs, trivia.on (blockText front inside behind) = some ((), cs) ∧ InDeclarations (blockText [] inside behind) cs
  closes : braces.on (blockText [] inside behind) = some ((), behind)

theorem on_file_alike (hkept : s.Kept back) (hclear : s.Clear u)
    (h : ∃ cs, trivia.on (s.old u) = some ((), cs) ∧ InDeclarations (s.old []) cs) : file.on (s.new u) = file.on (s.old u) := by
  obtain ⟨cs, hgap, hplace⟩ := h
  obtain ⟨u₁, rfl, hu₁⟩ := s.between hplace.suffix (Shrinks.suffix hgap)
  have hsteady : Steady s Anywhere Anywhere trivia := steady_trivia
  have hagain := hsteady hclear trivial trivial hgap
  have halike := on_declarations_alike hkept (hclear.of_suffix hu₁) (still_of_trivia hgap) hplace
  have hold : file.on (s.old u) = declarations.on (s.old u₁) := on_bind_of_some hgap
  exact (on_bind_of_some hagain).trans (halike.trans hold.symm)

/-- The inside of a block may be replaced by any text in which braces are balanced and no literal escapes its own quote, if that
closes no comment that stood open in front of the block. -/
theorem parseFile_of_block {front inside inside' behind : List Char} {ds : List TypeDecl} (hblock : IsBlock front inside behind)
    (hbalanced : Balanced Unescaped inside') (hclear : Swap.Clear ⟨inside ++ '}' :: behind, inside' ++ '}' :: behind⟩ front)
    (haccepted : parseFile (String.ofList (blockText front inside behind)) = .ok ds) :
    parseFile (String.ofList (blockText front inside' behind)) = .ok ds := by
  have hkept : Swap.Kept ⟨inside ++ '}' :: behind, inside' ++ '}' :: behind⟩ behind :=
    ⟨hblock.closes, on_braces_of_balanced hbalanced behind⟩
  rw [parseFile_eq_ok_iff] at haccepted ⊢
  exact (on_file_alike hkept hclear hblock.place).trans haccepted

theorem within_none (d : TypeDecl) : TypeDecl.within none d = d := by simp [TypeDecl.within]

/-- A file whose only part is this item. -/
theorem parseFile_of_item {gap : List Char} {ds : List TypeDecl} (hgap : Gap gap) (hsolid : Solid cs)
    (hitem : (item declarations).on cs = some (.types ds, [])) : parseFile (String.ofList (gap ++ cs)) = .ok ds := by
  have hend : (item declarations).on [] = none := by
    rw [Option.eq_none_iff_forall_ne_some]
    rintro ⟨i, r⟩ hread
    exact absurd (Consumes.length_lt hread) (Nat.not_lt_zero _)
  have hitems : on (many (item declarations)) cs = some ([.types ds], []) :=
    on_many_of_some hitem (Consumes.length_lt hitem) (on_many_of_none hend)
  have hdecls : declarations.on cs = some (ds, []) := by
    rw [on_declarations]
    refine (on_bind_of_some (p := many (item declarations)) hitems).trans ?_
    rw [flatten, List.map_congr_left fun d _ => within_none d, List.map_id', flatten, List.append_nil]
    rfl
  rw [parseFile_eq_ok_iff]
  exact (on_bind_of_some (on_trivia hgap hsolid)).trans hdecls

/-! ### Balanced texts in a file -/

section Plain
variable {escapes : Char → Char → Prop}

/-- The character is none of the special ones. -/
def isPlain (special : List Char) (c : Char) : Bool := !special.contains c

theorem all_isPlain_cons {special : List Char} {c : Char} :
    (c :: cs).all (isPlain special) = true ↔ c ∉ special ∧ cs.all (isPlain special) = true := by
  simp [isPlain]

/-- Words may stand in front of a balanced text. -/
theorem Balanced.append (hcs : cs.all (isPlain ['{', '}', '"', '\'', '/']) = true) (h : Balanced escapes r) :
    Balanced escapes (cs ++ r) := by
  induction cs with
  | nil => exact h
  | cons c cs ih =>
    obtain ⟨hc, hmore⟩ := all_isPlain_cons.mp hcs
    simp only [List.mem_cons, List.not_mem_nil, or_false, not_or] at hc
    refine .plain ?_ (fun heq => absurd heq hc.2.2.2.2) (ih hmore)
    simp [hc]

/-- The reader of blocks passes words one character after the other. -/
theorem leads_append (hcs : cs.all (isPlain ['{', '}', '"', '\'', '/']) = true) :
    ReflTransGen (Leads (bodyPiece braces)) (cs ++ r) r := by
  induction cs with
  | nil => exact .refl
  | cons c cs ih =>
    obtain ⟨hc, hmore⟩ := all_isPlain_cons.mp hcs
    simp only [List.mem_cons, List.not_mem_nil, or_false, not_or] at hc
    refine .head ⟨(), on_piece_of_plain ?_ fun heq => absurd heq hc.2.2.2.2⟩ (ih hmore)
    simp [hc]

theorem Literal.append {quote : Char} {escaped : Char → Prop} (hcs : cs.all (isPlain [quote, '\\', '\n']) = true)
    (h : Literal escaped quote r) : Literal escaped quote (cs ++ r) := by
  induction cs with
  | nil => exact h
  | cons c cs ih =>
    obtain ⟨hc, hmore⟩ := all_isPlain_cons.mp hcs
    simp only [List.mem_cons, List.not_mem_nil, or_false, not_or] at hc
    exact .plain hc.1 hc.2.1 hc.2.2 (ih hmore)

theorem literal_of_all {quote : Char} {escaped : Char → Prop} (hcs : cs.all (isPlain [quote, '\\', '\n']) = true) :
    Literal escaped quote cs := by
  have hend : Literal escaped quote [] := .nil
  simpa using hend.append hcs

/-- Where no comment is opened, none can be closed. -/
theorem Swap.clear_of_not_mem (h : '/' ∉ u) : s.Clear u := fun _ ht => absurd (ht.subset List.mem_cons_self) h

end Plain

namespace Accessor

def inside : List Char := " return 1; ".toList

def behind : List Char := " \x7d void Tick(); \x7d \x7d".toList

/-- The property in whose first block the accessor is. -/
def property : List Char := "int Hp \x7b get ".toList ++ blockText [] inside behind

def record : List Char := "class Actor \x7b int Lives; ".toList ++ property

def front : List Char := "namespace Game \x7b class Actor \x7b int Lives; int Hp \x7b get ".toList

/-- `s = "}"; /* } */ if (x) { c = '{'; }`, with blanks around it. -/
def inside' : List Char :=
  " s = ".toList ++ ('"' :: ['}'] ++ '"' :: ("; ".toList ++ ('/' :: '*' :: [' ', '}', ' '] ++ '*' :: '/' ::
    (" if (x) ".toList ++ ('{' :: (" c = ".toList ++ ('\'' :: ['{'] ++ '\'' :: [';', ' '])) ++ '}' :: [' '])))))

theorem balanced_inside' : Balanced Unescaped inside' := by
  have hblank : Balanced Unescaped [' '] := .plain (by decide) (by decide) .nil
  have hend : Balanced Unescaped [';', ' '] := .plain (by decide) (by decide) hblank
  have hblock : Balanced Unescaped (" c = ".toList ++ ('\'' :: ['{'] ++ '\'' :: [';', ' '])) :=
    .append (by decide) (.literal (.inr rfl) (literal_of_all (by decide)) hend)
  refine .append (by decide) (.literal (.inl rfl) (literal_of_all (by decide)) (.append (by decide) ?_))
  exact .closed (by decide) (.append (by decide) (.block hblock hblank))

def actor : TypeDecl where
  name := "Actor"
  kind := .classKind
  module := none
  nspace := some "Game"
  base := none
  attributes := []
  modifiers := []
  members := [.field ⟨"Lives", .named "int", [], []⟩, .field ⟨"Hp", .named "int", [], []⟩,
    .method ⟨"Tick", .named "void", [], [], []⟩]
  variants := []

set_option maxRecDepth 4000 in
theorem inRecord : InRecord (blockText [] inside behind) record := by
  have hhead : ∃ d, recordHead.on record = some (d, "int Lives; ".toList ++ property) := ⟨_, by cbv⟩
  have hlives : Leads member ("int Lives; ".toList ++ property) property := ⟨_, by cbv⟩
  have hproperty : ∃ d, BlockForm.property.head.on property = some (d, '{' :: (" get ".toList ++ blockText [] inside behind)) :=
    ⟨_, by cbv⟩
  have hbraces : ∃ w, braces.on ('{' :: (" get ".toList ++ blockText [] inside behind)) = some ((), w) := ⟨_, by cbv⟩
  have haccessor : ∃ w, braces.on (blockText [] inside behind) = some ((), w) := ⟨_, by cbv⟩
  obtain ⟨d, hhead⟩ := hhead
  obtain ⟨m, hproperty⟩ := hproperty
  obtain ⟨w, hbraces⟩ := hbraces
  obtain ⟨w', haccessor⟩ := haccessor
  exact ⟨d, _, _, hhead, .single hlives, .property, m, _, w, hproperty, hbraces,
    .deeper (leads_append (by decide)) haccessor .here⟩

theorem solid : Solid (blockText front inside behind) := solid_cons (by decide)

set_option maxRecDepth 4000 in
theorem nested : (nestedItem declarations).on (blockText front inside behind) = some (.types [actor], []) := by cbv

set_option maxRecDepth 4000 in
theorem isBlock : IsBlock front inside behind where
  place := by
    have hhead : nestedHead.on (blockText front inside behind) = some ("Game", record) := by cbv
    have hrecord : ∃ d, Source.record.on record = some (d, ['}']) := ⟨_, by cbv⟩
    obtain ⟨d, hrecord⟩ := hrecord
    exact ⟨_, on_trivia_of_solid solid, .nested .refl hhead nested (.record .refl hrecord inRecord)⟩
  closes := by cbv

theorem parseFile_front : parseFile (String.ofList (blockText front inside behind)) = .ok [actor] := by
  have hitem := on_item_of_nested (still_of_solid solid) nested
  have hparse := parseFile_of_item .none solid hitem
  exact hparse

theorem parseFile_of_block_accessor :
    IsBlock front inside behind ∧ Balanced Unescaped inside' ∧
      Swap.Clear ⟨inside ++ '}' :: behind, inside' ++ '}' :: behind⟩ front ∧
      parseFile (String.ofList (blockText front inside behind)) = .ok [actor] ∧
      parseFile (String.ofList (blockText front inside' behind)) = .ok [actor] :=
  have hclear : Swap.Clear ⟨inside ++ '}' :: behind, inside' ++ '}' :: behind⟩ front := Swap.clear_of_not_mem (by decide)
  ⟨isBlock, balanced_inside', hclear, parseFile_front, parseFile_of_block isBlock balanced_inside' hclear parseFile_front⟩

end Accessor

namespace EscapedQuote

def front : List Char := "class A \x7b void M() ".toList

def behind : List Char := " \x7d".toList

/-- What stands in the literal: `\"} int hidden; void N() { \"`. -/
def literal : List Char := '\\' :: '"' :: ("\x7d int hidden; void N() \x7b ".toList ++ ['\\', '"'])

/-- A statement with a literal in it that escapes its own quote. -/
def inside' : List Char := " s = ".toList ++ ('"' :: literal ++ '"' :: [';', ' '])

/-- The class with more or fewer members behind its method. -/
def classWith (members : List MemberDecl) : TypeDecl where
  name := "A"
  kind := .classKind
  module := none
  nspace := none
  base := none
  attributes := []
  modifiers := []
  members := .method ⟨"M", .named "void", [], [], []⟩ :: members
  variants := []

def hidden : List MemberDecl := [.field ⟨"hidden", .named "int", [], []⟩, .method ⟨"N", .named "void", [], [], []⟩]

theorem literal_escaped : Literal (Escaped '"') '"' literal :=
  .escape trivial (by decide) (.append (by decide) (.escape trivial (by decide) .nil))

theorem balanced_inside' : Balanced Escaped inside' :=
  .append (by decide) (.literal (.inl rfl) literal_escaped (.plain (by decide) (by decide) (.plain (by decide) (by decide) .nil)))

set_option maxRecDepth 4000 in
theorem isBlock : IsBlock front [' '] behind where
  place := by
    have hhead : ∃ d, recordHead.on (blockText front [' '] behind) = some (d, "void M() ".toList ++ blockText [] [' '] behind) :=
      ⟨_, by cbv⟩
    have hmethod : ∃ m, BlockForm.method.head.on ("void M() ".toList ++ blockText [] [' '] behind) =
        some (m, blockText [] [' '] behind) := ⟨_, by cbv⟩
    have hbraces : braces.on (blockText [] [' '] behind) = some ((), behind) := by cbv
    have hrecord : ∃ d, record.on (blockText front [' '] behind) = some (d, []) := ⟨_, by cbv⟩
    obtain ⟨d, hhead⟩ := hhead
    obtain ⟨m, hmethod⟩ := hmethod
    obtain ⟨d', hrecord⟩ := hrecord
    refine ⟨_, on_trivia_of_solid (solid_cons (by decide)), .record .refl hrecord ?_⟩
    exact ⟨d, _, _, hhead, .refl, .method, m, _, _, hmethod, hbraces, .here⟩
  closes := by cbv

set_option maxRecDepth 4000 in
theorem on_file : file.on (blockText front [' '] behind) = some ([classWith []], []) ∧
    file.on (blockText front inside' behind) = some ([classWith hidden], []) := ⟨by cbv, by cbv⟩

/-- The literal ends at its first quote for the reader, so that the block ends within it and two members follow. -/
theorem escaped_quote_ends_block :
    IsBlock front [' '] behind ∧ Balanced Escaped inside' ∧
      parseFile (String.ofList (blockText front [' '] behind)) = .ok [classWith []] ∧
      parseFile (String.ofList (blockText front inside' behind)) = .ok [classWith hidden] ∧ classWith [] ≠ classWith hidden :=
  ⟨isBlock, balanced_inside', parseFile_eq_ok_iff.mpr on_file.1, parseFile_eq_ok_iff.mpr on_file.2,
    by simp [classWith, hidden]⟩

end EscapedQuote

end EngineBridge.Source
