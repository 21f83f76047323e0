import EngineBridge.Proofs.Source.Marked
import EngineBridge.Proofs.Source.Rendering
import EngineBridge.Proofs.Source.SteadyGrammar
import EngineBridge.Source.Parse

/-! The texts that spell a type.

Gaps may stand behind every token, identifiers and points in front of every name, a question mark behind every name and
every list of arguments, and pairs of brackets behind it. Each of these texts is read as the type, and nothing of it is
left. -/

namespace EngineBridge.Source
open EngineBridge.Parser

/-! ### Spellings -/

/-- The type in so many arrays. -/
def arrays : Nat → TypeExpr → TypeExpr
  | 0, e => e
  | k + 1, e => arrays k ⟨"TArray", [e]⟩

/-- The name, with identifiers in front of it that are joined to it by points. -/
def SpellsName (name : String) (cs : List Char) : Prop :=
  ∃ front : List String, (∀ part ∈ front, IsIdentifier part) ∧ IsIdentifier name ∧
    cs = (String.intercalate "." (front ++ [name])).toList

/-- A question mark may stand here. -/
inductive SpellsMark : List Char → Prop
  | absent : SpellsMark []
  | present {gap : List Char} (hgap : Gap gap) : SpellsMark ('?' :: gap)

/-- So many pairs of brackets. -/
inductive SpellsRank : Nat → List Char → Prop
  | zero : SpellsRank 0 []
  | succ {k : Nat} {gap cs : List Char} (hgap : Gap gap) (h : SpellsRank k cs) :
    SpellsRank (k + 1) ('[' :: ']' :: (gap ++ cs))

/-- One type or more with commas between. -/
inductive SpellsTypes : List TypeExpr → List Char → Prop
  | plain {name : String} {path gap mark brackets : List Char} {k : Nat} (hname : SpellsName name path) (hgap : Gap gap)
    (hmark : SpellsMark mark) (hrank : SpellsRank k brackets) :
    SpellsTypes [arrays k ⟨name, []⟩] (path ++ (gap ++ (mark ++ brackets)))
  | generic {name : String} {args : List TypeExpr} {path gap opening inside closing mark brackets : List Char} {k : Nat}
    (hname : SpellsName name path) (hgap : Gap gap) (hopening : Gap opening) (hargs : SpellsTypes args inside)
    (hclosing : Gap closing) (hmark : SpellsMark mark) (hrank : SpellsRank k brackets) :
    SpellsTypes [arrays k ⟨name, args⟩]
      (path ++ (gap ++ '<' :: (opening ++ (inside ++ '>' :: (closing ++ (mark ++ brackets))))))
  | more {e : TypeExpr} {es : List TypeExpr} {cs gap more : List Char} (h : SpellsTypes [e] cs) (hgap : Gap gap)
    (hmore : SpellsTypes es more) : SpellsTypes (e :: es) (cs ++ ',' :: (gap ++ more))

/-- The characters spell the type. -/
abbrev SpellsType (e : TypeExpr) (cs : List Char) : Prop := SpellsTypes [e] cs

section
variable {name : String} {e : TypeExpr} {es : List TypeExpr} {k j : Nat} {path gap mark brackets cs rest : List Char}

theorem SpellsTypes.ne_nil (h : SpellsTypes es cs) : es ≠ [] := by
  cases h <;> exact List.cons_ne_nil _ _

theorem foldl_arrays (rank : List Unit) (e : TypeExpr) :
    rank.foldl (fun e _ => ⟨"TArray", [e]⟩) e = arrays rank.length e := by
  induction rank generalizing e with
  | nil => rfl
  | cons _ rank ih => exact ih _

theorem arrays_arrays (e : TypeExpr) : arrays j (arrays k e) = arrays (k + j) e := by
  induction k generalizing e with
  | zero => rw [Nat.zero_add, arrays]
  | succ k ih =>
    rw [arrays, ih, Nat.succ_add]
    rfl

theorem SpellsRank.append {more : List Char} (h : SpellsRank k brackets) (hmore : SpellsRank j more) :
    SpellsRank (k + j) (brackets ++ more) := by
  induction h with
  | zero => rwa [Nat.zero_add]
  | succ hgap _ ih =>
    rw [Nat.succ_add, List.cons_append, List.cons_append, List.append_assoc]
    exact .succ hgap ih

/-- Behind a type, brackets make it the type of elements. -/
theorem SpellsTypes.ranked (h : SpellsType e cs) (hrank : SpellsRank k brackets) :
    SpellsType (arrays k e) (cs ++ brackets) := by
  generalize hes : [e] = es at h
  cases h with
  | plain hname hgap hmark hinner =>
    cases hes
    rw [arrays_arrays]
    simpa using SpellsTypes.plain hname hgap hmark (hinner.append hrank)
  | generic hname hgap hopening hargs hclosing hmark hinner =>
    cases hes
    rw [arrays_arrays]
    simpa using SpellsTypes.generic hname hgap hopening hargs hclosing hmark (hinner.append hrank)
  | more _ _ hmore =>
    cases hes
    exact absurd rfl hmore.ne_nil

/-! ### Reading names -/

theorem SpellsName.exists_parts (h : SpellsName name path) : ∃ part parts, IsIdentifier part ∧
    (∀ q ∈ parts, IsIdentifier q) ∧ (part :: parts).getLastD "" = name ∧
      path = (String.intercalate "." (part :: parts)).toList := by
  obtain ⟨front, hfront, hname, rfl⟩ := h
  have hall : ∀ q ∈ front ++ [name], IsIdentifier q := List.forall_mem_append.mpr ⟨hfront, List.forall_mem_singleton.mpr hname⟩
  obtain ⟨part, parts, hparts⟩ := List.exists_cons_of_ne_nil (List.append_ne_nil_of_right_ne_nil front (List.cons_ne_nil name []))
  rw [hparts] at hall ⊢
  obtain ⟨hpart, hrest⟩ := List.forall_mem_cons.mp hall
  refine ⟨part, parts, hpart, hrest, ?_, rfl⟩
  rw [← hparts, List.getLastD_concat]

theorem SpellsName.solid (h : SpellsName name path) : Solid (path ++ rest) := by
  obtain ⟨part, parts, hpart, -, -, rfl⟩ := h.exists_parts
  rw [toList_path, List.append_assoc]
  exact solid_word hpart

theorem SpellsName.on_lastOfPath (h : SpellsName name path) (hends : Ends gap rest) :
    lastOfPath.on (path ++ (gap ++ rest)) = some (name, rest) := by
  obtain ⟨part, parts, hpart, hparts, rfl, rfl⟩ := h.exists_parts
  have hpath : IsPath (String.intercalate "." (part :: parts)) :=
    ⟨part :: parts, List.cons_ne_nil _ _, List.forall_mem_cons.mpr ⟨hpart, hparts⟩, rfl⟩
  exact on_bind_of_some ((reads_path hpart hparts).on_padded hpath hends.between hends.solid fun _ => hends.breaks)

theorem SpellsTypes.solid (h : SpellsTypes es cs) : Solid (cs ++ rest) := by
  induction h generalizing rest with
  | plain hname | generic hname =>
    rw [List.append_assoc]
    exact hname.solid
  | more _ _ _ ih =>
    rw [List.append_assoc]
    exact ih

/-! ### Reading types -/

/-- The text is over or goes on behind the type. -/
def ClosesType (cs : List Char) : Prop := ∀ c ∈ cs.head?, c = ',' ∨ c = '>'

theorem ClosesType.marked (h : ClosesType rest) : Marked rest := fun c hc => by
  rcases h c hc with rfl | rfl <;> decide

theorem ClosesType.head_ne (h : ClosesType rest) {d : Char} (hd : d ∉ [',', '>']) : rest.head? ≠ some d := fun heq => by
  have hmem := h d heq
  exact hd (by simpa using hmem)

theorem SpellsMark.marked (h : SpellsMark mark) (hrest : Marked rest) : Marked (mark ++ rest) := by
  cases h with
  | absent => exact hrest
  | present => exact marked_cons (by decide)

theorem SpellsRank.marked (h : SpellsRank k brackets) (hrest : Marked rest) : Marked (brackets ++ rest) := by
  cases h with
  | zero => exact hrest
  | succ => exact marked_cons (by decide)

/-- What stands behind the name and the arguments of a type. -/
def typeEnd (name : String) (args : Option (List TypeExpr)) : Parser TypeExpr := do
  let _ ← optional (symbol "?")
  let rank ← many (symbol "[]")
  return rank.foldl (fun e _ => ⟨"TArray", [e]⟩) ⟨name, args.getD []⟩

theorem SpellsMark.on_optional (h : SpellsMark mark) (hrest : Marked rest) (hhead : rest.head? ≠ some '?') :
    ∃ o, (optional (symbol "?")).on (mark ++ rest) = some (o, rest) := by
  have hsolid := (hrest.ends .none).solid
  cases h with
  | absent => exact ⟨none, on_optional_of_none (on_symbol_of_head '?' rfl hsolid hhead)⟩
  | present hgap => exact ⟨some (), on_optional_of_some (on_symbol rfl (by decide) hgap hsolid)⟩

theorem on_brackets (hgap : Gap gap) (hrest : Solid rest) : (symbol "[]").on ('[' :: ']' :: (gap ++ rest)) = some ((), rest) := by
  have htext : (text "[]").on ('[' :: ']' :: (gap ++ rest)) = some ((), gap ++ rest) := by
    rw [text, on_exactly]
    simp
  refine (on_bind_of_some (on_trivia_of_solid (solid_cons (by decide)))).trans ((on_bind_of_some htext).trans ?_)
  exact on_bind_of_some (on_trivia hgap hrest)

theorem SpellsRank.on_many (h : SpellsRank k brackets) (hrest : ClosesType rest) :
    ∃ rank, on (many (symbol "[]")) (brackets ++ rest) = some (rank, rest) ∧ rank.length = k := by
  induction h with
  | zero =>
    have hend : (symbol "[]").on rest = none :=
      on_symbol_of_head '[' rfl (hrest.marked.ends .none).solid (hrest.head_ne (by decide))
    exact ⟨[], on_many_of_none hend, rfl⟩
  | @succ k gap cs hgap hrank ih =>
    obtain ⟨rank, hread, rfl⟩ := ih
    have hsolid : Solid (cs ++ rest) := ((hrank.marked hrest.marked).ends .none).solid
    refine ⟨() :: rank, ?_, rfl⟩
    rw [List.cons_append, List.cons_append, List.append_assoc]
    refine on_many_of_some (on_brackets hgap hsolid) ?_ hread
    simp only [List.length_cons, List.length_append]
    omega

theorem on_typeEnd {args : Option (List TypeExpr)} (hmark : SpellsMark mark) (hrank : SpellsRank k brackets)
    (hrest : ClosesType rest) :
    (typeEnd name args).on (mark ++ (brackets ++ rest)) = some (arrays k ⟨name, args.getD []⟩, rest) := by
  have hhead : (brackets ++ rest).head? ≠ some '?' := by
    cases hrank with
    | zero => exact hrest.head_ne (by decide)
    | succ => simp
  obtain ⟨o, hread⟩ := hmark.on_optional (hrank.marked hrest.marked) hhead
  obtain ⟨rank, hbrackets, rfl⟩ := hrank.on_many hrest
  rw [← foldl_arrays]
  exact (on_bind_of_some hread).trans (on_bind_of_some hbrackets)

/-- By induction on the spelling: what stands behind an argument closes it. -/
theorem SpellsTypes.on_typeExpr (h : SpellsTypes es cs) : ∀ {rest : List Char}, ClosesType rest →
    (∀ e, es = [e] → typeExpr.on (cs ++ rest) = some (e, rest)) ∧
      (rest.head? ≠ some ',' → (sepBy1 typeExpr (symbol ",")).on (cs ++ rest) = some (es, rest)) := by
  -- A type alone is a list of one, as long as no comma stands behind it.
  have hsingle : ∀ {e : TypeExpr} {cs rest : List Char}, ClosesType rest → typeExpr.on (cs ++ rest) = some (e, rest) →
      (∀ e', [e] = [e'] → typeExpr.on (cs ++ rest) = some (e', rest)) ∧
        (rest.head? ≠ some ',' → (sepBy1 typeExpr (symbol ",")).on (cs ++ rest) = some ([e], rest)) := by
    intro e cs rest hrest hread
    refine ⟨fun e' he => ?_, fun hhead => on_sepBy1_single hread (on_bind_of_none ?_)⟩
    · cases he
      exact hread
    · exact on_symbol_of_head ',' rfl (hrest.marked.ends .none).solid hhead
  induction h with
  | @plain name path gap mark brackets k hname hgap hmark hrank =>
    intro rest hrest
    refine hsingle hrest ?_
    have hbehind : Marked (mark ++ (brackets ++ rest)) := hmark.marked (hrank.marked hrest.marked)
    -- Behind the name stand marks, brackets or what closes the type, and none of them opens arguments.
    have hhead : (mark ++ (brackets ++ rest)).head? ≠ some '<' := by
      cases hmark with
      | present => simp
      | absent =>
        cases hrank with
        | zero => exact hrest.head_ne (by decide)
        | succ => simp
    have hargs : (symbol "<").on (mark ++ (brackets ++ rest)) = none :=
      on_symbol_of_head '<' rfl (hbehind.ends .none).solid hhead
    rw [typeExpr, on_recursive]
    simp only [List.append_assoc]
    refine (on_bind_of_some (hname.on_lastOfPath (hbehind.ends hgap))).trans ?_
    exact (on_bind_of_some (on_optional_of_none (on_bind_of_none hargs))).trans (on_typeEnd hmark hrank hrest)
  | @generic name args path gap opening inside closing mark brackets k hname hgap hopening hargs hclosing hmark hrank ih =>
    intro rest hrest
    refine hsingle hrest ?_
    have hbehind : Marked (mark ++ (brackets ++ rest)) := hmark.marked (hrank.marked hrest.marked)
    have hcloses : ClosesType ('>' :: (closing ++ (mark ++ (brackets ++ rest)))) := fun c hc => by
      cases hc
      exact .inr rfl
    have hlist := (ih hcloses).2 (by simp)
    have hinside : Solid (inside ++ '>' :: (closing ++ (mark ++ (brackets ++ rest)))) := hargs.solid
    have hopen := on_symbol (s := "<") rfl (by decide) hopening hinside
    have hclose := on_symbol (s := ">") rfl (by decide) hclosing (hbehind.ends .none).solid
    have hbetween : (between (symbol "<") (symbol ">") (sepBy1 typeExpr (symbol ","))).on
        ('<' :: (opening ++ (inside ++ '>' :: (closing ++ (mark ++ (brackets ++ rest)))))) =
          some (args, mark ++ (brackets ++ rest)) :=
      (on_bind_of_some hopen).trans ((on_bind_of_some hlist).trans (on_bind_of_some hclose))
    rw [typeExpr, on_recursive]
    simp only [List.append_assoc, List.cons_append]
    refine (on_bind_of_some (hname.on_lastOfPath ((marked_cons (by decide)).ends hgap))).trans ?_
    exact (on_bind_of_some (on_optional_of_some hbetween)).trans (on_typeEnd hmark hrank hrest)
  | @more e es cs gap more h hgap hmore ih ihmore =>
    intro rest hrest
    refine ⟨fun e' he => ?_, fun hhead => ?_⟩
    · cases he
      exact absurd rfl hmore.ne_nil
    -- The comma closes the first type, and the others are a list by induction.
    have hcloses : ClosesType (',' :: (gap ++ (more ++ rest))) := fun c hc => by
      cases hc
      exact .inl rfl
    have hfirst := (ih hcloses).1 e rfl
    have hsolid : Solid (more ++ rest) := hmore.solid
    have hcomma := on_symbol (s := ",") rfl (by decide) hgap hsolid
    simp only [List.append_assoc, List.cons_append]
    refine on_sepBy1_cons hfirst hcomma ?_ ((ihmore hrest).2 hhead)
    simp only [List.length_cons, List.length_append]
    omega

end

/-! ### The usual spelling -/

mutual

theorem spellsType_render : ∀ {e : TypeExpr}, SpellableType e → SpellsType e e.render.toList
  | ⟨name, []⟩, h => by
    have hname : SpellsName name name.toList := ⟨[], List.forall_mem_nil _, h.name, by simp⟩
    simpa [TypeExpr.render, arrays] using SpellsTypes.plain hname .none .absent .zero
  | ⟨name, a :: as⟩, h => by
    have hname : SpellsName name name.toList := ⟨[], List.forall_mem_nil _, h.name, by simp⟩
    have hargs := spellsTypes_renderAll (fun b hb => h.arg hb) (List.cons_ne_nil a as)
    simpa [TypeExpr.render, arrays] using SpellsTypes.generic hname .none .none hargs .none .absent .zero

theorem spellsTypes_renderAll : ∀ {es : List TypeExpr}, (∀ e ∈ es, SpellableType e) → es ≠ [] →
    SpellsTypes es (String.intercalate ", " (TypeExpr.renderAll es)).toList
  | [], _, hne => absurd rfl hne
  | [e], h, _ => by
    simpa [TypeExpr.renderAll] using spellsType_render (h e List.mem_cons_self)
  | e :: b :: bs, h, _ => by
    obtain ⟨he, hes⟩ := List.forall_mem_cons.mp h
    have hmore := spellsTypes_renderAll hes (List.cons_ne_nil b bs)
    have hblank : Gap [' '] := .blank rfl .none
    rw [TypeExpr.renderAll, TypeExpr.renderAll, String.intercalate_cons_cons]
    simpa [TypeExpr.renderAll] using SpellsTypes.more (spellsType_render he) hblank hmore

end

theorem spellsRank_replicate (k : Nat) : SpellsRank k (String.join (List.replicate k "[]")).toList := by
  induction k with
  | zero => exact .zero
  | succ k ih => simpa [List.replicate_succ] using SpellsRank.succ .none ih

theorem parseType_of_spellsType {e : TypeExpr} {cs lead : List Char} (hlead : Gap lead) (h : SpellsType e cs) :
    parseType (String.ofList (lead ++ cs)) = .ok e := by
  have hsolid : Solid cs := by
    rw [← List.append_nil cs]
    exact h.solid
  have hread : typeExpr.on cs = some (e, []) := by
    have hend : ClosesType [] := fun _ hc => nomatch hc
    have hread := (h.on_typeExpr hend).1 e rfl
    rwa [List.append_nil] at hread
  have hpath : lastOfPath.on (lead ++ cs) = lastOfPath.on cs := by
    rw [lastOfPath, on_bind, on_bind, on_padded_behind_gap hlead hsolid]
  have hwhole : typeExpr.on (lead ++ cs) = typeExpr.on cs := by
    rw [typeExpr, on_recursive, on_recursive, typeExprWith, on_bind, on_bind, hpath]
  unfold parseType parseText
  rw [String.toList_ofList, parseAll_eq_ok (hwhole.trans hread)]
  rfl

/-- Every spelling of a type and so many pairs of brackets are read as the type in so many arrays; so is what is usual. -/
theorem parseType_of_spelling (e : TypeExpr) (k : Nat) :
    (∀ lead cs brackets, Gap lead → SpellsType e cs → SpellsRank k brackets →
      parseType (String.ofList (lead ++ (cs ++ brackets))) = .ok (arrays k e)) ∧
    (SpellableType e → parseType (e.render ++ String.join (List.replicate k "[]")) = .ok (arrays k e)) := by
  refine ⟨fun lead cs brackets hlead h hrank => parseType_of_spellsType hlead (h.ranked hrank), fun h => ?_⟩
  have hread := parseType_of_spellsType .none ((spellsType_render h).ranked (spellsRank_replicate k))
  rwa [List.nil_append, ← String.toList_append, String.ofList_toList] at hread

/-- Arrays of maps, spelled with a comment, lines, points and a question mark, and as usual. -/
theorem parseType_of_spelling_map :
    parseType " TMap</* key */ Core.FName,\n\nfloat ? [] > [] []" =
        .ok (arrays 2 ⟨"TMap", [.named "FName", ⟨"TArray", [.named "float"]⟩]⟩) ∧
      parseType "TMap<FName, TArray<float>>[][]" =
        .ok (arrays 2 ⟨"TMap", [.named "FName", ⟨"TArray", [.named "float"]⟩]⟩) := by
  obtain ⟨hspelled, husual⟩ := parseType_of_spelling ⟨"TMap", [.named "FName", ⟨"TArray", [.named "float"]⟩]⟩ 2
  have hblank : Gap [' '] := .blank rfl .none
  have hlines : Gap ['\n', '\n'] := .blank rfl (.blank rfl .none)
  have htext : ¬ ['*', '/'] <:+: " key ".toList := by decide
  have hcomment : Gap "/* key */ ".toList := .closed htext hblank
  have hname : ∀ n, IsIdentifier n → SpellsName n n.toList := fun _ h => ⟨[], List.forall_mem_nil _, h, by simp⟩
  have hkey : SpellsName "FName" "Core.FName".toList :=
    ⟨["Core"], List.forall_mem_singleton.mpr (by decide), by decide, rfl⟩
  have hvalue := SpellsTypes.plain (hname "float" (by decide)) hblank (.present hblank) (.succ hblank .zero)
  have hargs := SpellsTypes.more (.plain hkey .none .absent .zero) hlines hvalue
  have hmap := SpellsTypes.generic (hname "TMap" (by decide)) .none hcomment hargs hblank .absent .zero
  have hread := hspelled [' '] _ _ hblank hmap (.succ hblank (.succ .none .zero))
  refine ⟨?_, husual (by decide)⟩
  convert hread using 2
  rfl

end EngineBridge.Source
