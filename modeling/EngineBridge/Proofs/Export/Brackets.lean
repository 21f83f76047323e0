import EngineBridge.Proofs.Export.Lines
import EngineBridge.Proofs.Export.Scopes
import EngineBridge.Proofs.Model.Origins
import EngineBridge.Proofs.Source.Exported

/-! The brackets of wrappers and placeholders.

All names that are spelled are identifiers, and the names in a type are words of the source text. What is copied as it
stands is the engine's name of a class; as long as it holds no opening bracket, those of the file begin the marks that the
generator writes, or belong to lists of arguments. A placeholder has none. So read as source files, neither exports
anything. -/

namespace EngineBridge
open Outcome Source

/-! ### Unmarked lines -/

/-- No opening bracket of the text begins an attribute that exports a type. -/
abbrev Bare (s : String) : Prop := Unmarked s.toList

section
variable {cs more : List Char} {s u name : String}

theorem opensIdly_append (h : opensIdly cs = true) (more : List Char) : opensIdly (cs ++ more) = true := by
  rcases opensIdly_cases h with ⟨mark, hmark, rest, rfl⟩ | ⟨c, rest, rfl, hc⟩
  · refine Bool.or_eq_true_iff.mpr (.inl (List.any_eq_true.mpr ⟨mark, hmark, ?_⟩))
    exact List.isPrefixOf_iff_prefix.mpr ⟨rest ++ more, (List.append_assoc ..).symm⟩
  · refine Bool.or_eq_true_iff.mpr (.inr ?_)
    simpa using hc

theorem unmarked_append (h : Unmarked cs) (hmore : Unmarked more) : Unmarked (cs ++ more) := by
  induction cs with
  | nil => exact hmore
  | cons c cs ih =>
    obtain ⟨hopen, hrest⟩ := unmarked_cons.mp h
    exact unmarked_cons.mpr ⟨fun hc => opensIdly_append (hopen hc) more, ih hrest⟩

theorem bare_append (hs : Bare s) (hu : Bare u) : Bare (s ++ u) := by
  rw [Bare, String.toList_append]
  exact unmarked_append hs hu

theorem bare_of_lacks (h : Lacks '[' s) : Bare s := by
  unfold Lacks at h
  unfold Bare
  generalize s.toList = cs at h
  induction cs with
  | nil => rfl
  | cons c cs ih =>
    obtain ⟨hc, hcs⟩ := not_or.mp (List.mem_cons.not.mp h)
    exact unmarked_cons.mpr ⟨fun heq => absurd heq.symm hc, ih hcs⟩

/-- Between two lines stands an end of a line, which no mark goes across. -/
theorem unmarked_unlines {ls : List String} (h : ∀ l ∈ ls, Bare l) : Unmarked (unlines ls) := by
  induction ls with
  | nil => rfl
  | cons l ls ih =>
    obtain ⟨hl, hls⟩ := List.forall_mem_cons.mp h
    rw [unlines_cons]
    exact unmarked_append hl (unmarked_cons.mpr ⟨fun hc => absurd hc (by decide), ih hls⟩)

theorem bare_indented {depth : Nat} (h : Bare s) : Bare (indented depth s) := by
  have hblanks : Lacks '[' (CodeWriter.indent depth) := by simp [Lacks, CodeWriter.indent]
  unfold indented
  split
  · rfl
  · exact bare_append (bare_of_lacks hblanks) h

namespace Code

mutual
theorem bare_written {depth : Nat} : (c : Code) → (∀ s ∈ c.lines, Bare s) → ∀ l ∈ c.written depth, Bare l
  | .line s, h => List.forall_mem_singleton.mpr (bare_indented (h s List.mem_cons_self))
  | .blank, _ => List.forall_mem_singleton.mpr rfl
  | .block head body, h => by
    have hhead : Bare head := h head List.mem_cons_self
    have hbody : ∀ l ∈ writtenAll (depth + 1) body, Bare l :=
      bare_writtenAll body fun s hs => h s (List.mem_cons_of_mem _ hs)
    refine List.forall_mem_cons.mpr ⟨bare_indented hhead, List.forall_mem_cons.mpr ⟨bare_indented (by decide), ?_⟩⟩
    exact List.forall_mem_append.mpr ⟨hbody, List.forall_mem_singleton.mpr (bare_indented (by decide))⟩

theorem bare_writtenAll {depth : Nat} : (code : List Code) → EveryLine Bare code → ∀ l ∈ writtenAll depth code, Bare l
  | [], _ => List.forall_mem_nil _
  | c :: code, h => List.forall_mem_append.mpr ⟨bare_written c fun s hs => h s (List.mem_append_left _ hs),
      bare_writtenAll code fun s hs => h s (List.mem_append_right _ hs)⟩
end

/-- The text of unmarked lines is unmarked. -/
theorem unmarked_render {code : List Code} (h : EveryLine Bare code) : Unmarked (Code.render code).toList := by
  rw [render_written]
  exact unmarked_unlines (bare_writtenAll code h)

theorem everyLine_cons {P : String → Prop} {c : Code} {code : List Code} :
    EveryLine P (c :: code) ↔ EveryLine P [c] ∧ EveryLine P code :=
  show EveryLine P ([c] ++ code) ↔ _ from everyLine_append

theorem bare_of_everyLine_lacks {code : List Code} (h : EveryLine (Lacks '[') code) : EveryLine Bare code :=
  fun s hs => bare_of_lacks (h s hs)

end Code

/-! ### Names -/

theorem lacks_spelled (h : isIdentifier name = true) : Lacks '[' (spelled name) := by
  have hname : Lacks '[' name := lacks_of_isIdentifier (by decide) h
  unfold spelled
  split
  · exact lacks_append.mpr ⟨by decide, hname⟩
  · exact hname

theorem lacks_int {c : Char} (hdigit : c.isDigit = false) (hsign : c ≠ '-') (n : Int) : Lacks c (toString n) := by
  cases n with
  | ofNat n => exact lacks_repr hdigit n
  | negSucc n => exact lacks_append.mpr ⟨by simpa [Lacks] using hsign, lacks_repr hdigit (n + 1)⟩

theorem lacks_of_isWordText (h : IsWordText s) : Lacks '[' s := fun hmem =>
  absurd (List.all_eq_true.mp h _ hmem) (by decide)

end

theorem Scope.lacks_declared {s : Scope} {name : String} {type : TypeRef} (h : s.declared? name = some type)
    (hname : Lacks '[' name) : Lacks '[' type.managedName := by
  obtain ⟨kind, -, rfl⟩ := Option.map_eq_some_iff.mp h
  cases kind with
  | classKind => exact lacks_append.mpr ⟨hname, by decide⟩
  | structKind | enumKind => exact hname

theorem lacks_builtin {name : String} {type : TypeRef} (h : builtin? name = some type) : Lacks '[' type.managedName := by
  have hall : ∀ b ∈ builtinTypes, Lacks '[' b.2.managedName := by decide
  obtain ⟨before, after, hsplit, -⟩ := List.lookup_eq_some_iff.mp h
  have hmem : (name, type) ∈ builtinTypes := by
    rw [hsplit]
    exact List.mem_append_right _ List.mem_cons_self
  exact hall _ hmem

/-- A type is spelled with the names of the expression that it was read from. -/
theorem Scope.Resolves.lacks_managedName {s : Scope} {e : TypeExpr} {type : TypeRef} (h : s.Resolves e type)
    (hnames : ∀ n ∈ e.names, Lacks '[' n) : Lacks '[' type.managedName := by
  have hwrapped : ∀ {front inner : String}, Lacks '[' front → Lacks '[' inner → Lacks '[' (front ++ inner ++ ">") :=
    fun hfront hinner => lacks_append.mpr ⟨lacks_append.mpr ⟨hfront, hinner⟩, by decide⟩
  have hargument : ∀ {e a : TypeExpr}, a ∈ e.args → (∀ n ∈ e.names, Lacks '[' n) → ∀ n ∈ a.names, Lacks '[' n :=
    fun ha hnames n hn => hnames n (TypeExpr.mem_names_of_arg ha hn)
  induction h with
  | builtin h => exact lacks_builtin h
  | @declared name _ _ h => exact lacks_declared h (hnames name (TypeExpr.name_mem_names _))
  | @array _ a _ _ _ ih | @set _ a _ _ _ ih =>
    exact hwrapped (by decide) (ih (hargument (List.mem_singleton_self a) hnames))
  | map _ _ _ ihkey ihvalue =>
    have hkey := ihkey (hargument (by simp) hnames)
    have hvalue := ihvalue (hargument (by simp) hnames)
    unfold TypeRef.managedName
    simp only [lacks_append]
    exact ⟨⟨⟨⟨by decide, hkey⟩, by decide⟩, hvalue⟩, by decide⟩
  | @classOf _ a | @softObject _ a =>
    exact hwrapped (by decide) (hargument (List.mem_singleton_self a) hnames a.name a.name_mem_names)
  | @delegate _ a => exact hargument (List.mem_singleton_self a) hnames a.name a.name_mem_names

/-- The types that are spelled in the files of a type hold no opening bracket. -/
structure TypeRecord.Unbracketed (t : TypeRecord) : Prop where
  members : ∀ m ∈ t.memberTypes, Lacks '[' m.2.managedName
  underlying : t.kind = .enumKind → Lacks '[' t.underlying.managedName

/-- In a document of source files types are spelled without brackets. -/
theorem Document.unbracketed_of_ofDecls {decls : List TypeDecl} {fallback version : String}
    {attributes : DocumentAttributes} {d : Document} (h : ofDecls decls fallback version attributes = .ok d)
    (hwords : ∀ decl ∈ decls, TypesInWords decl) (hd : d.Consistent) : ∀ t ∈ d.types, t.Unbracketed := by
  obtain ⟨s, hreads⟩ := reads_of_ofDecls h
  intro t ht
  obtain ⟨decl, hdecl, hmembers⟩ := hreads t ht
  refine ⟨fun m hm => ?_, fun hkind => ?_⟩
  · obtain ⟨e, he, hresolve⟩ := hmembers m hm
    exact (Scope.resolve_eq_ok.mp hresolve).lacks_managedName fun n hn => lacks_of_isWordText (hwords decl hdecl e he n hn)
  · obtain ⟨i, hi, -⟩ := (hd.accepts t ht).underlying hkind
    rw [hi]
    cases i <;> decide

namespace Wrapper
variable {c : BindingContext} {fast : List FunctionId} {t : TypeRecord} {f : FunctionRecord} {layout : FrameLayout}
variable {x : Candidate × Service} {m : FunctionMember} {type : TypeRef} {source value : String}

/-! ### Functions -/

theorem lacks_reader (h : Lacks '[' type.managedName) (hs : Lacks '[' source) : Lacks '[' (reader type source) := by
  cases type with
  | object u | classOf u =>
    have hu : Lacks '[' u := by
      unfold TypeRef.managedName at h
      simp only [lacks_append] at h
      simp [h]
    simp +decide [reader, hs, hu]
  | _ => simp +decide [reader, hs, h]

theorem lacks_putCall {slot : FrameSlot} (h : Lacks '[' type.managedName) (hv : Lacks '[' value) :
    Lacks '[' (putCall slot type value) := by
  have hplace : Lacks '[' (toString slot.offset) := lacks_repr (by decide) _
  unfold putCall
  cases type <;> simp only [lacks_append, h, hv, hplace, and_true, true_and] <;> decide

theorem lacks_invocableField (h : isIdentifier f.name = true) : Lacks '[' (invocableField f) :=
  lacks_append.mpr ⟨lacks_of_isIdentifier (by decide) h, by decide⟩

/-- Behind the opening bracket stands a number. -/
theorem bare_argument (i : Nat) : Bare ("args[" ++ toString i ++ "]") := by
  have htext : ("args[" ++ toString i ++ "]").toList = "args".toList ++ '[' :: (toString i ++ "]").toList := by
    have hopen : "args[".toList = "args".toList ++ ['['] := rfl
    rw [String.append_assoc, String.toList_append, hopen, List.append_assoc]
    rfl
  have hinside : Bare (toString i ++ "]") := bare_append (bare_of_lacks (lacks_repr (by decide) i)) (by decide)
  have hopens : opensIdly (toString i ++ "]").toList = true := by
    obtain ⟨c, digits, hdigits⟩ := List.exists_cons_of_ne_nil (Nat.toDigits_ne_nil (n := i) (b := 10))
    have hc : c.isDigit = true :=
      Nat.isDigit_of_mem_toDigits (by decide) (by decide) (hdigits ▸ List.mem_cons_self : c ∈ Nat.toDigits 10 i)
    rw [String.toList_append, show (toString i).toList = Nat.toDigits 10 i from Nat.toList_repr, hdigits]
    exact Bool.or_eq_true_iff.mpr (.inr (by simp [hc]))
  rw [Bare, htext]
  exact unmarked_append (by decide) (unmarked_cons.mpr ⟨fun _ => hopens, hinside⟩)

/-- The names and types that are spelled for a function hold no opening bracket. -/
structure Plain (f : FunctionRecord) : Prop where
  name : isIdentifier f.name = true
  params : ∀ p ∈ f.params, isIdentifier p.name = true
  types : ∀ type ∈ f.types, Lacks '[' type.managedName

namespace Plain
variable (h : Plain f)
include h

theorem param {p : ParamRecord} (hp : p ∈ f.params) : Lacks '[' (spelled p.name) ∧ Lacks '[' p.type.managedName :=
  ⟨lacks_spelled (h.params p hp), h.types p.type (List.mem_append_left _ (List.mem_map_of_mem hp))⟩

theorem returns (hr : f.returnType = some type) : Lacks '[' type.managedName :=
  h.types type (List.mem_append_right _ (by simp [hr]))

theorem signature : Lacks '[' (signatureSpelled f) := by
  have hreturn : Lacks '[' (returnTypeText f) := by
    unfold returnTypeText
    cases hr : f.returnType with
    | none => decide
    | some type => exact h.returns hr
  have hparams : Lacks '[' (String.intercalate ", " (f.params.map paramSpelled)) := by
    refine lacks_intercalate (by decide) fun s hs => ?_
    obtain ⟨p, hp, rfl⟩ := List.mem_map.mp hs
    obtain ⟨hname, htype⟩ := h.param hp
    have hmark : Lacks '[' (directionMark p.direction) := by cases p.direction <;> decide
    simp +decide [paramSpelled, hname, htype, hmark]
  simp +decide [signatureSpelled, hreturn, hparams, lacks_spelled h.name]

theorem directStatements : ∀ s ∈ directStatements f layout, Code.EveryLine (Lacks '[') [s.code] := by
  have hnumber : ∀ n : Nat, Lacks '[' n.repr := lacks_repr (by decide)
  have hparam : ∀ {p : PlacedParam}, p ∈ placedParams f layout → p.1 ∈ f.params := fun hp => (List.of_mem_zip hp).1
  intro s hs
  simp only [Wrapper.directStatements, List.mem_append, List.mem_map, List.mem_filter, List.mem_singleton] at hs
  rcases hs with ((((rfl | hs) | ⟨p, hp, rfl⟩) | rfl) | ⟨p, hp, rfl⟩) | hs
  · simp +decide [Statement.code, hnumber]
  · split at hs
    · rw [List.mem_singleton.mp hs]
      simp +decide [Statement.code]
    · cases hs
  · obtain ⟨hname, htype⟩ := h.param (hparam hp.1)
    simp +decide [putStatement, Statement.code, lacks_putCall htype hname]
  · simp +decide [Statement.code, lacks_invocableField h.name]
  · obtain ⟨hname, htype⟩ := h.param (hparam hp.1)
    have hread : Lacks '[' (reader p.1.type "Read") := lacks_reader htype (by decide)
    simp +decide [takeStatement, Statement.code, hname, hread, hnumber]
  · split at hs
    · next type hr =>
      have hread : Lacks '[' (reader type "ReadReturn") := lacks_reader (h.returns hr) (by decide)
      rw [List.mem_singleton.mp hs]
      simp +decide [Statement.code, hread]
    · cases hs

/-- A method that looks its function up puts its arguments into a list, and takes those that go out from it. -/
theorem lookupStatements : ∀ s ∈ lookupStatements f, Code.EveryLine Bare [s.code] := by
  have hcall : Lacks '[' (lookupCall f) := by
    unfold lookupCall
    cases f.isStatic <;> simp +decide [lacks_invocableField h.name]
  have hcast : ∀ {type value}, Lacks '[' type.managedName → Bare value → Bare (cast type value) := by
    intro type value htype hvalue
    have hfront : Bare ("(" ++ type.managedName ++ ")") := bare_of_lacks (by simp +decide [htype])
    unfold cast
    split
    · exact bare_append hfront hvalue
    · exact bare_append (bare_append hfront hvalue) (by decide)
  have hclosed : ∀ {u value}, Bare u → Bare value → Code.EveryLine Bare [.line (u ++ value ++ ";")] :=
    fun hfront hvalue => Code.everyLine_line.mpr ⟨bare_append (bare_append hfront hvalue) (by decide), Code.everyLine_nil⟩
  intro s hs
  simp only [Wrapper.lookupStatements, List.mem_append, List.mem_cons, List.mem_map, List.mem_filter, List.not_mem_nil,
    or_false] at hs
  -- In turn: the list of arguments, the call, what comes out, and what is returned.
  rcases hs with ((rfl | rfl) | ⟨⟨p, i⟩, hp, rfl⟩) | hs
  · have hvalues : Lacks '[' (String.intercalate ", " (f.params.map argumentSpelled)) := by
      refine lacks_intercalate (by decide) fun s hs => ?_
      obtain ⟨p, hp, rfl⟩ := List.mem_map.mp hs
      obtain ⟨hname, htype⟩ := h.param hp
      unfold argumentSpelled
      split <;> simp +decide [hname, htype]
    refine hclosed (u := "object?[]" ++ " " ++ "args" ++ " = ") (by decide) (bare_of_lacks ?_)
    simp +decide [hvalues]
  · refine Code.bare_of_everyLine_lacks ?_
    split <;> simp +decide [Statement.code, hcall]
  · obtain ⟨hname, htype⟩ := h.param (List.fst_mem_of_mem_zipIdx hp.1)
    have hfront : Bare (spelled p.name ++ " = ") := bare_of_lacks (by simp +decide [hname])
    exact hclosed hfront (hcast htype (bare_argument i))
  · split at hs
    · next type hr =>
      rw [List.mem_singleton.mp hs]
      exact hclosed (u := "return ") (by decide) (hcast (h.returns hr) (by decide))
    · cases hs

end Plain

theorem plain_of_signature {text : String} (htypes : ∀ type ∈ f.types, Lacks '[' type.managedName)
    (h : signature f = .ok text) : Plain f ∧ text = signatureSpelled f := by
  obtain ⟨hname, hparams, rfl⟩ := signature_eq_ok h
  exact ⟨⟨hname, hparams, htypes⟩, rfl⟩

theorem lacks_binding {binding : Binding} (howner : isIdentifier x.1.owner.name = true)
    (hname : isIdentifier x.1.function.name = true) (h : binding? x = some binding) : Lacks '[' binding.text := by
  have hnumber : ∀ n : Nat, Lacks '[' (toString n) := lacks_repr (by decide)
  obtain ⟨y, service⟩ := x
  cases service with
  | direct layout =>
    have hsymbol : Lacks '[' (trampolineSymbol y.id) := lacks_trampolineSymbol (by decide) howner hname (by decide)
    obtain rfl : Binding.direct (trampolineSymbol y.id) layout.size layout.returnSize = binding := Option.some.inj h
    unfold Binding.text
    simp only [lacks_append]
    exact ⟨⟨⟨⟨⟨⟨by decide, hsymbol⟩, by decide⟩, hnumber _⟩, by decide⟩, hnumber _⟩, by decide⟩
  | byName reason =>
    have howner : Lacks '[' y.owner.name := lacks_of_isIdentifier (by decide) howner
    have hname : Lacks '[' y.function.name := lacks_of_isIdentifier (by decide) hname
    obtain rfl : Binding.lookup y.owner.name y.function.name = binding := Option.some.inj h
    unfold Binding.text
    simp only [lacks_append]
    exact ⟨⟨⟨⟨by decide, howner⟩, by decide⟩, hname⟩, by decide⟩
  | event | unbound => cases h

section
variable (htypes : ∀ type ∈ x.1.function.types, Lacks '[' type.managedName)
include htypes

theorem bare_event {text : String} (htext : signature x.1.function = .ok text) :
    Code.EveryLine Bare [(Member.event text).code x.1.function] := by
  obtain ⟨hplain, rfl⟩ := plain_of_signature htypes htext
  refine Code.bare_of_everyLine_lacks ?_
  simp +decide [Member.code, hplain.signature]

theorem bare_field (hspelled : Spelled x) (howner : isIdentifier x.1.owner.name = true) {binding : Binding}
    (hbinding : binding? x = some binding) : Code.EveryLine Bare [(Member.field binding).code x.1.function] := by
  obtain ⟨text, body, htext, -⟩ := hspelled.2 (isBound_of_binding hbinding)
  obtain ⟨hplain, -⟩ := plain_of_signature htypes htext
  have hbinding := lacks_binding howner hplain.name hbinding
  refine Code.bare_of_everyLine_lacks ?_
  simp +decide [Member.code, lacks_invocableField hplain.name, hbinding]

theorem bare_method {text : String} {body : List Code} (hbound : isBound x = true)
    (htext : signature x.1.function = .ok text) (hbody : methodBody x = .ok body) :
    Code.EveryLine Bare [(Member.method text body).code x.1.function] := by
  obtain ⟨hplain, rfl⟩ := plain_of_signature htypes htext
  have hhead : Lacks '[' ("public " ++ (if x.1.function.isStatic then "static " else "") ++ signatureSpelled x.1.function) := by
    cases x.1.function.isStatic <;> simp +decide [hplain.signature]
  have hlines : Code.EveryLine Bare body := by
    rw [methodBody_statements hbound hbody]
    refine Code.everyLine_of_mem fun c hc => ?_
    obtain ⟨s, hs, rfl⟩ := List.mem_map.mp hc
    unfold statementsOf at hs
    split at hs
    · exact Code.bare_of_everyLine_lacks (hplain.directStatements s hs)
    · exact hplain.lookupStatements s hs
    · cases hs
  exact Code.everyLine_block.mpr ⟨bare_of_lacks hhead, hlines, Code.everyLine_nil⟩

end

/-- The members of functions whose names are spelled have no marks. -/
theorem bare_members (ht : t.Unbracketed) (hname : isIdentifier t.name = true)
    (hspelled : ∀ x ∈ services c fast t, Spelled x) (hm : m ∈ members (services c fast t)) :
    Code.EveryLine Bare [m.2.code m.1] := by
  have hservice : ∀ x ∈ services c fast t, x.1.owner = t ∧ ∀ type ∈ x.1.function.types, Lacks '[' type.managedName := by
    intro x hx
    obtain ⟨f, hf, rfl⟩ := List.mem_map.mp hx
    refine ⟨rfl, fun type htype => ht.members (f.name, type) (List.mem_append_right _ (List.mem_flatMap.mpr ⟨f, ?_, ?_⟩))⟩
    · exact (List.mem_filter.mp hf).1
    · exact List.mem_map_of_mem htype
  obtain ⟨x, hx, hmember⟩ := exists_memberOf hm
  obtain ⟨howner, htypes⟩ := hservice x hx
  cases hmember with
  | event _ htext => exact bare_event htypes htext
  | field hbinding => exact bare_field htypes (hspelled x hx) (howner ▸ hname) hbinding
  | method hbound htext hbody => exact bare_method htypes hbound htext hbody

/-! ### Types -/

section
variable (ht : t.Unbracketed) (hnames : NamesSpelled c t)
include ht hnames

theorem lacks_headline : Lacks '[' (headline t) := by
  have hname := lacks_spelled hnames.type
  unfold headline
  cases hkind : t.kind with
  | enumKind => simp +decide [hname, ht.underlying hkind]
  | structKind => simp +decide [hname]
  | classKind =>
    have hbase : Lacks '[' ((t.superType.map spelled).getD rootClass) := by
      cases hparent : t.superType with
      | none => decide
      | some parent => exact lacks_spelled (hnames.super hkind parent hparent)
    cases t.flags.contains TypeFlags.abstract <;> simp +decide [hname, hbase]

omit hnames in
theorem bare_property {p : PropertyRecord} (hp : p ∈ t.properties) (hname : isIdentifier p.name = true) :
    Code.EveryLine Bare [(Declaration.property p).code] := by
  have htype : Lacks '[' p.type.managedName :=
    ht.members (p.name, p.type) (List.mem_append_left _ (List.mem_map_of_mem hp))
  have hplain : Lacks '[' p.name := lacks_of_isIdentifier (by decide) hname
  refine Code.bare_of_everyLine_lacks ?_
  unfold Declaration.code
  by_cases hread : p.flags.contains PropertyFlags.readOnly = true <;>
    simp +decide [hread, htype, hplain, lacks_spelled hname]

omit hnames in
theorem bare_structField {p : PropertyRecord} (hp : p ∈ t.properties) (hname : isIdentifier p.name = true) :
    Code.EveryLine Bare [(Declaration.structField p).code] := by
  have htype : Lacks '[' p.type.managedName :=
    ht.members (p.name, p.type) (List.mem_append_left _ (List.mem_map_of_mem hp))
  refine Code.bare_of_everyLine_lacks ?_
  simp +decide [Declaration.code, htype, lacks_spelled hname]

/-- What the wrapper of a type declares has no marks. -/
theorem bare_declarations (hnative : t.kind = .classKind → Lacks '[' t.nativeName)
    (hspelled : t.kind ≠ .enumKind → ∀ x ∈ services c fast t, Spelled x) {d : Declaration}
    (hd : d ∈ declarations c fast t) : Code.EveryLine Bare [d.code] := by
  have hmember : t.kind ≠ .enumKind → ∀ d ∈ (members (services c fast t)).map Declaration.member,
      Code.EveryLine Bare [d.code] := by
    intro hkind d hd
    obtain ⟨m, hm, rfl⟩ := List.mem_map.mp hd
    exact bare_members ht hnames.type (hspelled hkind) hm
  unfold declarations at hd
  split at hd
  · next hkind =>
    obtain ⟨v, hv, rfl⟩ := List.mem_map.mp hd
    have hname := lacks_spelled (hnames.values hkind v hv)
    have hvalue : Lacks '[' (toString v.value.toInt) := lacks_int (by decide) (by decide) _
    refine Code.bare_of_everyLine_lacks (Code.everyLine_line.mpr ⟨?_, Code.everyLine_nil⟩)
    simp +decide only [lacks_append, hname, hvalue, and_self]
  · next hkind =>
    rcases List.mem_append.mp hd with hd | hd
    · obtain ⟨p, hp, rfl⟩ := List.mem_map.mp hd
      exact bare_structField ht hp (hnames.fields hkind p hp)
    · exact hmember (by simp [hkind]) d hd
  · next hkind =>
    rcases List.mem_append.mp hd with hd | hd
    · rcases List.mem_append.mp hd with hd | hd
      · simp only [List.mem_cons, List.not_mem_nil, or_false] at hd
        refine Code.bare_of_everyLine_lacks ?_
        rcases hd with rfl | rfl | rfl
        · simp +decide [Declaration.code, hnative hkind]
        · simp +decide [Declaration.code, lacks_spelled hnames.type]
        · simp +decide [Declaration.code]
      · obtain ⟨p, hp, rfl⟩ := List.mem_map.mp hd
        obtain ⟨hp, hshown⟩ := List.mem_filter.mp hp
        exact bare_property ht hp (hnames.properties hkind p hp hshown)
    · exact hmember (by simp [hkind]) d hd

end

/-- The wrapper of a type has no brackets but those of idle marks and of lists of arguments. -/
theorem Declares.unmarked {a : Artifact} (h : Declares c fast t a) (ht : t.Unbracketed)
    (hnative : t.kind = .classKind → Lacks '[' t.nativeName) : Unmarked a.contents.toList := by
  obtain ⟨contents, hcontents, htext⟩ := h.contents
  have hinner : Code.EveryLine Bare contents := by
    unfold Code.EveryLine
    rw [← allLines_withoutBlanks, hcontents]
    refine Code.everyLine_of_mem fun code hcode => ?_
    obtain ⟨d, hd, rfl⟩ := List.mem_map.mp hcode
    exact bare_declarations ht h.names hnative h.functions hd
  have hfirst : Code.EveryLine Bare head := by simp +decide [head, Code.banner]
  have hspace : Lacks '[' ("namespace SharpBind." ++ spelled t.module) :=
    lacks_append.mpr ⟨by decide, lacks_spelled h.names.module⟩
  have hmarks : Code.EveryLine Bare (marks t) := by
    unfold marks
    cases t.flags.contains TypeFlags.deprecated <;> cases t.kind <;> simp +decide
  have hbody : Code.EveryLine Bare (marks t ++ [.block (headline t) contents]) :=
    Code.everyLine_append.mpr ⟨hmarks, Code.everyLine_block.mpr
      ⟨bare_of_lacks (lacks_headline ht h.names), hinner, Code.everyLine_nil⟩⟩
  rw [htext]
  exact Code.unmarked_render (Code.everyLine_append.mpr
    ⟨hfirst, Code.everyLine_block.mpr ⟨bare_of_lacks hspace, hbody, Code.everyLine_nil⟩⟩)

end Wrapper

namespace Placeholder
open Wrapper

theorem everyLine_separated {P : String → Prop} {code : List Code} (h : Code.EveryLine P code) :
    Code.EveryLine P (separated code) := by
  induction code using separated.induct with
  | case1 => exact h
  | case2 c => exact h
  | case3 c d code ih =>
    obtain ⟨hc, hcode⟩ := Code.everyLine_cons.mp h
    exact Code.everyLine_cons.mpr ⟨hc, Code.everyLine_blank.mpr (ih hcode)⟩

theorem bare_eventCode {f : FunctionRecord} {code : Code} (htypes : ∀ type ∈ f.types, Lacks '[' type.managedName)
    (h : eventCode f = .ok code) : Code.EveryLine Bare [code] := by
  obtain ⟨signature, hsignature, h⟩ := bind_eq_ok.mp h
  obtain ⟨assignments, hassignments, h⟩ := bind_eq_ok.mp h
  obtain rfl := Except.ok.inj h
  obtain ⟨text, htext, hsignature⟩ := bind_eq_ok.mp hsignature
  obtain rfl := Except.ok.inj hsignature
  obtain ⟨hplain, rfl⟩ := plain_of_signature htypes htext
  have hassigned : Code.EveryLine (Lacks '[') assignments := Code.everyLine_of_mem fun c hc => by
    obtain ⟨p, -, hc⟩ := Paired.exists_left (mapM_eq_ok.mp hassignments) hc
    obtain ⟨name, hname, hc⟩ := bind_eq_ok.mp hc
    obtain ⟨hidentifier, rfl⟩ := managedIdentifier_eq_ok.mp hname
    obtain rfl := Except.ok.inj hc
    simp +decide [lacks_spelled hidentifier]
  refine Code.bare_of_everyLine_lacks ?_
  cases f.returnType <;> simp +decide [hplain.signature, hassigned]

/-- The placeholder of a type has no brackets. -/
theorem unmarked_of_renderType {schema : BindingSchema} {t : TypeRecord} {a : Artifact} (ht : t.Unbracketed)
    (h : renderType schema t = .ok a) : Unmarked a.contents.toList := by
  obtain ⟨name, hname, h⟩ := bind_eq_ok.mp h
  obtain ⟨module, hmodule, h⟩ := bind_eq_ok.mp h
  obtain ⟨codes, hcodes, h⟩ := bind_eq_ok.mp h
  obtain rfl := Except.ok.inj h
  obtain ⟨htype, rfl⟩ := managedIdentifier_eq_ok.mp hname
  obtain ⟨hspace, rfl⟩ := managedIdentifier_eq_ok.mp hmodule
  have hevents : Code.EveryLine Bare codes := Code.everyLine_of_mem fun code hcode => by
    obtain ⟨f, hf, hcode⟩ := Paired.exists_left (mapM_eq_ok.mp hcodes) hcode
    refine bare_eventCode (fun type htype => ht.members (f.name, type) (List.mem_append_right _ ?_)) hcode
    exact List.mem_flatMap.mpr ⟨f, (List.mem_filter.mp hf).1, List.mem_map_of_mem htype⟩
  have hhooks : Code.EveryLine Bare (hooks t) := by
    unfold hooks
    split <;> simp +decide
  have hfirst : Code.EveryLine Bare head := by simp +decide [head, Code.banner]
  have hnamespace : Lacks '[' ("namespace SharpBind." ++ spelled t.module) :=
    lacks_append.mpr ⟨by decide, lacks_spelled hspace⟩
  have hhead : Lacks '[' ("public partial " ++ keyword t.kind ++ " " ++ spelled t.name) := by
    cases t.kind <;> simp +decide [keyword, lacks_spelled htype]
  have hbody : Code.EveryLine Bare [.block ("public partial " ++ keyword t.kind ++ " " ++ spelled t.name)
      (separated (hooks t ++ codes))] :=
    Code.everyLine_block.mpr ⟨bare_of_lacks hhead, everyLine_separated (Code.everyLine_append.mpr ⟨hhooks, hevents⟩),
      Code.everyLine_nil⟩
  exact Code.unmarked_render (Code.everyLine_append.mpr
    ⟨hfirst, Code.everyLine_block.mpr ⟨bare_of_lacks hnamespace, hbody, Code.everyLine_nil⟩⟩)

end Placeholder
end EngineBridge
