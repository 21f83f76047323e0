import EngineBridge.Proofs.Export.Lines
import EngineBridge.Proofs.Export.TypeFiles
import EngineBridge.Proofs.Layout.Frame

/-! The symbols that the text of trampolines defines.

A definition begins a line, and within a block every line is indented; so the lines of a type's file that begin as a
definition are the heads of its functions. Only the engine's names of types and modules are copied as they stand, and as
long as these have no line breaks, the lines of the text are the lines that were written. -/

namespace EngineBridge

/-- What the trampolines of a document copy as it stands has no line breaks. -/
structure Document.NamesLineFree (d : Document) : Prop where
  nativeNames : ∀ t ∈ d.types, LineFree t.nativeName
  modules : ∀ t ∈ d.types, LineFree t.module

namespace Trampoline

/-- How the definition of a trampoline begins. -/
def definitionMark : List Char := "extern \"C\" SHARPBIND_FAST_INVOKE_API int32 ".toList

/-- The symbol that a line defines: what stands between the mark and a parenthesis. -/
def definedSymbol? (line : List Char) : Option String :=
  if definitionMark.isPrefixOf line then
    some (String.ofList ((line.drop definitionMark.length).takeWhile (· ≠ '(')))
  else none

/-- The symbols that a text defines, line by line. -/
def definedSymbols (cs : List Char) : List String := (textLines cs).filterMap definedSymbol?

variable {c : BindingContext} {d : Document} {t : TypeRecord} {x : Candidate} {e : TrampolineEntry} {s l : String}
variable {code : List Code} {ls : List String} {fs : List Lowered}

/-! ### Lines that define nothing -/

/-- The line does not begin as a definition. -/
def Mute (l : String) : Prop := l.toList.head? ≠ some 'e'

instance (l : String) : Decidable (Mute l) := inferInstanceAs (Decidable (_ ≠ _))

theorem Mute.append (h : Mute l) (hne : l ≠ "") : Mute (l ++ s) := by
  obtain ⟨k, ks, hl⟩ := List.exists_cons_of_ne_nil (mt String.toList_eq_nil_iff.mp hne)
  unfold Mute at h ⊢
  rw [String.toList_append]
  rw [hl] at h ⊢
  exact h

theorem Mute.definedSymbol? (h : Mute l) : definedSymbol? l.toList = none := by
  unfold Trampoline.definedSymbol?
  rw [if_neg]
  intro hmark
  obtain ⟨rest, hrest⟩ := List.isPrefixOf_iff_prefix.mp hmark
  exact h (hrest ▸ rfl)

theorem filterMap_definedSymbol?_eq_nil (h : ∀ l ∈ ls, Mute l) : ls.filterMap (fun l => definedSymbol? l.toList) = [] :=
  List.filterMap_eq_nil_iff.mpr fun l hl => (h l hl).definedSymbol?

theorem mute_indented {n : Nat} : Mute (indented (n + 1) s) := by
  have hblanks : (CodeWriter.indent (n + 1)).toList = ' ' :: List.replicate (4 * n + 3) ' ' := by
    simp [CodeWriter.indent, Nat.mul_succ, List.replicate_succ]
  unfold indented
  split
  · decide
  · refine Mute.append ?_ fun h => ?_
    · unfold Mute
      rw [hblanks, List.head?_cons]
      decide
    · rw [h] at hblanks
      cases hblanks

mutual
theorem mute_written {n : Nat} : (c : Code) → ∀ l ∈ c.written (n + 1), Mute l
  | .line _ => by
    simp only [Code.written, List.mem_singleton, forall_eq]
    exact mute_indented
  | .blank => by
    simp only [Code.written, List.mem_singleton, forall_eq]
    decide
  | .block _ body => by
    intro l hl
    simp only [Code.written, List.mem_cons, List.mem_append, List.not_mem_nil, or_false] at hl
    rcases hl with rfl | rfl | hl | rfl
    · exact mute_indented
    · exact mute_indented
    · exact mute_writtenAll body l hl
    · exact mute_indented

/-- Within a block nothing is defined. -/
theorem mute_writtenAll {n : Nat} : (code : List Code) → ∀ l ∈ Code.writtenAll (n + 1) code, Mute l
  | [] => fun _ hl => nomatch hl
  | c :: code => by
    intro l hl
    rcases List.mem_append.mp hl with hl | hl
    · exact mute_written c l hl
    · exact mute_writtenAll code l hl
end

/-! ### What a function and the head of a file define -/

/-- The first line of a definition. -/
def definitionHead (e : TrampolineEntry) : String :=
  "extern \"C\" SHARPBIND_FAST_INVOKE_API int32 " ++ e.symbol ++ "(uint8* Args, int32 ArgCount, uint8* Ret)"

theorem definedSymbol?_head (h : Lacks '(' e.symbol) : definedSymbol? (definitionHead e).toList = some e.symbol := by
  have hall : ∀ k ∈ e.symbol.toList, decide (k ≠ '(') = true := fun k hk => decide_eq_true fun heq => h (heq ▸ hk)
  have htext : (definitionHead e).toList =
      definitionMark ++ (e.symbol.toList ++ '(' :: "uint8* Args, int32 ArgCount, uint8* Ret)".toList) := by
    have hparams : "(uint8* Args, int32 ArgCount, uint8* Ret)".toList =
        '(' :: "uint8* Args, int32 ArgCount, uint8* Ret)".toList := by decide
    unfold definitionHead
    rw [String.toList_append, String.toList_append, List.append_assoc, hparams]
    rfl
  unfold definedSymbol?
  rw [htext, if_pos (List.isPrefixOf_iff_prefix.mpr (List.prefix_append _ _)), List.drop_left,
    List.takeWhile_append_of_pos hall, List.takeWhile_cons_of_neg (by decide), List.append_nil, String.ofList_toList]

/-- The lines of a trampoline. -/
def functionLines (f : Lowered) : List String := Code.writtenAll 0 (functionCode f.candidate f.entry)

theorem functionLines_eq (f : Lowered) : functionLines f = ["// " ++ f.candidate.id.display, definitionHead f.entry, "\x7b"]
    ++ Code.writtenAll 1 (bodyCode f.candidate f.entry.layout) ++ ["\x7d"] := by
  unfold functionLines functionCode definitionHead
  simp only [Code.writtenAll_cons, Code.writtenAll_nil, Code.written, indented_zero,
    List.cons_append, List.nil_append, List.append_nil]

/-- A trampoline defines its symbol. -/
theorem defined_functionLines {f : Lowered} (h : Lacks '(' f.entry.symbol) :
    (functionLines f).filterMap (fun l => definedSymbol? l.toList) = [f.entry.symbol] := by
  have hcomment : definedSymbol? ("// " ++ f.candidate.id.display).toList = none :=
    Mute.definedSymbol? (Mute.append (by decide) (by decide))
  have hopen : definedSymbol? "\x7b".toList = none := by decide
  have hclose : definedSymbol? "\x7d".toList = none := by decide
  rw [functionLines_eq, List.filterMap_append, List.filterMap_append,
    filterMap_definedSymbol?_eq_nil (mute_writtenAll (n := 0) _)]
  simp only [List.filterMap_cons, List.filterMap_nil, hcomment, definedSymbol?_head h, hopen, hclose,
    List.append_nil]

theorem mute_sizeChecks (sizes : List (String × Nat)) : ∀ l ∈ Code.writtenAll 0 (sizes.map sizeCheck), Mute l := by
  induction sizes with
  | nil => exact fun _ hl => nomatch hl
  | cons s sizes ih =>
    rw [List.map_cons, Code.writtenAll_cons]
    refine List.forall_mem_append.mpr ⟨?_, ih⟩
    simp only [sizeCheck, Code.written, indented_zero, List.mem_singleton, forall_eq, String.append_assoc]
    exact Mute.append (by decide) (by decide)

/-- The head of a file defines nothing. -/
theorem mute_typeFileHead {sizes : List (String × Nat)} : ∀ l ∈ Code.writtenAll 0 (typeFileHead t sizes), Mute l := by
  have hinclude : Mute ("#include \"" ++ t.module ++ ".h\"") := by
    rw [String.append_assoc]
    exact Mute.append (by decide) (by decide)
  have hblank : ∀ l ∈ Code.writtenAll 0 (if sizes.isEmpty then [] else [.blank]), Mute l := by
    split
    · exact fun _ hl => nomatch hl
    · simp only [Code.writtenAll_cons, Code.writtenAll_nil, Code.written, List.append_nil, List.mem_singleton, forall_eq]
      decide
  unfold typeFileHead
  simp only [Code.writtenAll_append, List.forall_mem_append]
  refine ⟨⟨⟨by decide, ?_⟩, mute_sizeChecks sizes⟩, hblank⟩
  simp only [Code.writtenAll_cons, Code.writtenAll_nil, Code.written, indented_zero, List.cons_append, List.nil_append,
    List.append_nil, List.forall_mem_cons]
  exact ⟨by decide, hinclude, by decide, fun _ hl => nomatch hl⟩

/-! ### Texts without line breaks of their own -/

theorem mem_assumedFieldSizes {fields : List (Placed NativeRepr)} {k : String × Nat} (h : k ∈ assumedFieldSizes fields) :
    ∃ p ∈ fields, k ∈ assumedSizes p.repr := by
  induction fields with
  | nil => cases h
  | cons p fields ih =>
    rcases List.mem_append.mp h with h | h
    · exact ⟨p, List.mem_cons_self, h⟩
    · obtain ⟨q, hq, hk⟩ := ih h
      exact ⟨q, List.mem_cons_of_mem _ hq, hk⟩

/-- The engine's names in a representation have no line breaks. -/
structure ReprLineFree (r : NativeRepr) : Prop where
  nativeType : LineFree r.nativeType
  sizes : ∀ k ∈ assumedSizes r, LineFree k.1

theorem reprLineFree_handle {name : String} (h : LineFree name) : ReprLineFree (.handle name) where
  nativeType := lineFree_append.mpr ⟨h, by decide⟩
  sizes _ hk := nomatch hk

section
variable (hd : d.NamesLineFree)
include hd

theorem nativeName_lineFree {name : String} (h : d.type? name = some t) : LineFree t.nativeName :=
  hd.nativeNames t (Document.type?_mem h).1

theorem reprWithin_lineFree {fuel : Nat} {inside : List String} {type : TypeRef} {r : NativeRepr}
    (hfuel : fuel ≤ (d.types.length + 1) * (d.types.length + 2)) (h : d.reprWithin fuel inside type = .ok r) :
    ReprLineFree r := by
  induction fuel generalizing inside type r with
  | zero => cases h
  | succ fuel ih =>
    have hfuel' : fuel ≤ (d.types.length + 1) * (d.types.length + 2) := Nat.le_of_succ_le hfuel
    cases type with
    | bool | float | double =>
      cases h
      exact ⟨by decide, fun k hk => nomatch hk⟩
    | integer i =>
      cases h
      exact ⟨by cases i <;> decide, fun k hk => nomatch hk⟩
    | name =>
      cases h
      exact ⟨by decide, by decide⟩
    | object type =>
      obtain ⟨record, hrecord, rfl⟩ := Document.reprWithin_object.mp h
      exact reprLineFree_handle (nativeName_lineFree hd hrecord)
    | classOf type =>
      cases h
      exact reprLineFree_handle (by decide)
    | enum type =>
      obtain ⟨record, hrecord, underlying, -, rfl⟩ := Document.reprWithin_enum.mp h
      have hname := nativeName_lineFree hd hrecord
      refine ⟨hname, fun k hk => ?_⟩
      rw [List.mem_singleton.mp hk]
      exact hname
    | struct type =>
      obtain ⟨record, fields, _, _, hrecord, rfl, hfields⟩ := Document.reprWithin_fields hfuel' h
      have hname := nativeName_lineFree hd hrecord
      refine ⟨hname, fun k hk => ?_⟩
      rcases List.mem_cons.mp hk with rfl | hk
      · exact hname
      · obtain ⟨p, hp, hk⟩ := mem_assumedFieldSizes hk
        obtain ⟨q, -, r, n, hr, rfl⟩ := Paired.exists_left hfields hp
        exact (ih hfuel' hr).sizes k hk
    | string | text | softObject | array | set | map | delegate => cases h

theorem slots_lineFree {f : FunctionRecord} {layout : FrameLayout} (ht : t ∈ d.types)
    (h : FrameLayout.ofFunction d t f = .ok layout) : ∀ s ∈ layout.slots, ReprLineFree s.repr := by
  have hframe := FrameLayout.isCFrame_ofFunction h
  have hparams : ∀ s ∈ layout.params, ReprLineFree s.repr := by
    intro s hs
    obtain ⟨p, -, -, -, hr⟩ := Paired.exists_left hframe.params hs
    exact reprWithin_lineFree hd (Nat.le_refl _) hr
  rw [hframe.receiver_slot]
  split
  · exact hparams
  · exact List.forall_mem_cons.mpr ⟨reprLineFree_handle (hd.nativeNames t ht), hparams⟩

theorem ret_lineFree {f : FunctionRecord} {layout : FrameLayout} {r : NativeRepr}
    (h : FrameLayout.ofFunction d t f = .ok layout) (hr : layout.ret = some r) : ReprLineFree r := by
  have hret := (FrameLayout.isCFrame_ofFunction h).ret
  rw [hr] at hret
  generalize f.returnType = type at hret
  cases hret with
  | some hret => exact reprWithin_lineFree hd (Nat.le_refl _) hret.1

end

/-! ### The lines of a type's file -/

theorem lineFree_symbol (h : lower d x = .ok e) : LineFree e.symbol ∧ Lacks '(' e.symbol := by
  have hnames := identifiers_of_lower h
  have htype : isIdentifier x.owner.name = true := hnames _ List.mem_cons_self
  have hfunction : isIdentifier x.function.name = true := hnames _ (List.mem_cons_of_mem _ List.mem_cons_self)
  rw [(lower_eq_ok h).2.1]
  exact ⟨⟨lacks_trampolineSymbol (by decide) htype hfunction (by decide),
    lacks_trampolineSymbol (by decide) htype hfunction (by decide)⟩,
    lacks_trampolineSymbol (by decide) htype hfunction (by decide)⟩

/-- The names and types in the slots of a trampoline have no line breaks. -/
structure SlotLineFree (s : FrameSlot) : Prop where
  name : LineFree s.name
  repr : ReprLineFree s.repr

theorem params_lineFree (hd : d.NamesLineFree) (ht : x.owner ∈ d.types) (h : lower d x = .ok e) :
    ∀ s ∈ e.layout.params, SlotLineFree s := by
  have hlayout := (lower_eq_ok h).2.2
  intro s hs
  obtain ⟨p, hp, hname, -, -⟩ := Paired.exists_left (FrameLayout.isCFrame_ofFunction hlayout).params hs
  have hidentifier := identifiers_of_lower h p.name
    (List.mem_cons_of_mem _ (List.mem_cons_of_mem _ (List.mem_map_of_mem hp)))
  refine ⟨hname ▸ lineFree_of_isIdentifier hidentifier, slots_lineFree hd ht hlayout s ?_⟩
  unfold FrameLayout.params at hs
  split at hs
  · exact List.mem_of_mem_drop hs
  · exact hs

theorem readSlot_lineFree {nativeType : String} {n : Nat} (h : LineFree nativeType) : LineFree (readSlot nativeType n) := by
  have hparts : LineFree "*reinterpret_cast<" ∧ LineFree "*>(Args + " ∧ LineFree ")" := by decide
  unfold readSlot
  simp only [lineFree_append]
  exact ⟨⟨⟨⟨hparts.1, h⟩, hparts.2.1⟩, lineFree_repr n⟩, hparts.2.2⟩

theorem declareArgument_lineFree {s : FrameSlot} (h : SlotLineFree s) : Code.EveryLine LineFree [declareArgument s] := by
  have hargument : LineFree (argument s) := lineFree_append.mpr ⟨by decide, h.name⟩
  have hread := readSlot_lineFree (n := s.offset) h.repr.nativeType
  have hparts : LineFree " " ∧ LineFree " = " ∧ LineFree ";" ∧ LineFree "\x7b\x7d;" := by decide
  unfold declareArgument
  split <;> simp only [Code.everyLine_line, Code.everyLine_nil, and_true, lineFree_append] <;>
    simp only [h.repr.nativeType, hargument, hread, hparts, and_self]

theorem writeBack_lineFree {s : FrameSlot} (h : SlotLineFree s) : Code.EveryLine LineFree [writeBack s] := by
  have hargument : LineFree (argument s) := lineFree_append.mpr ⟨by decide, h.name⟩
  have hread := readSlot_lineFree (n := s.offset) h.repr.nativeType
  have hparts : LineFree "*reinterpret_cast<" ∧ LineFree "*>(Args + " ∧ LineFree ") = " ∧ LineFree ";" := by decide
  have hnumber : LineFree (toString s.offset) := lineFree_repr s.offset
  unfold writeBack
  simp only [Code.everyLine_line, Code.everyLine_nil, and_true, lineFree_append]
  simp only [h.repr.nativeType, hargument, hparts, hnumber, and_self]

theorem receiverCode_lineFree {layout : FrameLayout} (h : ∀ s ∈ layout.slots, ReprLineFree s.repr) :
    Code.EveryLine LineFree (receiverCode layout) := by
  unfold receiverCode
  split
  · next slot rest _ hslots =>
    have hslot : LineFree slot.repr.nativeType := (h slot (hslots ▸ List.mem_cons_self)).nativeType
    have hread := readSlot_lineFree (n := 0) hslot
    have hparts : LineFree " Self = " ∧ LineFree ";" ∧ LineFree "if (Self == nullptr)" ∧
      LineFree "return SHARPBIND_FI_NULL_SELF;" := by decide
    simp only [Code.everyLine_line, Code.everyLine_block, Code.everyLine_nil, and_true, lineFree_append]
    simp only [hslot, hread, hparts, and_self]
  · exact Code.everyLine_nil

theorem callCode_lineFree (hd : d.NamesLineFree) (ht : x.owner ∈ d.types) (h : lower d x = .ok e) :
    Code.EveryLine LineFree [callCode x e.layout] := by
  have hfunction : LineFree x.function.name :=
    lineFree_of_isIdentifier (identifiers_of_lower h _ (List.mem_cons_of_mem _ List.mem_cons_self))
  have hlist : LineFree (String.intercalate ", " (e.layout.params.map argument)) := by
    refine lineFree_intercalate (by decide) (List.forall_mem_map.mpr fun s hs => ?_)
    exact lineFree_append.mpr ⟨by decide, (params_lineFree hd ht h s hs).name⟩
  have hparts : LineFree "::" ∧ LineFree "Self->" ∧ LineFree "(" ∧ LineFree ")" ∧ LineFree " Result = " ∧ LineFree ";" := by
    decide
  have htarget : LineFree (if x.function.isStatic then x.owner.nativeName ++ "::" ++ x.function.name
      else "Self->" ++ x.function.name) := by
    split
    · simp only [lineFree_append, hd.nativeNames _ ht, hfunction, hparts, and_self]
    · simp only [lineFree_append, hfunction, hparts, and_self]
  unfold callCode
  cases hret : e.layout.ret with
  | none =>
    simp only [Code.everyLine_line, Code.everyLine_nil, and_true, lineFree_append]
    exact ⟨⟨⟨⟨htarget, hparts.2.2.1⟩, hlist⟩, hparts.2.2.2.1⟩, hparts.2.2.2.2.2⟩
  | some r =>
    have hr := (ret_lineFree hd (lower_eq_ok h).2.2 hret).nativeType
    simp only [Code.everyLine_line, Code.everyLine_nil, and_true, lineFree_append]
    exact ⟨⟨⟨hr, hparts.2.2.2.2.1⟩, ⟨⟨htarget, hparts.2.2.1⟩, hlist⟩, hparts.2.2.2.1⟩, hparts.2.2.2.2.2⟩

theorem bodyCode_lineFree (hd : d.NamesLineFree) (ht : x.owner ∈ d.types) (h : lower d x = .ok e) :
    Code.EveryLine LineFree (bodyCode x e.layout) := by
  have hlayout := (lower_eq_ok h).2.2
  have hparams := params_lineFree hd ht h
  have hcount : LineFree ("if (ArgCount != " ++ toString e.layout.argCount ++ ")") := by
    have hnumber : LineFree (toString e.layout.argCount) := lineFree_repr _
    exact lineFree_append.mpr ⟨lineFree_append.mpr ⟨by decide, hnumber⟩, by decide⟩
  have hfixed : LineFree "return SHARPBIND_FI_BAD_ARG_COUNT;" ∧ LineFree "(void)Args;" ∧ LineFree "(void)Ret;" ∧
    LineFree "return SHARPBIND_FI_OK;" := by decide
  -- Lines are fixed texts, or made of types, numbers and names, none of which holds a line break.
  unfold bodyCode
  simp only [Code.everyLine_append]
  refine ⟨⟨⟨⟨⟨⟨⟨⟨?_, ?_⟩, ?_⟩, receiverCode_lineFree (slots_lineFree hd ht hlayout)⟩, ?_⟩, callCode_lineFree hd ht h⟩, ?_⟩,
    ?_⟩, ?_⟩
  · simp only [Code.everyLine_block, Code.everyLine_line, Code.everyLine_nil, hcount, hfixed, and_self]
  · split
    · simp only [Code.everyLine_line, Code.everyLine_nil, hfixed, and_self]
    · exact Code.everyLine_nil
  · split
    · simp only [Code.everyLine_line, Code.everyLine_nil, hfixed, and_self]
    · exact Code.everyLine_nil
  · exact Code.everyLine_of_mem (List.forall_mem_map.mpr fun s hs => declareArgument_lineFree (hparams s hs))
  · exact Code.everyLine_of_mem
      (List.forall_mem_map.mpr fun s hs => writeBack_lineFree (hparams s (List.mem_filter.mp hs).1))
  · split
    · next r hret =>
      have hr := (ret_lineFree hd hlayout hret).nativeType
      rw [Code.everyLine_line]
      exact ⟨lineFree_append.mpr ⟨lineFree_append.mpr ⟨by decide, hr⟩, by decide⟩, Code.everyLine_nil⟩
    · exact Code.everyLine_nil
  · simp only [Code.everyLine_line, Code.everyLine_nil, hfixed, and_self]

/-- A trampoline of a type of the document. -/
structure IsLowered (d : Document) (t : TypeRecord) (f : Lowered) : Prop where
  owner : f.candidate.owner = t
  lower : lower d f.candidate = .ok f.entry

section
variable (hd : d.NamesLineFree) (ht : t ∈ d.types)
include hd ht

theorem functionLines_lineFree {f : Lowered} (hf : IsLowered d t f) : ∀ l ∈ functionLines f, LineFree l := by
  have howner : f.candidate.owner ∈ d.types := hf.owner ▸ ht
  have hnames := identifiers_of_lower hf.lower
  have htype := lineFree_of_isIdentifier (hnames _ List.mem_cons_self)
  have hfunction := lineFree_of_isIdentifier (hnames _ (List.mem_cons_of_mem _ List.mem_cons_self))
  have hcomment : LineFree ("// " ++ f.candidate.id.display) :=
    lineFree_append.mpr ⟨by decide, lineFree_append.mpr ⟨lineFree_append.mpr ⟨htype, by decide⟩, hfunction⟩⟩
  have hhead : LineFree (definitionHead f.entry) :=
    lineFree_append.mpr ⟨lineFree_append.mpr ⟨by decide, (lineFree_symbol hf.lower).1⟩, by decide⟩
  refine Code.lineFree_writtenAll _ ?_
  unfold functionCode
  rw [Code.everyLine_line, Code.everyLine_block]
  exact ⟨hcomment, hhead, bodyCode_lineFree hd howner hf.lower, Code.everyLine_nil⟩

theorem frameSizes_lineFree {f : Lowered} (hf : IsLowered d t f) : ∀ k ∈ frameSizes f.entry.layout, LineFree k.1 := by
  have howner : f.candidate.owner ∈ d.types := hf.owner ▸ ht
  have hlayout := (lower_eq_ok hf.lower).2.2
  intro k hk
  rcases List.mem_append.mp hk with hk | hk
  · obtain ⟨s, hs, hk⟩ := List.mem_flatMap.mp hk
    exact (slots_lineFree hd howner hlayout s hs).sizes k hk
  · cases hret : f.entry.layout.ret with
    | none =>
      rw [hret] at hk
      cases hk
    | some r =>
      rw [hret] at hk
      exact (ret_lineFree hd hlayout hret).sizes k hk

theorem typeFileHead_lineFree (hfs : ∀ f ∈ fs, IsLowered d t f) : ∀ l ∈ Code.writtenAll 0
    (typeFileHead t (sortedSizes (fs.flatMap fun f => frameSizes f.entry.layout))), LineFree l := by
  have hsizes : ∀ k ∈ sortedSizes (fs.flatMap fun f => frameSizes f.entry.layout), LineFree k.1 := by
    intro k hk
    unfold sortedSizes at hk
    rw [List.mem_mergeSort, List.mem_eraseDups] at hk
    obtain ⟨f, hf, hk⟩ := List.mem_flatMap.mp hk
    exact frameSizes_lineFree hd ht (hfs f hf) k hk
  have hinclude : LineFree ("#include \"" ++ t.module ++ ".h\"") :=
    lineFree_append.mpr ⟨lineFree_append.mpr ⟨by decide, hd.modules t ht⟩, by decide⟩
  have hchecks : ∀ k : String × Nat, LineFree k.1 → Code.EveryLine LineFree [sizeCheck k] := by
    intro k hk
    have hnumber : LineFree (toString k.2) := lineFree_repr _
    have hparts : LineFree "static_assert(sizeof(" ∧ LineFree ") == " ∧ LineFree ", \"" ∧
      LineFree " does not match the fast-invoke layout\");" := by decide
    unfold sizeCheck
    simp only [Code.everyLine_line, Code.everyLine_nil, and_true, lineFree_append]
    simp only [hk, hnumber, hparts, and_self]
  refine Code.lineFree_writtenAll _ ?_
  unfold typeFileHead
  simp only [Code.everyLine_append]
  refine ⟨⟨⟨?_, ?_⟩, Code.everyLine_of_mem (List.forall_mem_map.mpr fun k hk => hchecks k (hsizes k hk))⟩, ?_⟩
  · exact (by decide : ∀ s ∈ Code.allLines banner, LineFree s)
  · simp only [Code.everyLine_line, Code.everyLine_blank, Code.everyLine_nil, hinclude, and_true]
    decide
  · split
    · exact Code.everyLine_nil
    · exact Code.everyLine_blank.mpr Code.everyLine_nil

/-- The trampolines are written one after the other, with a blank line behind each. -/
theorem bodyText_lines (hfs : ∀ f ∈ fs, IsLowered d t f) :
    (bodyText fs).toList = unlines (fs.flatMap fun f => functionLines f ++ [""]) := by
  suffices h : ∀ w : CodeWriter, w.depth = 0 → ((fs.foldl (fun (w : CodeWriter) f =>
      (w.append (CodeWriter.empty.putAll (functionCode f.candidate f.entry))).blank) w).text).toList =
        w.text.toList ++ unlines (fs.flatMap fun f => functionLines f ++ [""]) from h .empty rfl
  induction fs with
  | nil => exact fun w _ => (List.append_nil _).symm
  | cons f fs ih =>
    rw [List.forall_mem_cons] at hfs
    intro w hw
    have hother : (CodeWriter.empty.putAll (functionCode f.candidate f.entry)).text.toList = unlines (functionLines f) :=
      render_written
    obtain ⟨htext, hdepth⟩ := CodeWriter.append_unlines hw (functionLines_lineFree hd ht hfs.1) hother
    rw [List.foldl_cons, ih hfs.2 _ (CodeWriter.depth_blank.trans hdepth), CodeWriter.text_blank, htext, List.flatMap_cons]
    simp only [unlines_append, List.append_assoc]

/-- Only the line ends behind the last brace are taken away. -/
theorem trimmedEnd_bodyText (hfs : ∀ f ∈ fs, IsLowered d t f) (hne : fs ≠ []) :
    ∃ front last, fs = front ++ [last] ∧ (trimmedEnd (bodyText fs)).toList ++ ['\n'] =
      unlines ((front.flatMap fun f => functionLines f ++ [""]) ++ functionLines last) := by
  obtain ⟨front, last, rfl⟩ : ∃ front last, fs = front ++ [last] :=
    ⟨_, _, (List.dropLast_append_getLast hne).symm⟩
  refine ⟨front, last, rfl, ?_⟩
  obtain ⟨start, hlast⟩ : ∃ start, functionLines last = start ++ ["\x7d"] := ⟨_, functionLines_eq last⟩
  have hbody : (bodyText (front ++ [last])).toList =
      (unlines ((front.flatMap fun f => functionLines f ++ [""]) ++ start) ++ ['\x7d']) ++ ['\n', '\n'] := by
    rw [bodyText_lines hd ht hfs, List.flatMap_append, List.flatMap_singleton, hlast]
    simp
  have hbrace : isWhiteSpace '\x7d' = false := by decide
  have hends : isWhiteSpace '\n' = true := by decide
  unfold trimmedEnd
  rw [hbody, String.toList_ofList, hlast]
  simp [hbrace, hends]

theorem contents_lines (hfs : ∀ f ∈ fs, IsLowered d t f) (hne : fs ≠ []) :
    ∃ front last, fs = front ++ [last] ∧ (typeFile t fs).contents.toList =
      unlines (Code.writtenAll 0 (typeFileHead t (sortedSizes (fs.flatMap fun f => frameSizes f.entry.layout)))
        ++ ((front.flatMap fun f => functionLines f ++ [""]) ++ functionLines last)) := by
  obtain ⟨front, last, hsplit, htrimmed⟩ := trimmedEnd_bodyText hd ht hfs hne
  refine ⟨front, last, hsplit, ?_⟩
  rw [unlines_append, ← htrimmed, ← render_written]
  unfold typeFile
  simp only [String.toList_append, List.append_assoc]
  rfl

/-- The symbols that the file of a type defines are those of its trampolines, in their order. -/
theorem definedSymbols_typeFile (hfs : ∀ f ∈ fs, IsLowered d t f) (hne : fs ≠ []) :
    definedSymbols (typeFile t fs).contents.toList = fs.map (·.entry.symbol) := by
  have hhead := typeFileHead_lineFree hd ht hfs
  obtain ⟨front, last, rfl, hcontents⟩ := contents_lines hd ht hfs hne
  have hdefines : ∀ f ∈ front ++ [last], (functionLines f).filterMap (fun l => definedSymbol? l.toList) = [f.entry.symbol] :=
    fun f hf => defined_functionLines (lineFree_symbol (hfs f hf).lower).2
  have hlines : ∀ l ∈ (front.flatMap fun f => functionLines f ++ [""]) ++ functionLines last, LineFree l := by
    intro l hl
    rcases List.mem_append.mp hl with hl | hl
    · obtain ⟨f, hf, hl⟩ := List.mem_flatMap.mp hl
      rcases List.mem_append.mp hl with hl | hl
      · exact functionLines_lineFree hd ht (hfs f (List.mem_append_left _ hf)) l hl
      · exact List.mem_singleton.mp hl ▸ (by decide : LineFree "")
    · exact functionLines_lineFree hd ht (hfs last (List.mem_append_right _ List.mem_cons_self)) l hl
  have hfront : ∀ fs ⊆ front ++ [last], (fs.flatMap fun f => functionLines f ++ [""]).filterMap
      (fun l => definedSymbol? l.toList) = fs.map (·.entry.symbol) := by
    intro fs hsub
    have hblank : definedSymbol? "".toList = none := by decide
    induction fs with
    | nil => rfl
    | cons f fs ih =>
      obtain ⟨hf, hsub⟩ := List.cons_subset.mp hsub
      simp only [List.flatMap_cons, List.filterMap_append, hdefines f hf, ih hsub, List.filterMap_cons, hblank,
        List.filterMap_nil, List.append_nil, List.map_cons, List.singleton_append]
  unfold definedSymbols
  rw [hcontents, textLines_unlines (List.forall_mem_append.mpr ⟨hhead, hlines⟩), List.filterMap_map]
  show List.filterMap (fun l : String => definedSymbol? l.toList) _ = _
  rw [List.filterMap_append, List.filterMap_append, filterMap_definedSymbol?_eq_nil mute_typeFileHead,
    hfront front (List.subset_append_left _ _), hdefines last (List.mem_append_right _ List.mem_cons_self), List.map_append]
  rfl

end
end Trampoline
end EngineBridge
