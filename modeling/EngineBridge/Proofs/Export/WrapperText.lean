import EngineBridge.Proofs.Export.Dispatch
import EngineBridge.Proofs.Export.Symbols

/-! The symbols that a wrapper binds are those of its type's functions that have a trampoline.

All names in a wrapper are identifiers. What is copied as it stands are the engine's name of a class and the signatures of
delegates; as long as these hold no double quotes, and the name no parenthesis, every double quote of a wrapper is one
that the generator puts there. -/

namespace EngineBridge
open Outcome

/-- The character is not in the text. -/
def Lacks (c : Char) (s : String) : Prop := c ∉ s.toList

instance (c : Char) (s : String) : Decidable (Lacks c s) := inferInstanceAs (Decidable (_ ∉ _))

/-- The text has no double quote in it. -/
abbrev QuoteFree (s : String) : Prop := Lacks '"' s

section
variable {s u name : String} {c : Char}

@[simp] theorem lacks_append : Lacks c (s ++ u) ↔ Lacks c s ∧ Lacks c u := by
  simp [Lacks]

theorem lacks_of_isIdentifier (hc : inName c = false) (h : isIdentifier name = true) : Lacks c name := by
  obtain ⟨-, -, -, -, hall⟩ := isIdentifier_cons h
  intro hmem
  rw [hall c hmem] at hc
  cases hc

theorem lacks_repr (hc : c.isDigit = false) (n : Nat) : Lacks c n.repr := by
  intro hmem
  have hdigits : c ∈ Nat.toDigits 10 n := by simpa [Lacks] using hmem
  rw [Nat.isDigit_of_mem_toDigits (by decide) (by decide) hdigits] at hc
  cases hc

@[simp] theorem quoteFree_repr (n : Nat) : QuoteFree n.repr := lacks_repr (by decide) n

theorem quoteFree_int (n : Int) : QuoteFree (toString n) := by
  cases n with
  | ofNat n => exact quoteFree_repr n
  | negSucc n => exact lacks_append.mpr ⟨by decide, quoteFree_repr (n + 1)⟩

theorem lacks_intercalate {parts : List String} (hs : Lacks c s) (h : ∀ p ∈ parts, Lacks c p) :
    Lacks c (String.intercalate s parts) := by
  cases parts with
  | nil => simp [Lacks]
  | cons p parts =>
    rw [List.forall_mem_cons] at h
    induction parts generalizing p with
    | nil => simpa using h.1
    | cons q parts ih =>
      rw [List.forall_mem_cons] at h
      rw [String.intercalate_cons_cons]
      simp [h.1, hs, ih q h.2]

theorem quoteFree_of_isIdentifier (h : isIdentifier name = true) : QuoteFree name :=
  lacks_of_isIdentifier (by decide) h

/-- A symbol is made of identifiers and numbers. -/
theorem lacks_trampolineSymbol {id : FunctionId} (hname : inName c = false) (htype : isIdentifier id.type = true)
    (hfunction : isIdentifier id.function = true) (hc : Lacks c "SBFI_") : Lacks c (trampolineSymbol id) := by
  have hdigit : c.isDigit = false := by
    unfold inName Char.isAlphanum at hname
    cases hd : c.isDigit
    · rfl
    · simp [hd] at hname
  have hbar : Lacks c "_" := fun hmem => hc (by
    rw [show "SBFI_" = "SBFI" ++ "_" from rfl, String.toList_append]
    exact List.mem_append_right _ hmem)
  simp [trampolineSymbol, sized, hc, hbar, lacks_repr hdigit, lacks_of_isIdentifier hname htype,
    lacks_of_isIdentifier hname hfunction]

/-- What managed code spells is an identifier, perhaps with a mark. -/
theorem managedIdentifier_ok (h : managedIdentifier name = .ok s) : isIdentifier name = true ∧ QuoteFree s := by
  unfold managedIdentifier at h
  split at h
  · cases h
  · next hname =>
    have hname : isIdentifier name = true := by simpa using hname
    have hfree := quoteFree_of_isIdentifier hname
    refine ⟨hname, ?_⟩
    rw [← Except.ok.inj h]
    split
    · exact lacks_append.mpr ⟨by decide, hfree⟩
    · exact hfree

end

/-! ### Types -/

namespace TypeRef

/-- The signatures of delegates in a type, at any depth. -/
def signatures : TypeRef → List String
  | .delegate s => [s]
  | .array e | .set e => e.signatures
  | .map k v => k.signatures ++ v.signatures
  | _ => []

/-- Neither the names nor the signatures in the type have a double quote. -/
structure Quiet (type : TypeRef) : Prop where
  references : ∀ r ∈ type.references, QuoteFree r.2
  signatures : ∀ s ∈ type.signatures, QuoteFree s

theorem Quiet.managedName {type : TypeRef} (h : type.Quiet) : QuoteFree type.managedName := by
  induction type with
  | integer i => cases i <;> decide
  | bool | float | double | name | string | text => decide
  | object t =>
    have ht : QuoteFree t := h.references (_, t) List.mem_cons_self
    unfold TypeRef.managedName
    exact lacks_append.mpr ⟨ht, by decide⟩
  | classOf t | softObject t =>
    have ht : QuoteFree t := h.references (_, t) List.mem_cons_self
    unfold TypeRef.managedName
    exact lacks_append.mpr ⟨lacks_append.mpr ⟨by decide, ht⟩, by decide⟩
  | struct t | enum t => exact h.references (_, t) List.mem_cons_self
  | array e ih | set e ih =>
    unfold TypeRef.managedName
    exact lacks_append.mpr ⟨lacks_append.mpr ⟨by decide, ih ⟨h.references, h.signatures⟩⟩, by decide⟩
  | map k v ihk ihv =>
    have hk : k.Quiet := ⟨fun r hr => h.references r (List.mem_append_left _ hr),
      fun s hs => h.signatures s (List.mem_append_left _ hs)⟩
    have hv : v.Quiet := ⟨fun r hr => h.references r (List.mem_append_right _ hr),
      fun s hs => h.signatures s (List.mem_append_right _ hs)⟩
    unfold TypeRef.managedName
    simp only [lacks_append]
    exact ⟨⟨⟨⟨by decide, ihk hk⟩, by decide⟩, ihv hv⟩, by decide⟩
  | delegate s => exact h.signatures s List.mem_cons_self

end TypeRef

/-- The texts that the wrapper of a type copies as they stand. -/
structure Document.CopiesQuietly (d : Document) : Prop where
  nativeNames : ∀ t ∈ d.types, ∀ name, t.nativeName? = some name → QuoteFree name ∧ Lacks '(' name
  signatures : ∀ t ∈ d.types, ∀ m ∈ t.memberTypes, ∀ s ∈ m.2.signatures, QuoteFree s

namespace Wrapper
variable {f : FunctionRecord} {layout : FrameLayout} {code : List Code} {s : String}

/-! ### Functions -/

/-- No line has a double quote. -/
abbrev QuietCode (code : List Code) : Prop := Code.EveryLine QuoteFree code

theorem binds_of_quiet {S : Set String} (h : QuietCode code) : CodeBindsAmong S code := fun s hs =>
  bindsAmong_of_quoteFree (h s hs)

section
variable (hf : ∀ type ∈ f.types, type.Quiet)
include hf

theorem signature_quiet (h : signature f = .ok s) : isIdentifier f.name = true ∧ QuoteFree s := by
  obtain ⟨params, hparams, h⟩ := bind_eq_ok.mp h
  obtain ⟨name, hname, h⟩ := bind_eq_ok.mp h
  obtain ⟨hidentifier, hfree⟩ := managedIdentifier_ok hname
  obtain rfl := Except.ok.inj h
  have hreturn : QuoteFree (returnTypeText f) := by
    unfold returnTypeText
    cases htype : f.returnType with
    | none => decide
    | some type => exact (hf type (by simp [FunctionRecord.types, htype])).managedName
  have hall : ∀ p ∈ params, QuoteFree p := by
    intro p hp
    obtain ⟨x, hx, hp⟩ := Paired.exists_left (mapM_eq_ok.mp hparams) hp
    obtain ⟨k, hk, hp⟩ := bind_eq_ok.mp hp
    have htype := (hf x.type (List.mem_append_left _ (List.mem_map_of_mem hx))).managedName
    have hmark : QuoteFree (directionMark x.direction) := by cases x.direction <;> decide
    obtain rfl := Except.ok.inj hp
    simp +decide [hmark, htype, (managedIdentifier_ok hk).2]
  have hlist : QuoteFree (String.intercalate ", " params) := lacks_intercalate (by decide) hall
  exact ⟨hidentifier, by simp +decide [hreturn, hfree, hlist]⟩

theorem param_quiet {p : ParamRecord} (hp : p ∈ f.params) : QuoteFree p.type.managedName :=
  (hf p.type (List.mem_append_left _ (List.mem_map_of_mem hp))).managedName

omit hf in
theorem reader_quiet {type : TypeRef} (h : type.Quiet) (source : String) (hs : QuoteFree source) :
    QuoteFree (reader type source) := by
  have hname := h.managedName
  cases type with
  | object u | classOf u =>
    have hu := h.references (_, u) List.mem_cons_self
    simp +decide [reader, hs, hu]
  | _ => simp +decide [reader, hs, hname]

omit hf in
theorem cast_quiet {type : TypeRef} (h : type.Quiet) (value : String) (hs : QuoteFree value) :
    QuoteFree (cast type value) := by
  have hname := h.managedName
  cases type <;> simp +decide [cast, hs, hname]

omit hf in
theorem writeSlot_quiet {type : TypeRef} (h : type.Quiet) {slot : FrameSlot} {value : String} (hs : QuoteFree value) :
    QuietCode [writeSlot slot type value] := by
  have hname := h.managedName
  cases type <;> simp +decide [writeSlot, hs, hname]

theorem directBody_quiet (hname : isIdentifier f.name = true) (h : directBody f layout = .ok code) : QuietCode code := by
  obtain ⟨puts, takes, hputs, htakes, rfl⟩ := directBody_passesFrame h
  have hparam : ∀ {x : PlacedParam}, x ∈ f.params.zip layout.params → x.1.type.Quiet := fun {x} hx =>
    hf _ (List.mem_append_left _ (List.mem_map_of_mem (List.of_mem_zip hx).1))
  have hputs : QuietCode puts := Code.everyLine_of_mem fun c hc => by
    obtain ⟨x, hx, k, hk, rfl⟩ := Paired.exists_left hputs hc
    exact writeSlot_quiet (hparam (List.mem_filter.mp hx).1) (managedIdentifier_ok hk).2
  have htakes : QuietCode takes := Code.everyLine_of_mem fun c hc => by
    obtain ⟨x, hx, k, hk, rfl⟩ := Paired.exists_left htakes hc
    have hreader := reader_quiet (hparam (List.mem_filter.mp hx).1) "Read" (by decide)
    simp +decide [hreader, (managedIdentifier_ok hk).2]
  have hreceiver : QuietCode (if layout.receiver then [.line "frame.WriteHandle(0, this);"] else []) := by
    split <;> simp +decide
  refine Code.everyLine_append.mpr ⟨?_, ?_⟩
  · simp +decide [hreceiver, hputs, htakes, invocableField, quoteFree_of_isIdentifier hname]
  · cases htype : f.returnType with
    | none => simp
    | some type =>
      have hreader := reader_quiet (hf type (by simp [FunctionRecord.types, htype])) "ReadReturn" (by decide)
      simp +decide [hreader]

theorem lookupBody_quiet (hname : isIdentifier f.name = true) (h : lookupBody f = .ok code) : QuietCode code := by
  obtain ⟨values, hvalues, h⟩ := bind_eq_ok.mp h
  obtain ⟨reads, hreads, h⟩ := bind_eq_ok.mp h
  obtain rfl := Except.ok.inj h
  have hvalues : ∀ v ∈ values, QuoteFree v := by
    intro v hv
    obtain ⟨p, hp, hv⟩ := Paired.exists_left (mapM_eq_ok.mp hvalues) hv
    unfold argumentText at hv
    split at hv
    · exact (managedIdentifier_ok hv).2
    · obtain rfl := Except.ok.inj hv
      simp +decide [param_quiet hf hp]
  have hreads : QuietCode reads := Code.everyLine_of_mem fun c hc => by
    obtain ⟨p, hp, hc⟩ := Paired.exists_left (mapM_eq_ok.mp hreads) hc
    obtain ⟨k, hk, hc⟩ := bind_eq_ok.mp hc
    obtain rfl := Except.ok.inj hc
    have hmem : p.1 ∈ f.params := List.fst_mem_of_mem_zipIdx (List.mem_filter.mp hp).1
    have hcast := cast_quiet (hf p.1.type (List.mem_append_left _ (List.mem_map_of_mem hmem)))
      ("args[" ++ toString p.2 ++ "]") (by simp +decide)
    simp +decide only [Code.everyLine_line, lacks_append, hcast, (managedIdentifier_ok hk).2, Code.everyLine_nil, and_self]
  have hlist : QuoteFree (String.intercalate ", " values) := lacks_intercalate (by decide) hvalues
  have hfree := quoteFree_of_isIdentifier hname
  have hcall : QuoteFree (invocableField f ++ ".Invoke(" ++ (if f.isStatic then "null" else "this") ++ ", args)") := by
    cases f.isStatic <;> simp +decide [invocableField, hfree]
  refine Code.everyLine_append.mpr ⟨Code.everyLine_append.mpr ⟨?_, hreads⟩, ?_⟩
  · cases f.returnType <;> simp +decide only [Option.isSome, Code.everyLine_line, lacks_append, hlist, hcall,
      Code.everyLine_nil, and_self, if_true, if_false]
  · cases htype : f.returnType with
    | none => simp
    | some type =>
      have hcast := cast_quiet (hf type (by simp [FunctionRecord.types, htype])) "result" (by decide)
      simp +decide [hcast]

end

/-! ### Fields -/

section
variable {S : Set String} {front symbol type function : String}

/-- A symbol begins only behind a parenthesis. -/
theorem not_callMark_of_lacks (h : Lacks '(' s) : ¬callMark <:+ s.toList := by
  intro hsuffix
  exact h (hsuffix.subset (by decide))

/-- A symbol does not begin behind another call. -/
theorem not_callMark_of_call {call : List Char} (hlength : call.length = callMark.length) (hne : callMark ≠ call) :
    ¬callMark <:+ front.toList ++ call := by
  intro hsuffix
  have hcall : call <:+ front.toList ++ call := List.suffix_append _ _
  exact hne ((List.suffix_of_suffix_length_le hsuffix hcall hlength.ge).eq_of_length hlength.symm)

theorem not_callMark_of_last {front back : List Char} (hlast : back.getLast? = some ' ') :
    ¬callMark <:+ front ++ back := by
  rintro ⟨before, h⟩
  have hmark : callMark.getLast? = some '(' := by decide
  have hends : (before ++ callMark).getLast? = (front ++ back).getLast? := congrArg List.getLast? h
  rw [List.getLast?_append, List.getLast?_append, hlast, hmark] at hends
  simp at hends

/-- A text in double quotes that does not end with a parenthesis. -/
theorem bindsAmong_quoted {more : List Char} (hs : QuoteFree s) (hparen : Lacks '(' s) (hmore : BindsAmong S more) :
    BindsAmong S (s.toList ++ '"' :: more) :=
  bindsAmong_quote hs (fun hmark => absurd hmark (not_callMark_of_lacks hparen)) hmore

theorem bindsAmong_lookup (hfront : QuoteFree front) (htype : isIdentifier type = true)
    (hfunction : isIdentifier function = true) :
    BindsAmong S (front ++ (Binding.lookup type function).text).toList := by
  have htext : (front ++ (Binding.lookup type function).text).toList = (front.toList ++ "Invocable.Lookup(".toList) ++
      '"' :: (type.toList ++ '"' :: (", ".toList ++ '"' :: (function.toList ++ '"' :: ");".toList))) := by
    have hcall : "Invocable.Lookup(\"".toList = "Invocable.Lookup(".toList ++ ['"'] := rfl
    have hcomma : "\", \"".toList = '"' :: (", ".toList ++ ['"']) := rfl
    have hclose : "\");".toList = '"' :: ");".toList := rfl
    unfold Binding.text
    simp only [String.toList_append, hcall, hcomma, hclose, List.append_assoc, List.cons_append, List.nil_append]
  have hparen : ∀ {name}, isIdentifier name = true → Lacks '(' name := lacks_of_isIdentifier (by decide)
  rw [htext]
  refine bindsAmong_quote ?_ (fun hmark => absurd hmark (not_callMark_of_call (by decide) (by decide))) ?_
  · simpa [Lacks] using hfront
  refine bindsAmong_quoted (quoteFree_of_isIdentifier htype) (hparen htype) ?_
  refine bindsAmong_quoted (by decide) (by decide) ?_
  exact bindsAmong_quoted (quoteFree_of_isIdentifier hfunction) (hparen hfunction) (bindsAmong_of_quoteFree (by decide))

theorem bindsAmong_direct {frameSize returnSize : Nat} (hfront : QuoteFree front) (hsymbol : QuoteFree symbol)
    (hparen : Lacks '(' symbol) (hmem : symbol ∈ S) :
    BindsAmong S (front ++ (Binding.direct symbol frameSize returnSize).text).toList := by
  have htext : (front ++ (Binding.direct symbol frameSize returnSize).text).toList = (front.toList ++ callMark) ++
      '"' :: (symbol.toList ++ '"' :: (", " ++ toString frameSize ++ ", " ++ toString returnSize ++ ");").toList) := by
    have hcall : "Invocable.Direct(\"".toList = callMark ++ ['"'] := rfl
    have hcomma : "\", ".toList = '"' :: ", ".toList := rfl
    unfold Binding.text
    simp only [String.toList_append, hcall, hcomma, List.append_assoc, List.cons_append, List.nil_append]
  rw [htext]
  refine bindsAmong_quote ?_ (fun _ => ?_) (bindsAmong_quoted hsymbol hparen (bindsAmong_of_quoteFree ?_))
  · have hmark := callMark_quoteFree
    simpa [Lacks, hmark] using hfront
  · refine ⟨by simp, ?_⟩
    rw [takeWhile_quoted hsymbol, String.ofList_toList]
    exact hmem
  · have hsizes : QuoteFree (", " ++ toString frameSize ++ ", " ++ toString returnSize ++ ");") := by simp +decide
    exact hsizes

end

/-! ### Members -/

/-- The symbols of the functions of a type that have a trampoline. -/
def symbolsOf (fast : List FunctionId) (t : TypeRecord) : Set String :=
  {s | ∃ f ∈ t.functions, ⟨t.name, f.name⟩ ∈ fast ∧ s = trampolineSymbol ⟨t.name, f.name⟩}

theorem allLines_withoutBlanks (code : List Code) : Code.allLines (withoutBlanks code) = Code.allLines code := by
  induction code with
  | nil => rfl
  | cons c code ih =>
    cases c with
    | line s => exact congrArg (s :: ·) ih
    | blank => exact ih
    | block front body => exact congrArg ((front :: Code.allLines body) ++ ·) ih

section
variable {d : Document} {fast : List FunctionId} {t : TypeRecord} {x : Candidate × Service}

/-- A function is called directly only if it has a trampoline. -/
theorem mem_of_direct {y : Candidate} (h : serviceOf d fast y = .direct layout) : y.id ∈ fast := by
  unfold serviceOf at h
  split at h
  · cases h
  split at h
  · cases h
  split at h
  · next hmem => exact List.contains_iff_mem.mp hmem
  · cases h

variable (hquiet : ∀ type ∈ x.1.function.types, type.Quiet)

include hquiet in
theorem event_quiet {text : String} (htext : signature x.1.function = .ok text) :
    QuietCode [(Member.event text).code x.1.function] := by
  simp +decide [Member.code, (signature_quiet hquiet htext).2]

include hquiet in
theorem method_quiet {text : String} {body : List Code} (htext : signature x.1.function = .ok text)
    (hbody : methodBody x = .ok body) : QuietCode [(Member.method text body).code x.1.function] := by
  obtain ⟨hname, hsignature⟩ := signature_quiet hquiet htext
  have hmethod : QuietCode body := by
    unfold methodBody at hbody
    split at hbody
    · exact directBody_quiet hquiet hname hbody
    · exact lookupBody_quiet hquiet hname hbody
  cases hstatic : x.1.function.isStatic <;> simp +decide [Member.code, hstatic, hsignature, hmethod]

theorem field_binds (hservice : x.2 = serviceOf d fast x.1) (hf : x.1.function ∈ x.1.owner.functions)
    (htype : isIdentifier x.1.owner.name = true) (hfunction : isIdentifier x.1.function.name = true) {binding : Binding}
    (hbinding : binding? x = some binding) :
    CodeBindsAmong (symbolsOf fast x.1.owner) [(Member.field binding).code x.1.function] := by
  have hfront : QuoteFree ("static readonly Invocable " ++ invocableField x.1.function ++ " = ") := by
    simp +decide [invocableField, quoteFree_of_isIdentifier hfunction]
  have hline : BindsAmong (symbolsOf fast x.1.owner)
      ("static readonly Invocable " ++ invocableField x.1.function ++ " = " ++ binding.text).toList := by
    obtain ⟨y, service⟩ := x
    cases service with
    | event | unbound => cases hbinding
    | direct layout =>
      obtain rfl := Option.some.inj hbinding
      refine bindsAmong_direct hfront (lacks_trampolineSymbol (by decide) htype hfunction (by decide))
        (lacks_trampolineSymbol (by decide) htype hfunction (by decide)) ?_
      exact ⟨y.function, hf, mem_of_direct hservice.symm, rfl⟩
    | byName =>
      obtain rfl := Option.some.inj hbinding
      exact bindsAmong_lookup hfront htype hfunction
  intro s hs
  rw [List.mem_singleton.mp (show s ∈ [_] from hs)]
  exact hline

end

/-! ### Types -/

/-- What the wrapper of a type spells has no double quotes. -/
structure SpeltQuietly (t : TypeRecord) : Prop where
  name : isIdentifier t.name = true
  nativeName : QuoteFree t.nativeName ∧ Lacks '(' t.nativeName
  members : ∀ m ∈ t.memberTypes, m.2.Quiet
  underlying : t.kind = .enumKind → QuoteFree t.underlying.managedName

theorem speltQuietly {d : Document} (hd : d.Consistent) (hcopies : d.CopiesQuietly)
    (hnames : ∀ t ∈ d.types, isIdentifier t.name = true) {t : TypeRecord} (ht : t ∈ d.types) : SpeltQuietly t where
  name := hnames t ht
  nativeName := by
    unfold TypeRecord.nativeName
    cases hnative : t.nativeName? with
    | none =>
      have hname : ∀ {c}, inName c = false → Lacks c t.name := fun hc => lacks_of_isIdentifier hc (hnames t ht)
      have hfree : ∀ c, inName c = false → Lacks c (t.kind.nativePrefix ++ t.name) := by
        intro c hc
        refine lacks_append.mpr ⟨lacks_of_isIdentifier hc ?_, hname hc⟩
        cases t.kind <;> decide
      exact ⟨hfree '"' (by decide), hfree '(' (by decide)⟩
    | some name => exact hcopies.nativeNames t ht name hnative
  members m hm := by
    refine ⟨fun r hr => ?_, hcopies.signatures t ht m hm⟩
    obtain ⟨u, hu, -⟩ := Document.kind?_eq_some.mp ((hd.accepts t ht).resolved m hm r hr)
    obtain ⟨hmem, hname⟩ := Document.type?_mem hu
    exact hname ▸ quoteFree_of_isIdentifier (hnames u hmem)
  underlying hkind := by
    obtain ⟨i, hi, -⟩ := (hd.accepts t ht).underlying hkind
    rw [hi]
    cases i <;> decide

section
variable {c : BindingContext} {fast : List FunctionId} {t : TypeRecord} {entries : List ReportEntry} {name : String}
variable (hspelt : SpeltQuietly t)
include hspelt

theorem functionsCode_binds (h : functionsCode c fast t = (entries, .ok code)) :
    CodeBindsAmong (symbolsOf fast t) code := by
  obtain ⟨hcode, -, hspelled⟩ := functionsCode_ok h
  have hmember : ∀ m ∈ members (services c fast t), CodeBindsAmong (symbolsOf fast t) [m.2.code m.1] := by
    intro m hm
    have hquiet : ∀ x ∈ services c fast t, ∀ type ∈ x.1.function.types, type.Quiet := by
      intro x hx type htype
      obtain ⟨f, hf, rfl⟩ := List.mem_map.mp hx
      refine hspelt.members (f.name, type) (List.mem_append_right _ (List.mem_flatMap.mpr ⟨f, ?_, ?_⟩))
      · exact (List.mem_filter.mp hf).1
      · exact List.mem_map_of_mem htype
    obtain ⟨x, hx, hmember⟩ := exists_memberOf hm
    -- Only the field of a bound function may name a symbol.
    cases hmember with
    | event _ htext => exact binds_of_quiet (event_quiet (hquiet x hx) htext)
    | method _ htext hbody => exact binds_of_quiet (method_quiet (hquiet x hx) htext hbody)
    | field hbinding =>
      obtain ⟨text, body, htext, -⟩ := (hspelled x hx).2 (isBound_of_binding hbinding)
      have hname := (signature_quiet (hquiet x hx) htext).1
      obtain ⟨f, hf, rfl⟩ := List.mem_map.mp hx
      exact field_binds rfl (List.mem_filter.mp hf).1 hspelt.name hname hbinding
  unfold CodeBindsAmong Code.EveryLine
  rw [← allLines_withoutBlanks, hcode]
  refine Code.everyLine_of_mem fun c hc => ?_
  obtain ⟨m, hm, rfl⟩ := List.mem_map.mp hc
  exact hmember m hm

theorem property_quiet {p : PropertyRecord} (hp : p ∈ t.properties) : QuoteFree p.type.managedName :=
  (hspelt.members (p.name, p.type) (List.mem_append_left _ (List.mem_map_of_mem hp))).managedName

omit hspelt in
/-- A line with one name in double quotes, which no symbol begins at. -/
theorem bindsAmong_named {S : Set String} (front back : String) (hfront : QuoteFree front)
    (hmark : ¬callMark <:+ front.toList) (hname : QuoteFree name) (hparen : Lacks '(' name) (hback : QuoteFree back) :
    BindsAmong S (front ++ "\"" ++ name ++ "\"" ++ back).toList := by
  have htext : (front ++ "\"" ++ name ++ "\"" ++ back).toList =
      front.toList ++ '"' :: (name.toList ++ '"' :: back.toList) := by
    simp
  rw [htext]
  exact bindsAmong_quote hfront (fun h => absurd h hmark) (bindsAmong_quoted hname hparen (bindsAmong_of_quoteFree hback))

theorem propertyCode_binds {S : Set String} {p : PropertyRecord} (hp : p ∈ t.properties)
    (h : propertyCode p = .ok code) : CodeBindsAmong S code := by
  obtain ⟨name, hname, h⟩ := bind_eq_ok.mp h
  obtain rfl := Except.ok.inj h
  obtain ⟨hidentifier, hfree⟩ := managedIdentifier_ok hname
  have htype := property_quiet hspelt hp
  have hp := quoteFree_of_isIdentifier hidentifier
  have hparen : Lacks '(' p.name := lacks_of_isIdentifier (by decide) hidentifier
  have hget : BindsAmong S
      ("get => ReflectionAccess.Get<" ++ p.type.managedName ++ ">(this, \"" ++ p.name ++ "\");").toList := by
    have hmark : ¬callMark <:+ ("get => ReflectionAccess.Get<" ++ p.type.managedName ++ ">(this, ").toList := by
      rw [String.toList_append]
      exact not_callMark_of_last (by decide)
    have hline := bindsAmong_named (S := S) _ ");" (by simp +decide [htype]) hmark hp hparen (by decide)
    simpa [String.append_assoc] using hline
  have hset : BindsAmong S ("set => ReflectionAccess.Set(this, \"" ++ p.name ++ "\", value);").toList := by
    have hline := bindsAmong_named (S := S) "set => ReflectionAccess.Set(this, " ", value);"
      (by decide) (by decide) hp hparen (by decide)
    simpa [String.append_assoc] using hline
  have hhead : QuoteFree ("public " ++ p.type.managedName ++ " " ++ name) := by simp +decide [htype, hfree]
  cases p.flags.contains PropertyFlags.readOnly <;>
    simp only [Code.everyLine_blank, Code.everyLine_block, Code.everyLine_line, Code.everyLine_nil, hget, hset,
      bindsAmong_of_quoteFree hhead, and_self, if_true, if_false, Bool.false_eq_true]

omit hspelt in
theorem enumCode_quiet (hname : QuoteFree name) (hunderlying : QuoteFree t.underlying.managedName)
    (h : enumCode t name = .ok code) : QuietCode code := by
  obtain ⟨values, hvalues, h⟩ := bind_eq_ok.mp h
  obtain rfl := Except.ok.inj h
  have hvalues : QuietCode values := Code.everyLine_of_mem fun c hc => by
    obtain ⟨v, -, hc⟩ := Paired.exists_left (mapM_eq_ok.mp hvalues) hc
    obtain ⟨k, hk, hc⟩ := bind_eq_ok.mp hc
    obtain rfl := Except.ok.inj hc
    have hvalue : QuoteFree (k ++ " = " ++ toString v.value.toInt ++ ",") := by
      simp +decide only [lacks_append, (managedIdentifier_ok hk).2, quoteFree_int, and_self]
    simpa only [Code.everyLine_line, Code.everyLine_nil, and_true] using hvalue
  simp +decide [hname, hunderlying, hvalues]

theorem structFields_quiet {fields : List Code} (h : t.properties.mapM structFieldCode = .ok fields) :
    QuietCode fields := Code.everyLine_of_mem fun c hc => by
  obtain ⟨p, hp, hc⟩ := Paired.exists_left (mapM_eq_ok.mp h) hc
  obtain ⟨k, hk, hc⟩ := bind_eq_ok.mp hc
  obtain rfl := Except.ok.inj hc
  simp +decide [property_quiet hspelt hp, (managedIdentifier_ok hk).2]

theorem classHead_binds {S : Set String} (hname : QuoteFree name) : CodeBindsAmong S (classHead t name) := by
  have hfind : BindsAmong S
      ("public static readonly NativeType NativeType = NativeType.Find(\"" ++ t.nativeName ++ "\");").toList := by
    have hline := bindsAmong_named (S := S) "public static readonly NativeType NativeType = NativeType.Find("
      ");" (by decide) (by decide) hspelt.nativeName.1 hspelt.nativeName.2 (by decide)
    simpa [String.append_assoc] using hline
  have hrest : QuietCode (classHead t name).tail := by
    simp +decide [classHead, hname]
  have hcode : classHead t name = [.line
      ("public static readonly NativeType NativeType = NativeType.Find(\"" ++ t.nativeName ++ "\");")]
      ++ (classHead t name).tail := rfl
  rw [hcode]
  exact Code.everyLine_append.mpr ⟨Code.everyLine_line.mpr ⟨hfind, Code.everyLine_nil⟩, binds_of_quiet hrest⟩

/-- The declaration of a type binds the symbols of its own functions that have a trampoline. -/
theorem typeCode_binds (hname : QuoteFree name) (h : typeCode c fast t name = (entries, .ok code)) :
    CodeBindsAmong (symbolsOf fast t) code := by
  cases typeCode_eq_ok.mp h with
  | enumKind hkind hcode => exact binds_of_quiet (enumCode_quiet hname (hspelt.underlying hkind) hcode)
  | structKind _ hfields hfunctions =>
    have hbody := functionsCode_binds hspelt hfunctions
    have hlead := binds_of_quiet (S := symbolsOf fast t) (structFields_quiet hspelt hfields)
    have hhead : QuoteFree ("public partial struct " ++ name) := lacks_append.mpr ⟨by decide, hname⟩
    have hmark : QuoteFree "[StructLayout(LayoutKind.Sequential)]" := by decide
    simp only [Code.everyLine_line, Code.everyLine_block, Code.everyLine_append, Code.everyLine_nil, hbody, hlead,
      bindsAmong_of_quoteFree hhead, bindsAmong_of_quoteFree hmark, and_self]
  | @classKind _ base blocks _ _ hbase hblocks hfunctions =>
    have hbody := functionsCode_binds hspelt hfunctions
    have hlead := classHead_binds hspelt (S := symbolsOf fast t) hname
    have hproperties : CodeBindsAmong (symbolsOf fast t) blocks.flatten := by
      refine Code.everyLine_of_mem fun c hc => ?_
      obtain ⟨code, hcode, hc⟩ := List.mem_flatten.mp hc
      obtain ⟨p, hp, hcode⟩ := Paired.exists_left (mapM_eq_ok.mp hblocks) hcode
      have hbinds := propertyCode_binds hspelt (S := symbolsOf fast t) (List.mem_filter.mp hp).1 hcode
      exact fun s hs => hbinds s (Code.mem_allLines.mpr ⟨c, hc, by simpa [Code.allLines] using hs⟩)
    have hbase : QuoteFree base := by
      unfold baseName at hbase
      split at hbase
      · exact (managedIdentifier_ok hbase).2
      · rw [← Except.ok.inj hbase]
        decide
    have hhead : QuoteFree ((if t.flags.contains TypeFlags.abstract then "public abstract partial class "
        else "public partial class ") ++ name ++ " : " ++ base) := by
      split <;> simp +decide [hname, hbase]
    simp only [Code.everyLine_block, Code.everyLine_append, Code.everyLine_nil, hbody, hlead, hproperties,
      bindsAmong_of_quoteFree hhead, and_self]

/-- The wrapper of a type binds the symbols of its own functions that have a trampoline. -/
theorem renderType_binds {a : Artifact} (h : renderType c fast t = (entries, .ok a)) :
    BindsAmong (symbolsOf fast t) a.contents.toList := by
  obtain ⟨name, module, code, hname, hmodule, hcode, rfl⟩ := renderType_eq_ok.mp h
  have hbinds := typeCode_binds hspelt (managedIdentifier_ok hname).2 hcode
  have hfirst : QuietCode head := by simp +decide [head, Code.banner]
  have hspace : QuoteFree ("namespace SharpBind." ++ module) :=
    lacks_append.mpr ⟨by decide, (managedIdentifier_ok hmodule).2⟩
  have hmark : QuietCode (if t.flags.contains TypeFlags.deprecated then [.line "[Obsolete]"] else []) := by
    split <;> simp +decide
  refine bindsAmong_render ?_
  simp only [Code.everyLine_block, Code.everyLine_append, Code.everyLine_nil, binds_of_quiet hfirst,
    binds_of_quiet hmark, bindsAmong_of_quoteFree hspace, hbinds, and_self]

end

end Wrapper
end EngineBridge
