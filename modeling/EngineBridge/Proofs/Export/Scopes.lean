import EngineBridge.Proofs.Export.Declarations
import EngineBridge.Proofs.Export.FastSet

/-! The names that generated code declares in one scope.

A wrapper puts names of its own beside those of the document: helpers of a class, the fields of the functions that are
bound, and a variable or two in the body of a method. The scopes are free of repetitions exactly as long as the document
has none of these names; a trampoline marks the names that it takes over, so that only two parameters of one name can
meet. -/

namespace EngineBridge
open Outcome

/-! ### Statements -/

/-- A statement of generated code. -/
inductive Statement
  /-- Introduces a variable with a value. -/
  | declare (type name value : String)
  /-- Introduces a variable that holds nothing yet. -/
  | declareEmpty (type name : String)
  | assign (target value : String)
  | run (expression : String)
  | give (value : String)
  /-- Ends with a value if the condition holds. -/
  | guard (condition value : String)

namespace Statement

def code : Statement → Code
  | declare type name value => .line (type ++ " " ++ name ++ " = " ++ value ++ ";")
  | declareEmpty type name => .line (type ++ " " ++ name ++ "\x7b\x7d;")
  | assign target value => .line (target ++ " = " ++ value ++ ";")
  | run expression => .line (expression ++ ";")
  | give value => .line ("return " ++ value ++ ";")
  | guard condition value => .block ("if (" ++ condition ++ ")") [.line ("return " ++ value ++ ";")]

/-- The variable that the statement introduces. -/
def local? : Statement → Option String
  | declare _ name _ | declareEmpty _ name => some name
  | _ => none

theorem closed_call (s : String) : s ++ ");" = s ++ ")" ++ ";" := by
  rw [String.append_assoc]
  rfl

theorem closed_empty_call (s : String) : s ++ "();" = s ++ "()" ++ ";" := by
  rw [String.append_assoc]
  rfl

theorem closed_list (s : String) : s ++ " \x7d;" = s ++ " \x7d" ++ ";" := by
  rw [String.append_assoc]
  rfl

end Statement

/-- The variables that statements introduce. -/
def localsOf (statements : List Statement) : List String := statements.filterMap Statement.local?

section
variable {α : Type} {xs : List α} {g : α → Statement} {more statements : List Statement}

@[simp] theorem localsOf_append : localsOf (statements ++ more) = localsOf statements ++ localsOf more :=
  List.filterMap_append

/-- Statements that introduce nothing. -/
theorem localsOf_map_eq_nil (h : ∀ x, (g x).local? = none) : localsOf (xs.map g) = [] := by
  rw [localsOf, List.filterMap_map, List.filterMap_eq_nil_iff]
  exact fun x _ => h x

end

namespace Wrapper
variable {c : BindingContext} {fast : List FunctionId} {t : TypeRecord} {f : FunctionRecord} {layout : FrameLayout}
variable {body : List Code} {s : Candidate × Service}

/-! ### The bodies of methods -/

/-- The call that puts an argument into the frame. -/
def putCall (slot : FrameSlot) (type : TypeRef) (value : String) : String :=
  let place := toString slot.offset ++ ", " ++ value ++ ")"
  match type with
  | .object _ => "frame.WriteHandle(" ++ place
  | .classOf _ => "frame.WriteClass(" ++ place
  | other => "frame.Write<" ++ other.managedName ++ ">(" ++ place

/-- Puts a parameter into the frame. -/
def putStatement (p : PlacedParam) : Statement := .run (putCall p.2 p.1.type (spelled p.1.name))

/-- Takes a parameter out of the frame. -/
def takeStatement (p : PlacedParam) : Statement :=
  .assign (spelled p.1.name) (reader p.1.type "Read" ++ "(" ++ toString p.2.offset ++ ")")

/-- The statements of a method that calls its trampoline. -/
def directStatements (f : FunctionRecord) (layout : FrameLayout) : List Statement :=
  [.declare "using var" "frame"
      ("new InteropFrame(" ++ toString layout.size ++ ", " ++ toString layout.returnSize ++ ")")]
    ++ (if layout.receiver then [.run "frame.WriteHandle(0, this)"] else [])
    ++ ((placedParams f layout).filter fun p => p.1.direction.takesIn).map putStatement
    ++ [.run (invocableField f ++ ".Invoke(frame)")]
    ++ ((placedParams f layout).filter fun p => p.1.direction.writesBack).map takeStatement
    ++ (match f.returnType with
        | some t => [.give (reader t "ReadReturn" ++ "()")]
        | none => [])

/-- What a parameter puts into the list of arguments. -/
def argumentSpelled (p : ParamRecord) : String :=
  if p.direction.takesIn then spelled p.name else "default(" ++ p.type.managedName ++ ")"

/-- The call of a function that is looked up. -/
def lookupCall (f : FunctionRecord) : String :=
  invocableField f ++ ".Invoke(" ++ (if f.isStatic then "null" else "this") ++ ", args)"

/-- Takes a parameter out of the list of arguments. -/
def takeArgument (p : ParamRecord × Nat) : Statement :=
  .assign (spelled p.1.name) (cast p.1.type ("args[" ++ toString p.2 ++ "]"))

/-- The statements of a method that is looked up by its name. -/
def lookupStatements (f : FunctionRecord) : List Statement :=
  [.declare "object?[]" "args" ("\x7b " ++ String.intercalate ", " (f.params.map argumentSpelled) ++ " \x7d"),
    if f.returnType.isSome then .declare "var" "result" (lookupCall f) else .run (lookupCall f)]
    ++ (f.params.zipIdx.filter fun p => p.1.direction.writesBack).map takeArgument
    ++ (match f.returnType with
        | some t => [.give (cast t "result")]
        | none => [])

/-- The statements of a function's method; only a bound function has some. -/
def statementsOf (s : Candidate × Service) : List Statement :=
  match s.2 with
  | .direct layout => directStatements s.1.function layout
  | .byName _ => lookupStatements s.1.function
  | _ => []

theorem writeSlot_eq {slot : FrameSlot} {type : TypeRef} {value : String} :
    writeSlot slot type value = .line (putCall slot type value ++ ";") := by
  unfold writeSlot putCall
  cases type <;> simp only [Statement.closed_call, String.append_assoc]

theorem writeParam_eq_ok {p : PlacedParam} {line : Code} (h : writeParam p = .ok line) :
    line = (putStatement p).code := by
  obtain ⟨name, hname, h⟩ := bind_eq_ok.mp h
  obtain ⟨-, rfl⟩ := managedIdentifier_eq_ok.mp hname
  rw [← Except.ok.inj h, writeSlot_eq]
  rfl

theorem readParam_eq_ok {p : PlacedParam} {line : Code} (h : readParam p = .ok line) :
    line = (takeStatement p).code := by
  obtain ⟨name, hname, h⟩ := bind_eq_ok.mp h
  obtain ⟨-, rfl⟩ := managedIdentifier_eq_ok.mp hname
  rw [← Except.ok.inj h]
  simp only [takeStatement, Statement.code, Statement.closed_call, String.append_assoc]

theorem readArgument_eq_ok {p : ParamRecord × Nat} {line : Code} (h : readArgument p = .ok line) :
    line = (takeArgument p).code := by
  obtain ⟨name, hname, h⟩ := bind_eq_ok.mp h
  obtain ⟨-, rfl⟩ := managedIdentifier_eq_ok.mp hname
  exact (Except.ok.inj h).symm

theorem argumentText_eq_ok {p : ParamRecord} {text : String} (h : argumentText p = .ok text) :
    text = argumentSpelled p := by
  unfold argumentText at h
  unfold argumentSpelled
  cases hin : p.direction.takesIn with
  | true =>
    rw [hin] at h
    exact (managedIdentifier_eq_ok.mp h).2
  | false =>
    rw [hin] at h
    exact (Except.ok.inj h).symm

theorem directFrame_code : Code.line ("using var frame = new InteropFrame(" ++ toString layout.size ++ ", "
      ++ toString layout.returnSize ++ ");") =
    (Statement.declare "using var" "frame"
      ("new InteropFrame(" ++ toString layout.size ++ ", " ++ toString layout.returnSize ++ ")")).code := by
  simp only [Statement.code, Statement.closed_call, ← String.append_assoc, String.reduceAppend]

theorem invoke_code : Code.line (invocableField f ++ ".Invoke(frame);") =
    (Statement.run (invocableField f ++ ".Invoke(frame)")).code := by
  rw [Statement.code, String.append_assoc]
  rfl

theorem giveRead_code {type : TypeRef} : Code.line ("return " ++ reader type "ReadReturn" ++ "();") =
    (Statement.give (reader type "ReadReturn" ++ "()")).code := by
  simp only [Statement.code, Statement.closed_empty_call, String.append_assoc]

theorem directBody_statements (h : directBody f layout = .ok body) :
    body = (directStatements f layout).map Statement.code := by
  obtain ⟨puts, hputs, h⟩ := bind_eq_ok.mp h
  obtain ⟨takes, htakes, h⟩ := bind_eq_ok.mp h
  obtain ⟨-, rfl⟩ := forall₂_map_eq (P := fun _ => True) (g := fun p => (putStatement p).code)
    (fun _ _ hp => ⟨trivial, writeParam_eq_ok hp⟩) (mapM_eq_ok.mp hputs)
  obtain ⟨-, rfl⟩ := forall₂_map_eq (P := fun _ => True) (g := fun p => (takeStatement p).code)
    (fun _ _ hp => ⟨trivial, readParam_eq_ok hp⟩) (mapM_eq_ok.mp htakes)
  rw [← Except.ok.inj h]
  unfold directStatements
  rw [directFrame_code, invoke_code]
  simp only [List.map_append, List.map_map, List.map_cons, List.map_nil]
  refine congrArg₂ (· ++ ·) (congrArg₂ (· ++ ·) (congrArg₂ (· ++ ·) (congrArg₂ (· ++ ·) (congrArg₂ (· ++ ·) rfl ?_) rfl) rfl) rfl) ?_
  · cases layout.receiver <;> rfl
  · cases f.returnType <;> simp only [List.map_cons, List.map_nil, giveRead_code]

theorem arguments_code {values : String} : Code.line ("object?[] args = \x7b " ++ values ++ " \x7d;") =
    (Statement.declare "object?[]" "args" ("\x7b " ++ values ++ " \x7d")).code := by
  simp only [Statement.code, ← String.append_assoc, String.reduceAppend]
  rw [Statement.closed_list]

theorem call_code {call : String} {returns : Bool} :
    Code.line (if returns then "var result = " ++ call ++ ";" else call ++ ";") =
      (if returns then Statement.declare "var" "result" call else Statement.run call).code := by
  cases returns
  · rfl
  · simp only [↓reduceIte, Statement.code, String.reduceAppend]

theorem lookupBody_statements (h : lookupBody f = .ok body) : body = (lookupStatements f).map Statement.code := by
  obtain ⟨values, hvalues, h⟩ := bind_eq_ok.mp h
  obtain ⟨takes, htakes, h⟩ := bind_eq_ok.mp h
  obtain ⟨-, rfl⟩ := forall₂_map_eq (P := fun _ => True) (g := argumentSpelled)
    (fun _ _ hp => ⟨trivial, argumentText_eq_ok hp⟩) (mapM_eq_ok.mp hvalues)
  obtain ⟨-, rfl⟩ := forall₂_map_eq (P := fun _ => True) (g := fun p => (takeArgument p).code)
    (fun _ _ hp => ⟨trivial, readArgument_eq_ok hp⟩) (mapM_eq_ok.mp htakes)
  rw [← Except.ok.inj h]
  unfold lookupStatements
  rw [arguments_code, call_code]
  simp only [List.map_append, List.map_map, List.map_cons, List.map_nil]
  refine congrArg₂ (· ++ ·) rfl ?_
  cases f.returnType <;> rfl

/-- The body of a bound function's method consists of its statements. -/
theorem methodBody_statements (hbound : isBound s = true) (h : methodBody s = .ok body) :
    body = (statementsOf s).map Statement.code := by
  obtain ⟨x, service⟩ := s
  cases service with
  | direct layout => exact directBody_statements h
  | byName => exact lookupBody_statements h
  | event | unbound => cases hbound

/-- The variables that the method of a function has beside its parameters. -/
def methodLocals (s : Candidate × Service) : List String :=
  match s.2 with
  | .direct _ => ["frame"]
  | .byName _ => "args" :: if s.1.function.returnType.isSome then ["result"] else []
  | _ => []

theorem localsOf_statementsOf : localsOf (statementsOf s) = methodLocals s := by
  have hlookup : localsOf (lookupStatements s.1.function) =
      "args" :: if s.1.function.returnType.isSome then ["result"] else [] := by
    unfold lookupStatements
    rw [localsOf_append, localsOf_append, localsOf_map_eq_nil fun _ => rfl]
    cases s.1.function.returnType <;> rfl
  obtain ⟨x, service⟩ := s
  cases service with
  | direct layout =>
    show localsOf (directStatements x.function layout) = ["frame"]
    unfold directStatements
    simp only [localsOf_append, localsOf_map_eq_nil (g := putStatement) fun _ => rfl,
      localsOf_map_eq_nil (g := takeStatement) fun _ => rfl]
    cases layout.receiver <;> cases x.function.returnType <;> rfl
  | byName => exact hlookup
  | event | unbound => rfl

/-- The names of a method's scope: its parameters, and the variables that its statements introduce. -/
def methodScope (s : Candidate × Service) : List String :=
  s.1.function.params.map (fun p => spelled p.name) ++ localsOf (statementsOf s)

/-- The parameters of a method have names of their own, and none is the name of a variable of the body. -/
structure ParamsClear (s : Candidate × Service) : Prop where
  distinct : (s.1.function.params.map (·.name)).Nodup
  locals : ∀ p ∈ s.1.function.params, p.name ∉ methodLocals s

theorem spelled_methodLocals {n : String} (hn : n ∈ methodLocals s) {name : String} (h : isIdentifier name = true) :
    spelled name = n ↔ name = n := by
  have hcases : n = "frame" ∨ n = "args" ∨ n = "result" := by
    unfold methodLocals at hn
    split at hn
    · exact .inl (List.mem_singleton.mp hn)
    · rcases List.mem_cons.mp hn with hn | hn
      · exact .inr (.inl hn)
      · split at hn
        · exact .inr (.inr (List.mem_singleton.mp hn))
        · cases hn
    · cases hn
  rcases hcases with rfl | rfl | rfl <;> exact spelled_eq_iff h (by decide) (by decide)

theorem methodLocals_nodup : (methodLocals s).Nodup := by
  unfold methodLocals
  split
  · exact List.nodup_singleton _
  · split <;> decide
  · exact List.nodup_nil

theorem nodup_map_spelled {names : List String} (h : ∀ n ∈ names, isIdentifier n = true) :
    (names.map spelled).Nodup ↔ names.Nodup :=
  ⟨List.Nodup.of_map _, List.Nodup.map_on fun n hn m hm => spelled_inj (h n hn) (h m hm)⟩

/-- A method's scope has no name twice exactly if its parameters stay clear of each other and of the body. -/
theorem methodScope_nodup (h : ∀ p ∈ s.1.function.params, isIdentifier p.name = true) :
    (methodScope s).Nodup ↔ ParamsClear s := by
  have hparams : s.1.function.params.map (fun p => spelled p.name) = (s.1.function.params.map (·.name)).map spelled := by
    rw [List.map_map]
    rfl
  unfold methodScope
  rw [localsOf_statementsOf, List.nodup_append', hparams, nodup_map_spelled (List.forall_mem_map.mpr h)]
  constructor
  · rintro ⟨hdistinct, -, hdisjoint⟩
    refine ⟨hdistinct, fun p hp hlocal => hdisjoint (List.mem_map_of_mem (List.mem_map_of_mem hp)) ?_⟩
    rwa [(spelled_methodLocals hlocal (h p hp)).mpr rfl]
  · rintro ⟨hdistinct, hlocals⟩
    refine ⟨hdistinct, methodLocals_nodup, fun n hn hlocal => ?_⟩
    obtain ⟨name, hname, rfl⟩ := List.mem_map.mp hn
    obtain ⟨p, hp, rfl⟩ := List.mem_map.mp hname
    have heq := (spelled_methodLocals hlocal (h p hp)).mp rfl
    rw [← heq] at hlocal
    exact hlocals p hp hlocal

/-! ### The names that a type declares -/

namespace Declaration

/-- The name that a declaration adds to the scope of its type. -/
def name? : Declaration → Option String
  | value v => some (spelled v.name)
  | nativeType _ => some "NativeType"
  | constructor _ => none
  | hook => some "OnBindingInitialized"
  | property p | structField p => some (spelled p.name)
  | member (f, .field _) => some (invocableField f)
  | member (f, _) => some (spelled f.name)

end Declaration

/-- The names that the wrapper of a type declares within the type. -/
def declaredNames (c : BindingContext) (fast : List FunctionId) (t : TypeRecord) : List String :=
  (declarations c fast t).filterMap Declaration.name?

/-- The functions that a wrapper shows: all that are exposed, except instance functions of a struct. -/
def shownFunctions (c : BindingContext) (t : TypeRecord) : List FunctionRecord :=
  (t.functions.filter c.schema.exposes).filter fun f => !isUnbound t f

/-- The functions that a wrapper binds. -/
def boundFunctions (c : BindingContext) (t : TypeRecord) : List FunctionRecord :=
  (shownFunctions c t).filter fun f => !f.isEvent

/-- The members of the document that a wrapper shows, by their names. -/
def shownNames (c : BindingContext) (t : TypeRecord) : List String :=
  match t.kind with
  | .enumKind => t.enumValues.map (·.name)
  | .structKind => t.properties.map (·.name) ++ (shownFunctions c t).map (·.name)
  | .classKind =>
    (t.properties.filter c.schema.exposesProperty).map (·.name) ++ (shownFunctions c t).map (·.name)

/-- The names that a wrapper adds to those of the document. -/
def helperNames (c : BindingContext) (t : TypeRecord) : List String :=
  match t.kind with
  | .enumKind => []
  | .structKind => (boundFunctions c t).map invocableField
  | .classKind => ["NativeType", "OnBindingInitialized"] ++ (boundFunctions c t).map invocableField

theorem flatMap_if {α β : Type} {p : α → Bool} {g : α → β} (xs : List α) :
    (xs.flatMap fun x => if p x then [g x] else []) = (xs.filter p).map g := by
  induction xs with
  | nil => rfl
  | cons x xs ih => cases hx : p x <;> simp [hx, ih]

theorem isBound_serviceOf : isBound (⟨t, f⟩, serviceOf c.document fast ⟨t, f⟩) = (!isUnbound t f && !f.isEvent) := by
  cases hevent : f.isEvent with
  | true => simp [serviceOf_event hevent, isBound]
  | false =>
    cases hunbound : isUnbound t f with
    | true => simp [serviceOf_unbound hunbound, isBound]
    | false =>
      rw [serviceOf_bound hevent hunbound]
      split
      · split <;> rfl
      · rfl

section
variable {s : Candidate × Service} (hs : Spelled s)
include hs

theorem names_methodMembers : ((methodMembers s).map Declaration.member).filterMap Declaration.name? =
    if isBound s then [spelled s.1.function.name] else [] := by
  cases hbound : isBound s with
  | true =>
    obtain ⟨text, body, htext, hbody⟩ := hs.2 hbound
    rw [methodMembers_of_ok hbound htext hbody]
    rfl
  | false =>
    rw [methodMembers_of_not_bound hbound]
    rfl

omit hs in
theorem names_fieldMembers : ((fieldMembers s).map Declaration.member).filterMap Declaration.name? =
    if isBound s then [invocableField s.1.function] else [] := by
  obtain ⟨x, service⟩ := s
  cases service <;> rfl

theorem names_eventMembers {isEvent : Bool} (h : s.2 = .event ↔ isEvent = true) :
    ((eventMembers s).map Declaration.member).filterMap Declaration.name? =
      if isEvent then [spelled s.1.function.name] else [] := by
  cases isEvent with
  | true =>
    have hevent := h.mpr rfl
    obtain ⟨text, htext⟩ := hs.1 hevent
    rw [eventMembers_of_ok hevent htext]
    rfl
  | false =>
    rw [eventMembers_of_ne fun hevent => Bool.false_ne_true (h.mp hevent)]
    rfl

end

theorem serviceOf_eq_event : serviceOf c.document fast ⟨t, f⟩ = .event ↔ f.isEvent = true := by
  constructor
  · intro h
    by_contra hevent
    replace hevent := Bool.eq_false_iff.mpr hevent
    cases hunbound : isUnbound t f with
    | true =>
      rw [serviceOf_unbound hunbound] at h
      cases h
    | false =>
      rw [serviceOf_bound hevent hunbound] at h
      split at h
      · split at h <;> cases h
      · cases h
  · exact serviceOf_event

/-- The members of functions declare the names of the events, then the fields and the names of the functions that are
bound. -/
theorem names_members (h : ∀ s ∈ services c fast t, Spelled s) :
    ((members (services c fast t)).map Declaration.member).filterMap Declaration.name? =
      ((shownFunctions c t).filter (·.isEvent)).map (fun f => spelled f.name)
        ++ (boundFunctions c t).map invocableField ++ (boundFunctions c t).map (fun f => spelled f.name) := by
  have hspelled : ∀ f ∈ t.functions.filter c.schema.exposes,
      Spelled (⟨t, f⟩, serviceOf c.document fast ⟨t, f⟩) := fun f hf => h _ (List.mem_map_of_mem hf)
  have hevents : (shownFunctions c t).filter (·.isEvent) = (t.functions.filter c.schema.exposes).filter (·.isEvent) := by
    unfold shownFunctions
    rw [List.filter_filter]
    refine List.filter_congr fun f _ => ?_
    unfold isUnbound
    cases f.isEvent <;> rfl
  have hbound : boundFunctions c t =
      (t.functions.filter c.schema.exposes).filter fun f => !isUnbound t f && !f.isEvent := by
    unfold boundFunctions shownFunctions
    rw [List.filter_filter]
    exact List.filter_congr fun f _ => Bool.and_comm _ _
  -- Each kind of member is declared once for each function that its condition picks.
  have hflat : ∀ {g : Candidate × Service → List FunctionMember} {p : FunctionRecord → Bool} {n : FunctionRecord → String},
      (∀ f ∈ t.functions.filter c.schema.exposes,
        ((g (⟨t, f⟩, serviceOf c.document fast ⟨t, f⟩)).map Declaration.member).filterMap Declaration.name? =
          if p f then [n f] else []) →
      (((services c fast t).flatMap g).map Declaration.member).filterMap Declaration.name? =
        ((t.functions.filter c.schema.exposes).filter p).map n := by
    intro g p n hg
    rw [← flatMap_if, services, List.flatMap_map, List.map_flatMap, List.filterMap_flatMap]
    exact List.flatMap_congr hg
  unfold members
  rw [List.map_append, List.map_append, List.filterMap_append, List.filterMap_append, hevents, hbound,
    hflat fun f hf => names_eventMembers (hspelled f hf) serviceOf_eq_event,
    hflat (n := invocableField) fun f hf => by rw [names_fieldMembers, isBound_serviceOf],
    hflat (n := fun f => spelled f.name) fun f hf => by rw [names_methodMembers (hspelled f hf), isBound_serviceOf]]

/-- Of a shown function it does not matter in which order events and bound functions come. -/
theorem names_members_perm (h : ∀ s ∈ services c fast t, Spelled s) :
    (((members (services c fast t)).map Declaration.member).filterMap Declaration.name?).Perm
      ((boundFunctions c t).map invocableField ++ (shownFunctions c t).map fun f => spelled f.name) := by
  have hperm : ((shownFunctions c t).filter (·.isEvent) ++ boundFunctions c t).Perm (shownFunctions c t) :=
    List.filter_append_perm (fun f : FunctionRecord => f.isEvent) (shownFunctions c t)
  rw [names_members h]
  refine List.Perm.trans (List.perm_append_comm.append_right _) ?_
  rw [List.append_assoc, ← List.map_append]
  exact (hperm.map _).append_left _

theorem names_declared {α : Type} {f : α → Declaration} {name : α → String}
    (hname : ∀ x, (f x).name? = some (spelled (name x))) (xs : List α) :
    (xs.map f).filterMap Declaration.name? = (xs.map name).map spelled := by
  rw [List.filterMap_map, List.map_map, ← List.filterMap_eq_map]
  exact List.filterMap_congr fun x _ => hname x

/-- A wrapper declares its helpers and what it shows. -/
theorem declaredNames_perm (h : t.kind ≠ .enumKind → ∀ s ∈ services c fast t, Spelled s) :
    (declaredNames c fast t).Perm (helperNames c t ++ (shownNames c t).map spelled) := by
  have hfunctions : ((shownFunctions c t).map (·.name)).map spelled = (shownFunctions c t).map fun f => spelled f.name := by
    rw [List.map_map]
    rfl
  unfold declaredNames declarations helperNames shownNames
  cases hkind : t.kind with
  | enumKind =>
    dsimp only
    rw [names_declared (f := .value) fun _ => rfl]
    rfl
  | structKind =>
    dsimp only
    rw [List.filterMap_append, names_declared (f := .structField) fun _ => rfl, List.map_append, hfunctions]
    -- The helpers of the functions come to the front.
    refine ((names_members_perm (h (by simp [hkind]))).append_left _).trans ?_
    rw [← List.append_assoc, ← List.append_assoc]
    exact List.perm_append_comm.append_right _
  | classKind =>
    dsimp only
    rw [List.filterMap_append, List.filterMap_append, names_declared (f := .property) fun _ => rfl,
      List.map_append, hfunctions, List.append_assoc, List.append_assoc]
    refine List.Perm.append_left _ ?_
    refine ((names_members_perm (h (by simp [hkind]))).append_left _).trans ?_
    rw [← List.append_assoc, ← List.append_assoc]
    exact List.perm_append_comm.append_right _

/-- What a wrapper shows stays clear of its helpers, and the type's own name of both. -/
structure Clear (c : BindingContext) (t : TypeRecord) : Prop where
  helpers : ∀ n ∈ shownNames c t, n ∉ helperNames c t
  own : t.name ∉ shownNames c t ∧ t.name ∉ helperNames c t

theorem mem_invocableField (f : FunctionRecord) : '_' ∈ (invocableField f).toList := by
  unfold invocableField
  rw [String.toList_append]
  exact List.mem_append_right _ (by decide)

theorem invocableField_inj {f g : FunctionRecord} (h : invocableField f = invocableField g) : f.name = g.name :=
  (String.append_left_inj "_Invocable").mp h

theorem invocableField_no_keyword (f : FunctionRecord) : managedKeywords.contains (invocableField f) = false := by
  have hkeywords : ∀ k ∈ managedKeywords, '_' ∉ k.toList := by decide
  by_contra h
  rw [Bool.not_eq_false, List.contains_iff_mem] at h
  exact hkeywords _ h (mem_invocableField f)

section
variable (hspelled : t.kind ≠ .enumKind → ∀ s ∈ services c fast t, Spelled s)
include hspelled

theorem shownFunctions_identifiers (hkind : t.kind ≠ .enumKind) : ∀ f ∈ shownFunctions c t, isIdentifier f.name = true := by
  intro f hf
  obtain ⟨hexposed, hunbound⟩ := List.mem_filter.mp hf
  obtain ⟨hevents, hbodies⟩ := hspelled hkind _ (List.mem_map_of_mem hexposed)
  cases hevent : f.isEvent with
  | true =>
    obtain ⟨text, htext⟩ := hevents (serviceOf_event hevent)
    exact (signature_eq_ok htext).1
  | false =>
    obtain ⟨text, body, htext, -⟩ := hbodies (by rw [isBound_serviceOf, hunbound, hevent]; rfl)
    exact (signature_eq_ok htext).1

theorem shownNames_identifiers (hnames : NamesSpelled c t) : ∀ n ∈ shownNames c t, isIdentifier n = true := by
  have hfunctions := shownFunctions_identifiers hspelled
  unfold shownNames
  cases hkind : t.kind with
  | enumKind => exact List.forall_mem_map.mpr (hnames.values hkind)
  | structKind =>
    exact List.forall_mem_append.mpr ⟨List.forall_mem_map.mpr (hnames.fields hkind),
      List.forall_mem_map.mpr (hfunctions (by simp [hkind]))⟩
  | classKind =>
    refine List.forall_mem_append.mpr ⟨List.forall_mem_map.mpr fun p hp => ?_,
      List.forall_mem_map.mpr (hfunctions (by simp [hkind]))⟩
    exact hnames.properties hkind p (List.mem_filter.mp hp).1 (List.mem_filter.mp hp).2

/-- Helpers are spelled as they are, and nothing else is spelled so. -/
theorem spelled_helper {n name : String} (hn : n ∈ helperNames c t) (h : isIdentifier name = true) :
    spelled name = n ↔ name = n := by
  have hfield : ∀ f ∈ boundFunctions c t, t.kind ≠ .enumKind →
      (spelled name = invocableField f ↔ name = invocableField f) := by
    intro f hf hkind
    have hf := shownFunctions_identifiers hspelled hkind f (List.mem_filter.mp hf).1
    exact spelled_eq_iff h (isIdentifier_append hf (by decide)) (invocableField_no_keyword f)
  unfold helperNames at hn
  cases hkind : t.kind with
  | enumKind =>
    rw [hkind] at hn
    cases hn
  | structKind =>
    rw [hkind] at hn
    obtain ⟨f, hf, rfl⟩ := List.mem_map.mp hn
    exact hfield f hf (by simp [hkind])
  | classKind =>
    rw [hkind] at hn
    rcases List.mem_append.mp hn with hn | hn
    · have hcases : n = "NativeType" ∨ n = "OnBindingInitialized" := by simpa using hn
      rcases hcases with rfl | rfl <;> exact spelled_eq_iff h (by decide) (by decide)
    · obtain ⟨f, hf, rfl⟩ := List.mem_map.mp hn
      exact hfield f hf (by simp [hkind])

end

section
variable (hmembers : t.memberNames.Nodup)
include hmembers

theorem functionNames_nodup : (t.functions.map (·.name)).Nodup := by
  unfold TypeRecord.memberNames at hmembers
  exact (List.nodup_append.mp (List.nodup_append.mp hmembers).1).2.1

theorem shownNames_nodup : (shownNames c t).Nodup := by
  have hfunctions : ((shownFunctions c t).map (·.name)).Sublist (t.functions.map (·.name)) :=
    (List.filter_sublist.trans List.filter_sublist).map _
  unfold TypeRecord.memberNames at hmembers
  unfold shownNames
  cases t.kind with
  | enumKind => exact (List.nodup_append.mp hmembers).2.1
  | structKind => exact ((List.nodup_append.mp hmembers).1).sublist ((List.Sublist.refl _).append hfunctions)
  | classKind => exact ((List.nodup_append.mp hmembers).1).sublist ((List.filter_sublist.map _).append hfunctions)

theorem helperNames_nodup : (helperNames c t).Nodup := by
  have hbound : ((boundFunctions c t).map (·.name)).Nodup :=
    (functionNames_nodup hmembers).sublist
      (((List.filter_sublist (p := fun f : FunctionRecord => !f.isEvent)).trans
        (List.filter_sublist.trans List.filter_sublist)).map _)
  have hfields : ((boundFunctions c t).map invocableField).Nodup :=
    List.pairwise_map.mpr ((List.pairwise_map.mp hbound).imp fun hne heq => hne (invocableField_inj heq))
  unfold helperNames
  cases t.kind with
  | enumKind => exact List.nodup_nil
  | structKind => exact hfields
  | classKind =>
    refine List.nodup_append'.mpr ⟨by decide, hfields, fun n hn hfield => ?_⟩
    obtain ⟨f, -, rfl⟩ := List.mem_map.mp hfield
    have hplain : ∀ n ∈ ["NativeType", "OnBindingInitialized"], '_' ∉ n.toList := by decide
    exact hplain _ hn (mem_invocableField f)

/-- The scope of a type has no name twice, and not the type's own, exactly if the document keeps clear of the helpers. -/
theorem declaredNames_clear (hnames : NamesSpelled c t)
    (hspelled : t.kind ≠ .enumKind → ∀ s ∈ services c fast t, Spelled s) :
    ((declaredNames c fast t).Nodup ∧ spelled t.name ∉ declaredNames c fast t) ↔ Clear c t := by
  have hperm := declaredNames_perm hspelled
  have hidentifiers := shownNames_identifiers hspelled hnames
  have hhelper : ∀ {n name}, n ∈ helperNames c t → isIdentifier name = true → (spelled name = n ↔ name = n) :=
    fun hn h => spelled_helper hspelled hn h
  have hdisjoint : List.Disjoint (helperNames c t) ((shownNames c t).map spelled) ↔
      ∀ n ∈ shownNames c t, n ∉ helperNames c t := by
    constructor
    · intro h n hn hn'
      refine h hn' (List.mem_map.mpr ⟨n, hn, ?_⟩)
      exact (hhelper hn' (hidentifiers n hn)).mpr rfl
    · intro h n hn hshown
      obtain ⟨name, hname, rfl⟩ := List.mem_map.mp hshown
      have heq := (hhelper hn (hidentifiers name hname)).mp rfl
      rw [← heq] at hn
      exact h name hname hn
  -- The own name is compared as it is spelled, but names that are spelled alike are the same.
  have hown : spelled t.name ∉ helperNames c t ++ (shownNames c t).map spelled ↔
      t.name ∉ shownNames c t ∧ t.name ∉ helperNames c t := by
    rw [List.mem_append, not_or, and_comm]
    refine and_congr (not_congr ?_) (not_congr ?_)
    · rw [List.mem_map]
      constructor
      · rintro ⟨n, hn, heq⟩
        rwa [← spelled_inj (hidentifiers n hn) hnames.type heq]
      · exact fun h => ⟨t.name, h, rfl⟩
    · constructor
      · intro h
        rwa [← (hhelper h hnames.type).mp rfl] at h
      · intro h
        rwa [(hhelper h hnames.type).mpr rfl]
  rw [hperm.nodup_iff, hperm.mem_iff, List.nodup_append', nodup_map_spelled hidentifiers, hdisjoint, hown]
  constructor
  · rintro ⟨⟨-, -, hhelpers⟩, hown⟩
    exact ⟨hhelpers, hown⟩
  · rintro ⟨hhelpers, hown⟩
    exact ⟨⟨helperNames_nodup hmembers, shownNames_nodup hmembers, hhelpers⟩, hown⟩

end

/-! ### The scopes of a wrapper -/

/-- A method or event that a wrapper declares: it is that of a function, with its parameters, and with the statements of
how it is served; and its scope has no name twice exactly if its parameters stay clear. -/
structure ScopeOfMember (all : List (Candidate × Service)) (m : FunctionMember) (signature : String) (body : List Code) :
    Prop where
  served : ∃ s ∈ all, m.1 = s.1.function ∧ signature = signatureSpelled s.1.function ∧
    body = (statementsOf s).map Statement.code ∧ ((methodScope s).Nodup ↔ ParamsClear s)

/-- The scopes of the wrapper of a type. -/
structure Scopes (c : BindingContext) (fast : List FunctionId) (t : TypeRecord) : Prop where
  type : ((declaredNames c fast t).Nodup ∧ spelled t.name ∉ declaredNames c fast t) ↔ Clear c t
  methods : t.kind ≠ .enumKind → ∀ m ∈ members (services c fast t), ∀ signature body,
    m.2 = .method signature body → ScopeOfMember (services c fast t) m signature body
  events : t.kind ≠ .enumKind → ∀ m ∈ members (services c fast t), ∀ signature,
    m.2 = .event signature → ScopeOfMember (services c fast t) m signature []

theorem scopeOfMember_method {all : List (Candidate × Service)} {m : FunctionMember} (hm : m ∈ members all)
    {signature : String} (h : m.2 = .method signature body) : ScopeOfMember all m signature body := by
  obtain ⟨s, hs, hmember⟩ := exists_memberOf hm
  cases hmember with
  | event | field => cases h
  | method hbound htext hbody =>
    cases h
    obtain ⟨-, hparams, rfl⟩ := signature_eq_ok htext
    exact ⟨s, hs, rfl, rfl, methodBody_statements hbound hbody, methodScope_nodup hparams⟩

theorem scopeOfMember_event {all : List (Candidate × Service)} {m : FunctionMember} (hm : m ∈ members all)
    {signature : String} (h : m.2 = .event signature) : ScopeOfMember all m signature [] := by
  obtain ⟨s, hs, hmember⟩ := exists_memberOf hm
  cases hmember with
  | field | method => cases h
  | event hservice htext =>
    cases h
    obtain ⟨-, hparams, rfl⟩ := signature_eq_ok htext
    refine ⟨s, hs, rfl, rfl, ?_, methodScope_nodup hparams⟩
    unfold statementsOf
    rw [hservice]
    rfl

theorem scopes {a : Artifact} (hmembers : t.memberNames.Nodup) (h : Declares c fast t a) : Scopes c fast t where
  type := declaredNames_clear hmembers h.names h.functions
  methods _ _ hm _ _ heq := scopeOfMember_method hm heq
  events _ _ hm _ heq := scopeOfMember_event hm heq

end Wrapper

/-! ### Trampolines -/

namespace Trampoline
variable {d : Document} {x : Candidate} {layout : FrameLayout}

/-- Takes the receiver from the front of the frame, and ends if it is missing. -/
def receiverStatements (layout : FrameLayout) : List Statement :=
  match layout.receiver, layout.slots with
  | true, slot :: _ =>
    [.declare slot.repr.nativeType "Self" (readSlot slot.repr.nativeType 0),
      .guard "Self == nullptr" "SHARPBIND_FI_NULL_SELF"]
  | _, _ => []

/-- The argument as a variable. -/
def argumentStatement (slot : FrameSlot) : Statement :=
  if slot.direction.takesIn then
    .declare slot.repr.nativeType (argument slot) (readSlot slot.repr.nativeType slot.offset)
  else .declareEmpty slot.repr.nativeType (argument slot)

/-- The argument put back into the frame. -/
def putBackStatement (slot : FrameSlot) : Statement :=
  .assign ("*reinterpret_cast<" ++ slot.repr.nativeType ++ "*>(Args + " ++ toString slot.offset ++ ")") (argument slot)

/-- The call of the engine's function. -/
def callStatement (x : Candidate) (layout : FrameLayout) : Statement :=
  let target :=
    if x.function.isStatic then x.owner.nativeName ++ "::" ++ x.function.name else "Self->" ++ x.function.name
  let call := target ++ "(" ++ String.intercalate ", " (layout.params.map argument) ++ ")"
  match layout.ret with
  | some ret => .declare ret.nativeType "Result" call
  | none => .run call

/-- The statements of a trampoline. -/
def bodyStatements (x : Candidate) (layout : FrameLayout) : List Statement :=
  [.guard ("ArgCount != " ++ toString layout.argCount) "SHARPBIND_FI_BAD_ARG_COUNT"]
    ++ (if layout.argCount = 0 then [.run "(void)Args"] else [])
    ++ (if layout.ret.isNone then [.run "(void)Ret"] else [])
    ++ receiverStatements layout ++ layout.params.map argumentStatement ++ [callStatement x layout]
    ++ (layout.params.filter fun s => s.direction.writesBack).map putBackStatement
    ++ (match layout.ret with
        | some ret => [.assign ("*reinterpret_cast<" ++ ret.nativeType ++ "*>(Ret)") "Result"]
        | none => [])
    ++ [.give "SHARPBIND_FI_OK"]

theorem closed_place (s : String) : s ++ ") = " = s ++ ")" ++ " = " := by
  rw [String.append_assoc]
  rfl

theorem argumentStatement_code (slot : FrameSlot) : declareArgument slot = (argumentStatement slot).code := by
  unfold declareArgument argumentStatement
  split <;> rfl

theorem putBackStatement_code (slot : FrameSlot) : writeBack slot = (putBackStatement slot).code := by
  unfold writeBack putBackStatement
  simp only [Statement.code, closed_place]

theorem callStatement_code : callCode x layout = (callStatement x layout).code := by
  have hname : " Result = " = " " ++ "Result" ++ " = " := rfl
  unfold callCode callStatement
  cases layout.ret with
  | none => rfl
  | some ret => simp only [Statement.code, hname, String.append_assoc]

theorem receiverStatements_code : receiverCode layout = (receiverStatements layout).map Statement.code := by
  have hname : " Self = " = " " ++ "Self" ++ " = " := rfl
  unfold receiverCode receiverStatements
  cases layout.receiver with
  | false => rfl
  | true =>
    cases layout.slots with
    | nil => rfl
    | cons slot slots =>
      simp only [List.map_cons, List.map_nil, Statement.code, hname, String.append_assoc]
      rfl

theorem count_code {n : Nat} : Code.block ("if (ArgCount != " ++ toString n ++ ")") [.line "return SHARPBIND_FI_BAD_ARG_COUNT;"] =
    (Statement.guard ("ArgCount != " ++ toString n) "SHARPBIND_FI_BAD_ARG_COUNT").code := by
  simp only [Statement.code, ← String.append_assoc, String.reduceAppend]

theorem result_code {ret : NativeRepr} : Code.line ("*reinterpret_cast<" ++ ret.nativeType ++ "*>(Ret) = Result;") =
    (Statement.assign ("*reinterpret_cast<" ++ ret.nativeType ++ "*>(Ret)") "Result").code := by
  have hend : "*>(Ret) = Result;" = "*>(Ret)" ++ " = " ++ "Result" ++ ";" := rfl
  simp only [Statement.code, hend, String.append_assoc]

/-- The body of a trampoline consists of its statements. -/
theorem bodyCode_statements : bodyCode x layout = (bodyStatements x layout).map Statement.code := by
  unfold bodyCode bodyStatements
  rw [count_code, receiverStatements_code, callStatement_code]
  simp only [List.map_append, List.map_map, List.map_cons, List.map_nil]
  have hdeclared : layout.params.map declareArgument = layout.params.map (Statement.code ∘ argumentStatement) :=
    List.map_congr_left fun s _ => argumentStatement_code s
  have hback : (layout.params.filter fun s => s.direction.writesBack).map writeBack =
      (layout.params.filter fun s => s.direction.writesBack).map (Statement.code ∘ putBackStatement) :=
    List.map_congr_left fun s _ => putBackStatement_code s
  have hargs : (if layout.argCount = 0 then [Code.line "(void)Args;"] else []) =
      (if layout.argCount = 0 then [Statement.run "(void)Args"] else []).map Statement.code := by
    split <;> rfl
  have hret : (if layout.ret.isNone then [Code.line "(void)Ret;"] else []) =
      (if layout.ret.isNone then [Statement.run "(void)Ret"] else []).map Statement.code := by
    split <;> rfl
  rw [hdeclared, hback, hargs, hret]
  cases layout.ret with
  | none => rfl
  | some ret =>
    dsimp only
    rw [result_code]
    rfl

/-- The names of a trampoline's scope: its parameters and its variables. -/
def scopeOf (x : Candidate) (layout : FrameLayout) : List String :=
  ["Args", "ArgCount", "Ret"] ++ localsOf (bodyStatements x layout)

/-- The names in the scope of a trampoline that no parameter gives. -/
def ownNames (layout : FrameLayout) : List String :=
  ["Args", "ArgCount", "Ret"] ++ localsOf (receiverStatements layout) ++ if layout.ret.isSome then ["Result"] else []

theorem scopeOf_perm : (scopeOf x layout).Perm (ownNames layout ++ layout.params.map argument) := by
  have harguments : localsOf (layout.params.map argumentStatement) = layout.params.map argument := by
    unfold localsOf
    rw [List.filterMap_map, ← List.filterMap_eq_map]
    refine List.filterMap_congr fun s _ => ?_
    unfold Function.comp argumentStatement
    split <;> rfl
  have hcall : localsOf [callStatement x layout] = if layout.ret.isSome then ["Result"] else [] := by
    unfold callStatement
    cases layout.ret <;> rfl
  have hnone : ∀ (b : Prop) [Decidable b] (text : String), localsOf (if b then [Statement.run text] else []) = [] := by
    intro b _ text
    split <;> rfl
  have hresult : localsOf (match layout.ret with
      | some ret => [Statement.assign ("*reinterpret_cast<" ++ ret.nativeType ++ "*>(Ret)") "Result"]
      | none => []) = [] := by
    cases layout.ret <;> rfl
  have hguard : localsOf [.guard ("ArgCount != " ++ toString layout.argCount) "SHARPBIND_FI_BAD_ARG_COUNT"] = [] := rfl
  have hend : localsOf [.give "SHARPBIND_FI_OK"] = [] := rfl
  unfold scopeOf bodyStatements ownNames
  simp only [localsOf_append, hguard, hnone, harguments, hcall, hresult, hend,
    localsOf_map_eq_nil (g := putBackStatement) fun _ => rfl, List.append_nil, List.nil_append]
  simp only [List.append_assoc]
  exact (List.perm_append_comm.append_left _).append_left _

theorem argument_marked (s : FrameSlot) : "Arg_".toList <+: (argument s).toList := by
  unfold argument
  rw [String.toList_append]
  exact List.prefix_append _ _

/-- The scope of a trampoline has no name twice exactly if the parameters of its function have names of their own. -/
theorem scopeOf_nodup (h : FrameLayout.ofFunction d x.owner x.function = .ok layout) :
    (scopeOf x layout).Nodup ↔ (x.function.params.map (·.name)).Nodup := by
  have hparams : layout.params.map argument = (x.function.params.map (·.name)).map ("Arg_" ++ ·) := by
    have hall := (FrameLayout.isCFrame_ofFunction h).params
    generalize x.function.params = ps at hall
    generalize layout.params = slots at hall
    induction hall with
    | nil => rfl
    | cons hp _ ih =>
      rw [List.map_cons, List.map_cons, List.map_cons, ih, argument, hp.1]
  -- The names that are not those of arguments begin differently.
  have hown : (ownNames layout).Nodup ∧ ∀ n ∈ ownNames layout, ¬ "Arg_".toList <+: n.toList := by
    have hreceiver : localsOf (receiverStatements layout) = [] ∨ localsOf (receiverStatements layout) = ["Self"] := by
      unfold receiverStatements
      split
      · exact .inr rfl
      · exact .inl rfl
    unfold ownNames
    rcases hreceiver with hreceiver | hreceiver <;> rw [hreceiver] <;>
      cases layout.ret.isSome <;> decide
  rw [scopeOf_perm.nodup_iff, List.nodup_append', hparams]
  constructor
  · rintro ⟨-, hnodup, -⟩
    exact hnodup.of_map _
  · intro hnodup
    refine ⟨hown.1, hnodup.map fun a b heq => (String.append_right_inj "Arg_").mp heq, fun n hn hargument => ?_⟩
    rw [← hparams] at hargument
    obtain ⟨s, -, rfl⟩ := List.mem_map.mp hargument
    exact hown.2 _ hn (argument_marked s)

/-- A trampoline that is written: its statements, and its scope. -/
structure ScopeOfFunction (y : Lowered) : Prop where
  code : functionCode y.candidate y.entry = [.line ("// " ++ y.candidate.id.display),
    .block (definitionHead y.entry) ((bodyStatements y.candidate y.entry.layout).map Statement.code)]
  scope : (scopeOf y.candidate y.entry.layout).Nodup ↔ (y.candidate.function.params.map (·.name)).Nodup

theorem scopeOfFunction {c : BindingContext} {y : Lowered} (h : IsEntry c y.candidate y.entry) : ScopeOfFunction y where
  code := by
    unfold functionCode definitionHead
    rw [bodyCode_statements]
  scope := scopeOf_nodup h.lowers.layout_eq

end Trampoline

/-- In the wrappers of a document that passes the check, the scope of a type has no name twice exactly if what is shown
stays clear of the helpers and of the type's own name, and the scope of a method exactly if its parameters stay clear of
each other and of the variables of its body. In a trampoline only two parameters of one name can meet. -/
theorem scopes_distinct_iff (c : BindingContext) (fast : List FunctionId) (hd : c.document.validate = .ok ())
    (hfast : c.fastFunctions = .ok fast) :
    (∃ output, Wrapper.generate c = .ok output ∧ ∀ a ∈ output.artifacts, ∃ t ∈ c.document.types,
      Wrapper.Declares c fast t a ∧ Wrapper.Scopes c fast t) ∧
      ∃ files, (Trampoline.generate c).artifacts = files ++ [Trampoline.header] ∧ ∀ a ∈ files,
        ∃ t ∈ c.document.types, ∃ functions, a = Trampoline.typeFile t functions ∧
          ∀ y ∈ functions, Trampoline.ScopeOfFunction y := by
  replace hd := Document.validate_eq_ok.mp hd
  obtain ⟨output, houtput, hcollects⟩ := Wrapper.generate_collects hfast
  refine ⟨⟨output, houtput, fun a ha => ?_⟩, ?_⟩
  · obtain ⟨t, ht, hdeclares⟩ := hcollects.declares ha
    exact ⟨t, ht, hdeclares, Wrapper.scopes (hd.accepts t ht).members hdeclares⟩
  · obtain ⟨files, hfiles, hall⟩ := (Trampoline.exact_generate hd).files
    refine ⟨files, hfiles, fun a ha => ?_⟩
    obtain ⟨t, ht, hfile⟩ := Paired.exists_left hall ha
    obtain ⟨functions, rfl, hentries⟩ := hfile.consists
    refine ⟨t, (Trampoline.mem_typesOf.mp ht).1, functions, rfl, fun y hy => ?_⟩
    obtain ⟨x, -, hcandidate, hentry⟩ := Paired.exists_left hentries hy
    rw [← hcandidate] at hentry
    exact Trampoline.scopeOfFunction hentry

namespace FrameDocument

/-- A function with a parameter of the name that the generator gives to the frame. -/
def jump : FunctionRecord where
  name := "Jump"
  params := [⟨"frame", .integer .int32, .inward⟩]
  returnType := none
  flags := FunctionFlags.nativeCallable.union FunctionFlags.fastInvokeEligible

def actor : TypeRecord := { TypeRecord.bare "Actor" "Engine" .classKind with functions := [jump] }

def document : Document := ⟨"5.4", DocumentAttributes.allowFastInvoke, [actor]⟩

def fast : List FunctionId := [⟨"Actor", "Jump"⟩]

/-- The context of a run whose trampolines are made. -/
def context : BindingContext := { BindingContext.create document ⟨"/project"⟩ .native with fast := some fast }

/-- The head of the method, and its first statement. -/
def clash : List String :=
  ["        public void Jump(int frame)", "        \x7b", "            using var frame = new InteropFrame(16, 0);"]

theorem valid : document.validate = .ok () := rfl

theorem rendered : ∃ a code, Wrapper.renderType context fast actor = ([], .ok a) ∧ a.contents = Code.render code ∧
    clash <:+: Code.writtenAll 0 code :=
  ⟨_, _, rfl, rfl, by decide +kernel⟩

theorem clear : Wrapper.Clear context actor := ⟨by decide +kernel, by decide +kernel⟩

end FrameDocument

open FrameDocument in
/-- The parameter and the frame meet in one method. -/
theorem scopes_distinct_iff_frame : document.validate = .ok () ∧ context.fastFunctions = .ok fast ∧
    (∃ output, Wrapper.generate context = .ok output ∧ ∀ a ∈ output.artifacts, ∃ t ∈ context.document.types,
      Wrapper.Declares context fast t a ∧ Wrapper.Scopes context fast t) ∧ Wrapper.Clear context actor :=
  ⟨valid, rfl, (scopes_distinct_iff context fast valid rfl).1, clear⟩

open FrameDocument in
/-- A wrapper of a document that passes the check may declare a name twice in the scope of a method. -/
theorem frame_parameter_declared_twice : document.validate = .ok () ∧ context.fastFunctions = .ok fast ∧
    (∃ output a code, Wrapper.generate context = .ok output ∧ output.artifacts = [a] ∧ a.contents = Code.render code ∧
      clash <:+: Code.writtenAll 0 code) ∧
      ∃ s ∈ Wrapper.services context fast actor, Wrapper.isBound s = true ∧ Wrapper.methodScope s = ["frame", "frame"] := by
  obtain ⟨output, houtput, hcollects⟩ := Wrapper.generate_collects (rfl : context.fastFunctions = .ok fast)
  obtain ⟨a, code, hrendered, hcontents, hclash⟩ := rendered
  have hartifacts : output.artifacts = [a] := by
    rw [hcollects.artifacts]
    show List.filterMap _ [actor] = [a]
    rw [List.filterMap_cons, hrendered]
    rfl
  exact ⟨valid, rfl, ⟨output, a, code, houtput, hartifacts, hcontents, hclash⟩, _, List.mem_cons_self, rfl, by decide +kernel⟩

end EngineBridge
