import EngineBridge.Proofs.Export.Scopes
import EngineBridge.Proofs.Model.Invariants
import EngineBridge.Proofs.Project.Stages

/-! Where wrappers mention the types of the document.

The text of a wrapper is cut into fragments, so that it can be told of every place where a type is mentioned how it is
spelled there. The super type of a class is spelled by the rule for declared names; a type within a property, a parameter
or a returned value is spelled by its bare name, which is the name of its declaration unless the name is a keyword. A file
has one directive for a module, that of the runtime. -/

namespace EngineBridge
open Outcome

/-! ### Fragments -/

/-- A piece of generated text. -/
inductive Fragment
  | plain (text : String)
  /-- A place where a type of the document is mentioned, and how it is spelled there. -/
  | mention (type spelling : String)

namespace Fragment

def text : Fragment → String
  | plain s | mention _ s => s

/-- The type that the fragment mentions, and how. -/
def mention? : Fragment → Option (String × String)
  | plain _ => none
  | mention type spelling => some (type, spelling)

end Fragment

/-- The text of some fragments. -/
def textOf : List Fragment → String
  | [] => ""
  | x :: xs => x.text ++ textOf xs

/-- The types that fragments mention, each with its spelling. -/
def mentionsOf (xs : List Fragment) : List (String × String) := xs.filterMap Fragment.mention?

/-- Items with commas between them. -/
def commaSeparated (items : List (List Fragment)) : List Fragment := List.intercalate [.plain ", "] items

section
variable {xs ys : List Fragment} {x : Fragment} {s type : String} {items : List (List Fragment)} {m : String × String}

@[simp] theorem textOf_nil : textOf [] = "" := rfl

@[simp] theorem textOf_cons : textOf (x :: xs) = x.text ++ textOf xs := rfl

@[simp] theorem textOf_append : textOf (xs ++ ys) = textOf xs ++ textOf ys := by
  induction xs with
  | nil => simp
  | cons x xs ih => simp [ih, String.append_assoc]

@[simp] theorem Fragment.text_plain : (Fragment.plain s).text = s := rfl

@[simp] theorem Fragment.text_mention : (Fragment.mention type s).text = s := rfl

@[simp] theorem mentionsOf_nil : mentionsOf [] = [] := rfl

@[simp] theorem mentionsOf_plain : mentionsOf (.plain s :: xs) = mentionsOf xs := rfl

@[simp] theorem mentionsOf_mention : mentionsOf (.mention type s :: xs) = (type, s) :: mentionsOf xs := rfl

@[simp] theorem mentionsOf_append : mentionsOf (xs ++ ys) = mentionsOf xs ++ mentionsOf ys := List.filterMap_append

theorem textOf_commaSeparated : textOf (commaSeparated items) = String.intercalate ", " (items.map textOf) := by
  unfold commaSeparated
  induction items with
  | nil => rfl
  | cons first items ih =>
    cases items with
    | nil => simp [List.intercalate]
    | cons second items =>
      rw [List.intercalate_cons_cons, textOf_append, textOf_append, ih]
      simp [String.intercalate_cons_cons, String.append_assoc]

theorem mem_mentionsOf_commaSeparated : m ∈ mentionsOf (commaSeparated items) ↔ ∃ xs ∈ items, m ∈ mentionsOf xs := by
  unfold commaSeparated
  induction items with
  | nil => simp
  | cons first items ih =>
    cases items with
    | nil => simp [List.intercalate]
    | cons second items =>
      rw [List.intercalate_cons_cons, mentionsOf_append, mentionsOf_append, List.mem_append, List.mem_append, ih,
        List.exists_mem_cons_iff]
      simp

end

/-! ### The names of types -/

/-- The name of a type in managed code. -/
def TypeRef.fragments : TypeRef → List Fragment
  | .object t => [.mention t t, .plain "?"]
  | .classOf t => [.plain "TSubclassOf<", .mention t t, .plain ">"]
  | .softObject t => [.plain "TSoftObjectPtr<", .mention t t, .plain ">"]
  | .struct t | .enum t => [.mention t t]
  | .array e => [.plain "IList<"] ++ e.fragments ++ [.plain ">"]
  | .set e => [.plain "ISet<"] ++ e.fragments ++ [.plain ">"]
  | .map k v => [.plain "IDictionary<"] ++ k.fragments ++ [.plain ", "] ++ v.fragments ++ [.plain ">"]
  | other => [.plain other.managedName]

@[simp] theorem textOf_fragments {type : TypeRef} : textOf type.fragments = type.managedName := by
  induction type with
  | object | classOf | softObject | struct | enum =>
    unfold TypeRef.fragments TypeRef.managedName
    simp [String.append_assoc]
  | array e ih | set e ih =>
    unfold TypeRef.fragments TypeRef.managedName
    simp [ih, String.append_assoc]
  | map k v ihk ihv =>
    unfold TypeRef.fragments TypeRef.managedName
    simp [ihk, ihv, String.append_assoc]
  | _ =>
    unfold TypeRef.fragments
    exact String.append_empty

theorem mentionsOf_fragments {type : TypeRef} :
    mentionsOf type.fragments = type.references.map fun r => (r.2, r.2) := by
  induction type with
  | array e ih | set e ih => simp [TypeRef.fragments, TypeRef.references, ih]
  | map k v ihk ihv => simp [TypeRef.fragments, TypeRef.references, ihk, ihv]
  | _ => simp [TypeRef.fragments, TypeRef.references]

/-- The name of a type mentions what the type refers to, at any depth and by its bare name. -/
theorem mem_mentionsOf_fragments {type : TypeRef} {m : String × String} :
    m ∈ mentionsOf type.fragments ↔ m.2 = m.1 ∧ ∃ kind, type.Mentions kind m.1 := by
  obtain ⟨name, spelling⟩ := m
  rw [mentionsOf_fragments, List.mem_map]
  constructor
  · rintro ⟨⟨kind, n⟩, hr, heq⟩
    cases heq
    exact ⟨rfl, kind, mentions_iff.mpr hr⟩
  · rintro ⟨heq, kind, h⟩
    dsimp only at heq h
    exact ⟨(kind, name), mentions_iff.mp h, by rw [heq]⟩

/-! ### Lines of code -/

/-- Code whose mentions are known. -/
inductive Marked
  /-- Code that mentions nothing. -/
  | own (code : Code)
  | line (xs : List Fragment)
  | block (head : List Fragment) (body : List (List Fragment))

namespace Marked

def code : Marked → Code
  | own code => code
  | line xs => .line (textOf xs)
  | block head body => .block (textOf head) (body.map fun xs => .line (textOf xs))

def mentions : Marked → List (String × String)
  | own _ => []
  | line xs => mentionsOf xs
  | block head body => mentionsOf head ++ body.flatMap mentionsOf

end Marked

/-- The lines of statements whose expressions are cut into fragments. -/
def declareLine (type name : String) (value : List Fragment) : List Fragment :=
  [.plain type, .plain " ", .plain name, .plain " = "] ++ value ++ [.plain ";"]

def assignLine (target : String) (value : List Fragment) : List Fragment :=
  [.plain target, .plain " = "] ++ value ++ [.plain ";"]

def runLine (expression : List Fragment) : List Fragment := expression ++ [.plain ";"]

def giveLine (value : List Fragment) : List Fragment := [.plain "return "] ++ value ++ [.plain ";"]

section
variable {type name target : String} {value : List Fragment}

theorem declareLine_code : Code.line (textOf (declareLine type name value)) =
    (Statement.declare type name (textOf value)).code := by
  simp [declareLine, Statement.code, String.append_assoc]

theorem assignLine_code : Code.line (textOf (assignLine target value)) = (Statement.assign target (textOf value)).code := by
  simp [assignLine, Statement.code, String.append_assoc]

theorem runLine_code : Code.line (textOf (runLine value)) = (Statement.run (textOf value)).code := by
  simp [runLine, Statement.code]

theorem giveLine_code : Code.line (textOf (giveLine value)) = (Statement.give (textOf value)).code := by
  simp [giveLine, Statement.code, String.append_assoc]

@[simp] theorem mentionsOf_declareLine : mentionsOf (declareLine type name value) = mentionsOf value := by
  simp [declareLine]

@[simp] theorem mentionsOf_assignLine : mentionsOf (assignLine target value) = mentionsOf value := by simp [assignLine]

@[simp] theorem mentionsOf_runLine : mentionsOf (runLine value) = mentionsOf value := by simp [runLine]

@[simp] theorem mentionsOf_giveLine : mentionsOf (giveLine value) = mentionsOf value := by simp [giveLine]

end

namespace Wrapper
variable {c : BindingContext} {fast : List FunctionId} {t : TypeRecord} {f : FunctionRecord} {layout : FrameLayout}
variable {s : Candidate × Service} {m : String × String} {type : TypeRef} {value source : String}

/-! ### Signatures -/

/-- A parameter as a signature spells it. -/
def paramFragments (p : ParamRecord) : List Fragment :=
  [.plain (directionMark p.direction)] ++ p.type.fragments ++ [.plain " ", .plain (spelled p.name)]

/-- The type of what a function gives back. -/
def returnFragments (f : FunctionRecord) : List Fragment :=
  match f.returnType with
  | some type => type.fragments
  | none => [.plain "void"]

def signatureFragments (f : FunctionRecord) : List Fragment :=
  returnFragments f ++ [.plain " ", .plain (spelled f.name), .plain "("]
    ++ commaSeparated (f.params.map paramFragments) ++ [.plain ")"]

@[simp] theorem textOf_signatureFragments : textOf (signatureFragments f) = signatureSpelled f := by
  have hreturn : textOf (returnFragments f) = returnTypeText f := by
    unfold returnFragments returnTypeText
    cases f.returnType <;> simp
  have hparams : (f.params.map paramFragments).map textOf = f.params.map paramSpelled := by
    rw [List.map_map]
    exact List.map_congr_left fun p _ => by simp [paramFragments, paramSpelled, String.append_assoc]
  simp [signatureFragments, signatureSpelled, textOf_commaSeparated, hreturn, hparams, String.append_assoc]

/-- A signature mentions what the types of its function mention. -/
theorem mem_mentionsOf_signatureFragments :
    m ∈ mentionsOf (signatureFragments f) ↔ ∃ type ∈ f.types, m ∈ mentionsOf type.fragments := by
  have hreturn : m ∈ mentionsOf (returnFragments f) ↔ ∃ type ∈ f.returnType.toList, m ∈ mentionsOf type.fragments := by
    unfold returnFragments
    cases f.returnType <;> simp
  have hparams : m ∈ mentionsOf (commaSeparated (f.params.map paramFragments)) ↔
      ∃ type ∈ f.params.map (·.type), m ∈ mentionsOf type.fragments := by
    simp [mem_mentionsOf_commaSeparated, paramFragments]
  unfold signatureFragments FunctionRecord.types
  rw [mentionsOf_append, mentionsOf_append, mentionsOf_append, List.mem_append, List.mem_append, List.mem_append, hreturn,
    hparams]
  simp only [mentionsOf_plain, mentionsOf_nil, List.not_mem_nil, or_false, List.mem_append, or_and_right, exists_or]
  exact or_comm

/-! ### Bodies -/

/-- The call that puts an argument into the frame. -/
def putFragments (slot : FrameSlot) (type : TypeRef) (value : String) : List Fragment :=
  match type with
  | .object _ | .classOf _ => [.plain (putCall slot type value)]
  | other => [.plain "frame.Write<"] ++ other.fragments
      ++ [.plain ">(", .plain (toString slot.offset), .plain ", ", .plain value, .plain ")"]

/-- What takes a value of the type out of the frame. -/
def readerFragments (type : TypeRef) (source : String) : List Fragment :=
  match type with
  | .object t => [.plain "frame.", .plain source, .plain "Handle<", .mention t t, .plain ">"]
  | .classOf t => [.plain "frame.", .plain source, .plain "Class<", .mention t t, .plain ">"]
  | other => [.plain "frame.", .plain source, .plain "<"] ++ other.fragments ++ [.plain ">"]

/-- A value of an untyped list as the type. -/
def castFragments (type : TypeRef) (value : String) : List Fragment :=
  [.plain "("] ++ type.fragments ++ [.plain ")", .plain value]
    ++ (match type with
        | .object _ => []
        | _ => [.plain "!"])

/-- What a parameter puts into the list of arguments. -/
def argumentFragments (p : ParamRecord) : List Fragment :=
  if p.direction.takesIn then [.plain (spelled p.name)] else [.plain "default("] ++ p.type.fragments ++ [.plain ")"]

theorem textOf_putFragments {slot : FrameSlot} : textOf (putFragments slot type value) = putCall slot type value := by
  unfold putFragments putCall
  cases type <;> simp [String.append_assoc]

theorem textOf_readerFragments : textOf (readerFragments type source) = reader type source := by
  unfold readerFragments reader
  cases type <;> simp [String.append_assoc]

theorem textOf_castFragments : textOf (castFragments type value) = cast type value := by
  unfold castFragments cast
  cases type <;> simp [String.append_assoc]

theorem textOf_argumentFragments {p : ParamRecord} : textOf (argumentFragments p) = argumentSpelled p := by
  unfold argumentFragments argumentSpelled
  split <;> simp [String.append_assoc]

theorem mentionsOf_putFragments {slot : FrameSlot} (h : m ∈ mentionsOf (putFragments slot type value)) :
    m ∈ mentionsOf type.fragments := by
  unfold putFragments at h
  split at h
  · cases h
  · cases h
  · simpa using h

theorem mentionsOf_readerFragments : mentionsOf (readerFragments type source) = mentionsOf type.fragments := by
  unfold readerFragments
  split <;> simp [TypeRef.fragments]

theorem mentionsOf_castFragments : mentionsOf (castFragments type value) = mentionsOf type.fragments := by
  unfold castFragments
  split <;> simp

theorem mentionsOf_argumentFragments {p : ParamRecord} (h : m ∈ mentionsOf (argumentFragments p)) :
    m ∈ mentionsOf p.type.fragments := by
  unfold argumentFragments at h
  split at h
  · cases h
  · simpa using h

/-- Puts a parameter into the frame. -/
def putLine (p : PlacedParam) : List Fragment := runLine (putFragments p.2 p.1.type (spelled p.1.name))

/-- Takes a parameter out of the frame. -/
def takeLine (p : PlacedParam) : List Fragment :=
  assignLine (spelled p.1.name)
    (readerFragments p.1.type "Read" ++ [.plain "(", .plain (toString p.2.offset), .plain ")"])

/-- The lines of a method that calls its trampoline. -/
def directLines (f : FunctionRecord) (layout : FrameLayout) : List (List Fragment) :=
  [declareLine "using var" "frame"
      [.plain ("new InteropFrame(" ++ toString layout.size ++ ", " ++ toString layout.returnSize ++ ")")]]
    ++ (if layout.receiver then [runLine [.plain "frame.WriteHandle(0, this)"]] else [])
    ++ ((placedParams f layout).filter fun p => p.1.direction.takesIn).map putLine
    ++ [runLine [.plain (invocableField f), .plain ".Invoke(frame)"]]
    ++ ((placedParams f layout).filter fun p => p.1.direction.writesBack).map takeLine
    ++ (match f.returnType with
        | some t => [giveLine (readerFragments t "ReadReturn" ++ [.plain "()"])]
        | none => [])

/-- Takes a parameter out of the list of arguments. -/
def takeArgumentLine (p : ParamRecord × Nat) : List Fragment :=
  assignLine (spelled p.1.name) (castFragments p.1.type ("args[" ++ toString p.2 ++ "]"))

/-- The lines of a method that is looked up by its name. -/
def lookupLines (f : FunctionRecord) : List (List Fragment) :=
  [declareLine "object?[]" "args" ([.plain "\x7b "] ++ commaSeparated (f.params.map argumentFragments) ++ [.plain " \x7d"]),
    if f.returnType.isSome then declareLine "var" "result" [.plain (lookupCall f)] else runLine [.plain (lookupCall f)]]
    ++ (f.params.zipIdx.filter fun p => p.1.direction.writesBack).map takeArgumentLine
    ++ (match f.returnType with
        | some t => [giveLine (castFragments t "result")]
        | none => [])

/-- The lines of a function's method; only a bound function has some. -/
def bodyLines (s : Candidate × Service) : List (List Fragment) :=
  match s.2 with
  | .direct layout => directLines s.1.function layout
  | .byName _ => lookupLines s.1.function
  | _ => []

theorem directLines_code :
    (directLines f layout).map (fun xs => Code.line (textOf xs)) = (directStatements f layout).map Statement.code := by
  have hputs : ∀ p : PlacedParam, Code.line (textOf (putLine p)) = (putStatement p).code := fun p => by
    rw [putLine, runLine_code, textOf_putFragments, putStatement]
  have htakes : ∀ p : PlacedParam, Code.line (textOf (takeLine p)) = (takeStatement p).code := fun p => by
    rw [takeLine, assignLine_code, textOf_append, textOf_readerFragments, takeStatement]
    simp [String.append_assoc]
  unfold directLines directStatements
  simp only [List.map_append, List.map_map, Function.comp_def, List.map_cons, List.map_nil, hputs, htakes, declareLine_code,
    runLine_code]
  cases layout.receiver <;> cases f.returnType <;>
    simp [runLine_code, giveLine_code, textOf_readerFragments]

theorem lookupLines_code :
    (lookupLines f).map (fun xs => Code.line (textOf xs)) = (lookupStatements f).map Statement.code := by
  have harguments : (f.params.map argumentFragments).map textOf = f.params.map argumentSpelled := by
    rw [List.map_map]
    exact List.map_congr_left fun p _ => textOf_argumentFragments
  have htakes : ∀ p : ParamRecord × Nat, Code.line (textOf (takeArgumentLine p)) = (takeArgument p).code := fun p => by
    rw [takeArgumentLine, assignLine_code, textOf_castFragments, takeArgument]
  unfold lookupLines lookupStatements
  simp only [List.map_append, List.map_map, Function.comp_def, List.map_cons, List.map_nil, htakes, declareLine_code]
  cases f.returnType <;>
    simp [declareLine_code, runLine_code, giveLine_code, textOf_castFragments, textOf_commaSeparated, harguments, String.append_assoc]

theorem bodyLines_code :
    (bodyLines s).map (fun xs => Code.line (textOf xs)) = (statementsOf s).map Statement.code := by
  obtain ⟨x, service⟩ := s
  cases service with
  | direct layout => exact directLines_code
  | byName => exact lookupLines_code
  | event | unbound => rfl

theorem placedParams_mem {p : PlacedParam} (h : p ∈ placedParams f layout) : p.1.type ∈ f.types :=
  List.mem_append_left _ (List.mem_map_of_mem (List.of_mem_zip h).1)

/-- A body mentions nothing that the signature does not mention. -/
theorem mentionsOf_bodyLines {xs : List Fragment} (hxs : xs ∈ bodyLines s) (hm : m ∈ mentionsOf xs) :
    ∃ type ∈ s.1.function.types, m ∈ mentionsOf type.fragments := by
  have hreturn : ∀ type, s.1.function.returnType = some type → type ∈ s.1.function.types := fun type h =>
    List.mem_append_right _ (by simp [h])
  have hparam : ∀ p ∈ s.1.function.params, p.type ∈ s.1.function.types := fun p hp =>
    List.mem_append_left _ (List.mem_map_of_mem hp)
  obtain ⟨x, service⟩ := s
  cases service with
  | direct layout =>
    simp only [bodyLines, directLines, List.mem_append, List.mem_map, List.mem_filter, List.mem_singleton] at hxs
    -- In turn: the frame, the receiver, what goes in, the call, what comes out, and what is returned.
    rcases hxs with ((((rfl | hxs) | ⟨p, hp, rfl⟩) | rfl) | ⟨p, hp, rfl⟩) | hxs
    · simp at hm
    · split at hxs
      · rw [List.mem_singleton.mp hxs] at hm
        simp at hm
      · cases hxs
    · rw [putLine, mentionsOf_runLine] at hm
      exact ⟨_, placedParams_mem hp.1, mentionsOf_putFragments hm⟩
    · simp at hm
    · rw [takeLine, mentionsOf_assignLine, mentionsOf_append, mentionsOf_readerFragments] at hm
      exact ⟨_, placedParams_mem hp.1, by simpa using hm⟩
    · split at hxs
      · next type htype =>
        rw [List.mem_singleton.mp hxs, mentionsOf_giveLine, mentionsOf_append, mentionsOf_readerFragments] at hm
        exact ⟨type, hreturn type htype, by simpa using hm⟩
      · cases hxs
  | byName =>
    simp only [bodyLines, lookupLines, List.mem_append, List.mem_cons, List.mem_map, List.mem_filter, List.not_mem_nil,
      or_false] at hxs
    -- In turn: the list of arguments, the call, what comes out, and what is returned.
    rcases hxs with ((rfl | rfl) | ⟨⟨p, i⟩, hp, rfl⟩) | hxs
    · rw [mentionsOf_declareLine, mentionsOf_append, mentionsOf_append, List.mem_append, List.mem_append,
        mem_mentionsOf_commaSeparated] at hm
      rcases hm with (hm | ⟨xs, hxs, hm⟩) | hm
      · cases hm
      · obtain ⟨p, hp, rfl⟩ := List.mem_map.mp hxs
        exact ⟨_, hparam p hp, mentionsOf_argumentFragments hm⟩
      · cases hm
    · split at hm <;> simp at hm
    · rw [takeArgumentLine, mentionsOf_assignLine, mentionsOf_castFragments] at hm
      exact ⟨_, hparam p (List.fst_mem_of_mem_zipIdx hp.1), hm⟩
    · split at hxs
      · next type htype =>
        rw [List.mem_singleton.mp hxs, mentionsOf_giveLine, mentionsOf_castFragments] at hm
        exact ⟨type, hreturn type htype, hm⟩
      · cases hxs
  | event | unbound => cases hxs

/-! ### Members of functions -/

/-- The declaration of an event. -/
def eventMarked (s : Candidate × Service) : List Marked :=
  match s.2 with
  | .event => [.line ([.plain "public partial "] ++ signatureFragments s.1.function ++ [.plain ";"])]
  | _ => []

/-- The field of a bound function. -/
def fieldMarked (s : Candidate × Service) : List Marked :=
  (fieldMembers s).map fun m => .own (m.2.code m.1)

/-- The method of a bound function. -/
def methodMarked (s : Candidate × Service) : List Marked :=
  if isBound s then
    [.block ([.plain "public ", .plain (if s.1.function.isStatic then "static " else "")] ++ signatureFragments s.1.function)
      (bodyLines s)]
  else []

/-- The members of a list of services. -/
def markedMembers (all : List (Candidate × Service)) : List Marked :=
  all.flatMap eventMarked ++ all.flatMap fieldMarked ++ all.flatMap methodMarked

theorem eventMarked_code (hs : Spelled s) : memberCode (eventMembers s) = (eventMarked s).map Marked.code := by
  unfold eventMarked
  split
  · next hevent =>
    obtain ⟨text, htext⟩ := hs.1 hevent
    obtain ⟨-, -, rfl⟩ := signature_eq_ok htext
    rw [eventMembers_of_ok hevent htext]
    simp [memberCode, Member.code, Marked.code, String.append_assoc]
  · next hevent =>
    rw [eventMembers_of_ne hevent]
    rfl

theorem fieldMarked_code : memberCode (fieldMembers s) = (fieldMarked s).map Marked.code := by
  unfold memberCode fieldMarked
  rw [List.map_map]
  rfl

theorem methodMarked_code (hs : Spelled s) : memberCode (methodMembers s) = (methodMarked s).map Marked.code := by
  unfold methodMarked
  split
  · next hbound =>
    obtain ⟨text, body, htext, hbody⟩ := hs.2 hbound
    obtain ⟨-, -, rfl⟩ := signature_eq_ok htext
    rw [methodMembers_of_ok hbound htext hbody, methodBody_statements hbound hbody, ← bodyLines_code]
    simp [memberCode, Member.code, Marked.code, String.append_assoc]
  · next hbound =>
    rw [methodMembers_of_not_bound (Bool.eq_false_iff.mpr hbound)]
    rfl

theorem markedMembers_code {all : List (Candidate × Service)} (h : ∀ s ∈ all, Spelled s) :
    memberCode (members all) = (markedMembers all).map Marked.code := by
  have hflat : ∀ {g : Candidate × Service → List FunctionMember} {g' : Candidate × Service → List Marked},
      (∀ s ∈ all, memberCode (g s) = (g' s).map Marked.code) →
        memberCode (all.flatMap g) = (all.flatMap g').map Marked.code := by
    intro g g' hg
    unfold memberCode at hg ⊢
    rw [List.map_flatMap, List.map_flatMap]
    exact List.flatMap_congr hg
  unfold members markedMembers
  rw [memberCode_append, memberCode_append, List.map_append, List.map_append,
    hflat fun s hs => eventMarked_code (h s hs), hflat fun s _ => fieldMarked_code,
    hflat fun s hs => methodMarked_code (h s hs)]

theorem mem_mentions_eventMarked : m ∈ (eventMarked s).flatMap Marked.mentions ↔
    s.2 = .event ∧ m ∈ mentionsOf (signatureFragments s.1.function) := by
  unfold eventMarked
  split
  · next hevent => simp [Marked.mentions, hevent]
  · next hevent => simpa using fun h => absurd h hevent

theorem mentions_fieldMarked : (fieldMarked s).flatMap Marked.mentions = [] := by
  unfold fieldMarked
  rw [List.flatMap_map]
  simp [Marked.mentions]

theorem mem_mentions_methodMarked : m ∈ (methodMarked s).flatMap Marked.mentions ↔
    isBound s = true ∧ m ∈ mentionsOf (signatureFragments s.1.function) := by
  have hbody : m ∈ (bodyLines s).flatMap mentionsOf → m ∈ mentionsOf (signatureFragments s.1.function) := by
    intro h
    obtain ⟨xs, hxs, hm⟩ := List.mem_flatMap.mp h
    exact mem_mentionsOf_signatureFragments.mpr (mentionsOf_bodyLines hxs hm)
  unfold methodMarked
  cases isBound s with
  | false => simp
  | true =>
    have hmentions : m ∈ mentionsOf (signatureFragments s.1.function) ∨ m ∈ (bodyLines s).flatMap mentionsOf ↔
        m ∈ mentionsOf (signatureFragments s.1.function) := or_iff_left_of_imp hbody
    simpa only [↓reduceIte, List.flatMap_cons, List.flatMap_nil, List.append_nil, Marked.mentions, List.cons_append,
      List.nil_append, mentionsOf_plain, List.mem_append, true_and] using hmentions

theorem mem_mentions_markedMembers {all : List (Candidate × Service)} :
    m ∈ (markedMembers all).flatMap Marked.mentions ↔
      ∃ s ∈ all, (s.2 = .event ∨ isBound s = true) ∧ m ∈ mentionsOf (signatureFragments s.1.function) := by
  have hflat : ∀ {g : Candidate × Service → List Marked}, m ∈ (all.flatMap g).flatMap Marked.mentions ↔
      ∃ s ∈ all, m ∈ (g s).flatMap Marked.mentions := by
    intro g
    rw [List.flatMap_assoc, List.mem_flatMap]
  unfold markedMembers
  simp only [List.flatMap_append, List.mem_append, hflat, mem_mentions_eventMarked, mentions_fieldMarked,
    mem_mentions_methodMarked, List.not_mem_nil, and_false, exists_false, or_false, or_and_right, and_or_left, exists_or]

/-- A function is served with an event or a method exactly if it is shown. -/
theorem mem_shownFunctions : f ∈ shownFunctions c t ↔ f ∈ t.functions.filter c.schema.exposes ∧
    (serviceOf c.document fast ⟨t, f⟩ = .event ∨ isBound (⟨t, f⟩, serviceOf c.document fast ⟨t, f⟩) = true) := by
  unfold shownFunctions
  rw [List.mem_filter, serviceOf_eq_event, isBound_serviceOf]
  refine and_congr_right fun _ => ?_
  unfold isUnbound
  cases f.isEvent <;> simp

/-- The members of functions mention what the types of the functions mention that are shown. -/
theorem mem_mentions_functions : m ∈ (markedMembers (services c fast t)).flatMap Marked.mentions ↔
    ∃ type ∈ (shownFunctions c t).flatMap (·.types), m ∈ mentionsOf type.fragments := by
  rw [mem_mentions_markedMembers]
  constructor
  · rintro ⟨s, hs, hshown, hm⟩
    obtain ⟨f, hf, rfl⟩ := List.mem_map.mp hs
    obtain ⟨type, htype, hm⟩ := mem_mentionsOf_signatureFragments.mp hm
    exact ⟨type, List.mem_flatMap.mpr ⟨f, mem_shownFunctions.mpr ⟨hf, hshown⟩, htype⟩, hm⟩
  · rintro ⟨type, htype, hm⟩
    obtain ⟨f, hf, htype⟩ := List.mem_flatMap.mp htype
    obtain ⟨hf, hshown⟩ := mem_shownFunctions.mp hf
    exact ⟨_, List.mem_map_of_mem hf, hshown, mem_mentionsOf_signatureFragments.mpr ⟨type, htype, hm⟩⟩

/-! ### Types -/

/-- A declaration that is not that of a function's member. -/
def Declaration.marked : Declaration → Marked
  | property p =>
    let getter := [.plain "get => ReflectionAccess.Get<"] ++ p.type.fragments ++ [.plain ">(this, \"", .plain p.name, .plain "\");"]
    let setter := [.plain ("set => ReflectionAccess.Set(this, \"" ++ p.name ++ "\", value);")]
    .block ([.plain "public "] ++ p.type.fragments ++ [.plain " ", .plain (spelled p.name)])
      (if p.flags.contains PropertyFlags.readOnly then [getter] else [getter, setter])
  | structField p => .line ([.plain "public "] ++ p.type.fragments ++ [.plain " ", .plain (spelled p.name), .plain ";"])
  | d => .own d.code

/-- What the wrapper of a type declares within the type. -/
def markedDeclarations (c : BindingContext) (fast : List FunctionId) (t : TypeRecord) : List Marked :=
  match t.kind with
  | .enumKind => t.enumValues.map fun v => (Declaration.value v).marked
  | .structKind =>
    (t.properties.map fun p => (Declaration.structField p).marked) ++ markedMembers (services c fast t)
  | .classKind =>
    [(Declaration.nativeType t.nativeName).marked, (Declaration.constructor (spelled t.name)).marked, Declaration.hook.marked]
      ++ ((t.properties.filter c.schema.exposesProperty).map fun p => (Declaration.property p).marked)
      ++ markedMembers (services c fast t)

/-- The head of the declaration of a type. -/
def headFragments (t : TypeRecord) : List Fragment :=
  match t.kind with
  | .enumKind => [.plain "public enum ", .plain (spelled t.name), .plain " : "] ++ t.underlying.fragments
  | .structKind => [.plain "public partial struct ", .plain (spelled t.name)]
  | .classKind =>
    [.plain (if t.flags.contains TypeFlags.abstract then "public abstract partial class " else "public partial class "),
      .plain (spelled t.name), .plain " : "]
      ++ (match t.superType with
          | some parent => [.mention parent (spelled parent)]
          | none => [.plain rootClass])

/-- The types of the members that a wrapper shows. -/
def shownTypes (c : BindingContext) (t : TypeRecord) : List TypeRef :=
  match t.kind with
  | .enumKind => []
  | .structKind => t.properties.map (·.type) ++ (shownFunctions c t).flatMap (·.types)
  | .classKind =>
    (t.properties.filter c.schema.exposesProperty).map (·.type) ++ (shownFunctions c t).flatMap (·.types)

theorem textOf_headFragments : textOf (headFragments t) = headline t := by
  unfold headFragments headline
  cases t.kind with
  | enumKind | structKind => simp [String.append_assoc]
  | classKind => cases t.superType <;> simp [String.append_assoc]

theorem Declaration.marked_code (d : Declaration) : d.marked.code = d.code := by
  cases d with
  | property p =>
    unfold Declaration.marked Declaration.code
    by_cases hread : p.flags.contains PropertyFlags.readOnly = true <;> simp [hread, Marked.code, String.append_assoc]
  | structField p => simp [Declaration.marked, Declaration.code, Marked.code, String.append_assoc]
  | _ => rfl

theorem markedDeclarations_code (h : t.kind ≠ .enumKind → ∀ s ∈ services c fast t, Spelled s) :
    (declarations c fast t).map Declaration.code = (markedDeclarations c fast t).map Marked.code := by
  have hfunctions : t.kind ≠ .enumKind → ((members (services c fast t)).map Declaration.member).map Declaration.code =
      (markedMembers (services c fast t)).map Marked.code := by
    intro hkind
    rw [← markedMembers_code (h hkind), memberCode, List.map_map]
    rfl
  unfold declarations markedDeclarations
  cases hkind : t.kind with
  | enumKind =>
    simp only [List.map_map, Function.comp_def, Declaration.marked_code]
  | structKind =>
    rw [List.map_append, List.map_append, hfunctions (by simp [hkind])]
    simp only [List.map_map, Function.comp_def, Declaration.marked_code]
  | classKind =>
    rw [List.map_append, List.map_append, List.map_append, List.map_append, hfunctions (by simp [hkind])]
    simp only [List.map_map, Function.comp_def, Declaration.marked_code, List.map_cons, List.map_nil]

theorem mem_mentions_property {p : PropertyRecord} :
    m ∈ (Declaration.property p).marked.mentions ↔ m ∈ mentionsOf p.type.fragments := by
  unfold Declaration.marked
  by_cases hread : p.flags.contains PropertyFlags.readOnly = true <;> simp [hread, Marked.mentions]

theorem mem_mentions_structField {p : PropertyRecord} :
    m ∈ (Declaration.structField p).marked.mentions ↔ m ∈ mentionsOf p.type.fragments := by
  simp [Declaration.marked, Marked.mentions]

theorem mem_mentions_fields {ps : List PropertyRecord} {g : PropertyRecord → Marked}
    (hg : ∀ p, m ∈ (g p).mentions ↔ m ∈ mentionsOf p.type.fragments) :
    m ∈ (ps.map g).flatMap Marked.mentions ↔ ∃ type ∈ ps.map (·.type), m ∈ mentionsOf type.fragments := by
  simp [List.mem_flatMap, hg]

/-- Within a type its wrapper mentions what the types of the members mention that are shown. -/
theorem mem_mentions_declarations : m ∈ (markedDeclarations c fast t).flatMap Marked.mentions ↔
    ∃ type ∈ shownTypes c t, m ∈ mentionsOf type.fragments := by
  unfold markedDeclarations shownTypes
  cases t.kind with
  | enumKind => simp [Declaration.marked, Marked.mentions]
  | structKind =>
    simp only [List.flatMap_append, List.mem_append, mem_mentions_functions, or_and_right, exists_or,
      mem_mentions_fields fun _ => mem_mentions_structField]
  | classKind =>
    have hhelpers : m ∉ [(Declaration.nativeType t.nativeName).marked, (Declaration.constructor (spelled t.name)).marked,
        Declaration.hook.marked].flatMap Marked.mentions := by
      simp [Declaration.marked, Marked.mentions]
    simp only [List.flatMap_append, List.mem_append, mem_mentions_functions, or_and_right, exists_or, hhelpers, false_or,
      mem_mentions_fields fun _ => mem_mentions_property]

/-! ### Files -/

/-- What the wrapper of a type mentions at the head of its declaration. -/
def headMentions (t : TypeRecord) : List (String × String) := mentionsOf (headFragments t)

/-- What the wrapper of a type mentions within the declaration. -/
def innerMentions (c : BindingContext) (fast : List FunctionId) (t : TypeRecord) : List (String × String) :=
  (markedDeclarations c fast t).flatMap Marked.mentions

/-- A file is that of marked code, which mentions the super type as it is declared, and by their bare names the types
that are mentioned in the types of the members that are shown; and it mentions nothing else. -/
structure Mentions (c : BindingContext) (fast : List FunctionId) (t : TypeRecord) (a : Artifact) : Prop where
  contents : ∃ contents, withoutBlanks contents = (markedDeclarations c fast t).map Marked.code ∧
    a.contents = fileText ("namespace SharpBind." ++ spelled t.module) (marks t) (textOf (headFragments t)) contents
  head : ∀ name spelling, (name, spelling) ∈ headMentions t ↔ t.superType = some name ∧ spelling = spelled name
  inner : ∀ name spelling, (name, spelling) ∈ innerMentions c fast t ↔
    spelling = name ∧ ∃ type ∈ shownTypes c t, ∃ kind, type.Mentions kind name

theorem mentions {a : Artifact} (ht : c.document.Accepts t) (h : Declares c fast t a) : Mentions c fast t a where
  contents := by
    obtain ⟨contents, hcontents, htext⟩ := h.contents
    exact ⟨contents, hcontents.trans (markedDeclarations_code h.functions), textOf_headFragments ▸ htext⟩
  head name spelling := by
    unfold headMentions headFragments
    cases hkind : t.kind with
    | enumKind =>
      obtain ⟨i, hunderlying, -⟩ := ht.underlying hkind
      have hnone : ∀ parent, t.superType ≠ some parent := fun parent h => by
        have hclass := (ht.super parent h).1
        rw [hkind] at hclass
        cases hclass
      simp [hunderlying, TypeRef.fragments, hnone]
    | structKind =>
      have hnone : ∀ parent, t.superType ≠ some parent := fun parent h => by
        have hclass := (ht.super parent h).1
        rw [hkind] at hclass
        cases hclass
      simp [hnone]
    | classKind =>
      cases t.superType with
      | none => simp
      | some parent =>
        simp only [mentionsOf_append, mentionsOf_plain, mentionsOf_nil, mentionsOf_mention, List.nil_append,
          List.mem_singleton, Prod.mk.injEq, Option.some.injEq]
        constructor
        · rintro ⟨rfl, rfl⟩
          exact ⟨rfl, rfl⟩
        · rintro ⟨rfl, rfl⟩
          exact ⟨rfl, rfl⟩
  inner name spelling := by
    unfold innerMentions
    rw [mem_mentions_declarations]
    simp only [mem_mentionsOf_fragments]
    constructor
    · rintro ⟨type, htype, hname, hkind⟩
      exact ⟨hname, type, htype, hkind⟩
    · rintro ⟨hname, type, htype, hkind⟩
      exact ⟨type, htype, hname, hkind⟩

/-- The directive that opens a module to a file. -/
def usingDirective (module : String) : Code := .line ("using SharpBind." ++ spelled module ++ ";")

/-- A type is seen in the file of another: they are of one module, or the directive for the type's module stands in
front of the file's declarations. -/
def Visible (t u : TypeRecord) : Prop := u.module = t.module ∨ usingDirective u.module ∈ head

/-- Files have one directive for a module. -/
theorem usingDirective_mem_head {module : String} (h : isIdentifier module = true) :
    usingDirective module ∈ head ↔ module = "Runtime" := by
  have hmark : ∀ line : String, "using SharpBind." ++ spelled module ++ ";" = line →
      line.toList.take 16 = "using SharpBind.".toList := by
    rintro _ rfl
    rw [String.toList_append, String.toList_append, List.append_assoc]
    exact List.take_left' (by decide)
  rw [← spelled_eq_iff h (by decide) (by decide)]
  unfold usingDirective
  constructor
  · intro hmem
    simp only [head, Code.banner, List.map_cons, List.map_nil, List.cons_append, List.nil_append, List.mem_cons,
      Code.line.injEq, reduceCtorEq, List.not_mem_nil, or_false, false_or] at hmem
    rcases hmem with hline | hline | hline | hline | hline | hline | hline | hline
    on_goal 8 =>
      refine (String.append_right_inj "using SharpBind.").mp ((String.append_left_inj ";").mp ?_)
      exact hline
    all_goals exact absurd (hmark _ hline) (by decide)
  · intro heq
    rw [heq]
    simp [head, Code.banner]

/-- A type is visible within its own module, and from the module of the runtime. -/
theorem visible_iff {u : TypeRecord} (h : isIdentifier u.module = true) :
    Visible t u ↔ u.module = t.module ∨ u.module = "Runtime" := or_congr_right (usingDirective_mem_head h)

/-- A mention of a type of the document: the wrapper of the type is among the files; the mention is spelled as the type is
declared there, if it is that of a super type or if the name is no keyword, and not otherwise; and the type is visible
within its own module and from the runtime's, and nowhere else. -/
structure Denotes (c : BindingContext) (fast : List FunctionId) (files : List Artifact) (t u : TypeRecord)
    (m : String × String) : Prop where
  name : m.1 = u.name
  declared : ∃ b ∈ files, Declares c fast u b
  spelling : m.2 = spelled u.name ↔ m ∈ headMentions t ∨ u.name ∉ managedKeywords
  visible : Visible t u ↔ u.module = t.module ∨ u.module = "Runtime"

/-- Where nothing failed, every type has its wrapper. -/
theorem every_type_rendered {output : Output} (hfast : c.fastFunctions = .ok fast) (houtput : generate c = .ok output)
    (hclean : output.report.isSuccess = true) (ht : t ∈ c.document.types) :
    ∃ a ∈ output.artifacts, ∃ entries, renderType c fast t = (entries, .ok a) := by
  unfold generate at houtput
  rw [hfast] at houtput
  cases houtput
  rw [Report.isSuccess_iff] at hclean
  rcases hrender : renderType c fast t with ⟨entries, e | a⟩
  · have hfailed := hclean ⟨t.name, .failed e.message⟩ (List.mem_append_right _ (List.mem_flatMap.mpr
      ⟨outcomeOf c fast t, List.mem_map_of_mem ht, by simp [outcomeOf, hrender]⟩))
    cases hfailed
  · refine ⟨a, List.mem_filterMap.mpr ⟨outcomeOf c fast t, List.mem_map_of_mem ht, ?_⟩, entries, rfl⟩
    simp [outcomeOf, hrender]

theorem resolves_of_shown (ht : c.document.Accepts t) (h : type ∈ shownTypes c t) : c.document.Resolves type := by
  have hfunctions : type ∈ (shownFunctions c t).flatMap (·.types) → c.document.Resolves type := by
    intro h
    obtain ⟨f, hf, htype⟩ := List.mem_flatMap.mp h
    exact ht.function (List.mem_filter.mp (List.mem_filter.mp hf).1).1 htype
  unfold shownTypes at h
  split at h
  · cases h
  · rcases List.mem_append.mp h with h | h
    · obtain ⟨p, hp, rfl⟩ := List.mem_map.mp h
      exact ht.property hp
    · exact hfunctions h
  · rcases List.mem_append.mp h with h | h
    · obtain ⟨p, hp, rfl⟩ := List.mem_map.mp h
      exact ht.property (List.mem_filter.mp hp).1
    · exact hfunctions h

theorem spelled_eq_self {name : String} : spelled name = name ↔ name ∉ managedKeywords := by
  unfold spelled
  rw [← List.contains_iff_mem]
  cases managedKeywords.contains name with
  | true => simp
  | false => simp

end Wrapper

/-- Where no wrapper failed, every type that a wrapper mentions is a type of the document with a wrapper of its own. A super
type is spelled as that wrapper declares it; any other mention is so exactly if the name is no keyword. And what is
mentioned is visible exactly if it is of the same module, or of the runtime's. -/
theorem mentions_denote_iff (c : BindingContext) (fast : List FunctionId) (output : Wrapper.Output)
    (hd : c.document.validate = .ok ()) (hfast : c.fastFunctions = .ok fast) (houtput : Wrapper.generate c = .ok output)
    (hclean : output.report.isSuccess = true) :
    ∀ t ∈ c.document.types, ∃ a ∈ output.artifacts, Wrapper.Declares c fast t a ∧ Wrapper.Mentions c fast t a ∧
      ∀ m ∈ Wrapper.headMentions t ++ Wrapper.innerMentions c fast t, ∃ u ∈ c.document.types,
        Wrapper.Denotes c fast output.artifacts t u m := by
  replace hd := Document.validate_eq_ok.mp hd
  have hdeclares : ∀ t ∈ c.document.types, ∃ a ∈ output.artifacts, Wrapper.Declares c fast t a := by
    intro t ht
    obtain ⟨a, ha, entries, hrender⟩ := Wrapper.every_type_rendered hfast houtput hclean ht
    exact ⟨a, ha, Wrapper.renderType_declares hrender⟩
  intro t ht
  obtain ⟨a, ha, hdeclared⟩ := hdeclares t ht
  have hmentions := Wrapper.mentions (hd.accepts t ht) hdeclared
  refine ⟨a, ha, hdeclared, hmentions, fun m hm => ?_⟩
  have hnamed : ∃ kind, c.document.kind? m.1 = some kind := by
    rcases List.mem_append.mp hm with hm | hm
    · exact ⟨_, ((hd.accepts t ht).super _ ((hmentions.head _ _).mp hm).1).2⟩
    · obtain ⟨-, type, htype, kind, hkind⟩ := (hmentions.inner _ _).mp hm
      exact ⟨_, Wrapper.resolves_of_shown (hd.accepts t ht) htype _ (mentions_iff.mp hkind)⟩
  obtain ⟨kind, hkind⟩ := hnamed
  obtain ⟨u, hfound, -⟩ := Document.kind?_eq_some.mp hkind
  obtain ⟨hu, hname⟩ := Document.type?_mem hfound
  obtain ⟨b, hb, hown⟩ := hdeclares u hu
  refine ⟨u, hu, hname.symm, ⟨b, hb, hown⟩, ?_, Wrapper.visible_iff hown.names.module⟩
  rw [hname]
  rcases List.mem_append.mp hm with hhead | hinner
  · exact iff_of_true ((hmentions.head _ _).mp hhead).2 (.inl hhead)
  · have hraw := ((hmentions.inner _ _).mp hinner).1
    rw [hraw, eq_comm, Wrapper.spelled_eq_self]
    constructor
    · exact .inr
    · rintro (hhead | hfree)
      · exact Wrapper.spelled_eq_self.mp (hraw ▸ ((hmentions.head _ _).mp hhead).2.symm)
      · exact hfree

namespace EventDocument

/-- A class whose name is a keyword. -/
def event : TypeRecord := TypeRecord.bare "event" "Engine" .classKind

def actor : TypeRecord :=
  { TypeRecord.bare "Actor" "Engine" .classKind with properties := [⟨"Next", .object "event", .empty⟩] }

/-- A class of another module. -/
def pawn : TypeRecord := { TypeRecord.bare "Pawn" "Game" .classKind with superType := some "Actor" }

def document : Document := ⟨"5.4", .empty, [event, actor, pawn]⟩

def context : BindingContext := BindingContext.create document ⟨"/project"⟩ .native

theorem valid : document.validate = .ok () := rfl

theorem generated : ∃ output, Wrapper.generate context = .ok output ∧ output.report.isSuccess = true :=
  ⟨_, rfl, rfl⟩

end EventDocument

open EventDocument in
/-- A property mentions the class whose name is a keyword, and a class the super type of another module. -/
theorem mentions_denote_iff_event : document.validate = .ok () ∧ context.fastFunctions = .ok [] ∧
    ∃ output, Wrapper.generate context = .ok output ∧ output.report.isSuccess = true ∧
      (∃ u ∈ context.document.types, Wrapper.Denotes context [] output.artifacts actor u ("event", "event")) ∧
      ∃ u ∈ context.document.types, Wrapper.Denotes context [] output.artifacts pawn u ("Actor", "Actor") := by
  obtain ⟨output, houtput, hclean⟩ := generated
  have hall := mentions_denote_iff context [] output valid rfl houtput hclean
  obtain ⟨a, -, -, hactor, hinner⟩ := hall actor (by decide)
  obtain ⟨b, -, -, hpawn, hsuper⟩ := hall pawn (by decide)
  refine ⟨valid, rfl, output, houtput, hclean, hinner _ ?_, hsuper _ ?_⟩
  · exact List.mem_append_right _
      ((hactor.inner _ _).mpr ⟨rfl, .object "event", List.mem_cons_self, _, .object⟩)
  · exact List.mem_append_left _ ((hpawn.head _ _).mpr ⟨rfl, rfl⟩)

open EventDocument in
/-- Without a failure, a wrapper may mention a type by another name than the one it is declared by, and a type of a module
that its file does not open. -/
theorem keyword_mentioned_bare : document.validate = .ok () ∧ context.fastFunctions = .ok [] ∧
    ∃ output own mention derived, Wrapper.generate context = .ok output ∧ output.report.isSuccess = true ∧
      output.artifacts.map (·.contents) = [Code.render own, Code.render mention, Code.render derived] ∧
      "    public partial class @event : NativeObject" ∈ Code.writtenAll 0 own ∧
      "        public event? Next" ∈ Code.writtenAll 0 mention ∧
      "    public partial class Pawn : Actor" ∈ Code.writtenAll 0 derived ∧
      "namespace SharpBind.Game" ∈ Code.writtenAll 0 derived ∧
      "using SharpBind.Engine;" ∉ Code.writtenAll 0 derived :=
  ⟨valid, rfl, _, _, _, _, rfl, rfl, rfl, by decide +kernel, by decide +kernel, by decide +kernel, by decide +kernel,
    by decide +kernel⟩

end EngineBridge
