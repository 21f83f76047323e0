import EngineBridge.Export.Write
import EngineBridge.Proofs.Lists
import EngineBridge.Proofs.Outcome

/-! The members that a wrapper declares for functions.

The code of a type's functions is a list of members, each of one function, with blank lines between them. For
every function that is exposed the list holds the members that its service asks for, once each, and for no other
function any. -/

namespace EngineBridge

/-- An empty line. -/
def Code.isBlank : Code → Bool
  | .blank => true
  | _ => false

namespace Wrapper
open Outcome

/-- How a field reaches the function behind it: by the symbol of its trampoline, with the sizes of the frame and
of what is returned; or by its names. -/
inductive Binding
  | direct (symbol : String) (frameSize returnSize : Nat)
  | lookup (type function : String)

/-- What a wrapper declares for a function. -/
inductive Member
  | event (signature : String)
  | field (binding : Binding)
  | method (signature : String) (body : List Code)

/-- The value of a field. -/
def Binding.text : Binding → String
  | direct symbol frameSize returnSize =>
    "Invocable.Direct(\"" ++ symbol ++ "\", " ++ toString frameSize ++ ", " ++ toString returnSize ++ ");"
  | lookup type function => "Invocable.Lookup(\"" ++ type ++ "\", \"" ++ function ++ "\");"

/-- The code of a member of a function. -/
def Member.code (f : FunctionRecord) : Member → Code
  | event signature => .line ("public partial " ++ signature ++ ";")
  | field binding => .line ("static readonly Invocable " ++ invocableField f ++ " = " ++ binding.text)
  | method signature body => .block ("public " ++ (if f.isStatic then "static " else "") ++ signature) body

/-- A member and the function it is declared for. -/
abbrev FunctionMember := FunctionRecord × Member

/-- The code of members, without blank lines. -/
def memberCode (members : List FunctionMember) : List Code := members.map fun m => m.2.code m.1

/-- The members that are declared for a function. -/
def membersOf (members : List FunctionMember) (f : FunctionRecord) : List Member :=
  (members.filter (·.1 == f)).map (·.2)

/-! ### The members of a service -/

/-- The declaration of an event. -/
def eventMembers (s : Candidate × Service) : List FunctionMember :=
  match s.2, signature s.1.function with
  | .event, .ok signature => [(s.1.function, .event signature)]
  | _, _ => []

/-- What the field of a bound function reaches. -/
def binding? (s : Candidate × Service) : Option Binding :=
  match s.2 with
  | .direct layout => some (.direct (trampolineSymbol s.1.id) layout.size layout.returnSize)
  | .byName _ => some (.lookup s.1.owner.name s.1.function.name)
  | _ => none

/-- The field of a bound function. -/
def fieldMembers (s : Candidate × Service) : List FunctionMember :=
  (binding? s).toList.map fun binding => (s.1.function, .field binding)

/-- The body of the method of a bound function. -/
def methodBody (s : Candidate × Service) : Except ExportError (List Code) :=
  match s.2 with
  | .direct layout => directBody s.1.function layout
  | _ => lookupBody s.1.function

/-- The method of a bound function. -/
def methodMembers (s : Candidate × Service) : List FunctionMember :=
  match isBound s, signature s.1.function, methodBody s with
  | true, .ok signature, .ok body => [(s.1.function, .method signature body)]
  | _, _, _ => []

/-- The members of a list of services: the events, then the fields, then the methods. -/
def members (all : List (Candidate × Service)) : List FunctionMember :=
  all.flatMap eventMembers ++ all.flatMap fieldMembers ++ all.flatMap methodMembers

section
variable {s : Candidate × Service} {m : FunctionMember}

/-- A member that a service asks for. -/
inductive MemberOf (s : Candidate × Service) : FunctionMember → Prop
  | event {text : String} (h : s.2 = .event) (htext : signature s.1.function = .ok text) :
    MemberOf s (s.1.function, .event text)
  | field {binding : Binding} (h : binding? s = some binding) : MemberOf s (s.1.function, .field binding)
  | method {text : String} {body : List Code} (h : isBound s = true) (htext : signature s.1.function = .ok text)
    (hbody : methodBody s = .ok body) : MemberOf s (s.1.function, .method text body)

theorem MemberOf.label (h : MemberOf s m) : m.1 = s.1.function := by
  cases h <;> rfl

theorem memberOf_of_event (h : m ∈ eventMembers s) : MemberOf s m := by
  unfold eventMembers at h
  split at h
  · next hevent htext =>
    rw [List.mem_singleton.mp h]
    exact .event hevent htext
  · cases h

theorem memberOf_of_field (h : m ∈ fieldMembers s) : MemberOf s m := by
  obtain ⟨binding, hbinding, rfl⟩ := List.mem_map.mp h
  exact .field (Option.mem_toList.mp hbinding)

theorem memberOf_of_method (h : m ∈ methodMembers s) : MemberOf s m := by
  unfold methodMembers at h
  split at h
  · next hbound htext hbody =>
    rw [List.mem_singleton.mp h]
    exact .method hbound htext hbody
  · cases h

theorem exists_memberOf {all : List (Candidate × Service)} (h : m ∈ members all) : ∃ s ∈ all, MemberOf s m := by
  rcases List.mem_append.mp h with h | h
  · rcases List.mem_append.mp h with h | h
    · obtain ⟨s, hs, hm⟩ := List.mem_flatMap.mp h
      exact ⟨s, hs, memberOf_of_event hm⟩
    · obtain ⟨s, hs, hm⟩ := List.mem_flatMap.mp h
      exact ⟨s, hs, memberOf_of_field hm⟩
  · obtain ⟨s, hs, hm⟩ := List.mem_flatMap.mp h
    exact ⟨s, hs, memberOf_of_method hm⟩

theorem binding?_of_not_bound (h : isBound s = false) : binding? s = none := by
  obtain ⟨x, service⟩ := s
  cases service <;> first | rfl | cases h

theorem isBound_of_binding {binding : Binding} (h : binding? s = some binding) : isBound s = true := by
  by_contra hnot
  rw [binding?_of_not_bound (Bool.eq_false_iff.mpr hnot)] at h
  cases h

theorem fieldMembers_of_not_bound (h : isBound s = false) : fieldMembers s = [] := by
  unfold fieldMembers
  rw [binding?_of_not_bound h]
  rfl

theorem methodMembers_of_not_bound (h : isBound s = false) : methodMembers s = [] := by
  unfold methodMembers
  rw [h]

theorem methodMembers_of_ok {text : String} {body : List Code} (h : isBound s = true)
    (htext : signature s.1.function = .ok text) (hbody : methodBody s = .ok body) :
    methodMembers s = [(s.1.function, .method text body)] := by
  unfold methodMembers
  rw [h, htext, hbody]

end

/-- Where every function has one service, its members are those of its service. -/
theorem membersOf_members {all : List (Candidate × Service)} (hnodup : (all.map fun s => s.1.function).Nodup)
    {s : Candidate × Service} (hs : s ∈ all) :
    membersOf (members all) s.1.function = (eventMembers s ++ fieldMembers s ++ methodMembers s).map (·.2) := by
  unfold membersOf members
  rw [List.filter_append, List.filter_append,
    Labelled.filter_flatMap (fun s => s.1.function) hnodup (fun _ _ _ hm => (memberOf_of_event hm).label) hs,
    Labelled.filter_flatMap (fun s => s.1.function) hnodup (fun _ _ _ hm => (memberOf_of_field hm).label) hs,
    Labelled.filter_flatMap (fun s => s.1.function) hnodup (fun _ _ _ hm => (memberOf_of_method hm).label) hs]

/-! ### The code of the members -/

/-- Code without blank lines. -/
def withoutBlanks (code : List Code) : List Code := code.filter (!·.isBlank)

theorem withoutBlanks_append {code more : List Code} :
    withoutBlanks (code ++ more) = withoutBlanks code ++ withoutBlanks more := List.filter_append _ _

theorem memberCode_append {members more : List FunctionMember} :
    memberCode (members ++ more) = memberCode members ++ memberCode more := List.map_append

theorem eventSignature_eq_ok {f : FunctionRecord} {text : String} :
    eventSignature f = .ok text ↔ ∃ s, signature f = .ok s ∧ text = "public partial " ++ s := by
  unfold eventSignature
  rw [bind_eq_ok]
  refine exists_congr fun s => and_congr_right fun _ => ?_
  exact ⟨fun h => (Except.ok.inj h).symm, fun h => congrArg Except.ok h.symm⟩

/-- A service of a wrapper that is rendered has the signatures and bodies that its members need. -/
def Spelled (s : Candidate × Service) : Prop :=
  (s.2 = .event → ∃ text, signature s.1.function = .ok text) ∧
    (isBound s = true → ∃ text body, signature s.1.function = .ok text ∧ methodBody s = .ok body)

theorem serviceEntry_of_event {s : Candidate × Service} (h : s.2 = .event) : serviceEntry s = none := by
  unfold serviceEntry
  rw [h]

theorem eventMembers_of_ok {s : Candidate × Service} {text : String} (h : s.2 = .event)
    (htext : signature s.1.function = .ok text) : eventMembers s = [(s.1.function, .event text)] := by
  unfold eventMembers
  rw [h, htext]

theorem eventMembers_of_ne {s : Candidate × Service} (h : s.2 ≠ .event) : eventMembers s = [] := by
  unfold eventMembers
  split
  · next hevent _ => exact absurd hevent h
  · rfl

theorem eventsCode_cons_of_event {s : Candidate × Service} {all : List (Candidate × Service)} {text : String}
    (h : s.2 = .event) (htext : signature s.1.function = .ok text) :
    eventsCode (s :: all) = ((eventsCode all).1,
      (eventsCode all).2.map ([.blank, .line ("public partial " ++ text ++ ";")] ++ ·)) := by
  rw [eventsCode, h, eventSignature_eq_ok.mpr ⟨text, htext, rfl⟩]

theorem eventsCode_cons_of_ne {s : Candidate × Service} {all : List (Candidate × Service)} (h : s.2 ≠ .event) :
    eventsCode (s :: all) = ((serviceEntry s).toList ++ (eventsCode all).1, (eventsCode all).2) := by
  rw [eventsCode]
  split
  · next hevent _ => exact absurd hevent h
  · next hevent _ => exact absurd hevent h
  · rfl

theorem eventsCode_ok {all : List (Candidate × Service)} {entries : List ReportEntry} {code : List Code}
    (h : eventsCode all = (entries, .ok code)) :
    withoutBlanks code = memberCode (all.flatMap eventMembers) ∧ entries = all.filterMap serviceEntry ∧
      ∀ s ∈ all, s.2 = .event → ∃ text, signature s.1.function = .ok text := by
  induction all generalizing entries code with
  | nil =>
    cases h
    exact ⟨rfl, rfl, fun s hs => (nomatch hs)⟩
  | cons s all ih =>
    by_cases hevent : s.2 = .event
    · cases htext : signature s.1.function with
      | error e =>
        -- A signature that cannot be spelled ends the code.
        rw [eventsCode, hevent] at h
        have hfail : eventSignature s.1.function = .error e := by
          unfold eventSignature
          rw [htext]
          rfl
        rw [hfail] at h
        cases h
      | ok text =>
        rw [eventsCode_cons_of_event hevent htext] at h
        obtain ⟨hentries, hcode⟩ := Prod.mk.inj h
        obtain ⟨rest, hrest, rfl⟩ := map_eq_ok.mp hcode
        obtain ⟨hmembers, hreported, hspelled⟩ := ih (Prod.ext rfl hrest)
        refine ⟨?_, ?_, ?_⟩
        · rw [List.flatMap_cons, eventMembers_of_ok hevent htext, memberCode_append, ← hmembers, withoutBlanks_append]
          rfl
        · rw [List.filterMap_cons, serviceEntry_of_event hevent, ← hentries, ← hreported]
        · rw [List.forall_mem_cons]
          exact ⟨fun _ => ⟨text, htext⟩, hspelled⟩
    · rw [eventsCode_cons_of_ne hevent] at h
      obtain ⟨hentries, hcode⟩ := Prod.mk.inj h
      obtain ⟨hmembers, hreported, hspelled⟩ := ih (Prod.ext rfl hcode)
      refine ⟨?_, ?_, ?_⟩
      · rw [List.flatMap_cons, eventMembers_of_ne hevent, List.nil_append, hmembers]
      · rw [List.filterMap_cons, ← hentries, ← hreported]
        cases serviceEntry s <;> rfl
      · rw [List.forall_mem_cons]
        exact ⟨fun h => absurd h hevent, hspelled⟩

theorem fieldCode_eq {all : List (Candidate × Service)} :
    (all.filter isBound).map fieldCode = memberCode (all.flatMap fieldMembers) := by
  induction all with
  | nil => rfl
  | cons s all ih =>
    rw [List.filter_cons, List.flatMap_cons, memberCode_append, ← ih]
    obtain ⟨x, service⟩ := s
    cases service with
    | event | unbound => rfl
    | direct layout => rfl
    | byName reason => rfl

theorem withoutBlanks_fields {all : List (Candidate × Service)} :
    withoutBlanks (all.map fieldCode) = all.map fieldCode := by
  refine List.filter_eq_self.mpr fun code hcode => ?_
  obtain ⟨s, -, rfl⟩ := List.mem_map.mp hcode
  rfl

theorem methodCode_eq (s : Candidate × Service) : methodCode s = (do
    let text ← signature s.1.function
    let body ← methodBody s
    return [.blank, (Member.method text body).code s.1.function]) := by
  unfold methodCode methodBody
  cases s.2 <;> rfl

theorem methodCode_eq_ok {s : Candidate × Service} {code : List Code} (h : methodCode s = .ok code) :
    ∃ text body, signature s.1.function = .ok text ∧ methodBody s = .ok body ∧
      code = [.blank, (Member.method text body).code s.1.function] := by
  rw [methodCode_eq] at h
  obtain ⟨text, htext, h⟩ := bind_eq_ok.mp h
  obtain ⟨body, hbody, h⟩ := bind_eq_ok.mp h
  cases h
  exact ⟨text, body, htext, hbody, rfl⟩

theorem methods_ok {bound : List (Candidate × Service)} (hbound : ∀ s ∈ bound, isBound s = true)
    {methods : List (List Code)} (h : List.Forall₂ (fun s code => methodCode s = .ok code) bound methods) :
    withoutBlanks methods.flatten = memberCode (bound.flatMap methodMembers) ∧
      ∀ s ∈ bound, ∃ text body, signature s.1.function = .ok text ∧ methodBody s = .ok body := by
  induction h with
  | nil => exact ⟨rfl, fun s hs => (nomatch hs)⟩
  | @cons s code bound methods hs _ ih =>
    rw [List.forall_mem_cons] at hbound
    obtain ⟨hmembers, hspelled⟩ := ih hbound.2
    obtain ⟨text, body, htext, hbody, rfl⟩ := methodCode_eq_ok hs
    have hmethod : methodMembers s = [(s.1.function, .method text body)] := methodMembers_of_ok hbound.1 htext hbody
    refine ⟨?_, ?_⟩
    · rw [List.flatten_cons, withoutBlanks_append, hmembers, List.flatMap_cons, memberCode_append, hmethod]
      rfl
    · rw [List.forall_mem_cons]
      exact ⟨⟨text, body, htext, hbody⟩, hspelled⟩

/-- The code of a type's functions is that of the members of their services. -/
theorem functionsCode_ok {c : BindingContext} {fast : List FunctionId} {t : TypeRecord} {entries : List ReportEntry}
    {code : List Code} (h : functionsCode c fast t = (entries, .ok code)) :
    withoutBlanks code = memberCode (members (services c fast t)) ∧
      entries = (services c fast t).filterMap serviceEntry ∧ ∀ s ∈ services c fast t, Spelled s := by
  unfold functionsCode at h
  generalize services c fast t = all at h ⊢
  obtain ⟨hentries, hcode⟩ := Prod.mk.inj h
  obtain ⟨events, hevents, hcode⟩ := bind_eq_ok.mp hcode
  obtain ⟨hmembers, hreported, hspelled⟩ := eventsCode_ok (Prod.ext hentries hevents)
  have hfields : all.flatMap fieldMembers = (all.filter isBound).flatMap fieldMembers :=
    (Labelled.flatMap_filter fun _ => fieldMembers_of_not_bound).symm
  have hmethods : all.flatMap methodMembers = (all.filter isBound).flatMap methodMembers :=
    (Labelled.flatMap_filter fun _ => methodMembers_of_not_bound).symm
  have hbound : ∀ s ∈ all.filter isBound, isBound s = true := fun s hs => (List.mem_filter.mp hs).2
  dsimp only at hcode
  split at hcode
  · next hempty =>
    -- The code ends behind the events, and no other member is asked for.
    cases hcode
    have hnil : all.filter isBound = [] := List.isEmpty_iff.mp hempty
    have hnone : ∀ s ∈ all, isBound s ≠ true := List.filter_eq_nil_iff.mp hnil
    refine ⟨?_, hreported, fun s hs => ⟨hspelled s hs, fun h => absurd h (hnone s hs)⟩⟩
    rw [hmembers, members, hfields, hmethods, hnil]
    simp
  · obtain ⟨methods, hmapM, hcode⟩ := bind_eq_ok.mp hcode
    cases hcode
    obtain ⟨hbodies, hbodied⟩ := methods_ok hbound (mapM_eq_ok.mp hmapM)
    refine ⟨?_, hreported, fun s hs => ⟨hspelled s hs, fun h => hbodied s (List.mem_filter.mpr ⟨hs, h⟩)⟩⟩
    have hblank : withoutBlanks [Code.blank] = [] := rfl
    rw [withoutBlanks_append, withoutBlanks_append, withoutBlanks_append, hblank, List.append_nil, hmembers,
      withoutBlanks_fields, fieldCode_eq, hbodies, members, memberCode_append, memberCode_append, hmethods]

/-! ### Files -/

/-- The text of a file whose namespace holds some lines and then one declaration. -/
def fileText (nspace : String) (before : List Code) (declaration : String) (contents : List Code) : String :=
  Code.render (head ++ [.block nspace (before ++ [.block declaration contents])])

/-- A type with its functions left out. -/
def withoutFunctions (t : TypeRecord) : TypeRecord := { t with functions := [] }

section
variable {c : BindingContext} {fast : List FunctionId} {t : TypeRecord} {name : String} {entries : List ReportEntry}

theorem functionsCode_withoutFunctions : functionsCode c fast (withoutFunctions t) = ([], .ok []) := rfl

/-- How the code of a type comes about, for each kind of type. -/
inductive Coded (c : BindingContext) (fast : List FunctionId) (t : TypeRecord) (name : String) :
    List ReportEntry → List Code → Prop
  | enumKind {code : List Code} (hkind : t.kind = .enumKind) (h : enumCode t name = .ok code) : Coded c fast t name [] code
  | structKind {entries : List ReportEntry} {fields functions : List Code} (hkind : t.kind = .structKind)
    (hfields : t.properties.mapM structFieldCode = .ok fields)
    (hfunctions : functionsCode c fast t = (entries, .ok functions)) :
    Coded c fast t name entries [.line "[StructLayout(LayoutKind.Sequential)]",
      .block ("public partial struct " ++ name) (fields ++ functions)]
  | classKind {entries : List ReportEntry} {base : String} {properties : List (List Code)} {functions : List Code}
    (hkind : t.kind = .classKind) (hbase : baseName t = .ok base)
    (hproperties : (t.properties.filter c.schema.exposesProperty).mapM propertyCode = .ok properties)
    (hfunctions : functionsCode c fast t = (entries, .ok functions)) :
    Coded c fast t name entries [.block
      ((if t.flags.contains TypeFlags.abstract then "public abstract partial class " else "public partial class ")
        ++ name ++ " : " ++ base) (classHead t name ++ properties.flatten ++ functions)]

theorem typeCode_eq_ok {code : List Code} :
    typeCode c fast t name = (entries, .ok code) ↔ Coded c fast t name entries code := by
  constructor
  · intro h
    unfold typeCode at h
    split at h
    · next hkind =>
      obtain ⟨rfl, hcode⟩ := Prod.mk.inj h
      exact .enumKind hkind hcode
    · next hkind =>
      split at h
      · cases h
      · next fields hfields =>
        obtain ⟨hentries, hcode⟩ := Prod.mk.inj h
        obtain ⟨functions, hfunctions, rfl⟩ := map_eq_ok.mp hcode
        exact .structKind hkind hfields (Prod.ext hentries hfunctions)
    · next hkind =>
      dsimp only at h
      split at h
      · cases h
      · next base properties hparts =>
        obtain ⟨base, hbase, hparts⟩ := bind_eq_ok.mp hparts
        obtain ⟨properties, hproperties, hparts⟩ := bind_eq_ok.mp hparts
        cases hparts
        obtain ⟨hentries, hcode⟩ := Prod.mk.inj h
        obtain ⟨functions, hfunctions, rfl⟩ := map_eq_ok.mp hcode
        exact .classKind hkind hbase hproperties (Prod.ext hentries hfunctions)
  · rintro (⟨hkind, hcode⟩ | ⟨hkind, hfields, hfunctions⟩ | ⟨hkind, hbase, hproperties, hfunctions⟩) <;>
      unfold typeCode <;> simp only [hkind]
    · rw [hcode]
    · rw [hfields, hfunctions]
      rfl
    · rw [hbase, hproperties, hfunctions]
      rfl

/-- What the file of a type is made of. -/
theorem renderType_eq_ok {a : Artifact} : renderType c fast t = (entries, .ok a) ↔
    ∃ name module code, managedIdentifier t.name = .ok name ∧ managedIdentifier t.module = .ok module ∧
      typeCode c fast t name = (entries, .ok code) ∧ a = {
        path := typePath t
        contents := Code.render <| head ++ [.block ("namespace SharpBind." ++ module)
          ((if t.flags.contains TypeFlags.deprecated then [.line "[Obsolete]"] else []) ++ code)] } := by
  unfold renderType
  constructor
  · intro h
    dsimp only at h
    split at h
    · cases h
    · next hnames =>
      obtain ⟨name, hname, hnames⟩ := bind_eq_ok.mp hnames
      obtain ⟨module, hmodule, hnames⟩ := bind_eq_ok.mp hnames
      cases hnames
      obtain ⟨hentries, hfile⟩ := Prod.mk.inj h
      obtain ⟨code, hcode, rfl⟩ := map_eq_ok.mp hfile
      exact ⟨_, _, code, hname, hmodule, Prod.ext hentries hcode, rfl⟩
  · rintro ⟨name, module, code, hname, hmodule, hcode, rfl⟩
    rw [hname, hmodule]
    show ((typeCode c fast t name).1, (typeCode c fast t name).2.map _) = _
    rw [hcode]
    rfl

/-- The code of the functions is the last part of the declaration of their type, which does not depend on them
otherwise. -/
theorem typeCode_ok (hkind : t.kind ≠ .enumKind) {code : List Code} (h : typeCode c fast t name = (entries, .ok code)) :
    ∃ before declaration lead functions, functionsCode c fast t = (entries, .ok functions) ∧
      code = before ++ [.block declaration (lead ++ functions)] ∧
      typeCode c fast (withoutFunctions t) name = ([], .ok (before ++ [.block declaration lead])) := by
  cases typeCode_eq_ok.mp h with
  | enumKind henum => exact absurd henum hkind
  | @structKind _ fields functions hstruct hfields hfunctions =>
    have hwithout : Coded c fast (withoutFunctions t) name [] _ := .structKind hstruct hfields functionsCode_withoutFunctions
    rw [List.append_nil] at hwithout
    exact ⟨[.line "[StructLayout(LayoutKind.Sequential)]"], "public partial struct " ++ name, fields, functions,
      hfunctions, rfl, typeCode_eq_ok.mpr hwithout⟩
  | @classKind _ _ properties functions hclass hbase hproperties hfunctions =>
    have hwithout : Coded c fast (withoutFunctions t) name [] _ :=
      .classKind hclass hbase hproperties functionsCode_withoutFunctions
    rw [List.append_nil] at hwithout
    exact ⟨[], _, classHead t name ++ properties.flatten, functions, hfunctions, rfl, typeCode_eq_ok.mpr hwithout⟩

theorem renderType_ok (hkind : t.kind ≠ .enumKind) {a : Artifact} (h : renderType c fast t = (entries, .ok a)) :
    ∃ nspace before declaration lead functions, functionsCode c fast t = (entries, .ok functions) ∧
      a.contents = fileText nspace before declaration (lead ++ functions) ∧
      renderType c fast (withoutFunctions t) =
        ([], .ok { a with contents := fileText nspace before declaration lead }) := by
  obtain ⟨name, module, code, hname, hmodule, hcode, rfl⟩ := renderType_eq_ok.mp h
  obtain ⟨before, declaration, lead, functions, hfunctions, rfl, hwithout⟩ := typeCode_ok hkind hcode
  let mark : List Code := if t.flags.contains TypeFlags.deprecated then [.line "[Obsolete]"] else []
  refine ⟨"namespace SharpBind." ++ module, mark ++ before, declaration, lead, functions, hfunctions, ?_, ?_⟩
  · rw [fileText, List.append_assoc]
  · refine renderType_eq_ok.mpr ⟨name, module, _, hname, hmodule, hwithout, ?_⟩
    rw [fileText, List.append_assoc]
    rfl

end

/-- What the pass that writes wrappers makes: the files of the types that could be rendered, and a report with
all that is said of their functions. -/
structure Collects (c : BindingContext) (fast : List FunctionId) (output : Output) : Prop where
  artifacts : output.artifacts = c.document.types.filterMap fun t => (renderType c fast t).2.toOption
  reported : ∀ t ∈ c.document.types, ∀ e ∈ (renderType c fast t).1, e ∈ output.report.entries

section
variable {c : BindingContext} {fast : List FunctionId}

theorem outcomeOf_artifact (t : TypeRecord) : (outcomeOf c fast t).1 = (renderType c fast t).2.toOption := by
  unfold outcomeOf
  rcases renderType c fast t with ⟨entries, e | a⟩ <;> rfl

theorem mem_outcomeOf {t : TypeRecord} {e : ReportEntry} (h : e ∈ (renderType c fast t).1) :
    e ∈ (outcomeOf c fast t).2 := by
  unfold outcomeOf
  rcases hrender : renderType c fast t with ⟨entries, e' | a⟩ <;> rw [hrender] at h <;>
    exact List.mem_append_left _ h

theorem generate_collects (h : c.fastFunctions = .ok fast) :
    ∃ output, generate c = .ok output ∧ Collects c fast output := by
  unfold generate
  rw [h]
  refine ⟨_, rfl, ?_, fun t ht e he => ?_⟩
  · show List.filterMap _ (List.map _ _) = _
    rw [List.filterMap_map]
    exact List.filterMap_congr fun t _ => outcomeOf_artifact t
  · refine List.mem_append_right _ (List.mem_flatMap.mpr ⟨_, List.mem_map_of_mem ht, ?_⟩)
    exact mem_outcomeOf he

/-- Once it is known which functions have a trampoline, the pass that writes wrappers always ends. -/
theorem writeOut_collects (h : c.fastFunctions = .ok fast) (tree : FileTree) :
    ∃ tree' output, writeOut tree c = (tree', .ok output) ∧ Collects c fast output := by
  obtain ⟨output, houtput, hartifacts, hreported⟩ := generate_collects h
  unfold writeOut
  rw [houtput]
  exact ⟨_, _, rfl, hartifacts, fun t ht e he => List.mem_append_left _ (hreported t ht e he)⟩

end

end Wrapper
end EngineBridge
