import EngineBridge.Proofs.Export.Scopes

/-! The two parts of a type.

The wrapper of a class or struct and its placeholder are parts of one type. The wrapper declares the events that the
schema exposes, and for a class the method that is called when an object is bound; the placeholder implements these and
nothing else. Each generator filters the functions by itself, but both come upon the same events in the order of the
type, and the signature of an event is all that the placeholder needs to be spelled. -/

namespace EngineBridge
open Outcome

/-! ### What a placeholder implements -/

namespace Placeholder
open Wrapper (signature signatureSpelled signature_eq_ok eventSignature_eq_ok withoutBlanks)
variable {schema : BindingSchema} {t : TypeRecord} {f : FunctionRecord}

/-- What a placeholder implements. -/
inductive Implementation
  /-- The method that is called when an object is bound. -/
  | hook
  | event (signature : String) (body : List Code)

/-- The code of an implementation. -/
def Implementation.code : Implementation → Code
  | hook => .block "partial void OnBindingInitialized()" []
  | event signature body => .block ("public partial " ++ signature) body

/-- The line that gives a parameter a value. -/
def assigned (p : ParamRecord) : Code := .line (spelled p.name ++ " = default;")

/-- The line that gives a value back. -/
def returned : Code := .line "return default;"

/-- What stands between the braces of an event. -/
def defaults (f : FunctionRecord) : List Code :=
  (f.params.filter (·.direction == .outward)).map assigned ++ if f.returnType.isSome then [returned] else []

/-- What the placeholder of a type implements. -/
def implementations (schema : BindingSchema) (t : TypeRecord) : List Implementation :=
  (if t.kind = .classKind then [.hook] else []) ++ (events schema t).map fun f => .event (signatureSpelled f) (defaults f)

/-- The text of a file whose namespace holds one declaration. -/
def fileText (nspace declaration : String) (contents : List Code) : String :=
  Code.render (head ++ [.block nspace [.block declaration contents]])

/-- A type as each of its parts declares it. -/
def partialName (t : TypeRecord) : String := "partial " ++ keyword t.kind ++ " " ++ spelled t.name

theorem assignDefault_of_identifier {p : ParamRecord} (h : isIdentifier p.name = true) :
    assignDefault p = .ok (assigned p) := by
  unfold assignDefault
  rw [managedIdentifier_eq_ok.mpr ⟨h, rfl⟩]
  rfl

/-- An event can be implemented exactly if its signature can be spelled. -/
theorem eventCode_eq_ok {line : Code} : eventCode f = .ok line ↔
    (∃ text, signature f = .ok text) ∧ line = (Implementation.event (signatureSpelled f) (defaults f)).code := by
  unfold eventCode
  rw [bind_eq_ok]
  simp only [eventSignature_eq_ok]
  -- The names of the parameters are spelled in the signature already.
  have hassign : ∀ {text}, signature f = .ok text →
      (f.params.filter fun p => p.direction == .outward).mapM assignDefault =
        .ok ((f.params.filter (·.direction == .outward)).map assigned) := by
    intro text htext
    obtain ⟨-, hparams, -⟩ := signature_eq_ok htext
    rw [mapM_eq_ok, List.forall₂_map_right_iff, List.forall₂_same]
    exact fun p hp => assignDefault_of_identifier (hparams p (List.mem_filter.mp hp).1)
  constructor
  · rintro ⟨head, ⟨text, htext, rfl⟩, h⟩
    rw [hassign htext] at h
    obtain ⟨-, -, rfl⟩ := signature_eq_ok htext
    exact ⟨⟨_, htext⟩, (Except.ok.inj h).symm⟩
  · rintro ⟨⟨text, htext⟩, rfl⟩
    refine ⟨_, ⟨text, htext, rfl⟩, ?_⟩
    rw [hassign htext]
    obtain ⟨-, -, rfl⟩ := signature_eq_ok htext
    rfl

theorem hooks_eq : hooks t = (if t.kind = .classKind then [Implementation.hook] else []).map Implementation.code := by
  unfold hooks
  split <;> rfl

/-- A placeholder can be made exactly if the type, its module and the signatures of its events can be spelled. -/
theorem renderType_eq_ok {a : Artifact} : renderType schema t = .ok a ↔
    isIdentifier t.name = true ∧ isIdentifier t.module = true ∧
      (∀ f ∈ events schema t, ∃ text, signature f = .ok text) ∧
      a = ⟨typePath t, fileText ("namespace SharpBind." ++ spelled t.module) ("public " ++ partialName t)
        (separated ((implementations schema t).map Implementation.code))⟩ := by
  have hall : (hooks t ++ (events schema t).map fun f => (Implementation.event (signatureSpelled f) (defaults f)).code) =
      (implementations schema t).map Implementation.code := by
    rw [implementations, List.map_append, List.map_map, hooks_eq]
    rfl
  have hhead : "public " ++ partialName t = "public partial " ++ keyword t.kind ++ " " ++ spelled t.name := by
    rw [show "public partial " = "public " ++ "partial " from rfl]
    simp only [partialName, String.append_assoc]
  rw [← hall, hhead]
  unfold renderType
  constructor
  · intro h
    obtain ⟨name, hname, h⟩ := bind_eq_ok.mp h
    obtain ⟨module, hmodule, h⟩ := bind_eq_ok.mp h
    obtain ⟨code, hcode, h⟩ := bind_eq_ok.mp h
    obtain ⟨htype, rfl⟩ := managedIdentifier_eq_ok.mp hname
    obtain ⟨hplace, rfl⟩ := managedIdentifier_eq_ok.mp hmodule
    obtain ⟨hspelled, rfl⟩ := Wrapper.forall₂_map_eq (R := fun f line => eventCode f = .ok line)
      (fun _ _ => eventCode_eq_ok.mp) (mapM_eq_ok.mp hcode)
    exact ⟨htype, hplace, hspelled, (Except.ok.inj h).symm⟩
  · rintro ⟨htype, hplace, hspelled, rfl⟩
    have hcode : (events schema t).mapM eventCode =
        .ok ((events schema t).map fun f => (Implementation.event (signatureSpelled f) (defaults f)).code) := by
      rw [mapM_eq_ok, List.forall₂_map_right_iff, List.forall₂_same]
      exact fun f hf => eventCode_eq_ok.mpr ⟨hspelled f hf, rfl⟩
    rw [managedIdentifier_eq_ok.mpr ⟨htype, rfl⟩, managedIdentifier_eq_ok.mpr ⟨hplace, rfl⟩, hcode]
    rfl

theorem withoutBlanks_separated (code : List Code) : withoutBlanks (separated code) = withoutBlanks code := by
  induction code using separated.induct with
  | case1 => rfl
  | case2 c => rfl
  | case3 c d cs ih =>
    show withoutBlanks ([c] ++ ([Code.blank] ++ separated (d :: cs))) = withoutBlanks ([c] ++ (d :: cs))
    rw [Wrapper.withoutBlanks_append, Wrapper.withoutBlanks_append, ih, Wrapper.withoutBlanks_append]
    rfl

theorem withoutBlanks_implementations (is : List Implementation) :
    withoutBlanks (is.map Implementation.code) = is.map Implementation.code := by
  refine List.filter_eq_self.mpr fun code hcode => ?_
  obtain ⟨i, -, rfl⟩ := List.mem_map.mp hcode
  cases i <;> rfl

/-! ### What the code of an event does -/

/-- The code gives every outward parameter a value and no other, and then gives a value back exactly if the event does. -/
structure Fulfils (f : FunctionRecord) (body : List Code) : Prop where
  assigns : ∀ p ∈ f.params, p.direction = .outward → assigned p ∈ body
  only : ∀ code ∈ body, code = returned ∨ ∃ p ∈ f.params, p.direction = .outward ∧ code = assigned p
  returns : f.returnType.isSome = true → ∃ before, body = before ++ [returned] ∧ returned ∉ before
  ends : f.returnType.isSome = false → returned ∉ body

theorem returned_ne_assigned (p : ParamRecord) : returned ≠ assigned p := by
  intro h
  have hmem : '=' ∈ "return default;".toList := by
    rw [Code.line.inj h, String.toList_append]
    exact List.mem_append_right _ (by decide)
  exact absurd hmem (by decide)

theorem mem_assignments {code : Code} : code ∈ (f.params.filter (·.direction == .outward)).map assigned ↔
    ∃ p ∈ f.params, p.direction = .outward ∧ code = assigned p := by
  rw [List.mem_map]
  constructor
  · rintro ⟨p, hp, rfl⟩
    obtain ⟨hmem, hdirection⟩ := List.mem_filter.mp hp
    exact ⟨p, hmem, beq_iff_eq.mp hdirection, rfl⟩
  · rintro ⟨p, hp, hdirection, rfl⟩
    exact ⟨p, List.mem_filter.mpr ⟨hp, beq_iff_eq.mpr hdirection⟩, rfl⟩

theorem fulfils_defaults (f : FunctionRecord) : Fulfils f (defaults f) := by
  have hassigned : returned ∉ (f.params.filter (·.direction == .outward)).map assigned := fun h =>
    let ⟨p, _, _, heq⟩ := mem_assignments.mp h
    returned_ne_assigned p heq
  unfold defaults
  refine ⟨fun p hp hdirection => ?_, fun code hcode => ?_, fun hreturns => ?_, fun hends => ?_⟩
  · exact List.mem_append_left _ (mem_assignments.mpr ⟨p, hp, hdirection, rfl⟩)
  · rcases List.mem_append.mp hcode with h | h
    · exact .inr (mem_assignments.mp h)
    · split at h
      · exact .inl (List.mem_singleton.mp h)
      · cases h
  · rw [if_pos hreturns]
    exact ⟨_, rfl, hassigned⟩
  · rw [hends, if_neg Bool.false_ne_true, List.append_nil]
    exact hassigned

/-- The signature of the event that is implemented. -/
def Implementation.signature? : Implementation → Option String
  | event signature _ => some signature
  | hook => none

/-- What the event that is implemented does. -/
def Implementation.body? : Implementation → Option (List Code)
  | event _ body => some body
  | hook => none

/-- The method that is called when an object is bound is implemented. -/
def Implementation.isHook : Implementation → Bool
  | hook => true
  | event _ _ => false

theorem signatures_implementations :
    (implementations schema t).filterMap Implementation.signature? = (events schema t).map signatureSpelled := by
  rw [implementations, List.filterMap_append, List.filterMap_map]
  split <;> exact congrFun List.filterMap_eq_map _

theorem bodies_implementations :
    (implementations schema t).filterMap Implementation.body? = (events schema t).map defaults := by
  rw [implementations, List.filterMap_append, List.filterMap_map]
  split <;> exact congrFun List.filterMap_eq_map _

theorem hook_implementations :
    (implementations schema t).filter Implementation.isHook = if t.kind = .classKind then [.hook] else [] := by
  have hnone : ((events schema t).map fun f => Implementation.event (signatureSpelled f) (defaults f)).filter
      Implementation.isHook = [] := by
    rw [List.filter_map]
    exact List.map_eq_nil_iff.mpr (List.filter_eq_nil_iff.mpr fun f _ h => nomatch h)
  rw [implementations, List.filter_append, hnone, List.append_nil]
  split <;> rfl

end Placeholder

/-! ### What a wrapper declares for the placeholder -/

namespace Wrapper
variable {c : BindingContext} {fast : List FunctionId} {t : TypeRecord}

/-- The signature of the event that is declared. -/
def Declaration.signature? : Declaration → Option String
  | member (_, .event signature) => some signature
  | _ => none

/-- The method that is called when an object is bound is declared. -/
def Declaration.isHook : Declaration → Bool
  | hook => true
  | _ => false

/-- The mark of an abstract class, which only its wrapper has. -/
def modifier (t : TypeRecord) : String :=
  if t.kind = .classKind ∧ t.flags.contains TypeFlags.abstract = true then "abstract " else ""

/-- What a class is derived from, which only its wrapper says. -/
def derivation (t : TypeRecord) : String :=
  if t.kind = .classKind then " : " ++ (t.superType.map spelled).getD rootClass else ""

theorem headline_eq (hkind : t.kind ≠ .enumKind) :
    headline t = "public " ++ modifier t ++ Placeholder.partialName t ++ derivation t := by
  unfold headline modifier derivation Placeholder.partialName Placeholder.keyword
  cases h : t.kind with
  | enumKind => exact absurd h hkind
  | structKind =>
    simp only [reduceCtorEq, false_and, if_false, String.append_empty]
    rw [show "public partial struct " = "public " ++ "partial " ++ "struct" ++ " " from rfl]
    simp only [String.append_assoc]
  | classKind =>
    simp only [true_and, if_true]
    split
    · rw [show "public abstract partial class " = "public " ++ "abstract " ++ "partial " ++ "class" ++ " " from rfl]
      simp only [String.append_assoc]
    · rw [show "public partial class " = "public " ++ "" ++ "partial " ++ "class" ++ " " from rfl]
      simp only [String.append_assoc]

/-- The events that a wrapper declares are those that the placeholder filters out of the type's functions. -/
theorem flatMap_eventMembers (hspelled : ∀ s ∈ services c fast t, Spelled s) :
    (services c fast t).flatMap eventMembers =
      (Placeholder.events c.schema t).map fun f => (f, .event (signatureSpelled f)) := by
  have hevents : Placeholder.events c.schema t = (t.functions.filter c.schema.exposes).filter (·.isEvent) := by
    rw [Placeholder.events, List.filter_filter]
  rw [hevents]
  unfold services at hspelled ⊢
  rw [List.flatMap_map]
  rw [List.forall_mem_map] at hspelled
  generalize t.functions.filter c.schema.exposes = functions at hspelled ⊢
  induction functions with
  | nil => rfl
  | cons f functions ih =>
    rw [List.forall_mem_cons] at hspelled
    rw [List.flatMap_cons, ih hspelled.2, List.filter_cons]
    cases hevent : f.isEvent with
    | true =>
      have hservice : serviceOf c.document fast ⟨t, f⟩ = .event := serviceOf_eq_event.mpr hevent
      obtain ⟨text, htext⟩ := hspelled.1.1 hservice
      rw [eventMembers_of_ok hservice htext]
      obtain ⟨-, -, rfl⟩ := signature_eq_ok htext
      rfl
    | false =>
      have hservice : serviceOf c.document fast ⟨t, f⟩ ≠ .event := fun h => by simp [serviceOf_eq_event.mp h] at hevent
      rw [eventMembers_of_ne hservice]
      rfl

theorem signature?_fieldMembers {m : FunctionMember} {s : Candidate × Service} (h : m ∈ fieldMembers s) :
    (Declaration.member m).signature? = none := by
  obtain ⟨binding, -, rfl⟩ := List.mem_map.mp h
  rfl

theorem signature?_methodMembers {m : FunctionMember} {s : Candidate × Service} (h : m ∈ methodMembers s) :
    (Declaration.member m).signature? = none := by
  unfold methodMembers at h
  split at h
  · rw [List.mem_singleton.mp h]
    rfl
  · cases h

/-- Among the members of a type's functions the events are declared by their signatures. -/
theorem signatures_members (hspelled : ∀ s ∈ services c fast t, Spelled s) :
    ((members (services c fast t)).map Declaration.member).filterMap Declaration.signature? =
      (Placeholder.events c.schema t).map signatureSpelled := by
  have hfields : ((services c fast t).flatMap fieldMembers).filterMap (Declaration.signature? ∘ Declaration.member) = [] :=
    List.filterMap_eq_nil_iff.mpr fun m hm =>
      let ⟨_, _, hm⟩ := List.mem_flatMap.mp hm
      signature?_fieldMembers hm
  have hmethods : ((services c fast t).flatMap methodMembers).filterMap (Declaration.signature? ∘ Declaration.member) = [] :=
    List.filterMap_eq_nil_iff.mpr fun m hm =>
      let ⟨_, _, hm⟩ := List.mem_flatMap.mp hm
      signature?_methodMembers hm
  rw [List.filterMap_map, members, List.filterMap_append, List.filterMap_append, hfields, hmethods, List.append_nil,
    List.append_nil, flatMap_eventMembers hspelled, List.filterMap_map]
  exact congrFun List.filterMap_eq_map _

/-- What a wrapper declares beside the members of functions declares no events. -/
theorem signatures_declarations (hkind : t.kind ≠ .enumKind) (hspelled : ∀ s ∈ services c fast t, Spelled s) :
    (declarations c fast t).filterMap Declaration.signature? = (Placeholder.events c.schema t).map signatureSpelled := by
  have hnone : ∀ {α : Type} (xs : List α) (g : α → Declaration), (∀ x, (g x).signature? = none) →
      (xs.map g).filterMap Declaration.signature? = [] := by
    intro α xs g hg
    rw [List.filterMap_map]
    exact List.filterMap_eq_nil_iff.mpr fun x _ => hg x
  unfold declarations
  cases h : t.kind with
  | enumKind => exact absurd h hkind
  | structKind =>
    dsimp only
    rw [List.filterMap_append, hnone _ _ fun _ => rfl, List.nil_append, signatures_members hspelled]
  | classKind =>
    dsimp only
    rw [List.filterMap_append, List.filterMap_append, hnone _ _ fun _ => rfl, List.append_nil,
      signatures_members hspelled]
    rfl

/-- The method that is called when an object is bound is declared once in a class, and in no struct. -/
theorem hook_declarations (hkind : t.kind ≠ .enumKind) :
    (declarations c fast t).filter Declaration.isHook = if t.kind = .classKind then [.hook] else [] := by
  have hnone : ∀ {α : Type} (xs : List α) (g : α → Declaration), (∀ x, (g x).isHook = false) →
      (xs.map g).filter Declaration.isHook = [] := by
    intro α xs g hg
    rw [List.filter_map]
    exact List.map_eq_nil_iff.mpr (List.filter_eq_nil_iff.mpr fun x _ => by simp [hg x])
  unfold declarations
  cases h : t.kind with
  | enumKind => exact absurd h hkind
  | structKind =>
    dsimp only
    rw [List.filter_append, hnone _ _ fun _ => rfl, hnone _ _ fun _ => rfl]
    rfl
  | classKind =>
    dsimp only
    rw [List.filter_append, List.filter_append, hnone _ _ fun _ => rfl, hnone _ _ fun _ => rfl]
    rfl

end Wrapper

/-! ### The two parts -/

/-- The wrapper and the placeholder of a class or struct are parts of one type, and what the one leaves open the other
implements. -/
structure Complement (c : BindingContext) (t : TypeRecord) (w p : Artifact) (declared : List Wrapper.Declaration)
    (implemented : List Placeholder.Implementation) : Prop where
  /-- In the namespace of the type's module the wrapper declares a part of the type. -/
  wrapper : ∃ contents, Wrapper.withoutBlanks contents = declared.map Wrapper.Declaration.code ∧
    w = ⟨Wrapper.typePath t, Wrapper.fileText ("namespace SharpBind." ++ spelled t.module) (Wrapper.marks t)
      ("public " ++ Wrapper.modifier t ++ Placeholder.partialName t ++ Wrapper.derivation t) contents⟩
  /-- In the same namespace the placeholder declares a part of the same type. -/
  placeholder : ∃ contents, Wrapper.withoutBlanks contents = implemented.map Placeholder.Implementation.code ∧
    p = ⟨Placeholder.typePath t, Placeholder.fileText ("namespace SharpBind." ++ spelled t.module)
      ("public " ++ Placeholder.partialName t) contents⟩
  /-- The events that are declared are those that the schema exposes, in the order of the type. -/
  declared_events : declared.filterMap Wrapper.Declaration.signature? =
    (t.functions.filter fun f => f.isEvent && c.schema.exposes f).map Wrapper.signatureSpelled
  implemented_events : implemented.filterMap Placeholder.Implementation.signature? =
    declared.filterMap Wrapper.Declaration.signature?
  /-- Each event is implemented by code that does what its signature asks for. -/
  bodies : List.Forall₂ Placeholder.Fulfils (t.functions.filter fun f => f.isEvent && c.schema.exposes f)
    (implemented.filterMap Placeholder.Implementation.body?)
  declared_hook : declared.filter Wrapper.Declaration.isHook = if t.kind = .classKind then [.hook] else []
  implemented_hook : implemented.filter Placeholder.Implementation.isHook = if t.kind = .classKind then [.hook] else []

/-- A class or struct that has a wrapper has a placeholder; they are parts of one type, and the placeholder implements
exactly what the wrapper leaves open. -/
theorem placeholder_complements_wrapper (c : BindingContext) (fast : List FunctionId) (t : TypeRecord)
    (hkind : t.kind ≠ .enumKind) (entries : List ReportEntry) (w : Artifact)
    (h : Wrapper.renderType c fast t = (entries, .ok w)) :
    ∃ p, Placeholder.renderType c.schema t = .ok p ∧ ∃ declared implemented, Complement c t w p declared implemented := by
  obtain ⟨hpath, hnames, hspelled, contents, hcontents, htext⟩ := Wrapper.renderType_declares h
  replace hspelled := hspelled hkind
  have hevents : ∀ f ∈ Placeholder.events c.schema t, ∃ text, Wrapper.signature f = .ok text := by
    intro f hf
    obtain ⟨hmem, hshown⟩ := List.mem_filter.mp hf
    obtain ⟨hevent, hexposed⟩ := Bool.and_eq_true_iff.mp hshown
    exact (hspelled _ (Wrapper.mem_services fast hmem hexposed)).1 (Wrapper.serviceOf_event hevent)
  refine ⟨_, Placeholder.renderType_eq_ok.mpr ⟨hnames.type, hnames.module, hevents, rfl⟩, Wrapper.declarations c fast t,
    Placeholder.implementations c.schema t, ⟨contents, hcontents, ?_⟩, ⟨_, ?_, rfl⟩, ?_, ?_, ?_, ?_, ?_⟩
  · rw [← Wrapper.headline_eq hkind, ← htext, ← hpath]
  · rw [Placeholder.withoutBlanks_separated, Placeholder.withoutBlanks_implementations]
  · exact Wrapper.signatures_declarations hkind hspelled
  · rw [Placeholder.signatures_implementations, Wrapper.signatures_declarations hkind hspelled]
  · rw [Placeholder.bodies_implementations, List.forall₂_map_right_iff]
    exact List.forall₂_same.mpr fun f _ => Placeholder.fulfils_defaults f
  · exact Wrapper.hook_declarations hkind
  · exact Placeholder.hook_implementations

namespace DamagedActor

/-- An event that has a parameter of each direction and gives a value back. -/
def damaged : FunctionRecord where
  name := "OnDamaged"
  params := [⟨"Amount", .float, .inward⟩, ⟨"Left", .float, .inOut⟩, ⟨"event", .bool, .outward⟩]
  returnType := some (.integer .int32)
  flags := FunctionFlags.event

def actor : TypeRecord :=
  { TypeRecord.bare "Actor" "Engine" .classKind with flags := TypeFlags.abstract, functions := [damaged] }

def document : Document := ⟨"5.4", .empty, [actor]⟩

def context : BindingContext := .create document ⟨"/project"⟩ .native

theorem rendered : ∃ w, Wrapper.renderType context [] actor = ([], .ok w) := ⟨_, rfl⟩

end DamagedActor

open DamagedActor in
/-- The event of an abstract class is declared and implemented. -/
theorem placeholder_complements_wrapper_actor : document.validate = .ok () ∧ actor.kind ≠ .enumKind ∧
    ∃ w, Wrapper.renderType context [] actor = ([], .ok w) ∧
      (∃ p, Placeholder.renderType context.schema actor = .ok p ∧
        ∃ declared implemented, Complement context actor w p declared implemented) ∧
      (Placeholder.events context.schema actor).map Wrapper.signatureSpelled =
        ["int OnDamaged(float Amount, ref float Left, out bool @event)"] := by
  obtain ⟨w, hw⟩ := rendered
  have hkind : actor.kind ≠ .enumKind := by decide
  exact ⟨rfl, hkind, w, hw, placeholder_complements_wrapper context [] actor hkind [] w hw, by decide +kernel⟩

/-- A placeholder can be made where a wrapper cannot: it has none of the type's properties. -/
example : let t := { DamagedActor.actor with properties := [⟨"1st", .bool, .empty⟩] }
    (Wrapper.renderType DamagedActor.context [] t).2.toOption.isNone = true ∧
      (Placeholder.renderType .native t).toOption.isSome = true := by decide +kernel

end EngineBridge
