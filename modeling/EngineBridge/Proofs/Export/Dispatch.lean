import EngineBridge.Proofs.Export.Trampolines
import EngineBridge.Proofs.Export.Wrappers
import EngineBridge.Proofs.Layout.Frame

/-! How functions are reached.

Whether a function is bound to its trampoline or looked up by its name is decided by the installed set alone,
and where it is bound, managed code and the trampoline put its arguments at the same places of the frame: those
of the layout that the index has for it. -/

namespace EngineBridge

namespace Trampoline

/-- The trampoline takes the receiver from the front of the frame and each argument that goes in from its slot,
and puts each argument that goes out back into its slot. -/
structure UsesFrame (x : Candidate) (layout : FrameLayout) : Prop where
  receiver : layout.receiver = true → ∀ slot ∈ layout.slots.head?,
    .line (slot.repr.nativeType ++ " Self = " ++ readSlot slot.repr.nativeType 0 ++ ";") ∈ bodyCode x layout
  taken : ∀ s ∈ layout.params, s.direction.takesIn = true →
    .line (s.repr.nativeType ++ " " ++ argument s ++ " = " ++ readSlot s.repr.nativeType s.offset ++ ";") ∈
      bodyCode x layout
  putBack : ∀ s ∈ layout.params, s.direction.writesBack = true →
    .line ("*reinterpret_cast<" ++ s.repr.nativeType ++ "*>(Args + " ++ toString s.offset ++ ") = "
      ++ argument s ++ ";") ∈ bodyCode x layout

theorem usesFrame (x : Candidate) (layout : FrameLayout) : UsesFrame x layout where
  receiver hreceiver slot hslot := by
    have hcode : .line (slot.repr.nativeType ++ " Self = " ++ readSlot slot.repr.nativeType 0 ++ ";") ∈
        receiverCode layout := by
      unfold receiverCode
      rw [hreceiver]
      cases hslots : layout.slots with
      | nil =>
        rw [hslots] at hslot
        cases hslot
      | cons s ss =>
        rw [hslots] at hslot
        cases hslot
        exact List.mem_cons_self
    simp only [bodyCode, List.mem_append]
    tauto
  taken s hs htaken := by
    have hcode : declareArgument s ∈ layout.params.map declareArgument := List.mem_map_of_mem hs
    have hline : declareArgument s =
        .line (s.repr.nativeType ++ " " ++ argument s ++ " = " ++ readSlot s.repr.nativeType s.offset ++ ";") :=
      if_pos htaken
    rw [← hline]
    simp only [bodyCode, List.mem_append]
    tauto
  putBack s hs hback := by
    have hcode : writeBack s ∈ (layout.params.filter fun s => s.direction.writesBack).map writeBack :=
      List.mem_map_of_mem (List.mem_filter.mpr ⟨hs, hback⟩)
    show writeBack s ∈ _
    simp only [bodyCode, List.mem_append]
    tauto

end Trampoline

namespace Wrapper
open Outcome
variable {d : Document} {t : TypeRecord} {f : FunctionRecord} {layout : FrameLayout} {body : List Code}

/-- The line puts a parameter into the frame, at the offset of its slot. -/
def PutsInto (x : PlacedParam) (line : Code) : Prop :=
  ∃ name, managedIdentifier x.1.name = .ok name ∧ line = writeSlot x.2 x.1.type name

/-- The line takes a parameter out of the frame, at the offset of its slot. -/
def TakesOut (x : PlacedParam) (line : Code) : Prop :=
  ∃ name, managedIdentifier x.1.name = .ok name ∧
    line = .line (name ++ " = " ++ reader x.1.type "Read" ++ "(" ++ toString x.2.offset ++ ");")

/-- The body makes a frame of the layout's size, puts the receiver at its front and each parameter that goes in
at its slot, calls the trampoline, and takes each parameter that goes out from its slot. -/
def PassesFrame (f : FunctionRecord) (layout : FrameLayout) (body : List Code) : Prop :=
  ∃ puts takes, List.Forall₂ PutsInto ((f.params.zip layout.params).filter fun x => x.1.direction.takesIn) puts ∧
    List.Forall₂ TakesOut ((f.params.zip layout.params).filter fun x => x.1.direction.writesBack) takes ∧
    body = [.line ("using var frame = new InteropFrame(" ++ toString layout.size ++ ", "
        ++ toString layout.returnSize ++ ");")]
      ++ (if layout.receiver then [.line "frame.WriteHandle(0, this);"] else [])
      ++ puts ++ [.line (invocableField f ++ ".Invoke(frame);")] ++ takes
      ++ (match f.returnType with
          | some t => [.line ("return " ++ reader t "ReadReturn" ++ "();")]
          | none => [])

theorem directBody_passesFrame (h : directBody f layout = .ok body) : PassesFrame f layout body := by
  unfold directBody at h
  obtain ⟨puts, hputs, h⟩ := bind_eq_ok.mp h
  obtain ⟨takes, htakes, h⟩ := bind_eq_ok.mp h
  refine ⟨puts, takes, (mapM_eq_ok.mp hputs).imp fun x line hline => ?_,
    (mapM_eq_ok.mp htakes).imp fun x line hline => ?_, (Except.ok.inj h).symm⟩
  · obtain ⟨name, hname, hline⟩ := bind_eq_ok.mp hline
    exact ⟨name, hname, (Except.ok.inj hline).symm⟩
  · obtain ⟨name, hname, hline⟩ := bind_eq_ok.mp hline
    exact ⟨name, hname, (Except.ok.inj hline).symm⟩

/-- The function is bound to its trampoline: by one field with the symbol and the sizes that the index has for
it, and by one method. Both the method and the trampoline use the slots of the index's layout, which is that of
the function. -/
def BoundDirectly (d : Document) (made : Option Trampoline.Output) (t : TypeRecord) (f : FunctionRecord)
    (declared : List Member) : Prop :=
  ∃ output entry text body, made = some output ∧ output.manifest.find? ⟨t.name, f.name⟩ = some entry ∧
    Trampoline.Made d output.artifacts t f entry ∧ entry.layout.IsCFrame d t f ∧
    Trampoline.UsesFrame ⟨t, f⟩ entry.layout ∧ signature f = .ok text ∧ PassesFrame f entry.layout body ∧
    declared = [.field (.direct entry.symbol entry.layout.size entry.layout.returnSize), .method text body]

/-- An instance function of a struct, which is not bound. -/
def isUnbound (t : TypeRecord) (f : FunctionRecord) : Bool := !f.isEvent && (t.kind = .structKind && !f.isStatic)

/-- What a wrapper declares for a function: exactly one of these cases is that of the function. -/
structure Served (d : Document) (made : Option Trampoline.Output) (t : TypeRecord) (f : FunctionRecord)
    (declared : List Member) : Prop where
  event : f.isEvent = true → ∃ text, signature f = .ok text ∧ declared = [.event text]
  unbound : isUnbound t f = true → declared = []
  direct : f.isEvent = false → isUnbound t f = false → ⟨t.name, f.name⟩ ∈ Trampoline.installed made →
    BoundDirectly d made t f declared
  byName : f.isEvent = false → isUnbound t f = false → ⟨t.name, f.name⟩ ∉ Trampoline.installed made →
    ∃ text body, signature f = .ok text ∧ lookupBody f = .ok body ∧
      declared = [.field (.lookup t.name f.name), .method text body]

/-- What a wrapper says about an instance function of a struct. -/
def unboundEntry (t : TypeRecord) (f : FunctionRecord) : ReportEntry :=
  ⟨FunctionId.display ⟨t.name, f.name⟩, .recovered "instance functions on structs are not bound"⟩

/-- The members of a wrapper are those of the exposed functions of its type, each served as it should be; and
what is reported are the instance functions of a struct, each once. -/
structure Serves (d : Document) (schema : BindingSchema) (made : Option Trampoline.Output) (t : TypeRecord)
    (entries : List ReportEntry) (members : List FunctionMember) : Prop where
  exposed : ∀ m ∈ members, m.1 ∈ t.functions ∧ schema.exposes m.1 = true
  reported : entries = ((t.functions.filter schema.exposes).filter (isUnbound t)).map (unboundEntry t)
  served : ∀ f ∈ t.functions, schema.exposes f = true → Served d made t f (membersOf members f)

/-- The file is that of the same type without functions, with the code of the members as the last part of its
declaration. -/
def Shows (c : BindingContext) (fast : List FunctionId) (t : TypeRecord) (a : Artifact)
    (members : List FunctionMember) : Prop :=
  ∃ nspace before declaration lead functions,
    renderType c fast (withoutFunctions t) = ([], .ok { a with contents := fileText nspace before declaration lead }) ∧
      a.contents = fileText nspace before declaration (lead ++ functions) ∧
      withoutBlanks functions = memberCode members

/-! ### Services -/

section
variable {fast : List FunctionId}

theorem serviceOf_event (h : f.isEvent = true) : serviceOf d fast ⟨t, f⟩ = .event := if_pos h

theorem serviceOf_unbound (h : isUnbound t f = true) :
    serviceOf d fast ⟨t, f⟩ = .unbound "instance functions on structs are not bound" := by
  unfold isUnbound at h
  obtain ⟨hevent, hstruct⟩ := Bool.and_eq_true_iff.mp h
  unfold serviceOf
  rw [if_neg (by simpa using hevent), if_pos hstruct]

theorem serviceOf_bound (hevent : f.isEvent = false) (hbound : isUnbound t f = false) :
    serviceOf d fast ⟨t, f⟩ =
      if fast.contains ⟨t.name, f.name⟩ then
        match FrameLayout.ofFunction d t f with
        | .ok layout => .direct layout
        | .error e => .byName (some ("frame layout unavailable, using reflection dispatch: " ++ e.message))
      else .byName none := by
  unfold isUnbound at hbound
  rw [hevent, Bool.not_false, Bool.true_and] at hbound
  unfold serviceOf
  rw [if_neg (by simp [hevent]), if_neg (by simp [hbound])]
  rfl

theorem serviceOf_direct (hevent : f.isEvent = false) (hbound : isUnbound t f = false)
    (hmem : ⟨t.name, f.name⟩ ∈ fast) (hlayout : FrameLayout.ofFunction d t f = .ok layout) :
    serviceOf d fast ⟨t, f⟩ = .direct layout := by
  rw [serviceOf_bound hevent hbound, if_pos (List.contains_iff_mem.mpr hmem), hlayout]

theorem serviceOf_byName (hevent : f.isEvent = false) (hbound : isUnbound t f = false)
    (hmem : ⟨t.name, f.name⟩ ∉ fast) : serviceOf d fast ⟨t, f⟩ = .byName none := by
  rw [serviceOf_bound hevent hbound, if_neg fun h => hmem (List.contains_iff_mem.mp h)]

end

/-! ### Members of services -/

section
variable {x : Candidate} {text : String}

theorem declared_event (htext : signature x.function = .ok text) :
    (eventMembers (x, .event) ++ fieldMembers (x, .event) ++ methodMembers (x, .event)).map (·.2) = [.event text] := by
  rw [eventMembers_of_ok rfl htext, fieldMembers_of_not_bound rfl, methodMembers_of_not_bound rfl]
  rfl

theorem declared_unbound (reason : String) :
    (eventMembers (x, .unbound reason) ++ fieldMembers (x, .unbound reason)
      ++ methodMembers (x, .unbound reason)).map (·.2) = [] := rfl

theorem declared_direct (htext : signature x.function = .ok text) (hbody : directBody x.function layout = .ok body) :
    (eventMembers (x, .direct layout) ++ fieldMembers (x, .direct layout)
        ++ methodMembers (x, .direct layout)).map (·.2) =
      [.field (.direct (trampolineSymbol x.id) layout.size layout.returnSize), .method text body] := by
  have hmethod : methodMembers (x, .direct layout) = [(x.function, .method text body)] :=
    methodMembers_of_ok rfl htext hbody
  rw [eventMembers_of_ne (by simp), hmethod]
  rfl

theorem declared_byName (htext : signature x.function = .ok text) (hbody : lookupBody x.function = .ok body) :
    (eventMembers (x, .byName none) ++ fieldMembers (x, .byName none) ++ methodMembers (x, .byName none)).map (·.2) =
      [.field (.lookup x.owner.name x.function.name), .method text body] := by
  have hmethod : methodMembers (x, .byName none) = [(x.function, .method text body)] :=
    methodMembers_of_ok rfl htext hbody
  rw [eventMembers_of_ne (by simp), hmethod]
  rfl

end

/-! ### The functions of a type -/

section
variable {c : BindingContext} {made : Option Trampoline.Output} {entries : List ReportEntry} {code : List Code}

theorem services_functions (c : BindingContext) (fast : List FunctionId) (t : TypeRecord) :
    (services c fast t).map (fun s => s.1.function) = t.functions.filter c.schema.exposes := by
  unfold services
  rw [List.map_map]
  exact List.map_id' _

theorem mem_services (fast : List FunctionId) (hf : f ∈ t.functions) (hexposed : c.schema.exposes f = true) :
    (⟨t, f⟩, serviceOf c.document fast ⟨t, f⟩) ∈ services c fast t :=
  List.mem_map_of_mem (List.mem_filter.mpr ⟨hf, hexposed⟩)

theorem functions_nodup (hd : c.document.Consistent) (ht : t ∈ c.document.types) : t.functions.Nodup :=
  List.Nodup.of_map _ (hd.accepts t ht).functionNames

variable (hmade : ∀ f ∈ t.functions, ⟨t.name, f.name⟩ ∈ Trampoline.installed made → ∃ output entry,
    made = some output ∧ output.manifest.find? ⟨t.name, f.name⟩ = some entry ∧
      Trampoline.Made c.document output.artifacts t f entry)
include hmade

theorem serviceEntry_eq (hf : f ∈ t.functions) :
    serviceEntry (⟨t, f⟩, serviceOf c.document (Trampoline.installed made) ⟨t, f⟩) =
      if isUnbound t f then some (unboundEntry t f) else none := by
  by_cases hunbound : isUnbound t f = true
  · rw [serviceOf_unbound hunbound, if_pos hunbound]
    rfl
  · rw [if_neg hunbound]
    replace hunbound := Bool.eq_false_iff.mpr hunbound
    cases hevent : f.isEvent with
    | true =>
      rw [serviceOf_event hevent]
      rfl
    | false =>
      -- That a layout is missing is never reported here: a function is installed only with one.
      by_cases hmem : ⟨t.name, f.name⟩ ∈ Trampoline.installed made
      · obtain ⟨output, entry, -, -, hentry⟩ := hmade f hf hmem
        rw [serviceOf_direct hevent hunbound hmem hentry.layout]
        rfl
      · rw [serviceOf_byName hevent hunbound hmem]
        rfl

variable (h : functionsCode c (Trampoline.installed made) t = (entries, .ok code))
include h

theorem reported_eq : entries = ((t.functions.filter c.schema.exposes).filter (isUnbound t)).map (unboundEntry t) := by
  obtain ⟨-, rfl, -⟩ := functionsCode_ok h
  rw [← Labelled.filterMap_if, services, List.filterMap_map]
  refine List.filterMap_congr fun f hf => ?_
  exact serviceEntry_eq hmade (List.mem_filter.mp hf).1

/-- Each exposed function is served by exactly the members that it should have. -/
theorem served (hd : c.document.Consistent) (ht : t ∈ c.document.types) (hf : f ∈ t.functions)
    (hexposed : c.schema.exposes f = true) :
    Served c.document made t f (membersOf (members (services c (Trampoline.installed made) t)) f) := by
  obtain ⟨-, -, hspelled⟩ := functionsCode_ok h
  have hs := mem_services (Trampoline.installed made) hf hexposed
  have hnodup : ((services c (Trampoline.installed made) t).map fun s => s.1.function).Nodup := by
    rw [services_functions]
    exact (functions_nodup hd ht).filter _
  obtain ⟨hevents, hbodies⟩ := hspelled _ hs
  have hmembers := membersOf_members hnodup hs
  dsimp only at hevents hmembers
  rw [hmembers]
  refine ⟨fun hevent => ?_, fun hunbound => ?_, fun hevent hunbound hmem => ?_, fun hevent hunbound hmem => ?_⟩
  · rw [serviceOf_event hevent] at hevents ⊢
    obtain ⟨text, htext⟩ := hevents rfl
    exact ⟨text, htext, declared_event htext⟩
  · rw [serviceOf_unbound hunbound]
    exact declared_unbound _
  · obtain ⟨output, entry, houtput, hfound, hentry⟩ := hmade f hf hmem
    rw [serviceOf_direct hevent hunbound hmem hentry.layout] at hbodies ⊢
    obtain ⟨text, body, htext, hbody⟩ := hbodies rfl
    refine ⟨output, entry, text, body, houtput, hfound, hentry, FrameLayout.isCFrame_ofFunction hentry.layout,
      Trampoline.usesFrame _ _, htext, directBody_passesFrame hbody, ?_⟩
    rw [declared_direct htext hbody, hentry.symbol_eq]
    rfl
  · rw [serviceOf_byName hevent hunbound hmem] at hbodies ⊢
    obtain ⟨text, body, htext, hbody⟩ := hbodies rfl
    exact ⟨text, body, htext, hbody, declared_byName htext hbody⟩

theorem serves (hd : c.document.Consistent) (ht : t ∈ c.document.types) :
    Serves c.document c.schema made t entries (members (services c (Trampoline.installed made) t)) where
  exposed m hm := by
    obtain ⟨s, hs, hmember⟩ := exists_memberOf hm
    have hmem : s.1.function ∈ t.functions.filter c.schema.exposes := by
      rw [← services_functions c (Trampoline.installed made) t]
      exact List.mem_map_of_mem hs
    rw [hmember.label]
    exact List.mem_filter.mp hmem
  reported := reported_eq hmade h
  served _ hf hexposed := served hmade h hd ht hf hexposed

end

/-- What is rendered depends on the functions that are passed, not on those that are installed. -/
theorem renderType_install (functions : Option (List FunctionId)) (c : BindingContext) (fast : List FunctionId)
    (t : TypeRecord) : renderType { c with fast := functions } fast t = renderType c fast t := rfl

end Wrapper

/-- The installed set alone decides how functions are reached, and both generators agree on the frame: in the
pass that writes wrappers, behind the one that makes trampolines, every class or struct whose wrapper is
rendered serves its exposed functions as they should be, and shows nothing of the others. -/
theorem dispatch_follows_installed (d : Document) (hd : d.validate = .ok ()) (schema : BindingSchema) (root : Path)
    (tree : FileTree) : ∃ tree₁ c made tree₂ output,
      RunOptions.writeTrampolines tree (.create d root schema) = (tree₁, .ok c, made) ∧
        Wrapper.writeOut tree₁ c = (tree₂, .ok output) ∧
        Wrapper.Collects c (Trampoline.installed made) output ∧ c.document = d ∧
        ∀ t ∈ d.types, t.kind ≠ .enumKind → ∀ entries a,
          Wrapper.renderType c (Trampoline.installed made) t = (entries, .ok a) →
          ∃ members, Wrapper.Shows c (Trampoline.installed made) t a members ∧
            Wrapper.Serves d schema made t entries members := by
  obtain ⟨tree₁, c, made, hrun, rfl, rfl, hfast, hmade⟩ := Trampoline.writeTrampolines_installs tree d root schema
  obtain ⟨tree₂, output, hwritten, hcollects⟩ := Wrapper.writeOut_collects hfast tree₁
  replace hd := Document.validate_eq_ok.mp hd
  refine ⟨tree₁, c, made, tree₂, output, hrun, hwritten, hcollects, rfl, fun t ht hkind entries a h => ?_⟩
  obtain ⟨nspace, before, declaration, lead, functions, hfunctions, hcontents, hwithout⟩ :=
    Wrapper.renderType_ok hkind h
  refine ⟨_, ⟨nspace, before, declaration, lead, functions, hwithout, hcontents, ?_⟩,
    Wrapper.serves (fun f hf hmem => Trampoline.made_of_installed hd hmade ht hf hmem) hfunctions hd ht⟩
  exact (Wrapper.functionsCode_ok hfunctions).1

namespace ActorDocument

/-- A function that asks for a trampoline and can have one. -/
def jump : FunctionRecord where
  name := "Jump"
  params := [⟨"Height", .float, .inward⟩, ⟨"Count", .integer .int32, .inOut⟩]
  returnType := some .bool
  flags := FunctionFlags.nativeCallable.union FunctionFlags.fastInvokeEligible

/-- A function that takes a text, which no frame holds. -/
def log : FunctionRecord where
  name := "Log"
  params := [⟨"Line", .string, .inward⟩]
  returnType := none
  flags := FunctionFlags.nativeCallable.union FunctionFlags.fastInvokeEligible

def tick : FunctionRecord := ⟨"Tick", [], none, FunctionFlags.event⟩

/-- A function that no schema exposes. -/
def secret : FunctionRecord := ⟨"Secret", [], none, .empty⟩

def actor : TypeRecord :=
  { TypeRecord.bare "Actor" "Engine" .classKind with functions := [jump, log, tick, secret] }

def document : Document := ⟨"5.4", DocumentAttributes.allowFastInvoke, [actor]⟩

/-- A project without files. -/
def tree : FileTree := ⟨[], [], []⟩

/-- The context of a run that makes trampolines. -/
def context : BindingContext := .create document ⟨"/project"⟩ .native

theorem entries_ids : (Trampoline.writeOut tree context).2.manifest.entries.map (·.id) = [⟨"Actor", "Jump"⟩] := by
  decide +kernel

theorem installed_eq : Trampoline.installed (some (Trampoline.writeOut tree context).2) = [⟨"Actor", "Jump"⟩] := by
  show FunctionId.sorted ((Trampoline.writeOut tree context).2.manifest.entries.map (·.id)) = _
  rw [entries_ids]
  simp [FunctionId.sorted, List.eraseDups_cons]

theorem rendered : ∃ a, Wrapper.renderType context [⟨"Actor", "Jump"⟩] actor = ([], .ok a) := ⟨_, rfl⟩

end ActorDocument

open ActorDocument in
/-- Of the functions of the document one is bound to its trampoline, one is looked up, one is an event and one
is not shown. -/
theorem dispatch_follows_installed_actor : ∃ tree' c made a members,
    RunOptions.writeTrampolines tree context = (tree', .ok c, made) ∧
      Trampoline.installed made = [⟨"Actor", "Jump"⟩] ∧
      Wrapper.renderType c (Trampoline.installed made) actor = ([], .ok a) ∧
      Wrapper.Shows c (Trampoline.installed made) actor a members ∧
      Wrapper.BoundDirectly document made actor jump (Wrapper.membersOf members jump) ∧
      (∃ text body, Wrapper.membersOf members log = [.field (.lookup "Actor" "Log"), .method text body]) ∧
      (∃ text, Wrapper.membersOf members tick = [.event text]) ∧ ∀ m ∈ members, m.1 ≠ secret := by
  obtain ⟨tree', c, made, -, -, hrun, -, -, -, hserves⟩ :=
    dispatch_follows_installed document rfl .native ⟨"/project"⟩ tree
  have hrun' := hrun
  rw [show BindingContext.create document ⟨"/project"⟩ .native = context from rfl,
    Trampoline.writeTrampolines_enabled (c := context) rfl rfl] at hrun'
  obtain ⟨-, hinstall⟩ := Prod.mk.inj hrun'
  obtain ⟨hc, hmade⟩ := Prod.mk.inj hinstall
  replace hc := Except.ok.inj hc
  have hinstalled : Trampoline.installed made = [⟨"Actor", "Jump"⟩] := hmade ▸ installed_eq
  rw [hinstalled] at hserves
  obtain ⟨a, hrendered⟩ := rendered
  rw [← Wrapper.renderType_install (some (Trampoline.writeOut tree context).2.functions), hc] at hrendered
  obtain ⟨members, hshows, hmembers⟩ := hserves actor List.mem_cons_self (by decide) [] a hrendered
  have hjump := hmembers.served jump (by decide) rfl
  have hlog := hmembers.served log (by decide) rfl
  have htick := hmembers.served tick (by decide) rfl
  refine ⟨tree', c, made, a, members, hrun, hinstalled, hinstalled.symm ▸ hrendered, hinstalled.symm ▸ hshows,
    hjump.direct rfl rfl (hinstalled.symm ▸ List.mem_cons_self), ?_, ?_, ?_⟩
  · obtain ⟨text, body, -, -, h⟩ := hlog.byName rfl rfl (by rw [hinstalled]; decide)
    exact ⟨text, body, h⟩
  · obtain ⟨text, -, h⟩ := htick.event rfl
    exact ⟨text, h⟩
  · intro m hm heq
    have hexposed := (hmembers.exposed m hm).2
    rw [heq] at hexposed
    cases hexposed

end EngineBridge
