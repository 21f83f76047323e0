import EngineBridge.Proofs.Project.Finished

/-! What a run that ends well leaves behind.

Its stages have finished, each below a directory of its own, of which none lies within another; so no stage undoes what
another has done, and in the end everything that is made of the document is there. Another run then has nothing to do. -/

namespace EngineBridge
open FileTree (Spares)

namespace RunOptions
variable {o : RunOptions} {t t₁ t₂ t' : FileTree} {d : Document} {c : BindingContext} {s : RunSummary}

/-- The context that a run starts with. -/
def context (o : RunOptions) (d : Document) : BindingContext := .create d o.project o.schema

/-- What is made of trampolines where all can be written. -/
def trampolines (o : RunOptions) (d : Document) : Option Trampoline.Output :=
  if (o.context d).fastInvokeEnabled then some (Trampoline.complete (o.context d)) else none

/-- The functions that have a trampoline where all can be written. -/
def fast (o : RunOptions) (d : Document) : List FunctionId := Trampoline.installed (o.trampolines d)

/-- The context of the wrappers and placeholders, when these functions have a trampoline. -/
def settled (o : RunOptions) (d : Document) (fast : List FunctionId) : BindingContext :=
  { o.context d with fast := some fast }

/-- What a run tells where all can be written. -/
def complete (o : RunOptions) (d : Document) : RunSummary where
  fast := o.fast d
  trampolineRoot := (o.trampolines d).map (·.root)
  checkpoint := none
  reports := ((o.trampolines d).map (·.report)).toList ++
    [(Wrapper.complete (o.settled d (o.fast d)) (o.fast d)).report, Placeholder.completeReport (o.settled d (o.fast d))]

/-- The tree has everything that a run makes of the document. -/
structure Finished (o : RunOptions) (d : Document) (t : FileTree) : Prop where
  trampolines : (o.context d).fastInvokeEnabled = true → Trampoline.Finished t (o.context d)
  wrappers : Wrapper.Finished t (o.settled d (o.fast d)) (o.fast d)
  placeholders : Placeholder.Finished t (o.settled d (o.fast d))

theorem trampolines_enabled (h : (o.context d).fastInvokeEnabled = true) :
    o.trampolines d = some (Trampoline.complete (o.context d)) ∧ (o.context d).fast = none := ⟨if_pos h, if_pos h⟩

theorem trampolines_disabled (h : ¬(o.context d).fastInvokeEnabled = true) :
    o.trampolines d = none ∧ writeTrampolines t (o.context d) = (t, .ok (o.settled d (o.fast d)), none) := by
  have hnone : o.trampolines d = none := if_neg h
  have hfast : (o.context d).fast = some [] := if_neg h
  have hsettled : o.settled d (o.fast d) = o.context d := by
    unfold settled fast
    rw [hnone, show Trampoline.installed none = [] from rfl, ← hfast]
  refine ⟨hnone, ?_⟩
  unfold writeTrampolines
  rw [if_neg h, hsettled]

/-- Where a run is finished, the next one has nothing to do. -/
theorem Finished.idle (h : o.Finished d t) : o.generate t d = (t, .ok (o.complete d)) := by
  have htrampolines : writeTrampolines t (o.context d) = (t, .ok (o.settled d (o.fast d)), o.trampolines d) := by
    by_cases henabled : (o.context d).fastInvokeEnabled = true
    · obtain ⟨hsome, hpending⟩ := o.trampolines_enabled henabled
      rw [Trampoline.writeTrampolines_enabled henabled hpending, (h.trampolines henabled).idle]
      unfold settled fast
      rw [hsome]
      rfl
    · obtain ⟨hnone, hmade⟩ := trampolines_disabled (t := t) henabled
      rw [hmade, hnone]
  obtain ⟨htree, hreport⟩ := h.placeholders.idle
  rw [generate_eq htrampolines (h.wrappers.idle rfl), htree]
  unfold RunSummary.ofStages complete
  rw [hreport]
  rfl

/-- What the pass of the trampolines leaves to the stages behind it, if it reports no failure. -/
theorem trampolines_of_success {made : Option Trampoline.Output} (ht : t.Proper)
    (hmodules : ∀ ty ∈ d.types, isIdentifier ty.module = true) (hnames : (d.types.map (·.name)).Nodup)
    (h : writeTrampolines t (o.context d) = (t₁, .ok c, made))
    (hok : ∀ output, made = some output → output.report.isSuccess = true) :
    t₁.Proper ∧ c = o.settled d (o.fast d) ∧ made.map (·.root) = (o.trampolines d).map (·.root) ∧
      made.map (·.report) = (o.trampolines d).map (·.report) ∧
      ((o.context d).fastInvokeEnabled = true → Trampoline.Finished t₁ (o.context d)) := by
  by_cases henabled : (o.context d).fastInvokeEnabled = true
  · obtain ⟨hsome, hpending⟩ := o.trampolines_enabled henabled
    rw [Trampoline.writeTrampolines_enabled henabled hpending] at h
    obtain ⟨rfl, hinstall⟩ := Prod.mk.inj h
    obtain ⟨hc, rfl⟩ := Prod.mk.inj hinstall
    obtain rfl := Except.ok.inj hc
    have hreport := hok _ rfl
    obtain ⟨hwrites, hsweep, o', hindex⟩ := Trampoline.parts_of_success hreport
    have houtput := Trampoline.output_of_parts hwrites hsweep hindex
    refine ⟨Trampoline.proper_writeOut ht, ?_, ?_, ?_, fun _ => ?_⟩
    · unfold settled fast
      rw [hsome, houtput]
      rfl
    · rw [hsome, houtput]
      rfl
    · rw [hsome, houtput]
      rfl
    · exact Trampoline.finished_of_success hmodules hnames ht hreport
  · obtain ⟨hnone, hmade⟩ := trampolines_disabled (t := t) henabled
    rw [hmade] at h
    obtain ⟨rfl, hrest⟩ := Prod.mk.inj h
    obtain ⟨hc, rfl⟩ := Prod.mk.inj hrest
    rw [hnone]
    exact ⟨ht, (Except.ok.inj hc).symm, rfl, rfl, fun h => absurd h henabled⟩

/-- The stages behind that of the trampolines write below directories of their own. -/
theorem stages_below (t : FileTree) (c : BindingContext) (fast : List FunctionId) : ∃ m,
    (Placeholder.writeOut (Wrapper.writes t c fast).1 c).1.Leads c.root m ∧
      Spares {l | Project.wrappers m <+: l} t (Wrapper.writes t c fast).1 ∧
      Spares {l | Project.placeholders m <+: l} (Wrapper.writes t c fast).1
        (Placeholder.writeOut (Wrapper.writes t c fast).1 c).1 := by
  obtain ⟨m, hleads, -⟩ := FileTree.exists_leads (Placeholder.writeOut (Wrapper.writes t c fast).1 c).1 c.root
  have hwrappers : Spares {l | Wrapper.Places c (Wrapper.writes t c fast).1 l} t (Wrapper.writes t c fast).1 :=
    Wrapper.writes_places
  have hplaceholders := Placeholder.writeOut_within (t := (Wrapper.writes t c fast).1) (c := c)
  exact ⟨m, hleads, hwrappers.mono fun l hl => (hplaceholders.within hl.within).below Wrapper.descends_managed hleads,
    hplaceholders.mono fun l hl => hl.below Placeholder.descends_definitions hleads⟩

/-- What each stage has finished is so in the end: the stages behind it spare its directory. -/
theorem finished_of_stages (ht : t₁.Proper) (hmodules : ∀ ty ∈ d.types, isIdentifier ty.module = true)
    (hnames : (d.types.map (·.name)).Nodup) (hc : c = o.settled d (o.fast d))
    (htrampolines : (o.context d).fastInvokeEnabled = true → Trampoline.Finished t₁ (o.context d))
    (h₂ : (Wrapper.writes t₁ c (o.fast d)).1 = t₂) (hwrappers : Wrapper.Finished t₂ c (o.fast d))
    (h₃ : (Placeholder.writeOut t₂ c).1 = t') (hplaceholders : Placeholder.Finished t' c) : o.Finished d t' := by
  subst hc h₂ h₃
  have hproper₂ : (Wrapper.writes t₁ (o.settled d (o.fast d)) (o.fast d)).1.Proper := Wrapper.proper_writes ht
  obtain ⟨m, hleads, hspares₂, hspares₃⟩ := stages_below t₁ (o.settled d (o.fast d)) (o.fast d)
  refine ⟨fun henabled => ?trampolines, fun a ha => ?wrappers, hplaceholders⟩
  case trampolines =>
    have hspares := (hspares₂.mono Set.subset_union_left).trans (hspares₃.mono Set.subset_union_right)
    refine (htrampolines henabled).beside hmodules hnames ht (Placeholder.proper_writeOut hproper₂) hspares hleads ?_
    rintro l hl (hwrapper | hplaceholder)
    · exact Project.not_wrappers_of_trampolines hl hwrapper
    · exact Project.not_trampolines_of_placeholders hplaceholder hl
  case wrappers =>
    exact FileTree.lasting_writeArtifact.beside Wrapper.descends_managed (Wrapper.descends_rendered ha) (hwrappers a ha)
      hspares₃ hleads fun l hl hplaceholder => Project.not_wrappers_of_placeholders hplaceholder hl

/-- A run that ends well: it made everything that the document asks for, and tells so. -/
structure Succeeded (o : RunOptions) (d : Document) (t' : FileTree) (s : RunSummary) : Prop where
  finished : o.Finished d t'
  summary : s = o.complete d
  wrappers : ∀ ty ∈ d.types, ∃ entries a, Wrapper.renderType (o.settled d (o.fast d)) (o.fast d) ty = (entries, .ok a)
  placeholders : ∀ ty ∈ Placeholder.typesOf d, ∃ a, Placeholder.renderType o.schema ty = .ok a

theorem succeeded_of_verdict (ht : t.Proper) (hvalid : d.validate = .ok ()) (h : o.generate t d = (t', .ok s))
    (hverdict : s.verdict = .ok ()) : o.Succeeded d t' s := by
  have hnames := (Document.validate_eq_ok.mp hvalid).names
  obtain ⟨t₁, c, made, t₂, output, htrampolines, hwrappers, rfl, hreports⟩ := generate_ok h
  have hsummary := Except.ok.inj (Prod.mk.inj (h.symm.trans (generate_eq htrampolines hwrappers))).2
  -- The verdict is that of each report.
  rw [RunSummary.verdict_eq_ok, hreports] at hverdict
  have hmade : ∀ x, made = some x → x.report.isSuccess = true := by
    rintro x rfl
    exact hverdict _ List.mem_cons_self
  have hok : output.report.isSuccess = true := hverdict _ (List.mem_append_right _ List.mem_cons_self)
  have hplaceholders : (Placeholder.writeOut t₂ c).2.report.isSuccess = true := hverdict _ (by simp)
  have hidentifiers := Project.names_of_success htrampolines hwrappers hok
  have hmodules : ∀ ty ∈ d.types, isIdentifier ty.module = true := fun ty hty => (hidentifiers ty hty).2
  obtain ⟨hproper₁, hc, hroot, hreport, hfinished⟩ := trampolines_of_success ht hmodules hnames htrampolines hmade
  have hfast : c.fastFunctions = .ok (o.fast d) := hc ▸ rfl
  have hrendered : ∀ ty ∈ c.document.types, ∃ entries a, Wrapper.renderType c (o.fast d) ty = (entries, .ok a) :=
    fun ty hty => Wrapper.renderType_of_success hfast hwrappers hok hty
  rw [Wrapper.writeOut_eq hfast] at hwrappers
  obtain ⟨rfl, houtput⟩ := Prod.mk.inj hwrappers
  obtain rfl := Except.ok.inj houtput
  have hall : o.Finished d (Placeholder.writeOut (Wrapper.writes t₁ c (o.fast d)).1 c).1 :=
    finished_of_stages hproper₁ hmodules hnames hc hfinished rfl (Wrapper.finished_of_success (hc ▸ hnames) hok) rfl
      (Placeholder.finished_of_success (hc ▸ hnames) hplaceholders)
  subst hc
  refine ⟨hall, ?_, hrendered, fun ty hty => Placeholder.renderType_of_success hplaceholders hty⟩
  rw [hsummary, Wrapper.outputOf_of_written (Wrapper.written_of_success hok)]
  unfold RunSummary.ofStages complete
  rw [hroot, hreport, Placeholder.report_of_written rfl (Placeholder.written_of_success hplaceholders)]
  rfl

/-! ### Where everything is -/

/-- The paths of all that a run makes of the document, when these functions have a trampoline. -/
def paths (o : RunOptions) (d : Document) (fast : List FunctionId) : List Path :=
  (((o.trampolines d).map (·.artifacts)).getD []).map (fun a => (o.context d).nativeRoot.join a.path) ++
    ((Wrapper.rendered (o.settled d fast) fast).map fun a => (o.context d).managedRoot.join a.path) ++
    ((Placeholder.generate (o.context d)).1.map fun a => (o.context d).definitionsRoot.join a.path)

/-- The paths end with different names of files, and each of these has one of the endings. -/
structure OwnNames (endings : List String) (ps : List Path) : Prop where
  distinct : (ps.map Path.fileName?).Nodup
  ended : ∀ p ∈ ps, ∃ n, p.fileName? = some n ∧ ∃ e ∈ endings, e.toList <:+ n.toList

namespace OwnNames
variable {es es' : List String} {ps ps' : List Path}

theorem nil (es : List String) : OwnNames es [] := ⟨List.nodup_nil, List.forall_mem_nil _⟩

theorem append (h : OwnNames es ps) (h' : OwnNames es' ps')
    (hendings : ∀ e ∈ es, ∀ e' ∈ es', ¬e.toList <:+ e'.toList ∧ ¬e'.toList <:+ e.toList) :
    OwnNames (es ++ es') (ps ++ ps') := by
  refine ⟨?_, fun p hp => ?_⟩
  · rw [List.map_append, List.nodup_append']
    refine ⟨h.distinct, h'.distinct, fun f hf hf' => ?_⟩
    obtain ⟨p, hp, rfl⟩ := List.mem_map.mp hf
    obtain ⟨p', hp', heq⟩ := List.mem_map.mp hf'
    obtain ⟨n, hn, e, he, hsuffix⟩ := h.ended p hp
    obtain ⟨n', hn', e', he', hsuffix'⟩ := h'.ended p' hp'
    obtain rfl : n = n' := Option.some.inj (hn.symm.trans (heq.symm.trans hn'))
    rcases List.suffix_or_suffix_of_suffix hsuffix hsuffix' with hends | hends
    · exact (hendings e he e' he').1 hends
    · exact (hendings e he e' he').2 hends
  · rcases List.mem_append.mp hp with hp | hp
    · obtain ⟨n, hn, e, he, hsuffix⟩ := h.ended p hp
      exact ⟨n, hn, e, List.mem_append_left _ he, hsuffix⟩
    · obtain ⟨n, hn, e, he, hsuffix⟩ := h'.ended p hp
      exact ⟨n, hn, e, List.mem_append_right _ he, hsuffix⟩

theorem single (root : Path) {n : String} (hn : Path.IsName n) : OwnNames [n] [root.join ⟨n⟩] := by
  have hname : (root.join ⟨n⟩).fileName? = some n := root.fileName?_child hn
  refine ⟨List.nodup_singleton _, fun p hp => ?_⟩
  rw [List.mem_singleton.mp hp]
  exact ⟨n, hname, n, List.mem_singleton_self n, List.suffix_refl _⟩

/-- Files of types are named for the types. -/
theorem types (root : Path) {types : List TypeRecord} {ending : String} {as : List Artifact}
    (hpaths : as.map (·.path) = types.map fun ty => Path.child ⟨ty.module⟩ (ty.name ++ ending))
    (hidentifiers : ∀ ty ∈ types, isIdentifier ty.name = true) (hfree : '/' ∉ ending.toList)
    (hnames : (types.map (·.name)).Nodup) : OwnNames [ending] (as.map fun a => root.join a.path) := by
  have hname : ∀ ty ∈ types,
      (root.join (Path.child ⟨ty.module⟩ (ty.name ++ ending))).fileName? = some (ty.name ++ ending) := fun ty hty => by
    have hn := isName_of_isIdentifier (hidentifiers ty hty) hfree
    obtain ⟨front, hfront⟩ := Path.segments_child_last ⟨ty.module⟩ hn
    exact Path.fileName?_join hfront hn
  have hfiles : (as.map fun a => (root.join a.path).fileName?) = types.map fun ty => some (ty.name ++ ending) := by
    rw [← List.map_congr_left hname]
    have hmap := congrArg (List.map fun p => (root.join p).fileName?) hpaths
    rwa [List.map_map, List.map_map, Function.comp_def, Function.comp_def] at hmap
  constructor
  case distinct =>
    rw [List.map_map, Function.comp_def, hfiles]
    exact List.pairwise_map.mpr ((List.pairwise_map.mp hnames).imp fun hne heq =>
      hne ((String.append_left_inj ending).mp (Option.some.inj heq)))
  case ended =>
    intro p hp
    obtain ⟨a, ha, rfl⟩ := List.mem_map.mp hp
    have hmem : (root.join a.path).fileName? ∈ as.map fun a => (root.join a.path).fileName? := List.mem_map_of_mem ha
    rw [hfiles] at hmem
    obtain ⟨ty, -, heq⟩ := List.mem_map.mp hmem
    refine ⟨_, heq.symm, ending, List.mem_singleton_self _, ?_⟩
    rw [String.toList_append]
    exact List.suffix_append _ _

/-- Files that are made of some types are named for these types. -/
theorem made (root : Path) {types : List TypeRecord} {ending : String} {f : TypeRecord → Option Artifact}
    (hf : ∀ ty a, f ty = some a → isIdentifier ty.name = true ∧ isIdentifier ty.module = true ∧
      a.path = Path.child ⟨ty.module⟩ (ty.name ++ ending))
    (hfree : '/' ∉ ending.toList) (hnames : (types.map (·.name)).Nodup) :
    OwnNames [ending] ((types.filterMap f).map fun a => root.join a.path) := by
  refine OwnNames.types root (Labelled.map_filterMap_eq fun ty a h => (hf ty a h).2.2) (fun ty hty => ?_) hfree
    (hnames.sublist (List.filter_sublist.map _))
  obtain ⟨a, ha⟩ := Option.isSome_iff_exists.mp (List.mem_filter.mp hty).2
  exact (hf ty a ha).1

section
variable {c : BindingContext} (hnames : (c.document.types.map (·.name)).Nodup)
include hnames

theorem trampolines : OwnNames [Trampoline.typeFileEnding, Trampoline.headerFile, Trampoline.manifestFile]
    ((Trampoline.complete c).artifacts.map fun a => c.nativeRoot.join a.path) := by
  have hpaths : ((Trampoline.madeGroups c).map Trampoline.fileOf).map (·.path) =
      ((Trampoline.madeGroups c).map (·.1.type)).map
        fun ty => Path.child ⟨ty.module⟩ (ty.name ++ Trampoline.typeFileEnding) := by
    rw [List.map_map, List.map_map]
    rfl
  have hidentifiers : ∀ ty ∈ (Trampoline.madeGroups c).map (·.1.type), isIdentifier ty.name = true := fun ty hty => by
    obtain ⟨x, hx, rfl⟩ := List.mem_map.mp hty
    exact Trampoline.isIdentifier_type hx
  have hgroups : (((Trampoline.madeGroups c).map (·.1.type)).map (·.name)).Nodup := by
    rw [List.map_map]
    exact Trampoline.names_of_groups hnames
  have hfiles := types c.nativeRoot hpaths hidentifiers Trampoline.typeFileEnding_slashFree hgroups
  have hall := (hfiles.append (single c.nativeRoot Trampoline.isName_headerFile) (by decide)).append
    (single c.nativeRoot Trampoline.isName_manifestFile) (by decide)
  have hartifacts : (Trampoline.complete c).artifacts = (Trampoline.madeGroups c).map Trampoline.fileOf ++
    [Trampoline.header] ++ [⟨⟨Trampoline.manifestFile⟩, (Trampoline.generate c).manifest.toText⟩] := rfl
  rw [hartifacts, List.map_append, List.map_append]
  exact hall

theorem wrappers (fast : List FunctionId) :
    OwnNames [".gen.cs"] ((Wrapper.rendered c fast).map fun a => c.managedRoot.join a.path) :=
  made c.managedRoot (fun _ _ h => Wrapper.rendered_path h) (by decide) hnames

theorem placeholders :
    OwnNames [".defs.cs"] ((Placeholder.generate c).1.map fun a => c.definitionsRoot.join a.path) := by
  rw [Placeholder.generated_eq]
  exact made c.definitionsRoot (fun _ _ h => Placeholder.generated_path h) (by decide)
    (hnames.sublist (List.filter_sublist.map _))

end

end OwnNames

/-- No two artifacts of a run have the same path. -/
theorem paths_distinct (hnames : (d.types.map (·.name)).Nodup) (fast : List FunctionId) :
    ((o.paths d fast).map Path.components).Nodup := by
  have htrampolines : OwnNames [Trampoline.typeFileEnding, Trampoline.headerFile, Trampoline.manifestFile]
      ((((o.trampolines d).map (·.artifacts)).getD []).map fun a => (o.context d).nativeRoot.join a.path) := by
    unfold trampolines
    split
    · exact OwnNames.trampolines hnames
    · exact .nil _
  have hall := (htrampolines.append (OwnNames.wrappers (c := o.settled d fast) hnames fast) (by decide)).append
    (OwnNames.placeholders (c := o.context d) hnames) (by decide)
  exact List.pairwise_map.mpr ((List.pairwise_map.mp hall.distinct).imp fun hne heq => hne (Path.fileName?_congr heq))

/-! ### What is there in the end -/

/-- Everything that a run makes of the document is there, as it is rendered for the functions that the summary tells. -/
structure Delivers (o : RunOptions) (d : Document) (t : FileTree) (s : RunSummary) : Prop where
  wrappers : ∀ ty ∈ d.types, ∃ entries a, Wrapper.renderType { o.context d with fast := some s.fast } s.fast ty =
    (entries, .ok a) ∧ t.holds ((o.context d).managedRoot.join (Wrapper.typePath ty)) a.contents = true
  placeholders : ∀ ty ∈ d.types, ty.kind ≠ .enumKind →
    t.isThere ((o.context d).definitionsRoot.join (Placeholder.typePath ty)) = true
  header : (o.context d).fastInvokeEnabled = true →
    t.holds ((o.context d).nativeRoot.join Trampoline.header.path) Trampoline.header.contents = true
  typeFiles : (o.context d).fastInvokeEnabled = true → ∀ ty ∈ d.types, ∀ made,
    (Trampoline.lowerGroup d (Trampoline.groupOf (o.context d) ty)).1 = made → made ≠ [] →
      t.holds ((o.context d).nativeRoot.join (Trampoline.typeFilePath ty)) (Trampoline.typeFile ty made).contents = true
  index : (o.context d).fastInvokeEnabled = true →
    t.holds ((o.context d).nativeRoot.join ⟨Trampoline.manifestFile⟩)
      (Trampoline.generate (o.context d)).manifest.toText = true

theorem Succeeded.delivers (h : o.Succeeded d t' s) (hnames : (d.types.map (·.name)).Nodup) : o.Delivers d t' s := by
  obtain ⟨hfinished, rfl, hwrappers, hplaceholders⟩ := h
  constructor
  case wrappers =>
    intro ty hty
    obtain ⟨entries, a, hrender⟩ := hwrappers ty hty
    obtain ⟨-, -, hpath⟩ := Wrapper.renderType_names hrender
    refine ⟨entries, a, hrender, ?_⟩
    rw [← hpath]
    exact hfinished.wrappers a (Wrapper.mem_rendered.mpr ⟨ty, hty, entries, hrender⟩)
  case placeholders =>
    intro ty hty hkind
    have hmem : ty ∈ Placeholder.typesOf d := List.mem_filter.mpr ⟨hty, by simpa using hkind⟩
    obtain ⟨a, hrender⟩ := hplaceholders ty hmem
    obtain ⟨-, -, hpath⟩ := Placeholder.renderType_path hrender
    rw [← hpath]
    exact hfinished.placeholders a (Placeholder.mem_generated.mpr ⟨ty, hmem, hrender⟩)
  case header =>
    intro henabled
    exact (hfinished.trampolines henabled).files _ Trampoline.header_mem_complete
  case typeFiles =>
    intro henabled ty hty made hmade hne
    subst hmade
    have hmem := Trampoline.typeFile_mem_complete (c := o.context d) hnames hty hne
    have hfile := (hfinished.trampolines henabled).files _ hmem
    exact hfile
  case index =>
    intro henabled
    have hfile := (hfinished.trampolines henabled).files _ Trampoline.index_mem_complete
    exact hfile

/-- A run that ends well has made everything that the document asks for, whatever was there before and whatever cannot be
written; and nothing that a run makes gets in the way of anything else. -/
theorem success_delivers (ht : t.Proper) (hvalid : d.validate = .ok ()) (h : o.generate t d = (t', .ok s)) :
    (s.verdict = .ok () → o.Delivers d t' s) ∧ ((o.paths d s.fast).map Path.components).Nodup := by
  have hnames := (Document.validate_eq_ok.mp hvalid).names
  exact ⟨fun hverdict => (succeeded_of_verdict ht hvalid h hverdict).delivers hnames, paths_distinct hnames s.fast⟩

open Project.ActorProject in
/-- The run of the actor ends well and makes its trampoline. -/
theorem success_delivers_actor : empty.Proper ∧ (document [actor]).validate = .ok () ∧ ∃ s,
    options.generate empty (document [actor]) = (first.1, .ok s) ∧ s.verdict = .ok () ∧
      options.Delivers (document [actor]) first.1 s := by
  obtain ⟨s, hran, hverdict⟩ := first_ends_well
  exact ⟨proper, rfl, s, hran, hverdict, (success_delivers proper rfl hran).1 hverdict⟩

/-! ### Another run -/

/-- A run with the same project and schema as one that ended well changes nothing and tells the same. -/
theorem generate_again {o' : RunOptions} (ht : t.Proper) (hvalid : d.validate = .ok ())
    (h : o.generate t d = (t', .ok s)) (hverdict : s.verdict = .ok ()) (hproject : o'.project = o.project)
    (hschema : o'.schema = o.schema) : o'.generate t' d = (t', .ok s) := by
  obtain ⟨hfinished, rfl, -⟩ := succeeded_of_verdict ht hvalid h hverdict
  have hsame : o'.generate t' d = o.generate t' d := by
    unfold generate
    rw [hproject, hschema]
  rw [hsame, hfinished.idle]

open Project.ActorProject in
/-- The run without the actor takes away what was left of it, and the next one finds nothing more to do. -/
theorem generate_again_swept : first.1.Proper ∧ (document []).validate = .ok () ∧ ∃ s,
    options.generate first.1 (document []) = (second.1, .ok s) ∧ s.verdict = .ok () ∧
      options.generate second.1 (document []) = (second.1, .ok s) := by
  have hproper := (first_run.leaves proper).proper
  obtain ⟨s, hran, hverdict⟩ := second_ends_well
  exact ⟨hproper, rfl, s, hran, hverdict, generate_again hproper rfl hran hverdict rfl rfl⟩

end RunOptions
end EngineBridge
