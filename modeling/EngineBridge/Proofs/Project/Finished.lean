import EngineBridge.Proofs.Project.History

/-! What a stage leaves behind that reports no failure.

It has written everything that it makes, and what it tells then depends on its context only. A stage that finds
everything as it leaves it writes nothing, takes nothing away and tells the same. -/

namespace EngineBridge
open FileTree (Spares Leads)

theorem unwritten_of_ok {as : List Artifact} {o : WriteOutcome} :
    unwritten (as.map fun a => (a, .ok o)) = [] := by
  unfold unwritten
  rw [List.filterMap_map]
  exact List.filterMap_eq_nil_iff.mpr fun a _ => rfl

/-! ### Trampolines -/

namespace Trampoline
variable {t t' : FileTree} {c : BindingContext}

/-- What the pass makes where all can be written and nothing is left over. -/
def complete (c : BindingContext) : Output :=
  { generate c with artifacts := (generate c).artifacts ++ [⟨⟨manifestFile⟩, (generate c).manifest.toText⟩] }

/-- The tree has all files of the pass and the index, and no other files of trampolines. -/
structure Finished (t : FileTree) (c : BindingContext) : Prop where
  files : ∀ a ∈ (complete c).artifacts, t.holds (c.nativeRoot.join a.path) a.contents = true
  swept : ∀ p ∈ t.walk c.nativeRoot, (typeOfPath? p).isSome = true →
    ∃ a ∈ (generate c).artifacts, p = c.nativeRoot.join a.path

theorem mem_complete {a : Artifact} : a ∈ (complete c).artifacts ↔
    a ∈ (generate c).artifacts ∨ a = ⟨⟨manifestFile⟩, (generate c).manifest.toText⟩ := by
  simp [complete]

theorem header_mem_complete : header ∈ (complete c).artifacts :=
  mem_complete.mpr (.inl (mem_artifacts_iff.mpr (.inr rfl)))

theorem index_mem_complete : ⟨⟨manifestFile⟩, (generate c).manifest.toText⟩ ∈ (complete c).artifacts :=
  mem_complete.mpr (.inr rfl)

/-- A type whose functions have trampolines has a file of them. -/
theorem typeFile_mem_complete {ty : TypeRecord} (hnames : (c.document.types.map (·.name)).Nodup)
    (hty : ty ∈ c.document.types) (hmade : (lowerGroup c.document (groupOf c ty)).1 ≠ []) :
    typeFile ty (lowerGroup c.document (groupOf c ty)).1 ∈ (complete c).artifacts := by
  have hcandidates : (groupOf c ty).candidates ≠ [] := by
    intro hnil
    apply hmade
    unfold lowerGroup
    rw [hnil]
    rfl
  have hgroup : groupOf c ty ∈ groups c := by
    rw [groups_eq hnames]
    exact List.mem_filter.mpr ⟨List.mem_map_of_mem hty, by simpa using hcandidates⟩
  have hgroups : (groupOf c ty, lowerGroup c.document (groupOf c ty)) ∈ madeGroups c :=
    List.mem_filter.mpr ⟨List.mem_map_of_mem hgroup, by simpa using hmade⟩
  exact mem_complete.mpr (.inl (mem_artifacts_iff.mpr (.inl ⟨_, hgroups, rfl⟩)))

theorem listed_of_written (h : unwritten (writes t c).2 = []) : listed t c = (generate c).manifest := by
  unfold listed keptEntries
  rw [h]
  simp

/-- What the pass tells where no part of it failed. -/
theorem output_of_parts {o : WriteOutcome} (hwrites : unwritten (writes t c).2 = []) (hsweep : (sweep t c).2.2 = [])
    (hindex : (indexWrite t c).2 = .ok o) : (writeOut t c).2 = { complete c with removed := (sweep t c).2.1 } := by
  have hreport : (generate c).report.addAll [] = (generate c).report := by simp [Report.addAll]
  rw [writeOut_eq, hwrites, hsweep, hindex]
  unfold index
  rw [listed_of_written hwrites]
  simp only [indexEntries, List.map_nil, List.append_nil, hreport]
  rfl

section
variable (hmodules : ∀ ty ∈ c.document.types, isIdentifier ty.module = true)
  (hnames : (c.document.types.map (·.name)).Nodup)
include hmodules hnames

theorem descends_complete {a : Artifact} (ha : a ∈ (complete c).artifacts) : a.path.Descends := by
  rcases mem_complete.mp ha with ha | rfl
  · exact descends_artifact hmodules hnames ha
  · exact Path.descends_name isName_manifestFile

theorem finished_of_success (ht : t.Proper) (hok : (writeOut t c).2.report.isSuccess = true) :
    Finished (writeOut t c).1 c := by
  obtain ⟨hwrites, hsweep, o, hindex⟩ := parts_of_success hok
  rw [writeOut_tree]
  constructor
  case files =>
    intro a ha
    rcases mem_complete.mp ha with ha | rfl
    · refine holds_of_written hmodules hnames ht ((written_of_not_unwritten hmodules hnames ha).mpr fun e => ?_)
      rw [hwrites]
      exact List.not_mem_nil
    · rw [← listed_of_written hwrites]
      exact FileTree.writeArtifact_ok (a := index t c) (Prod.ext rfl hindex)
  case swept =>
    intro p hp htype
    have hremoved : ∀ q ∈ leftovers t c, q ∈ (sweep t c).2.1 := fun q hq => by
      rcases removeFiles_told rfl hq with hgone | ⟨e, he⟩
      · exact hgone
      · have hkept : ReportEntry.mk q.text (.failed e.message) ∈ (sweep t c).2.2 := he
        rw [hsweep] at hkept
        cases hkept
    obtain ⟨x, hx, rfl, -⟩ := written_of_walk hmodules hnames ht hremoved hp htype
    exact ⟨fileOf x, mem_artifacts_iff.mpr (.inl ⟨x, hx, rfl⟩), rfl⟩

/-- What the pass has finished stays so while its directory is spared. -/
theorem Finished.beside {S : Set Location} {m : Location} (h : Finished t c) (ht : t.Proper) (ht' : t'.Proper)
    (hspares : Spares S t t') (hroot : t'.Leads c.root m) (hS : ∀ l, Project.trampolines m <+: l → l ∉ S) :
    Finished t' c := by
  refine ⟨fun a ha => ?_, fun p hp htype => ?_⟩
  · exact FileTree.lasting_writeArtifact.beside descends_native (descends_complete hmodules hnames ha) (h.files a ha)
      hspares hroot hS
  · obtain ⟨l, names, content, hl, hfile, rfl⟩ := ht'.mem_walk.mp hp
    -- The header shows that the directory was there before.
    have hheader := h.files header header_mem_complete
    obtain ⟨k, hk, -⟩ := FileTree.holds_iff.mp hheader
    obtain ⟨l', hl', -⟩ := FileTree.locate_child nativeRoot_solid isName_headerFile hk
    obtain rfl : l' = l := Except.ok.inj ((hspares.locate hl').symm.trans hl)
    have hbelow : Project.trampolines m <+: l' ++ names := by
      rw [hroot descends_native hl]
      exact List.prefix_append _ _
    exact h.swept _ (ht.mem_walk.mpr ⟨l', names, content, hl', (hspares.file (hS _ hbelow)).mp hfile, rfl⟩) htype

end

/-- Where the pass is finished it has nothing to do. -/
theorem Finished.idle (h : Finished t c) : writeOut t c = (t, complete c) := by
  have hwrites : writes t c = (t, (generate c).artifacts.map (·, .ok .unchanged)) :=
    FileTree.writeAll_idle FileTree.lasting_writeArtifact fun a ha => h.files a (mem_complete.mpr (.inl ha))
  have hunwritten : unwritten (writes t c).2 = [] := by
    rw [hwrites]
    exact unwritten_of_ok
  have hleftovers : leftovers t c = [] := by
    refine List.eq_nil_iff_forall_not_mem.mpr fun p hp => ?_
    obtain ⟨hwalk, htype, hother⟩ := mem_leftovers.mp hp
    rw [hwrites] at hwalk
    obtain ⟨a, ha, rfl⟩ := h.swept p hwalk htype
    have hwritten : Written t c a := ⟨.unchanged, by
      rw [hwrites]
      exact List.mem_map_of_mem ha⟩
    exact hother _ (mem_current.mpr ⟨a, hwritten, rfl⟩) rfl rfl
  have hsweep := sweep_of_no_leftovers hleftovers
  have hindex : indexWrite t c = (t, .ok .unchanged) := by
    rw [indexWrite_of_no_leftovers hleftovers, hwrites]
    unfold index
    rw [listed_of_written hunwritten]
    exact FileTree.writeArtifact_of_holds (h.files _ index_mem_complete)
  have houtput := output_of_parts hunwritten (by rw [hsweep]) (by rw [hindex])
  rw [hsweep] at houtput
  refine Prod.ext ?_ houtput
  rw [writeOut_tree, hindex]

end Trampoline

/-! ### Wrappers -/

namespace Wrapper
variable {t t' : FileTree} {c : BindingContext} {fast : List FunctionId}

/-- What the stage makes where all can be written. -/
def complete (c : BindingContext) (fast : List FunctionId) : Output where
  root := c.managedRoot
  artifacts := rendered c fast
  report := (Report.start .wrappers).addAll (c.document.types.flatMap fun ty => (outcomeOf c fast ty).2)

/-- The tree has all wrappers. -/
def Finished (t : FileTree) (c : BindingContext) (fast : List FunctionId) : Prop :=
  ∀ a ∈ (complete c fast).artifacts, t.holds (c.managedRoot.join a.path) a.contents = true

theorem outputOf_of_written (h : unwritten (writes t c fast).2 = []) : outputOf t c fast = complete c fast := by
  unfold outputOf complete
  rw [h]
  simp [Report.addAll]

theorem finished_of_success (hnames : (c.document.types.map (·.name)).Nodup)
    (hok : (outputOf t c fast).report.isSuccess = true) : Finished (writes t c fast).1 c fast :=
  FileTree.writeAll_complete FileTree.lasting_writeArtifact (Path.join_solid descends_managed.solid)
    (fun _ ha => descends_rendered ha) (segments_rendered hnames) rfl (written_of_success hok)

theorem Finished.idle (h : Finished t c fast) (hfast : c.fastFunctions = .ok fast) :
    writeOut t c = (t, .ok (complete c fast)) := by
  have hwrites : writes t c fast = (t, (rendered c fast).map (·, .ok .unchanged)) :=
    FileTree.writeAll_idle FileTree.lasting_writeArtifact h
  have hunwritten : unwritten (writes t c fast).2 = [] := by
    rw [hwrites]
    exact unwritten_of_ok
  rw [writeOut_eq hfast, outputOf_of_written hunwritten, hwrites]

end Wrapper

/-! ### Placeholders -/

namespace Placeholder
variable {t t' : FileTree} {c : BindingContext} {ty : TypeRecord}

/-- What the stage reports where all can be written. -/
def completeReport (c : BindingContext) : Report :=
  (generate c).2.addAll ((generate c).1.map fun a => ⟨a.path.text, .success⟩)

/-- The tree has something at the path of each placeholder. -/
def Finished (t : FileTree) (c : BindingContext) : Prop :=
  ∀ a ∈ (generate c).1, t.isThere (c.definitionsRoot.join a.path) = true

/-- The placeholders lead along names of their own. -/
theorem segments_generated (hnames : (c.document.types.map (·.name)).Nodup) :
    ((generate c).1.map (·.path.segments)).Nodup := by
  rw [generated_eq]
  exact segments_of_types (fun _ _ h => generated_path h) (by decide) (hnames.sublist (List.filter_sublist.map _))

theorem entryOf_of_written {results : List (Artifact × Except ExportError WriteOutcome)}
    (h : unwritten results = []) : results.map entryOf = results.map fun r => ⟨r.1.path.text, .success⟩ := by
  refine List.map_congr_left fun ⟨a, r⟩ hr => ?_
  cases r with
  | ok o => rfl
  | error e =>
    have hunwritten := Trampoline.mem_unwritten.mpr hr
    rw [h] at hunwritten
    cases hunwritten

theorem report_of_written {results : List (Artifact × Except ExportError WriteOutcome)}
    (h : t.writeAll FileTree.writeIfAbsent c.definitionsRoot (generate c).1 = (t', results))
    (hresults : unwritten results = []) : (writeOut t c).2.report = completeReport c := by
  unfold completeReport
  rw [← FileTree.writeAll_artifacts h, List.map_map, Function.comp_def, ← entryOf_of_written hresults]
  unfold writeOut
  dsimp only
  rw [h]

theorem written_of_success (hok : (writeOut t c).2.report.isSuccess = true) :
    unwritten (t.writeAll FileTree.writeIfAbsent c.definitionsRoot (generate c).1).2 = [] := by
  refine unwritten_eq_nil hok fun u hu => List.mem_append_right _ ?_
  exact List.mem_map.mpr ⟨_, Trampoline.mem_unwritten.mp hu, rfl⟩

/-- Where no failure is reported, the placeholders of all classes and structs have been rendered. -/
theorem renderType_of_success (hok : (writeOut t c).2.report.isSuccess = true) (hty : ty ∈ typesOf c.document) :
    ∃ a, renderType c.schema ty = .ok a := by
  cases hrender : renderType c.schema ty with
  | ok a => exact ⟨a, rfl⟩
  | error e =>
    have hfailed : ReportEntry.mk ty.name (.failed e.message) ∈ (outcomeOf c.schema ty).2 := by
      unfold outcomeOf
      rw [hrender]
      exact List.mem_cons_self
    cases Report.isSuccess_iff.mp hok _ (List.mem_append_left _ (List.mem_append_right _
      (List.mem_flatMap.mpr ⟨_, List.mem_map_of_mem hty, hfailed⟩)))

theorem finished_of_success (hnames : (c.document.types.map (·.name)).Nodup)
    (hok : (writeOut t c).2.report.isSuccess = true) : Finished (writeOut t c).1 c :=
  FileTree.writeAll_complete FileTree.lasting_writeIfAbsent (Path.join_solid descends_definitions.solid)
    (fun _ ha => descends_generated ha) (segments_generated hnames) rfl (written_of_success hok)

theorem Finished.idle (h : Finished t c) : (writeOut t c).1 = t ∧ (writeOut t c).2.report = completeReport c := by
  have hwrites := FileTree.writeAll_idle FileTree.lasting_writeIfAbsent h
  refine ⟨?_, report_of_written hwrites unwritten_of_ok⟩
  unfold writeOut
  dsimp only
  rw [hwrites]

end Placeholder
end EngineBridge
