import EngineBridge.Proofs.Project.Stages

/-! Which trampolines the wrappers of a project bind, after any number of runs.

A run that ends well writes the wrappers of its own document, which bind only what the index then lists, and leaves all
other wrappers as they are. So a wrapper that binds something else is one that an earlier run wrote, of a type that the
last document does not have where the wrapper lies. -/

namespace EngineBridge
open FileTree (Spares)

theorem RunSummary.verdict_eq_ok {s : RunSummary} : s.verdict = .ok () ↔ ∀ r ∈ s.reports, r.isSuccess = true := by
  unfold RunSummary.verdict
  split
  · next r hfind =>
    have hfailed : r.isSuccess = false := by simpa using List.find?_some hfind
    refine ⟨fun h => (nomatch h), fun hall => ?_⟩
    rw [hall r (List.mem_of_find?_eq_some hfind)] at hfailed
    cases hfailed
  · next hnone => simpa using hnone

/-- The parts of a run, one after the other. -/
theorem RunOptions.generate_ok {o : RunOptions} {t t' : FileTree} {d : Document} {summary : RunSummary}
    (h : o.generate t d = (t', .ok summary)) : ∃ t₁ c made t₂ output,
      RunOptions.writeTrampolines t (.create d o.project o.schema) = (t₁, .ok c, made) ∧
        Wrapper.writeOut t₁ c = (t₂, .ok output) ∧ t' = (Placeholder.writeOut t₂ c).1 ∧
        summary.reports =
          (made.map (·.report)).toList ++ [output.report, (Placeholder.writeOut t₂ c).2.report] := by
  unfold RunOptions.generate at h
  dsimp only at h
  rcases htrampolines : RunOptions.writeTrampolines t (.create d o.project o.schema) with ⟨t₁, e | c, made⟩
  · rw [htrampolines] at h
    cases h
  · rcases hwrappers : Wrapper.writeOut t₁ c with ⟨t₂, e | output⟩
    · simp only [htrampolines, hwrappers] at h
      cases h
    · simp only [htrampolines, hwrappers] at h
      obtain ⟨rfl, hsummary⟩ := Prod.mk.inj h
      rw [← Except.ok.inj hsummary]
      exact ⟨t₁, c, made, t₂, output, rfl, hwrappers, rfl, rfl⟩

namespace Project
variable {project l : Location} {t t₁ t₂ t' : FileTree} {d : Document} {ds : List Document} {s : String}

/-! ### One run -/

/-- A run on the project takes a document from one tree to the other and ends well. -/
structure Run (project : Location) (t : FileTree) (d : Document) (t' : FileTree) : Prop where
  valid : d.validate = .ok ()
  succeeds : ∃ (o : RunOptions) (summary : RunSummary), t.locate o.project = .ok project ∧
    o.generate t d = (t', .ok summary) ∧ summary.verdict = .ok ()

/-- A run ends well if each of its stages does. -/
theorem succeeds_of_stages {o : RunOptions} {c c' : BindingContext} {fast : List FunctionId}
    (hc : .create d o.project o.schema = c) (henabled : c.fastInvokeEnabled = true)
    (hmade : (Trampoline.writeOut t c).2.report.isSuccess = true) (hfast : (Trampoline.writeOut t c).2.functions = fast)
    (hc' : { c with fast := some fast } = c') (h₁ : (Trampoline.writeOut t c).1 = t₁)
    (hoks : (Wrapper.outputOf t₁ c' fast).report.isSuccess = true) (h₂ : (Wrapper.writes t₁ c' fast).1 = t₂)
    (hplaceholders : (Placeholder.writeOut t₂ c').2.report.isSuccess = true) :
    ∃ summary, o.generate t d = ((Placeholder.writeOut t₂ c').1, .ok summary) ∧ summary.verdict = .ok () := by
  have hpending : c.fast = none := by
    subst hc
    exact if_pos henabled
  have hknown : c'.fastFunctions = .ok fast := hc' ▸ rfl
  have htrampolines : RunOptions.writeTrampolines t (.create d o.project o.schema) =
      (t₁, .ok c', some (Trampoline.writeOut t c).2) := by
    rw [hc, Trampoline.writeTrampolines_enabled henabled hpending, hfast, hc', h₁]
  have hwrappers := Wrapper.writeOut_eq (t := t₁) hknown
  rw [h₂] at hwrappers
  refine ⟨_, RunOptions.generate_eq htrampolines hwrappers, RunSummary.verdict_eq_ok.mpr ?_⟩
  simp [RunSummary.ofStages, hmade, hoks, hplaceholders]

/-- What a run leaves behind: the wrappers of its document, rendered for functions that the index lists, and all that
lies outside of the places where it writes. -/
structure Leaves (project : Location) (t : FileTree) (d : Document) (t' : FileTree) : Prop where
  proper : t'.Proper
  spares : Spares {l | trampolines project <+: l ∨ (∃ ty ∈ d.types, l = wrapper project ty) ∨ placeholders project <+: l}
    t t'
  shown : ∃ c fast, c.document = d ∧ (∀ ty ∈ d.types, Wrapper.Shown t' project c fast ty) ∧
    ∀ id ∈ fast, Lists t' project (trampolineSymbol id)

/-- Where the wrappers are written without a failure, the names of all types are identifiers. -/
theorem names_of_success {o : RunOptions} {c : BindingContext} {made : Option Trampoline.Output} {output : Wrapper.Output}
    (htrampolines : RunOptions.writeTrampolines t (.create d o.project o.schema) = (t₁, .ok c, made))
    (hwrappers : Wrapper.writeOut t₁ c = (t₂, .ok output)) (hok : output.report.isSuccess = true) :
    ∀ ty ∈ d.types, isIdentifier ty.name = true ∧ isIdentifier ty.module = true := by
  obtain ⟨t₁', c', made', hrun, hdocument, -, hfast, -⟩ := Trampoline.writeTrampolines_installs t d o.project o.schema
  obtain ⟨-, hcontext⟩ := Prod.mk.inj (htrampolines.symm.trans hrun)
  obtain rfl := Except.ok.inj (Prod.mk.inj hcontext).1
  intro ty hty
  obtain ⟨entries, a, hrender⟩ := Wrapper.renderType_of_success hfast hwrappers hok (hdocument ▸ hty)
  obtain ⟨hname, hmodule, -⟩ := Wrapper.renderType_names hrender
  exact ⟨hname, hmodule⟩

/-- The stages behind that of the trampolines change nothing in its directory. -/
theorem later_spares {c : BindingContext} {fast : List FunctionId} {output : Wrapper.Output}
    (hroot : t₁.locate c.root = .ok project) (hfast : c.fastFunctions = .ok fast)
    (hwrappers : Wrapper.writeOut t₁ c = (t₂, .ok output)) :
    Spares {l | ¬trampolines project <+: l} t₁ (Placeholder.writeOut t₂ c).1 := by
  have hspares := Wrapper.writeOut_spares hroot hfast hwrappers
  refine (hspares.mono ?_).trans ((Placeholder.writeOut_spares (hspares.locate hroot)).mono ?_)
  · rintro l ⟨ty, -, rfl⟩ htrampolines
    exact not_wrappers_of_trampolines htrampolines (wrapper_below ty)
  · exact fun l hplaceholders => not_trampolines_of_placeholders hplaceholders

theorem Run.leaves (h : Run project t d t') (ht : t.Proper) : Leaves project t d t' := by
  obtain ⟨o, summary, hroot, hran, hverdict⟩ := h.succeeds
  have hnames := (Document.validate_eq_ok.mp h.valid).names
  obtain ⟨t₁, c, made, t₂, output, htrampolines, hwrappers, rfl, hreports⟩ := RunOptions.generate_ok hran
  rw [RunSummary.verdict_eq_ok, hreports] at hverdict
  have hmade : ∀ x, made = some x → x.report.isSuccess = true := by
    rintro x rfl
    exact hverdict _ List.mem_cons_self
  have hok : output.report.isSuccess = true := hverdict _ (List.mem_append_right _ List.mem_cons_self)
  have hidentifiers := names_of_success htrampolines hwrappers hok
  obtain ⟨fast, hproper, rfl, hroot', hfast, hspares₁, hlists⟩ :=
    Trampoline.writeTrampolines_lists ht (fun ty hty => (hidentifiers ty hty).2) hnames hroot htrampolines hmade
  have hroot₁ : t₁.locate c.root = .ok project := hroot' ▸ hspares₁.locate hroot
  -- Each later stage spares what the earlier ones have left.
  have hspares₂ := Wrapper.writeOut_spares hroot₁ hfast hwrappers
  have hspares₃ := Placeholder.writeOut_spares (hspares₂.locate hroot₁)
  have hshown : ∀ ty ∈ c.document.types, Wrapper.Shown t₂ project c fast ty := fun ty hty =>
    Wrapper.shown_of_success hroot₁ hnames hfast hwrappers hok hty
  refine ⟨?_, ?_, c, fast, rfl, fun ty hty => ?_, fun id hid => ?_⟩
  · rw [Wrapper.writeOut_eq hfast] at hwrappers
    obtain ⟨rfl, -⟩ := Prod.mk.inj hwrappers
    exact Placeholder.proper_writeOut (Wrapper.proper_writes hproper)
  · refine (hspares₁.mono ?_).trans ((hspares₂.mono ?_).trans (hspares₃.mono ?_))
    · exact fun l hl => .inl hl
    · exact fun l hl => .inr (.inl hl)
    · exact fun l hl => .inr (.inr hl)
  · obtain ⟨entries, a, hrender, hfile⟩ := hshown ty hty
    exact ⟨entries, a, hrender, (hspares₃.file fun hl => not_wrappers_of_placeholders hl (wrapper_below ty)).mpr hfile⟩
  · exact (hlists id hid).spares (later_spares hroot₁ hfast hwrappers) fun hl => hl index_below

/-- Below the directory of the wrappers only those of the run's document are written. -/
theorem Leaves.file {content : ByteArray} (h : Leaves project t d t') (hl : wrappers project <+: l)
    (hother : ∀ ty ∈ d.types, l ≠ wrapper project ty) :
    t'.entry? l = some (.file content) ↔ t.entry? l = some (.file content) := by
  refine h.spares.file ?_
  rintro (htrampolines | ⟨ty, hty, hwrapper⟩ | hplaceholders)
  · exact not_wrappers_of_trampolines htrampolines hl
  · exact hother ty hty hwrapper
  · exact not_wrappers_of_placeholders hplaceholders hl

/-- The wrappers of the run's document bind only what the index lists. -/
theorem Leaves.lists {ty : TypeRecord} {text : String} (h : Leaves project t d t') (hd : d.validate = .ok ())
    (hcopies : d.CopiesQuietly) (hty : ty ∈ d.types) (hfile : t'.entry? (wrapper project ty) = some (.file text.toUTF8))
    (hs : s ∈ referencedSymbols text.toList) : Lists t' project s := by
  obtain ⟨c, fast, hdocument, hshown, hlists⟩ := h.shown
  have hnames : ∀ ty ∈ d.types, isIdentifier ty.name = true := fun ty hty => by
    obtain ⟨entries, a, hrender, -⟩ := hshown ty hty
    exact (Wrapper.renderType_names hrender).1
  obtain ⟨entries, a, hrender, hcontents⟩ := hshown ty hty
  have htext : text = a.contents := by
    rw [hcontents] at hfile
    injection hfile with hfile
    injection hfile with hbytes
    exact (String.toByteArray_inj.mp hbytes).symm
  have hspelt := Wrapper.speltQuietly (Document.validate_eq_ok.mp hd) hcopies hnames hty
  have hbinds := Wrapper.renderType_binds hspelt hrender
  obtain ⟨f, -, hfast, rfl⟩ := hbinds.mem_of_referenced (htext ▸ hs)
  exact hlists _ hfast

/-! ### All runs -/

/-- Runs on the project take documents, the last one first, from one tree to the other, and each ends well. -/
inductive History (project : Location) (t : FileTree) : List Document → FileTree → Prop
  | start : History project t [] t
  | run {ds : List Document} {d : Document} {t₁ t₂ : FileTree} :
    History project t ds t₁ → Run project t₁ d t₂ → History project t (d :: ds) t₂

/-- All that lies below the directory of the wrappers are wrappers of the documents of the runs. -/
theorem History.only_wrappers (h : History project t ds t') (ht : t.Proper)
    (hempty : ∀ l content, project <+: l → t.entry? l ≠ some (.file content)) :
    t'.Proper ∧ ∀ l content, wrappers project <+: l → t'.entry? l = some (.file content) →
      ∃ d ∈ ds, ∃ ty ∈ d.types, l = wrapper project ty := by
  induction h with
  | start => exact ⟨ht, fun l content hl hfile => absurd hfile (hempty l content ((List.prefix_append _ _).trans hl))⟩
  | @run ds d t₁ t₂ _ hrun ih =>
    obtain ⟨hproper, hwrappers⟩ := ih
    have hleaves := hrun.leaves hproper
    refine ⟨hleaves.proper, fun l content hl hfile => ?_⟩
    by_cases hlast : ∃ ty ∈ d.types, l = wrapper project ty
    · exact ⟨d, List.mem_cons_self, hlast⟩
    · have hother : ∀ ty ∈ d.types, l ≠ wrapper project ty := fun ty hty heq => hlast ⟨ty, hty, heq⟩
      obtain ⟨d', hd', hty⟩ := hwrappers l content hl ((hleaves.file hl hother).mp hfile)
      exact ⟨d', List.mem_cons_of_mem _ hd', hty⟩

/-- A wrapper that an earlier run wrote, of a type that the last document does not have there. -/
def Forgotten (project : Location) (d : Document) (ds : List Document) (l : Location) : Prop :=
  (∃ d' ∈ ds, ∃ ty ∈ d'.types, l = wrapper project ty) ∧ ∀ ty ∈ d.types, l ≠ wrapper project ty

/-- After any number of runs on a project that has no files at first, every symbol that a file below the directory of the
wrappers binds is listed by the index on disk, unless the file is a wrapper that was forgotten. -/
theorem bound_symbols_listed (ht : t.Proper) (hempty : ∀ l content, project <+: l → t.entry? l ≠ some (.file content))
    (h : History project t (d :: ds) t') (hcopies : d.CopiesQuietly) :
    ∀ (l : Location) (text : String), wrappers project <+: l → t'.entry? l = some (.file text.toUTF8) →
      ∀ s ∈ referencedSymbols text.toList, Lists t' project s ∨ Forgotten project d ds l := by
  intro l text hl hfile s hs
  obtain ⟨d', hd', ty, hty, hwrapper⟩ := (h.only_wrappers ht hempty).2 l _ hl hfile
  cases h with
  | @run _ _ t₁ _ hbefore hrun =>
    have hleaves := hrun.leaves (hbefore.only_wrappers ht hempty).1
    by_cases hlast : ∃ ty ∈ d.types, l = wrapper project ty
    · obtain ⟨ty, hty, rfl⟩ := hlast
      exact .inl (hleaves.lists hrun.valid hcopies hty hfile hs)
    · have hother : ∀ ty ∈ d.types, l ≠ wrapper project ty := fun ty hty heq => hlast ⟨ty, hty, heq⟩
      rcases List.mem_cons.mp hd' with rfl | hd'
      · exact absurd hwrapper (hother ty hty)
      · exact .inr ⟨⟨d', hd', ty, hty, hwrapper⟩, hother⟩

/-! ### A project with an actor -/

namespace ActorProject

/-- A function that asks for a trampoline and can have one. -/
def jump : FunctionRecord := ⟨"Jump", [], none, FunctionFlags.nativeCallable.union FunctionFlags.fastInvokeEligible⟩

def actor : TypeRecord := { TypeRecord.bare "Actor" "Engine" .classKind with functions := [jump] }

/-- A document with these types. -/
def document (types : List TypeRecord) : Document := ⟨"5.4", DocumentAttributes.allowFastInvoke, types⟩

def options : RunOptions where
  kind := .savedDocument
  input := ⟨"types.json"⟩
  project := ⟨"/project"⟩
  sourceDirectory := none
  ignore := none
  schema := .native
  source := .usual

def root : Location := ["project"]

/-- The project before the first run. -/
def empty : FileTree := ⟨[(root, .directory)], [], []⟩

def context (types : List TypeRecord) : BindingContext := .create (document types) options.project options.schema

/-- The only function that has a trampoline. -/
def fast : List FunctionId := [⟨"Actor", "Jump"⟩]

/-- The context of the wrappers of the first run. -/
def settled : BindingContext := { context [actor] with fast := some fast }

/-- What the first run does in the end, whose sweep has nothing to do: it writes the index, the wrapper and the
placeholder. -/
def indexed : FileTree × Except ExportError WriteOutcome :=
  (Trampoline.writes empty (context [actor])).1.writeArtifact (context [actor]).nativeRoot
    (Trampoline.index empty (context [actor]))

def wrapped : FileTree × List (Artifact × Except ExportError WriteOutcome) := Wrapper.writes indexed.1 settled fast

def first : FileTree × Placeholder.Output := Placeholder.writeOut wrapped.1 settled

/-- Of the first run it is evaluated where files lie and whether they can be written, but none of their texts. -/
theorem first_outcomes :
    (unwritten (Trampoline.writes empty (context [actor])).2).isEmpty = true ∧
      (Trampoline.writes empty (context [actor])).1.locate (context [actor]).nativeRoot = .ok (trampolines root) ∧
      Trampoline.stale (((Trampoline.writes empty (context [actor])).1.namesBelow (trampolines root)).map fun names =>
        names.foldl Path.child (context [actor]).nativeRoot) (Trampoline.current empty (context [actor])) = [] ∧
      (Trampoline.listed empty (context [actor])).entries.map (·.id) = fast ∧
      ((Trampoline.writes empty (context [actor])).1.write
        ((context [actor]).nativeRoot.join ⟨Trampoline.manifestFile⟩) .empty).2 = .ok () ∧
      (Wrapper.outputOf indexed.1 settled fast).report.isSuccess = true ∧
      (Placeholder.writeOut wrapped.1 settled).2.report.isSuccess = true := by
  decide +kernel

theorem proper : empty.Proper := by decide

theorem located : empty.locate options.project = .ok root := by decide

theorem modules : ∀ ty ∈ (context [actor]).document.types, isIdentifier ty.module = true := by decide

theorem distinct : ((context [actor]).document.types.map (·.name)).Nodup := by decide

theorem settled_fast : settled.fastFunctions = .ok fast := rfl

theorem no_leftovers : Trampoline.leftovers empty (context [actor]) = [] := by
  obtain ⟨-, hroot, hstale, -⟩ := first_outcomes
  have hperm := Trampoline.leftovers_perm hroot
  rw [hstale] at hperm
  exact hperm.eq_nil

theorem writeOut_indexed : (Trampoline.writeOut empty (context [actor])).1 = indexed.1 := by
  unfold indexed
  rw [Trampoline.writeOut_tree, Trampoline.indexWrite_of_no_leftovers no_leftovers]

/-- The first run makes a trampoline of the actor's function, and ends well. -/
theorem first_ends_well : ∃ summary,
    options.generate empty (document [actor]) = (first.1, .ok summary) ∧ summary.verdict = .ok () := by
  obtain ⟨hwrites, -, -, hlisted, hindex, hwrappers, hplaceholders⟩ := first_outcomes
  obtain ⟨o, ho⟩ := FileTree.writeArtifact_of_write (a := Trampoline.index empty (context [actor])) hindex
  rw [← Trampoline.indexWrite_of_no_leftovers no_leftovers] at ho
  have hfast : (Trampoline.writeOut empty (context [actor])).2.functions = fast := by
    unfold Trampoline.Output.functions
    rw [Trampoline.writeOut_manifest, hlisted]
    simp [FunctionId.sorted, fast, List.eraseDups_cons]
  have hsweep : (Trampoline.sweep empty (context [actor])).2.2 = [] := by
    rw [Trampoline.sweep_of_no_leftovers no_leftovers]
  have hreport : (Trampoline.writeOut empty (context [actor])).2.report.isSuccess = true :=
    Trampoline.success_of_parts (List.isEmpty_iff.mp hwrites) hsweep ho
  have hc : BindingContext.create (document [actor]) options.project options.schema = context [actor] := rfl
  have henabled : (context [actor]).fastInvokeEnabled = true := rfl
  have hc' : { context [actor] with fast := some fast } = settled := rfl
  have h₂ : (Wrapper.writes indexed.1 settled fast).1 = wrapped.1 := rfl
  unfold first
  exact succeeds_of_stages hc henabled hreport hfast hc' writeOut_indexed hwrappers h₂ hplaceholders

theorem first_run : Run root empty (document [actor]) first.1 := by
  obtain ⟨summary, hran, hverdict⟩ := first_ends_well
  exact ⟨rfl, options, summary, located, hran, hverdict⟩

theorem indexed_located : indexed.1.locate settled.root = .ok root := by
  have hspares := Trampoline.writeOut_spares proper modules distinct located
  rw [writeOut_indexed] at hspares
  exact hspares.locate located

/-- The actor's wrapper binds the trampoline of its function. -/
theorem wrapper_binds : ∃ a, Wrapper.renderType settled fast actor = ([], .ok a) ∧
    trampolineSymbol ⟨"Actor", "Jump"⟩ ∈ referencedSymbols a.contents.toList := by
  obtain ⟨code, hrender, hline⟩ : ∃ code,
      Wrapper.renderType settled fast actor = ([], .ok ⟨Wrapper.typePath actor, Code.render code⟩) ∧
        "static readonly Invocable Jump_Invocable = Invocable.Direct(\"SBFI_5Actor_4Jump\", 8, 0);" ∈
          Code.allLines code :=
    ⟨_, rfl, by decide +kernel⟩
  refine ⟨_, hrender, ?_⟩
  have hcall : directMark ++ ("SBFI_5Actor_4Jump".toList ++ ['"']) <:+:
      "static readonly Invocable Jump_Invocable = Invocable.Direct(\"SBFI_5Actor_4Jump\", 8, 0);".toList := by
    decide +kernel
  have hsymbol : trampolineSymbol ⟨"Actor", "Jump"⟩ = String.ofList "SBFI_5Actor_4Jump".toList := by decide
  rw [hsymbol]
  exact mem_referencedSymbols_of_call (by decide) (hcall.trans (infix_render hline))

theorem first_wrapper : ∃ text : String, FileTree.entry? first.1 (wrapper root actor) = some (.file text.toUTF8) ∧
    trampolineSymbol ⟨"Actor", "Jump"⟩ ∈ referencedSymbols text.toList := by
  obtain ⟨a, hrender, hbinds⟩ := wrapper_binds
  obtain ⟨-, -, -, -, -, hok, -⟩ := first_outcomes
  have hroot : wrapped.1.locate settled.root = .ok root := by
    unfold wrapped
    exact (Wrapper.writeOut_spares indexed_located settled_fast (Wrapper.writeOut_eq settled_fast)).locate indexed_located
  have hshown : Wrapper.Shown wrapped.1 root settled fast actor := by
    unfold wrapped
    exact Wrapper.shown_of_success indexed_located distinct settled_fast (Wrapper.writeOut_eq settled_fast) hok List.mem_cons_self
  obtain ⟨entries, b, hrender', hfile⟩ := hshown
  obtain rfl : a = b := Except.ok.inj (Prod.mk.inj (hrender.symm.trans hrender')).2
  have hfirst : FileTree.entry? first.1 (wrapper root actor) = some (.file a.contents.toUTF8) := by
    unfold first
    have hspares := Placeholder.writeOut_spares hroot
    exact (hspares.file fun hl => not_wrappers_of_placeholders hl (wrapper_below actor)).mpr hfile
  exact ⟨_, hfirst, hbinds⟩

theorem no_files : ∀ l content, root <+: l → empty.entry? l ≠ some (.file content) := by
  intro l content hl hfile
  have hnil : l ≠ [] := by
    rintro rfl
    exact absurd (List.prefix_nil.mp hl) (by decide)
  cases List.mem_singleton.mp (FileTree.mem_entries hnil hfile)

theorem copiesQuietly : (document [actor]).CopiesQuietly where
  nativeNames := by
    intro ty hty name hname
    obtain rfl := List.mem_singleton.mp hty
    cases hname
  signatures := by
    intro ty hty m hm
    obtain rfl := List.mem_singleton.mp hty
    cases hm

end ActorProject

open ActorProject in
/-- The wrapper of the actor binds the trampoline of its function, which the index lists. -/
theorem bound_symbols_listed_actor : empty.Proper ∧ (∀ l content, root <+: l → empty.entry? l ≠ some (.file content)) ∧
    History root empty [document [actor]] first.1 ∧ (document [actor]).CopiesQuietly ∧
      ∃ text : String, FileTree.entry? first.1 (wrapper root actor) = some (.file text.toUTF8) ∧
        trampolineSymbol ⟨"Actor", "Jump"⟩ ∈ referencedSymbols text.toList ∧
          Lists first.1 root (trampolineSymbol ⟨"Actor", "Jump"⟩) := by
  have hhistory : History root empty [document [actor]] first.1 := .run .start first_run
  obtain ⟨text, hfile, hbinds⟩ := first_wrapper
  refine ⟨proper, no_files, hhistory, copiesQuietly, text, hfile, hbinds, ?_⟩
  rcases bound_symbols_listed proper no_files hhistory copiesQuietly _ text (wrapper_below actor) hfile _ hbinds with
    hlisted | ⟨⟨d, hd, -⟩, -⟩
  · exact hlisted
  · cases hd

/-! ### The actor is removed -/

namespace ActorProject

/-- The header that the first run wrote is there when the second one starts. -/
theorem header_kept :
    first.1.holds ((context []).nativeRoot.join Trampoline.header.path) Trampoline.header.contents = true := by
  have hheader : Trampoline.Written empty (context [actor]) Trampoline.header := by
    obtain ⟨hwrites, -⟩ := first_outcomes
    have hartifact : Trampoline.header ∈ (Trampoline.generate (context [actor])).artifacts :=
      List.mem_append_right _ List.mem_cons_self
    rw [Trampoline.written_of_not_unwritten modules distinct hartifact, List.isEmpty_iff.mp hwrites]
    exact fun e => List.not_mem_nil
  have hindexed := Trampoline.holds_of_written modules distinct proper hheader
  rw [← Trampoline.writeOut_tree, writeOut_indexed] at hindexed
  have hlater : Spares {l | ¬trampolines root <+: l} indexed.1 first.1 := by
    unfold first wrapped
    exact later_spares indexed_located settled_fast (Wrapper.writeOut_eq settled_fast)
  refine hlater.holds hindexed fun {l} hl hbelow => hbelow ?_
  have hplace : l ∈ first.1.placeOf (context []).nativeRoot Trampoline.header := hl
  rw [FileTree.eq_of_placeOf (FileTree.leads_of_locate (hlater.locate indexed_located)) Trampoline.descends_native
    (Path.descends_name Trampoline.isName_headerFile) hplace]
  exact List.prefix_append _ _

/-- The file of the actor's trampolines. -/
def leftover : Path := ["Engine", "Actor.FastInvoke.gen.cpp"].foldl Path.child (context []).nativeRoot

/-- The tree after the sweep of the second run. -/
def swept : FileTree × List Path × List ReportEntry := Trampoline.removeFiles first.1 [leftover]

theorem second_outcomes :
    first.1.locate (context []).nativeRoot = .ok (trampolines root) ∧
      Trampoline.stale ((first.1.namesBelow (trampolines root)).map fun names =>
        names.foldl Path.child (context []).nativeRoot)
          [(context []).nativeRoot.join Trampoline.header.path] = [leftover] ∧
      swept.2.2 = [] ∧
      (swept.1.write ((context []).nativeRoot.join ⟨Trampoline.manifestFile⟩) .empty).2 = .ok () := by
  decide +kernel

/-- The context of the wrappers of the second run. -/
def idle : BindingContext := { context [] with fast := some [] }

/-- The tree after the second run, which has neither wrappers nor placeholders to write. -/
def second : FileTree × Trampoline.Output := Trampoline.writeOut first.1 (context [])

/-- The second run has nothing to write but the index, and sweeps the actor's file. -/
theorem second_sweeps : unwritten (Trampoline.writes first.1 (context [])).2 = [] ∧
    Trampoline.sweep first.1 (context []) = swept := by
  obtain ⟨hroot, hstale, -⟩ := second_outcomes
  have hartifacts : (Trampoline.generate (context [])).artifacts = [Trampoline.header] := rfl
  obtain ⟨hunwritten, hsweep, hperm⟩ := Trampoline.leftovers_of_header hartifacts header_kept hroot
  rw [hstale] at hperm
  refine ⟨hunwritten, ?_⟩
  unfold swept
  rw [hsweep, List.perm_singleton.mp hperm]

theorem second_succeeds : (Trampoline.writeOut first.1 (context [])).2.report.isSuccess = true := by
  obtain ⟨-, -, hswept, hindex⟩ := second_outcomes
  obtain ⟨hunwritten, hsweep⟩ := second_sweeps
  obtain ⟨o, ho⟩ := FileTree.writeArtifact_of_write (a := Trampoline.index first.1 (context [])) hindex
  rw [← hsweep] at hswept ho
  exact Trampoline.success_of_parts hunwritten hswept ho

theorem first_located : first.1.locate options.project = .ok root := (first_run.leaves proper).spares.locate located

theorem second_manifest : (Trampoline.writeOut first.1 (context [])).2.manifest = ⟨"5.4", []⟩ := by
  rw [Trampoline.writeOut_manifest]
  rfl

/-- The second run makes no trampolines, and ends well. -/
theorem second_ends_well : ∃ summary,
    options.generate first.1 (document []) = (second.1, .ok summary) ∧ summary.verdict = .ok () := by
  have hfunctions : (Trampoline.writeOut first.1 (context [])).2.functions = [] := by
    unfold Trampoline.Output.functions
    rw [second_manifest]
    simp [FunctionId.sorted]
  have hc : BindingContext.create (document []) options.project options.schema = context [] := rfl
  have henabled : (context []).fastInvokeEnabled = true := rfl
  have hc' : { context [] with fast := some [] } = idle := rfl
  have hwrappers : ∀ t, (Wrapper.outputOf t idle []).report.isSuccess = true := fun t => rfl
  have hplaceholders : ∀ t, (Placeholder.writeOut t idle).2.report.isSuccess = true := fun t => rfl
  have h₂ : ∀ t, (Wrapper.writes t idle []).1 = t := fun t => rfl
  have hkept : ∀ t, (Placeholder.writeOut t idle).1 = t := fun t => rfl
  have hrun := succeeds_of_stages hc henabled second_succeeds hfunctions hc' rfl (hwrappers _) (h₂ _) (hplaceholders _)
  rw [hkept] at hrun
  exact hrun

theorem second_run : Run root first.1 (document []) second.1 := by
  obtain ⟨summary, hran, hverdict⟩ := second_ends_well
  exact ⟨rfl, options, summary, first_located, hran, hverdict⟩

/-- The index that the second run writes has no entries. -/
theorem unlisted : ¬Lists second.1 root (trampolineSymbol ⟨"Actor", "Jump"⟩) := by
  rintro ⟨m, hfile, e, he, hsymbol⟩
  have hindex : FileTree.entry? second.1 (index root) = some (.file (⟨"5.4", []⟩ : TrampolineManifest).toText.toUTF8) := by
    unfold second
    rw [← second_manifest]
    exact Trampoline.index_of_success (first_run.leaves proper).proper (by decide) (by decide) first_located second_succeeds
  rw [hindex] at hfile
  injection hfile with hfile
  injection hfile with hbytes
  have hquoted := TrampolineManifest.quoted_of_entry he
  rw [hsymbol, ← String.toByteArray_inj.mp hbytes] at hquoted
  revert hquoted
  decide +kernel

end ActorProject

open ActorProject in
/-- After a run without the actor its wrapper is still there and binds the trampoline, which the index lists no more. -/
theorem forgotten_wrapper_binds_unlisted : empty.Proper ∧
    (∀ l content, root <+: l → empty.entry? l ≠ some (.file content)) ∧
      History root empty [document [], document [actor]] second.1 ∧
        (∃ text : String, FileTree.entry? second.1 (wrapper root actor) = some (.file text.toUTF8) ∧
          trampolineSymbol ⟨"Actor", "Jump"⟩ ∈ referencedSymbols text.toList) ∧
            ¬Lists second.1 root (trampolineSymbol ⟨"Actor", "Jump"⟩) := by
  obtain ⟨text, hfile, hbinds⟩ := first_wrapper
  have hleaves := second_run.leaves (first_run.leaves proper).proper
  have hkept := (hleaves.file (wrapper_below actor) fun ty hty => nomatch hty).mpr hfile
  exact ⟨proper, no_files, .run (.run .start first_run) second_run, ⟨text, hkept, hbinds⟩, unlisted⟩

end Project
end EngineBridge
