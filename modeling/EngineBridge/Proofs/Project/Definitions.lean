import EngineBridge.Proofs.Model.Reload
import EngineBridge.Proofs.Project.Confinement

/-! What becomes of the files that belong to the user.

A placeholder is written where nothing is, and from then on it is the user's. No stage of a run writes over such a file
or takes it away: the files of the other stages and the kept document have other endings, and the stage that makes
placeholders finds the file where it is. So between two edits these files only become more. -/

namespace EngineBridge
open Outcome
open Path (IsName Descends)
open FileTree (Spares)

variable {t t' : FileTree} {l : Location} {content : ByteArray}

/-! ### Other files -/

/-- The file is the user's, once it is there. -/
def IsDefinition (l : Location) : Prop := ∃ m n, l = m ++ [n] ∧ ".defs.cs".toList <:+ n.toList

/-- A file whose name has one ending is not called with another one. -/
theorem not_called {m : Location} {n ending other : String} (hn : ending.toList <:+ n.toList)
    (h : ¬ending.toList <:+ other.toList ∧ ¬other.toList <:+ ending.toList) :
    ¬∃ m' n', m ++ [n] = m' ++ [n'] ∧ other.toList <:+ n'.toList := by
  rintro ⟨m', n', heq, hother⟩
  obtain ⟨-, heq⟩ := List.append_inj' heq rfl
  obtain rfl := List.singleton_inj.mp heq
  rcases List.suffix_or_suffix_of_suffix hn hother with hends | hends
  · exact h.1 hends
  · exact h.2 hends

theorem Trampoline.Touches.not_called {c : BindingContext} {other : String} (h : Touches c t l)
    (hother : ∀ own ∈ [headerFile, manifestFile, typeFileEnding],
      ¬own.toList <:+ other.toList ∧ ¬other.toList <:+ own.toList) :
    ¬∃ m n, l = m ++ [n] ∧ other.toList <:+ n.toList := by
  obtain ⟨m, n, rfl, rfl | rfl | hn⟩ := h.named
  · exact EngineBridge.not_called (List.suffix_refl _) (hother _ (by simp))
  · exact EngineBridge.not_called (List.suffix_refl _) (hother _ (by simp))
  · exact EngineBridge.not_called hn (hother _ (by simp))

theorem Trampoline.Touches.not_isDefinition {c : BindingContext} (h : Touches c t l) : ¬IsDefinition l :=
  h.not_called (by decide)

theorem Wrapper.Places.not_isDefinition {c : BindingContext} (h : Places c t l) : ¬IsDefinition l := by
  obtain ⟨ty, -, m, -, rfl⟩ := h
  have hends : ".gen.cs".toList <:+ (ty.name ++ ".gen.cs").toList := by
    rw [String.toList_append]
    exact List.suffix_append _ _
  have hl : m ++ [ty.module, ty.name ++ ".gen.cs"] = m ++ [ty.module] ++ [ty.name ++ ".gen.cs"] := List.append_cons _ _ _
  rw [hl]
  exact not_called hends (by decide)

/-! ### The kept document -/

/-- The kept document is called as the input, with an ending of its own. -/
theorem FileTree.cacheFileName_named {kind : SourceKind} {input : Path} {name : String}
    (h : t.cacheFileName kind input = some name) : IsName name ∧ ".tmp.json".toList <:+ name.toList := by
  obtain ⟨base, hfree, ending, hending, rfl⟩ : ∃ base : String, '/' ∉ base.toList ∧
      ∃ ending ∈ [".tmp.json", ".Bindings.Defs.tmp.json"], name = base ++ ending := by
    unfold FileTree.cacheFileName at h
    split at h
    · cases h
    · obtain ⟨base, hbase, rfl⟩ := Option.map_eq_some_iff.mp h
      exact ⟨base, Path.slashFree_of_fileName? hbase, _, by simp, rfl⟩
    · obtain ⟨base, hbase, rfl⟩ := Option.map_eq_some_iff.mp h
      refine ⟨base, ?_, _, List.mem_cons_of_mem _ List.mem_cons_self, rfl⟩
      split at hbase
      · exact Path.slashFree_of_fileName? hbase
      · obtain ⟨n, hn, rfl⟩ := Option.map_eq_some_iff.mp hbase
        exact fun hslash => Path.slashFree_of_fileName? hn (Path.splitName_subset n _ hslash)
  have hendings : ∀ e ∈ [".tmp.json", ".Bindings.Defs.tmp.json"],
      ".tmp.json".toList <:+ e.toList ∧ '/' ∉ e.toList := by decide
  have hends := hendings ending hending
  have hsuffix : ".tmp.json".toList <:+ (base ++ ending).toList := by
    rw [String.toList_append]
    exact hends.1.trans (List.suffix_append _ _)
  refine ⟨⟨fun heq => ?_, fun heq => ?_, fun heq => ?_, ?_⟩, hsuffix⟩
  · exact absurd (heq ▸ hsuffix) (by decide)
  · exact absurd (heq ▸ hsuffix) (by decide)
  · exact absurd (heq ▸ hsuffix) (by decide)
  · rw [String.toList_append, List.mem_append, not_or]
    exact ⟨hfree, hends.2⟩

namespace RunOptions
variable {o : RunOptions} {d : Document}

/-- The file is a kept document of the project. -/
def Keeps (o : RunOptions) (t : FileTree) (l : Location) : Prop := ∃ name, IsName name ∧
  ".tmp.json".toList <:+ name.toList ∧ t.locate ((o.project.join ⟨"Intermediate/SharpBind"⟩).join ⟨name⟩) = .ok l

theorem Keeps.named (h : o.Keeps t l) : ∃ m n, l = m ++ [n] ∧ ".tmp.json".toList <:+ n.toList := by
  obtain ⟨name, hn, hends, hl⟩ := h
  have hsegments : Path.segments ⟨name⟩ = [] ++ [name] := Path.segments_of_slashFree hn.slashFree
  obtain ⟨front, hfront⟩ := Path.segments_join_last (o.project.join ⟨"Intermediate/SharpBind"⟩) hsegments
  obtain ⟨m, rfl⟩ := FileTree.locate_last hfront hn hl
  exact ⟨m, name, rfl, hends⟩

theorem checkpoint_keeps : Spares {l | o.Keeps (o.checkpoint t d).1 l} t (o.checkpoint t d).1 := by
  unfold checkpoint
  split
  · exact .refl _ _
  · next name hname =>
    obtain ⟨hn, hends⟩ := FileTree.cacheFileName_named hname
    dsimp only
    rcases hwrite : t.write ((o.project.join ⟨"Intermediate/SharpBind"⟩).join ⟨name⟩) d.toText.toUTF8 with ⟨t', e | u⟩
    · exact (FileTree.write_error hwrite).mono (Set.empty_subset _)
    · obtain ⟨l, hl, -, hspares⟩ := FileTree.write_ok hwrite
      exact hspares.mono (Set.singleton_subset_iff.mpr ⟨name, hn, hends, hl⟩)

theorem checkpoint_spares : Spares {l | ¬IsDefinition l} t (o.checkpoint t d).1 := by
  refine checkpoint_keeps.mono fun l hl => ?_
  obtain ⟨m, n, rfl, hends⟩ := hl.named
  exact not_called hends (by decide)

theorem proper_checkpoint (ht : t.Proper) : (o.checkpoint t d).1.Proper := by
  unfold checkpoint
  split
  · exact ht
  · dsimp only
    split
    all_goals
      next hwrite => exact ht.write hwrite

end RunOptions

/-! ### One run -/

/-- The documents that are made are consistent. -/
theorem Document.validate_of_ofDecls {decls : List TypeDecl} {fallback version : String} {attributes : DocumentAttributes}
    {d : Document} (h : ofDecls decls fallback version attributes = .ok d) : d.validate = .ok () := by
  obtain ⟨scope, -, h⟩ := bind_eq_ok.mp h
  obtain ⟨types, -, h⟩ := bind_eq_ok.mp h
  obtain ⟨_, hvalid, h⟩ := bind_eq_ok.mp h
  rw [← Except.ok.inj h]
  exact hvalid

theorem RunOptions.validate_of_makeDocument {o : RunOptions} {d : Document} (h : o.makeDocument t = .ok d) :
    d.validate = .ok () := by
  unfold makeDocument FileTree.makeDocument at h
  split at h
  · cases h
  · split at h
    · obtain ⟨text, -, h⟩ := bind_eq_ok.mp h
      split at h
      · cases h
      · obtain ⟨_, hvalid, h⟩ := bind_eq_ok.mp h
        rwa [← Except.ok.inj h]
    · obtain ⟨decls, -, h⟩ := bind_eq_ok.mp h
      exact Document.validate_of_ofDecls h
    · obtain ⟨m, -, h⟩ := bind_eq_ok.mp h
      obtain ⟨sources, -, h⟩ := bind_eq_ok.mp h
      exact Document.validate_of_ofDecls h

/-- From one tree to the other the user's files stay as they are, and the new ones are made as told. -/
structure Grows (Made : Location → ByteArray → Prop) (t t' : FileTree) : Prop where
  kept : ∀ {l content}, IsDefinition l → t.entry? l = some (.file content) → t'.entry? l = some (.file content)
  made : ∀ {l content}, IsDefinition l → t'.entry? l = some (.file content) →
    t.entry? l = some (.file content) ∨ Made l content

namespace Grows
variable {Made Made' : Location → ByteArray → Prop} {t'' : FileTree}

theorem refl (Made : Location → ByteArray → Prop) (t : FileTree) : Grows Made t t := ⟨fun _ => id, fun _ => .inl⟩

theorem mono (h : Grows Made t t') (hMade : ∀ l content, Made l content → Made' l content) : Grows Made' t t' :=
  ⟨h.kept, fun hl hfile => (h.made hl hfile).imp_right (hMade _ _)⟩

theorem trans (h : Grows Made t t') (h' : Grows Made' t' t'') (hMade : ∀ l content, Made l content → Made' l content) :
    Grows Made' t t'' := by
  refine ⟨fun hl hfile => h'.kept hl (h.kept hl hfile), fun hl hfile => ?_⟩
  rcases h'.made hl hfile with hfile | hmade
  · exact (h.made hl hfile).imp_right (hMade _ _)
  · exact .inr hmade

theorem of_spares (h : Spares {l | ¬IsDefinition l} t t') : Grows Made t t' :=
  ⟨fun hl => (h.file (not_not_intro hl)).mpr, fun hl hfile => .inl ((h.file (not_not_intro hl)).mp hfile)⟩

end Grows

/-- The place of a type's placeholder in a project. -/
def Project.placeholder (project : Location) (ty : TypeRecord) : Location :=
  placeholders project ++ [ty.module, ty.name ++ ".defs.cs"]

theorem Project.isDefinition_placeholder {project : Location} (ty : TypeRecord) :
    IsDefinition (placeholder project ty) := by
  refine ⟨placeholders project ++ [ty.module], ty.name ++ ".defs.cs", List.append_cons _ _ _, ?_⟩
  rw [String.toList_append]
  exact List.suffix_append _ _

namespace RunOptions
variable {o : RunOptions} {d : Document} {project : Location}

/-- The file is the place of a type's placeholder, and the content is the text that is rendered for the type. -/
def Renders (o : RunOptions) (d : Document) (project : Location) (l : Location) (content : ByteArray) : Prop :=
  ∃ ty ∈ Placeholder.typesOf d, l = Project.placeholder project ty ∧
    ∃ a, Placeholder.renderType o.schema ty = .ok a ∧ content = a.contents.toUTF8

theorem placeholders_grow {c : BindingContext} (ht : t.Proper) (hc : c.document = d ∧ c.schema = o.schema)
    (hroot : t.locate c.root = .ok project) : Grows (o.Renders d project) t (Placeholder.writeOut t c).1 := by
  have hadds : FileTree.Adds (Placeholder.generate c).1 c.definitionsRoot t (Placeholder.writeOut t c).1 :=
    FileTree.Proper.writeAll_adds hroot Placeholder.descends_definitions ht (fun _ ha => Placeholder.descends_generated ha)
      rfl
  have hroot' := (Placeholder.writeOut_spares hroot).locate hroot
  refine ⟨fun _ => hadds.kept, fun _ hfile => (hadds.added hfile).imp_right ?_⟩
  rintro ⟨a, ha, hplace, hcontent⟩
  obtain ⟨ty, hty, hrender⟩ := Placeholder.mem_generated.mp ha
  obtain ⟨hname, hmodule, hpath⟩ := Placeholder.renderType_path hrender
  have hdescends : a.path.Descends := Placeholder.descends_generated ha
  have hsegments : a.path.segments = [ty.module, ty.name ++ ".defs.cs"] := by
    rw [hpath]
    exact segments_file hname hmodule (by decide)
  have hleads : FileTree.Leads _ c.root project := FileTree.leads_of_locate hroot'
  refine ⟨ty, hc.1 ▸ hty, ?_, a, hc.2 ▸ hrender, hcontent⟩
  rw [FileTree.eq_of_placeOf hleads Placeholder.descends_definitions hdescends hplace, hsegments]
  rfl

theorem generate_grows (ht : t.Proper) (hd : d.validate = .ok ()) (hroot : t.locate o.project = .ok project) :
    (o.generate t d).1.Proper ∧ Grows (o.Renders d project) t (o.generate t d).1 := by
  obtain ⟨t₁, t₂, c, fast, hparts⟩ := o.exists_parts t d
  obtain ⟨made, hmade⟩ := hparts.trampolines
  obtain ⟨hproper₁, htouches⟩ := Trampoline.writeTrampolines_touches ht (Document.validate_eq_ok.mp hd).names hmade
  have htrampolines : Spares {l | ¬IsDefinition l} t t₁ := htouches.mono fun l hl => hl.2.not_isDefinition
  have hplaces : Spares {l | Wrapper.Places c t₂ l} t₁ t₂ := hparts.wrappers ▸ Wrapper.writes_places
  have hwrappers : Spares {l | ¬IsDefinition l} t₁ t₂ := hplaces.mono fun l hl => hl.not_isDefinition
  have hproper₂ : t₂.Proper := hparts.wrappers ▸ Wrapper.proper_writes hproper₁
  have hspares := htrampolines.trans hwrappers
  have hroot₂ : t₂.locate c.root = .ok project := hparts.root ▸ hspares.locate hroot
  rw [← hparts.placeholders]
  exact ⟨Placeholder.proper_writeOut hproper₂,
    (Grows.of_spares hspares).trans (placeholders_grow hproper₂ ⟨hparts.document, hparts.schema⟩ hroot₂) fun _ _ => id⟩

theorem locate_of_validate (h : o.validate t = .ok ()) : ∃ project, t.locate o.project = .ok project := by
  have hdirectory : t.isDirectory o.project = true := by
    by_contra hnot
    unfold validate at h
    rw [if_pos (by simpa using hnot)] at h
    cases h
  obtain ⟨project, hl, -⟩ := FileTree.find?_eq_some.mp (beq_iff_eq.mp hdirectory)
  exact ⟨project, hl⟩

/-- A run on the project makes the file: its content is the placeholder of a type of the run's document. -/
def Makes (o : RunOptions) (t : FileTree) (l : Location) (content : ByteArray) : Prop :=
  ∃ d project, o.makeDocument t = .ok d ∧ t.locate o.project = .ok project ∧ o.Renders d project l content

theorem run_eq (hvalid : o.validate t = .ok ()) (hdocument : o.makeDocument t = .ok d) :
    (o.run t).1 = (o.generate (o.checkpoint t d).1 d).1 := by
  unfold run
  simp only [hvalid, hdocument]

theorem run_grows (ht : t.Proper) : (o.run t).1.Proper ∧ Grows (o.Makes t) t (o.run t).1 := by
  cases hvalid : o.validate t with
  | error e =>
    unfold run
    rw [hvalid]
    exact ⟨ht, .refl _ _⟩
  | ok _ =>
    cases hdocument : o.makeDocument t with
    | error e =>
      unfold run
      simp only [hvalid, hdocument]
      exact ⟨ht, .refl _ _⟩
    | ok d =>
      obtain ⟨project, hroot⟩ := locate_of_validate hvalid
      have hkept := checkpoint_spares (t := t) (o := o) (d := d)
      obtain ⟨hproper, hgrows⟩ := generate_grows (o := o) (proper_checkpoint ht) (validate_of_makeDocument hdocument)
        (hkept.locate hroot)
      rw [run_eq hvalid hdocument]
      refine ⟨hproper, (Grows.of_spares hkept).trans (hgrows.mono fun l content hrenders => ?_) fun _ _ => id⟩
      exact ⟨d, project, hdocument, hroot, hrenders⟩

end RunOptions

/-! ### Any number of runs -/

/-- What happens to a project: a run, whatever it is asked to do, or edits by the user, which may leave any tree. -/
inductive ProjectEvent
  | run (o : RunOptions)
  | edit (t : FileTree) (proper : t.Proper)

namespace ProjectEvent

def apply (t : FileTree) : ProjectEvent → FileTree
  | run o => (o.run t).1
  | edit t' _ => t'

/-- The tree after some events. -/
def after (t : FileTree) (es : List ProjectEvent) : FileTree := es.foldl apply t

theorem after_run {o : RunOptions} : after t [.run o] = (o.run t).1 := rfl

theorem after_append {es es' : List ProjectEvent} : after t (es ++ es') = after (after t es) es' :=
  List.foldl_append

theorem proper_after {es : List ProjectEvent} (ht : t.Proper) : (after t es).Proper := by
  induction es generalizing t with
  | nil => exact ht
  | cons e es ih =>
    refine ih ?_
    cases e with
    | run o => exact (RunOptions.run_grows ht).1
    | edit t' proper => exact proper

/-- One of the runs makes the file, in the tree that the runs before it have left. -/
def Makes (t : FileTree) (os : List RunOptions) (l : Location) (content : ByteArray) : Prop :=
  ∃ before o later, os = before ++ o :: later ∧ o.Makes (after t (before.map run)) l content

theorem runs_grow {os : List RunOptions} (ht : t.Proper) : Grows (Makes t os) t (after t (os.map run)) := by
  induction os generalizing t with
  | nil => exact .refl _ _
  | cons o os ih =>
    obtain ⟨hproper, hgrows⟩ := RunOptions.run_grows (o := o) ht
    -- The runs behind the first one are runs of all.
    have hlater : Grows (Makes t (o :: os)) (o.run t).1 (after (o.run t).1 (os.map run)) := by
      refine (ih hproper).mono fun l content => ?_
      rintro ⟨before, o', later, rfl, hmakes⟩
      exact ⟨o :: before, o', later, rfl, hmakes⟩
    exact hgrows.trans hlater fun l content hmakes => ⟨[], o, os, rfl, hmakes⟩

/-- After any runs and edits, further runs leave every file as it is that belongs to the user, and each new one holds the
text that is rendered for its type. -/
theorem definitions_belong_to_user (ht : t.Proper) (es : List ProjectEvent) (os : List RunOptions) :
    Grows (Makes (after t es) os) (after t es) (after t (es ++ os.map run)) := by
  rw [after_append]
  exact runs_grow (proper_after ht)

end ProjectEvent

/-! ### A project with a pawn -/

namespace Project.PawnProject
open RunOptions (saved)

def actor : TypeRecord := .bare "Actor" "Engine" .classKind

def pawn : TypeRecord := .bare "Pawn" "Engine" .classKind

def document : Document := ⟨"5.4", .empty, [actor, pawn]⟩

def root : Location := ["project"]

/-- What the user wrote for the actor. -/
def own : ByteArray := "class Actor;".toUTF8

/-- The directories of the project. -/
def bare : FileTree where
  entries := [(root, .directory), (["project", "Managed"], .directory), (placeholders root, .directory),
    (placeholders root ++ ["Engine"], .directory)]
  current := []

/-- The user's file for the actor lies in the project, and the saved document beside it. -/
def tree : FileTree :=
  (bare.put (placeholder root actor) (.file own)).put ["saved.json"] (.file document.toText.toUTF8)

theorem proper : tree.Proper := by
  have hbare : bare.Proper := by decide
  have hfirst : (bare.put (placeholders root ++ ["Engine"] ++ ["Actor.defs.cs"]) (.file own)).Proper :=
    hbare.put (by decide) (by decide) (.inl (by decide))
  exact hfirst.put (l := []) (n := "saved.json") (by decide) (by decide) (.inl (by decide))

/-- The saved document is the document of a run. -/
theorem made : saved.makeDocument tree = .ok document := by
  have hlocated : tree.locate saved.input = .ok ["saved.json"] := by decide
  have hfile : FileTree.entry? tree ["saved.json"] = some (.file document.toText.toUTF8) :=
    FileTree.entry?_put_self (by decide)
  have htext : tree.readText saved.input = .ok document.toText := FileTree.readText_of_entry hlocated hfile
  have hloaded : tree.loadDocument saved.input = .ok document :=
    FileTree.loadDocument_of_text htext (by decide) (by decide)
  have hthere : tree.isThere saved.input = true := by decide
  unfold RunOptions.makeDocument FileTree.makeDocument
  rw [hthere]
  exact hloaded

theorem run_eq : (saved.run tree).1 = (saved.generate tree document).1 := by
  have hvalid : saved.validate tree = .ok () := rfl
  have hcheckpoint : saved.checkpoint tree document = (tree, none) := rfl
  rw [RunOptions.run_eq hvalid made, hcheckpoint]

theorem pawn_written : (saved.generate tree document).1.hasFileAt (placeholder root pawn) = true := by decide +kernel

theorem actor_present : FileTree.entry? tree (placeholder root actor) = some (.file own) := by
  unfold tree
  rw [FileTree.entry?_put_of_ne (by decide), FileTree.entry?_put_self (by decide)]

theorem pawn_absent : FileTree.entry? tree (placeholder root pawn) = none := by decide

theorem renders_of_makes {l : Location} {content : ByteArray} (h : saved.Makes tree l content) :
    saved.Renders document root l content := by
  obtain ⟨d, project, hdocument, hproject, hrenders⟩ := h
  have hroot : tree.locate saved.project = .ok root := by decide
  obtain rfl := Except.ok.inj (made.symm.trans hdocument)
  obtain rfl := Except.ok.inj (hroot.symm.trans hproject)
  exact hrenders

end Project.PawnProject

open Project Project.PawnProject in
/-- A run keeps the user's file for the actor and makes one for the pawn. -/
theorem ProjectEvent.definitions_belong_to_user_pawn : tree.Proper ∧
    FileTree.entry? (after tree [.run .saved]) (placeholder root actor) = some (.file own) ∧
      ∃ a, Placeholder.renderType .native pawn = .ok a ∧
        FileTree.entry? (after tree [.run .saved]) (placeholder root pawn) = some (.file a.contents.toUTF8) := by
  have hgrows := definitions_belong_to_user proper [] [.saved]
  rw [List.nil_append, List.map_cons, List.map_nil, after_run] at hgrows
  obtain ⟨hkept, hmade⟩ := hgrows
  rw [after_run]
  refine ⟨proper, hkept (isDefinition_placeholder _) actor_present, ?_⟩
  obtain ⟨content, hfile⟩ := FileTree.hasFileAt_iff.mp pawn_written
  rw [← run_eq] at hfile
  rcases hmade (isDefinition_placeholder _) hfile with hbefore | ⟨before, o, later, hruns, hmakes⟩
  · rw [show after tree [] = tree from rfl, pawn_absent] at hbefore
    cases hbefore
  · obtain ⟨rfl, rfl, rfl⟩ : before = [] ∧ o = .saved ∧ later = [] := by
      simpa [List.singleton_eq_append_iff] using hruns
    obtain ⟨ty, hty, hplace, a, hrender, hcontent⟩ := renders_of_makes hmakes
    obtain rfl : ty = pawn := by
      rcases List.mem_cons.mp (List.mem_filter.mp hty).1 with rfl | hty
      · exact absurd hplace (by decide)
      · exact List.mem_singleton.mp hty
    exact ⟨a, hrender, hcontent ▸ hfile⟩

end EngineBridge
