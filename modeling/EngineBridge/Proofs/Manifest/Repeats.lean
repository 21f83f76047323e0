import EngineBridge.Project.Source
import EngineBridge.Proofs.Model.Reload
import EngineBridge.Proofs.Model.Resolution

/-! Companion sources that declare a name more than once.

Source files that declare a type twice have no document. The companion sources of an assembly may: of the declarations
of one name cross-referencing sees the last, so that nothing is left to be noticed afterwards. Which one is the last
is up to the order of the files; where the names that the manifest reaches are declared once, that order is
of no account. -/

namespace EngineBridge
open Outcome

/-! ### Faults of lowering -/

/-- The faults that lowering finds. -/
def DocumentError.OfLowering : DocumentError → Prop
  | unresolvedType _ _ _ | invalidType _ _ => True
  | _ => False

section
variable {s : Scope} {owner member : String} {e : DocumentError}

theorem Scope.ofLowering_of_resolveIn {type : TypeExpr} (h : s.resolveIn owner member type = .error e) :
    e.OfLowering := by
  unfold Scope.resolveIn at h
  cases hresolve : s.resolve type with
  | ok t =>
    rw [hresolve] at h
    cases h
  | error bad =>
    rw [hresolve] at h
    cases h
    trivial

theorem FieldDecl.ofLowering_of_lower {f : FieldDecl} (h : f.lower s owner = .error e) : e.OfLowering := by
  unfold FieldDecl.lower at h
  split at h
  · cases h
  · rcases bind_eq_error.mp h with h | ⟨_, -, ⟨⟩⟩
    exact Scope.ofLowering_of_resolveIn h

theorem MethodDecl.ofLowering_of_lower {m : MethodDecl} (h : m.lower s owner = .error e) : e.OfLowering := by
  unfold MethodDecl.lower at h
  split at h
  · cases h
  rcases bind_eq_error.mp h with h | ⟨params, -, h⟩
  · obtain ⟨p, -, hp⟩ := exists_of_mapM_eq_error h
    rcases bind_eq_error.mp hp with hp | ⟨_, -, ⟨⟩⟩
    exact Scope.ofLowering_of_resolveIn hp
  · split at h
    · cases h
    rcases bind_eq_error.mp h with h | ⟨_, -, ⟨⟩⟩
    exact Scope.ofLowering_of_resolveIn (map_eq_error.mp h)

theorem ofLowering_of_lowerMembers {ms : List MemberDecl} (h : lowerMembers s owner ms = .error e) : e.OfLowering := by
  induction ms with
  | nil => cases h
  | cons m ms ih =>
    cases m with
    | field f =>
      rcases bind_eq_error.mp h with h | ⟨_, -, h⟩
      · exact FieldDecl.ofLowering_of_lower h
      rcases bind_eq_error.mp h with h | ⟨_, -, ⟨⟩⟩
      exact ih h
    | method m =>
      rcases bind_eq_error.mp h with h | ⟨_, -, h⟩
      · exact MethodDecl.ofLowering_of_lower h
      rcases bind_eq_error.mp h with h | ⟨_, -, ⟨⟩⟩
      exact ih h

theorem ofLowering_of_variantValues {vs : List VariantDecl} {previous : Option Int64}
    (h : variantValues owner previous vs = .error e) : e.OfLowering := by
  induction vs generalizing previous with
  | nil => cases h
  | cons v vs ih =>
    have hrest : ∀ value, (variantValues owner (some value) vs >>= fun rest => pure (⟨v.name, value⟩ :: rest)) =
        .error e → e.OfLowering := by
      intro value h
      rcases bind_eq_error.mp h with h | ⟨_, -, ⟨⟩⟩
      exact ih h
    unfold variantValues at h
    dsimp only at h
    split at h
    · exact hrest _ h
    · exact hrest _ h
    · split at h
      · cases h
        trivial
      · exact hrest _ h

theorem TypeDecl.ofLowering_of_lower {d : TypeDecl} {fallback : String} (h : d.lower s fallback = .error e) :
    e.OfLowering := by
  unfold lower at h
  dsimp only at h
  split at h
  · rcases bind_eq_error.mp h with h | ⟨_, -, h⟩
    · cases hbase : d.base with
      | none =>
        rw [hbase] at h
        cases h
      | some base =>
        rw [hbase] at h
        exact Scope.ofLowering_of_resolveIn (map_eq_error.mp h)
    rcases bind_eq_error.mp h with h | ⟨_, -, ⟨⟩⟩
    exact ofLowering_of_variantValues h
  all_goals
    rcases bind_eq_error.mp h with h | ⟨_, -, ⟨⟩⟩
    exact ofLowering_of_lowerMembers h

end

/-- Declarations make no document because of a repeated name exactly if they repeat one. -/
theorem Document.duplicateType_iff {decls : List TypeDecl} {fallback engineVersion : String}
    {attributes : DocumentAttributes} {name : String} :
    Document.ofDecls decls fallback engineVersion attributes = .error (.duplicateType name) ↔
      firstRepeated [] (decls.map (·.name)) = some name := by
  cases hrepeated : firstRepeated [] (decls.map (·.name)) with
  | some other =>
    have hscope : Scope.ofDecls decls = .error (.duplicateType other) := by
      unfold Scope.ofDecls
      rw [hrepeated]
    have hdocument : Document.ofDecls decls fallback engineVersion attributes = .error (.duplicateType other) :=
      bind_eq_error.mpr (.inl hscope)
    rw [hdocument]
    simp
  | none =>
    have hnames : DistinctNames decls := firstRepeated_nil_eq_none.mp hrepeated
    refine ⟨fun h => ?_, fun h => (nomatch h)⟩
    rcases bind_eq_error.mp h with h | ⟨scope, hscope, h⟩
    · cases (Scope.ofDecls_of_distinctNames hnames).symm.trans h
    cases (Scope.ofDecls_of_distinctNames hnames).symm.trans hscope
    rcases bind_eq_error.mp h with h | ⟨types, htypes, h⟩
    · obtain ⟨d, -, hd⟩ := exists_of_mapM_eq_error h
      exact (TypeDecl.ofLowering_of_lower hd).elim
    rcases bind_eq_error.mp h with h | ⟨_, -, ⟨⟩⟩
    have hdistinct : (types.map (·.name)).Nodup := (names_of_lower htypes).symm ▸ hnames
    exact (ownFault_of_validate (d := ⟨engineVersion, attributes, types⟩) hdistinct (linked_of_lower htypes hnames) h).elim

/-! ### The last declarations of each name -/

/-- The declarations behind which no other has their name. -/
def latest : List TypeDecl → List TypeDecl
  | [] => []
  | d :: ds => if (ds.map (·.name)).contains d.name then latest ds else d :: latest ds

section
variable {sources : List TypeDecl} {d : TypeDecl}

theorem mem_of_mem_latest (h : d ∈ latest sources) : d ∈ sources := by
  induction sources with
  | nil => cases h
  | cons e es ih =>
    rw [latest] at h
    split at h
    · exact List.mem_cons_of_mem _ (ih h)
    · rcases List.mem_cons.mp h with rfl | h
      · exact List.mem_cons_self
      · exact List.mem_cons_of_mem _ (ih h)

theorem distinctNames_latest (sources : List TypeDecl) : DistinctNames (latest sources) := by
  induction sources with
  | nil => exact List.nodup_nil
  | cons e es ih =>
    rw [latest]
    split
    · exact ih
    · next hlast =>
      refine List.nodup_cons.mpr ⟨fun hmem => hlast ?_, ih⟩
      obtain ⟨d, hd, hname⟩ := List.mem_map.mp hmem
      exact List.contains_iff_mem.mpr (List.mem_map.mpr ⟨d, mem_of_mem_latest hd, hname⟩)

theorem lastNamed_cons (name : String) (d : TypeDecl) (ds : List TypeDecl) :
    lastNamed name (d :: ds) = (lastNamed name ds).or (if d.name == name then some d else none) := by
  unfold lastNamed
  rw [List.reverse_cons, List.find?_append, List.find?_singleton]

theorem lastNamed_latest (name : String) (sources : List TypeDecl) :
    lastNamed name (latest sources) = lastNamed name sources := by
  induction sources with
  | nil => rfl
  | cons e es ih =>
    rw [latest, lastNamed_cons]
    split
    · next hlater =>
      obtain ⟨d, hd, hname⟩ := List.mem_map.mp (List.contains_iff_mem.mp hlater)
      rw [ih]
      by_cases hne : e.name = name
      · cases hnone : lastNamed name es with
        | none => exact absurd (hname.trans hne) (lastNamed_eq_none hnone d hd)
        | some d => rfl
      · rw [beq_eq_false_iff_ne.mpr hne]
        cases lastNamed name es <;> rfl
    · rw [lastNamed_cons, ih]

theorem lastNamed_othersThan {n name : String} (h : n ≠ name) (sources : List TypeDecl) :
    lastNamed n (othersThan name sources) = lastNamed n sources := by
  induction sources with
  | nil => rfl
  | cons e es ih =>
    unfold othersThan at ih ⊢
    rw [List.filter_cons]
    split
    · rw [lastNamed_cons, lastNamed_cons, ih]
    · next hname =>
      have hname : e.name = name := by simpa using hname
      rw [ih, lastNamed_cons, hname, beq_eq_false_iff_ne.mpr h.symm]
      cases lastNamed n es <;> rfl

theorem lastNamed_of_only (hd : d ∈ sources) (honly : ∀ e ∈ sources, e.name = d.name → e = d) :
    lastNamed d.name sources = some d := by
  cases hlast : lastNamed d.name sources with
  | none => exact absurd rfl (lastNamed_eq_none hlast d hd)
  | some e =>
    obtain ⟨he, hname⟩ := lastNamed_eq_some hlast
    rw [honly e he hname]

end

/-! ### What is pulled -/

section
variable {known queue : List String} {sources sources' : List TypeDecl} {d : TypeDecl}

theorem lastNamed_of_mem_pull (h : d ∈ pull known sources queue) : lastNamed d.name sources = some d := by
  fun_induction pull known sources queue with
  | case1 => cases h
  | case2 _ _ _ _ _ ih => exact ih h
  | case3 _ _ _ _ _ _ ih => exact ih h
  | case4 known sources name queue hknown e he ih =>
    rcases List.mem_cons.mp h with rfl | h
    · rwa [(lastNamed_eq_some he).2]
    · have hname : d.name ≠ name := fun hname => (mem_of_mem_pull h).2 (hname ▸ List.mem_cons_self)
      rw [← lastNamed_othersThan hname]
      exact ih h

/-- Sources in which the same declarations come last are pulled from in the same order. -/
theorem pull_congr (hlast : ∀ d ∈ pull known sources queue, lastNamed d.name sources' = some d)
    (hnames : ∀ d' ∈ sources', ∃ d ∈ sources, d.name = d'.name) :
    pull known sources' queue = pull known sources queue := by
  fun_induction pull known sources queue generalizing sources' with
  | case1 => rw [pull]
  | case2 known sources name queue hknown ih =>
    rw [pull, if_pos hknown]
    exact ih hlast hnames
  | case3 known sources name queue hknown hnone ih =>
    have hnone' : lastNamed name sources' = none := by
      cases hsome : lastNamed name sources' with
      | none => rfl
      | some d' =>
        obtain ⟨hd', hname'⟩ := lastNamed_eq_some hsome
        obtain ⟨d, hd, hname⟩ := hnames d' hd'
        exact absurd (hname.trans hname') (lastNamed_eq_none hnone d hd)
    rw [pull, if_neg hknown]
    split
    · exact ih hlast hnames
    · next hsome => cases hnone'.symm.trans hsome
  | case4 known sources name queue hknown d hd ih =>
    obtain ⟨-, rfl⟩ := lastNamed_eq_some hd
    -- What is pulled next is pulled from the others, and these agree on every name but this one.
    have hd' := hlast d List.mem_cons_self
    rw [pull, if_neg hknown]
    split
    · next hnone => cases hd'.symm.trans hnone
    · next hsome =>
      cases hd'.symm.trans hsome
      rw [ih (fun e he => ?_) fun e' he' => ?_]
      · have hname : e.name ≠ d.name := fun hname => (mem_of_mem_pull he).2 (hname ▸ List.mem_cons_self)
        rw [lastNamed_othersThan hname]
        exact hlast e (List.mem_cons_of_mem _ he)
      · obtain ⟨hmem', hname'⟩ := mem_othersThan.mp he'
        obtain ⟨e, he, hname⟩ := hnames e' hmem'
        exact ⟨e, mem_othersThan.mpr ⟨he, fun h => hname' (hname.symm.trans h)⟩, hname⟩

end

namespace AssemblyManifest
variable {m : AssemblyManifest} {sources sources' : List TypeDecl}

/-- Of the declarations of one name only the last plays a part. -/
theorem crossReference_latest (m : AssemblyManifest) (sources : List TypeDecl) :
    m.crossReference (latest sources) = m.crossReference sources := by
  unfold crossReference
  congr 1
  refine pull_congr (fun d hd => ?_) fun d hd => ⟨d, mem_of_mem_latest hd, rfl⟩
  rw [lastNamed_latest]
  exact lastNamed_of_mem_pull hd

/-- No two different sources have a name that the manifest does not declare but reaches. -/
def Unambiguous (m : AssemblyManifest) (sources : List TypeDecl) : Prop :=
  ∀ d ∈ sources, d.name ∉ m.types.map (·.name) → Reached (m.visible sources) m.decls d →
    ∀ e ∈ sources, e.name = d.name → e = d

theorem crossReference_perm (h : m.Unambiguous sources) (hperm : sources'.Perm sources) :
    m.crossReference sources' = m.crossReference sources := by
  unfold crossReference
  congr 1
  refine pull_congr (fun d hd => ?_) fun d hd => ⟨d, hperm.mem_iff.mp hd, rfl⟩
  obtain ⟨hmem, hname, hreached⟩ := reached_of_mem_pulled hd
  rw [names_decls] at hname
  exact lastNamed_of_only (hperm.mem_iff.mpr hmem) fun e he => h d hmem hname hreached e (hperm.mem_iff.mp he)

/-- Whatever the sources repeat, a name is repeated after cross-referencing only if the manifest repeats it. -/
theorem firstRepeated_crossReference (m : AssemblyManifest) (sources : List TypeDecl) :
    firstRepeated [] ((m.crossReference sources).map (·.name)) = firstRepeated [] (m.types.map (·.name)) := by
  rw [← names_decls]
  cases hrepeated : firstRepeated [] (m.decls.map (·.name)) with
  | some name =>
    unfold crossReference
    rw [List.map_append]
    exact firstRepeated_append_of_some hrepeated _
  | none =>
    exact firstRepeated_nil_eq_none.mpr (distinctNames_crossReference (firstRepeated_nil_eq_none.mp hrepeated))

end AssemblyManifest

/-! ### Files -/

namespace FileTree
variable {t : FileTree} {input : Path} {o : SourceOptions} {m : AssemblyManifest} {companions companions' : List Path}
  {sources : List TypeDecl}

theorem isThere_of_readText {p : Path} {text : String} (h : t.readText p = .ok text) : t.isThere p = true := by
  obtain ⟨content, hread, -⟩ := bind_eq_ok.mp h
  obtain ⟨l, hl, hentry⟩ := bind_eq_ok.mp hread
  unfold isThere find?
  rw [hl]
  dsimp only at hentry ⊢
  split at hentry
  · cases hentry
  · cases hentry
  · next hfile => rw [hfile, Option.isSome_some]

theorem loadManifest_of_text {text : String} (htext : t.readText input = .ok text)
    (hparsed : AssemblyManifest.ofText? text = some m) : t.loadManifest input = .ok m := by
  unfold loadManifest readInput
  rw [htext]
  dsimp only
  refine bind_eq_ok.mpr ⟨text, rfl, ?_⟩
  rw [hparsed]
  rfl

theorem exportedDecls_of_text {p : Path} {text : String} {decls : List TypeDecl} (htext : t.readText p = .ok text)
    (hparsed : Source.parseFile text = .ok decls) : t.exportedDecls p = .ok (decls.filter (·.isExported)) := by
  unfold exportedDecls readInput
  rw [htext]
  dsimp only
  refine bind_eq_ok.mpr ⟨text, rfl, ?_⟩
  rw [hparsed]
  rfl

theorem isThere_of_loadManifest (h : t.loadManifest input = .ok m) : t.isThere input = true := by
  obtain ⟨text, htext, -⟩ := bind_eq_ok.mp h
  unfold readInput at htext
  split at htext
  · next hread => exact isThere_of_readText hread
  · cases htext

theorem makeDocument_assembly (hmanifest : t.loadManifest input = .ok m)
    (hsources : t.exportedDeclsOf companions = .ok sources) :
    t.makeDocument .assembly input o companions = Document.ofDecls (m.crossReference sources) m.assembly
      (m.engineVersion.getD o.engineVersion)
      (if m.allowFastInvoke then o.attributes.union DocumentAttributes.allowFastInvoke else o.attributes) := by
  unfold makeDocument
  rw [isThere_of_loadManifest hmanifest]
  dsimp only [Bool.not_true, Bool.false_eq_true, if_false]
  unfold documentOfAssembly
  rw [hmanifest, hsources]
  rfl

theorem exportedDeclsOf_perm (hperm : companions'.Perm companions)
    (h : t.exportedDeclsOf companions = .ok sources) :
    ∃ sources', t.exportedDeclsOf companions' = .ok sources' ∧ sources'.Perm sources := by
  obtain ⟨declss, hdeclss, h⟩ := bind_eq_ok.mp h
  cases h
  obtain ⟨declss', hdeclss', hperm'⟩ := mapM_perm hperm hdeclss
  exact ⟨declss'.flatten, bind_eq_ok.mpr ⟨declss', hdeclss', rfl⟩, hperm'.flatten⟩

end FileTree

/-- The sources themselves make no document if they repeat a name. As companions of an assembly they do: a repeated name
is noticed only where the manifest repeats it, and the last declaration of each name is the one that counts. Only where
the manifest reaches no name that is declared in two ways is the order of the companions of no account. -/
theorem repeated_companions_unnoticed {t : FileTree} {input : Path} {m : AssemblyManifest}
    (hmanifest : t.loadManifest input = .ok m) {companions : List Path} {sources : List TypeDecl}
    (hsources : t.exportedDeclsOf companions = .ok sources) (o : SourceOptions) :
    (∀ fallback engineVersion attributes name,
      Document.ofDecls sources fallback engineVersion attributes = .error (.duplicateType name) ↔
        firstRepeated [] (sources.map (·.name)) = some name) ∧
    (∀ name, t.makeDocument .assembly input o companions = .error (.duplicateType name) ↔
      firstRepeated [] (m.types.map (·.name)) = some name) ∧
    t.makeDocument .assembly input o companions = Document.ofDecls (m.crossReference (latest sources)) m.assembly
      (m.engineVersion.getD o.engineVersion)
      (if m.allowFastInvoke then o.attributes.union DocumentAttributes.allowFastInvoke else o.attributes) ∧
    (∀ d, d ∈ m.crossReference (latest sources) ↔ d ∈ m.decls ∨ (d ∈ latest sources ∧
      d.name ∉ m.types.map (·.name) ∧ Reached (m.visible (latest sources)) m.decls d)) ∧
    (m.Unambiguous sources → ∀ companions', companions'.Perm companions →
      t.makeDocument .assembly input o companions' = t.makeDocument .assembly input o companions) := by
  have hdocument := FileTree.makeDocument_assembly (o := o) hmanifest hsources
  refine ⟨fun _ _ _ _ => Document.duplicateType_iff, fun name => ?_, ?_, fun d => ?_, fun hclear companions' hperm => ?_⟩
  · rw [hdocument, Document.duplicateType_iff, m.firstRepeated_crossReference]
  · rw [hdocument, m.crossReference_latest]
  · rw [← m.names_decls, ← AssemblyManifest.mem_pulled (distinctNames_latest sources)]
    exact List.mem_append
  · obtain ⟨sources', hsources', hperm'⟩ := FileTree.exportedDeclsOf_perm hperm hsources
    rw [FileTree.makeDocument_assembly hmanifest hsources', hdocument, AssemblyManifest.crossReference_perm hclear hperm']

namespace TwoActors

def manifestText : String :=
  "(assembly: \"Game\", types: [(name: \"Pawn\", kind: Class, base: Some((name: \"Actor\")), attributes: [(name: \"UClass\")])])"

def healthText : String := "[UClass] class Actor \x7b [UProperty] int Health; \x7d"
def speedText : String := "[UClass] class Actor \x7b [UProperty] float Speed; \x7d"

def tree : FileTree where
  entries := [(["Game.ron"], .file manifestText.toUTF8), (["a.cs"], .file healthText.toUTF8),
    (["b.cs"], .file speedText.toUTF8)]
  current := []

def pawn : TypeDecl := ⟨"Pawn", .classKind, none, none, some (.named "Actor"), [⟨"UClass", []⟩], [], [], []⟩

def actor (field type : String) : TypeDecl :=
  ⟨"Actor", .classKind, none, none, none, [⟨"UClass", []⟩], [],
    [.field ⟨field, .named type, [⟨"UProperty", []⟩], []⟩], []⟩

def manifest : AssemblyManifest := ⟨"Game", none, false, [pawn]⟩

theorem loads : tree.loadManifest ⟨"Game.ron"⟩ = .ok manifest :=
  FileTree.loadManifest_of_text (FileTree.readText_of_entry (l := ["Game.ron"]) rfl rfl) (by cbv)

theorem exports_health : tree.exportedDecls ⟨"a.cs"⟩ = .ok [actor "Health" "int"] := by
  have hparsed : Source.parseFile healthText = .ok [actor "Health" "int"] := by cbv
  exact FileTree.exportedDecls_of_text (FileTree.readText_of_entry (l := ["a.cs"]) rfl rfl) hparsed

theorem exports_speed : tree.exportedDecls ⟨"b.cs"⟩ = .ok [actor "Speed" "float"] := by
  have hparsed : Source.parseFile speedText = .ok [actor "Speed" "float"] := by cbv
  exact FileTree.exportedDecls_of_text (FileTree.readText_of_entry (l := ["b.cs"]) rfl rfl) hparsed

theorem exports : tree.exportedDeclsOf [⟨"a.cs"⟩, ⟨"b.cs"⟩] = .ok [actor "Health" "int", actor "Speed" "float"] := by
  unfold FileTree.exportedDeclsOf
  rw [List.mapM_cons, List.mapM_cons, exports_health, exports_speed]
  rfl

theorem exports_reversed :
    tree.exportedDeclsOf [⟨"b.cs"⟩, ⟨"a.cs"⟩] = .ok [actor "Speed" "float", actor "Health" "int"] := by
  unfold FileTree.exportedDeclsOf
  rw [List.mapM_cons, List.mapM_cons, exports_health, exports_speed]
  rfl

/-- The members that the types of the document have. -/
def members (d : Document) : List (String × List String) := d.types.map fun t => (t.name, t.properties.map (·.name))

end TwoActors

open TwoActors in
/-- Two files declare the class that the manifest's class extends. Together they make no document of their own, but a
companion of the assembly is lost without a word, and which one it is depends on their order. -/
theorem companion_lost : tree.loadManifest ⟨"Game.ron"⟩ = .ok manifest ∧
    tree.exportedDeclsOf [⟨"a.cs"⟩, ⟨"b.cs"⟩] = .ok [actor "Health" "int", actor "Speed" "float"] ∧
    (∀ d ∈ [actor "Health" "int", actor "Speed" "float"], d.name = "Actor" ∧ "Actor" ∉ manifest.types.map (·.name) ∧
      Reached (manifest.visible [actor "Health" "int", actor "Speed" "float"]) manifest.decls d) ∧
    Document.ofDecls [actor "Health" "int", actor "Speed" "float"] "Game" "5.4" .empty =
      .error (.duplicateType "Actor") ∧
    (tree.makeDocument .assembly ⟨"Game.ron"⟩ .usual [⟨"a.cs"⟩, ⟨"b.cs"⟩]).map members =
      .ok [("Pawn", []), ("Actor", ["Speed"])] ∧
    (tree.makeDocument .assembly ⟨"Game.ron"⟩ .usual [⟨"b.cs"⟩, ⟨"a.cs"⟩]).map members =
      .ok [("Pawn", []), ("Actor", ["Health"])] := by
  refine ⟨loads, exports, fun d hd => ?_, Document.duplicateType_iff.mpr (by decide), ?_, ?_⟩
  · have hname : d.name = "Actor" := by
      simp only [List.mem_cons, List.not_mem_nil, or_false] at hd
      rcases hd with rfl | rfl <;> rfl
    refine ⟨hname, by decide, .mention (.root List.mem_cons_self) (List.mem_append_right _ ?_) ?_⟩
    · exact AssemblyManifest.mem_unshadowed.mpr ⟨hd, hname ▸ by decide⟩
    · rw [hname]
      decide
  · rw [FileTree.makeDocument_assembly loads exports]
    cbv
  · rw [FileTree.makeDocument_assembly loads exports_reversed]
    cbv

open TwoActors in
/-- One of the two files makes a document with the manifest, and so do both. -/
theorem repeated_companions_unnoticed_actor : tree.loadManifest ⟨"Game.ron"⟩ = .ok manifest ∧
    tree.exportedDeclsOf [⟨"a.cs"⟩, ⟨"b.cs"⟩] = .ok [actor "Health" "int", actor "Speed" "float"] ∧
    ∀ name, tree.makeDocument .assembly ⟨"Game.ron"⟩ .usual [⟨"a.cs"⟩, ⟨"b.cs"⟩] ≠ .error (.duplicateType name) := by
  refine ⟨loads, exports, fun name h => ?_⟩
  cases ((repeated_companions_unnoticed loads exports .usual).2.1 name).mp h

end EngineBridge
