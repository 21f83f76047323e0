import EngineBridge.Manifest.CrossReference
import EngineBridge.Proofs.Model.Lowering

/-! Cross-referencing pulls exactly what the manifest reaches, and loses no meaning.

The worklist is judged by what it leaves behind: everything pulled is reached from a name in the queue, and
everything that the queue or a pulled declaration mentions is known or pulled. Since a declaration asks its scope for
the names that it mentions only, it is lowered against what was pulled as it is against all sources. -/

namespace EngineBridge

/-- Declarations that are reached from the roots: a declaration leads to the visible ones whose names it mentions. -/
inductive Reached (visible roots : List TypeDecl) : TypeDecl → Prop
  | root {d : TypeDecl} : d ∈ roots → Reached visible roots d
  | mention {d e : TypeDecl} : Reached visible roots d → e ∈ visible → e.name ∈ d.mentions → Reached visible roots e

/-- The record of a declaration among others, if no name is declared twice. -/
def TypeDecl.lowerAmong (d : TypeDecl) (decls : List TypeDecl) (fallback : String) :
    Except DocumentError TypeRecord := do
  let scope ← Scope.ofDecls decls
  d.lower scope fallback

/-! ### The worklist -/

theorem lastNamed_eq_some {name : String} {sources : List TypeDecl} {d : TypeDecl}
    (h : lastNamed name sources = some d) : d ∈ sources ∧ d.name = name := by
  unfold lastNamed at h
  exact ⟨List.mem_reverse.mp (List.mem_of_find?_eq_some h), by simpa using List.find?_some h⟩

theorem lastNamed_eq_none {name : String} {sources : List TypeDecl} (h : lastNamed name sources = none) :
    ∀ d ∈ sources, d.name ≠ name := by
  intro d hd hname
  unfold lastNamed at h
  rw [List.find?_eq_none] at h
  exact h d (List.mem_reverse.mpr hd) (beq_iff_eq.mpr hname)

theorem mem_othersThan {name : String} {sources : List TypeDecl} {d : TypeDecl} :
    d ∈ othersThan name sources ↔ d ∈ sources ∧ d.name ≠ name := by
  unfold othersThan
  rw [List.mem_filter, bne_iff_ne]

/-- Distinct declarations have distinct names. -/
def DistinctNames (decls : List TypeDecl) : Prop := (decls.map (·.name)).Nodup

theorem DistinctNames.eq_of_name {decls : List TypeDecl} (h : DistinctNames decls) {d e : TypeDecl} (hd : d ∈ decls)
    (he : e ∈ decls) (hname : d.name = e.name) : d = e :=
  List.inj_on_of_nodup_map h hd he hname

theorem DistinctNames.othersThan {decls : List TypeDecl} (h : DistinctNames decls) (name : String) :
    DistinctNames (othersThan name decls) :=
  List.Nodup.sublist (List.Sublist.map _ List.filter_sublist) h

section
variable {known queue : List String} {sources : List TypeDecl} {d : TypeDecl}

theorem mem_of_mem_pull (h : d ∈ pull known sources queue) : d ∈ sources ∧ d.name ∉ known := by
  fun_induction pull known sources queue with
  | case1 => cases h
  | case2 _ _ _ _ _ ih => exact ih h
  | case3 _ _ _ _ _ _ ih => exact ih h
  | case4 known sources name queue hknown e he ih =>
    rcases List.mem_cons.mp h with rfl | h
    · obtain ⟨hmem, rfl⟩ := lastNamed_eq_some he
      exact ⟨hmem, fun hname => hknown (List.contains_iff_mem.mpr hname)⟩
    · obtain ⟨hmem, hname⟩ := ih h
      exact ⟨(mem_othersThan.mp hmem).1, fun hk => hname (List.mem_cons_of_mem _ hk)⟩

/-- No name is pulled twice. -/
theorem distinctNames_pull : DistinctNames (pull known sources queue) := by
  fun_induction pull known sources queue with
  | case1 => exact List.nodup_nil
  | case2 _ _ _ _ _ ih => exact ih
  | case3 _ _ _ _ _ _ ih => exact ih
  | case4 known sources name queue hknown d hd ih =>
    refine List.nodup_cons.mpr ⟨fun hmem => ?_, ih⟩
    obtain ⟨e, he, hname⟩ := List.mem_map.mp hmem
    obtain ⟨-, rfl⟩ := lastNamed_eq_some hd
    exact (mem_of_mem_pull he).2 (hname ▸ List.mem_cons_self)

/-- What is mentioned by the queue or by what was pulled is known already or was pulled. -/
theorem pull_closed (hnames : DistinctNames sources) (hd : d ∈ sources) (hknown : d.name ∉ known)
    (hmention : d.name ∈ queue ∨ ∃ e ∈ pull known sources queue, d.name ∈ e.mentions) :
    d ∈ pull known sources queue := by
  fun_induction pull known sources queue with
  | case1 => simp at hmention
  | case2 known sources name queue hname ih =>
    refine ih hnames hd hknown (hmention.imp_left fun hmem => ?_)
    rcases List.mem_cons.mp hmem with heq | hmem
    · exact absurd (heq ▸ List.contains_iff_mem.mp hname) hknown
    · exact hmem
  | case3 known sources name queue _ hnone ih =>
    refine ih hnames hd hknown (hmention.imp_left fun hmem => ?_)
    rcases List.mem_cons.mp hmem with heq | hmem
    · exact absurd heq (lastNamed_eq_none hnone d hd)
    · exact hmem
  | case4 known sources name queue _ e he ih =>
    obtain ⟨hmem, rfl⟩ := lastNamed_eq_some he
    by_cases hname : d.name = e.name
    · rw [hnames.eq_of_name hd hmem hname]
      exact List.mem_cons_self
    · refine List.mem_cons_of_mem _ (ih (hnames.othersThan _) (mem_othersThan.mpr ⟨hd, hname⟩) ?_ ?_)
      · simp [hname, hknown]
      · rcases hmention with hqueue | ⟨e', he', hmention⟩
        · exact .inl (List.mem_append_left _ ((List.mem_cons.mp hqueue).resolve_left hname))
        · rcases List.mem_cons.mp he' with rfl | he'
          · exact .inl (List.mem_append_right _ hmention)
          · exact .inr ⟨e', he', hmention⟩

/-- What was pulled is reached, if each name in the queue is mentioned by something reached. -/
theorem reached_of_mem_pull {visible roots : List TypeDecl} (hvisible : ∀ e ∈ sources, e.name ∉ known → e ∈ visible)
    (hqueue : ∀ n ∈ queue, ∃ e, Reached visible roots e ∧ n ∈ e.mentions) (h : d ∈ pull known sources queue) :
    Reached visible roots d := by
  fun_induction pull known sources queue with
  | case1 => cases h
  | case2 _ _ _ _ _ ih => exact ih hvisible (fun n hn => hqueue n (List.mem_cons_of_mem _ hn)) h
  | case3 _ _ _ _ _ _ ih => exact ih hvisible (fun n hn => hqueue n (List.mem_cons_of_mem _ hn)) h
  | case4 known sources name queue hknown e he ih =>
    obtain ⟨hmem, rfl⟩ := lastNamed_eq_some he
    obtain ⟨e', he', hmention⟩ := hqueue _ List.mem_cons_self
    have hreached : Reached visible roots e :=
      .mention he' (hvisible e hmem fun hk => hknown (List.contains_iff_mem.mpr hk)) hmention
    rcases List.mem_cons.mp h with rfl | h
    · exact hreached
    · refine ih (fun x hx hname => ?_) (fun n hn => ?_) h
      · exact hvisible x (mem_othersThan.mp hx).1 fun hk => hname (List.mem_cons_of_mem _ hk)
      · rcases List.mem_append.mp hn with hn | hn
        · exact hqueue n (List.mem_cons_of_mem _ hn)
        · exact ⟨e, hreached, hn⟩

end

/-! ### Scopes of declarations -/

section
variable {decls : List TypeDecl}

theorem Scope.ofDecls_of_distinctNames (h : DistinctNames decls) :
    Scope.ofDecls decls = .ok (decls.map fun d => (d.name, d.kind)) := by
  unfold Scope.ofDecls
  rw [firstRepeated_nil_eq_none.mpr h]

theorem Scope.ofDecls_of_repeated {name : String} (h : firstRepeated [] (decls.map (·.name)) = some name)
    (more : List TypeDecl) : Scope.ofDecls (decls ++ more) = .error (.duplicateType name) := by
  unfold Scope.ofDecls
  rw [List.map_append, firstRepeated_append_of_some h]

theorem Scope.kind?_eq_some_iff (h : DistinctNames decls) {name : String} {kind : TypeKind} :
    Scope.kind? (decls.map fun d => (d.name, d.kind)) name = some kind ↔
      ∃ d ∈ decls, d.name = name ∧ d.kind = kind := by
  unfold Scope.kind?
  induction decls with
  | nil => simp
  | cons d decls ih =>
    obtain ⟨hd, hdecls⟩ := List.nodup_cons.mp h
    rw [List.map_cons, List.lookup_cons]
    by_cases hname : name = d.name
    · subst hname
      have hothers : ∀ e ∈ decls, e.name ≠ d.name := fun e he heq => hd (List.mem_map.mpr ⟨e, he, heq⟩)
      simp only [beq_self_eq_true, Option.some.injEq, List.mem_cons, exists_eq_or_imp, true_and]
      exact ⟨.inl, fun h => h.resolve_right fun ⟨e, he, heq, _⟩ => hothers e he heq⟩
    · simp only [beq_eq_false_iff_ne.mpr hname, ih hdecls, List.mem_cons, exists_eq_or_imp, Ne.symm hname, false_and,
        false_or]

end

/-! ### Manifests -/

namespace AssemblyManifest

/-- The sources that the manifest does not hide behind a declaration of the same name. -/
def unshadowed (m : AssemblyManifest) (sources : List TypeDecl) : List TypeDecl :=
  sources.filter fun d => !(m.decls.map (·.name)).contains d.name

/-- The declarations that count: those of the manifest, and the sources that it does not hide. -/
def visible (m : AssemblyManifest) (sources : List TypeDecl) : List TypeDecl := m.decls ++ m.unshadowed sources

/-- The declarations that the manifest pulls from the sources. -/
def pulled (m : AssemblyManifest) (sources : List TypeDecl) : List TypeDecl :=
  pull (m.decls.map (·.name)) sources (m.decls.flatMap (·.mentions))

variable {m : AssemblyManifest} {sources : List TypeDecl} {d : TypeDecl}

theorem mem_unshadowed : d ∈ m.unshadowed sources ↔ d ∈ sources ∧ d.name ∉ m.decls.map (·.name) := by
  unfold unshadowed
  rw [List.mem_filter, Bool.not_eq_true', ← Bool.not_eq_true, List.contains_iff_mem]

theorem reached_of_mem_pulled (h : d ∈ m.pulled sources) :
    d ∈ sources ∧ d.name ∉ m.decls.map (·.name) ∧ Reached (m.visible sources) m.decls d := by
  obtain ⟨hmem, hname⟩ := mem_of_mem_pull h
  refine ⟨hmem, hname, reached_of_mem_pull (fun e he hname => ?_) (fun n hn => ?_) h⟩
  · exact List.mem_append_right _ (mem_unshadowed.mpr ⟨he, hname⟩)
  · obtain ⟨e, he, hn⟩ := List.mem_flatMap.mp hn
    exact ⟨e, .root he, hn⟩

section
variable (hnames : DistinctNames sources)
include hnames

theorem mem_crossReference_of_mention (hd : d ∈ m.visible sources) {e : TypeDecl} (he : e ∈ m.crossReference sources)
    (hmention : d.name ∈ e.mentions) : d ∈ m.crossReference sources := by
  rcases List.mem_append.mp hd with hd | hd
  · exact List.mem_append_left _ hd
  · obtain ⟨hmem, hname⟩ := mem_unshadowed.mp hd
    refine List.mem_append_right _ (pull_closed hnames hmem hname ?_)
    rcases List.mem_append.mp he with he | he
    · exact .inl (List.mem_flatMap.mpr ⟨e, he, hmention⟩)
    · exact .inr ⟨e, he, hmention⟩

theorem mem_crossReference_of_reached (h : Reached (m.visible sources) m.decls d) : d ∈ m.crossReference sources := by
  induction h with
  | root hd => exact List.mem_append_left _ hd
  | mention _ hvisible hmention ih => exact mem_crossReference_of_mention hnames hvisible ih hmention

theorem mem_pulled : d ∈ m.pulled sources ↔
    d ∈ sources ∧ d.name ∉ m.decls.map (·.name) ∧ Reached (m.visible sources) m.decls d := by
  refine ⟨reached_of_mem_pulled, ?_⟩
  rintro ⟨-, hname, hreached⟩
  refine (List.mem_append.mp (mem_crossReference_of_reached hnames hreached)).resolve_left fun hd => ?_
  exact hname (List.mem_map_of_mem hd)

end

/-! ### Lowering what was pulled -/

theorem distinctNames_crossReference (h : DistinctNames m.decls) : DistinctNames (m.crossReference sources) := by
  unfold DistinctNames AssemblyManifest.crossReference
  rw [List.map_append]
  refine List.nodup_append'.mpr ⟨h, distinctNames_pull, fun name hdecl hpulled => ?_⟩
  obtain ⟨d, hd, rfl⟩ := List.mem_map.mp hpulled
  exact (mem_of_mem_pull hd).2 hdecl

theorem distinctNames_visible (hnames : DistinctNames sources) (h : DistinctNames m.decls) :
    DistinctNames (m.visible sources) := by
  unfold DistinctNames visible
  rw [List.map_append]
  refine List.nodup_append'.mpr ⟨h, ?_, fun name hdecl hsource => ?_⟩
  · exact List.Nodup.sublist (List.Sublist.map _ List.filter_sublist) hnames
  · obtain ⟨d, hd, rfl⟩ := List.mem_map.mp hsource
    exact (mem_unshadowed.mp hd).2 hdecl

section
variable (hnames : DistinctNames sources)
include hnames

theorem mem_visible_of_mem_crossReference (hd : d ∈ m.crossReference sources) : d ∈ m.visible sources := by
  rcases List.mem_append.mp hd with hd | hd
  · exact List.mem_append_left _ hd
  · obtain ⟨hmem, hname, -⟩ := (mem_pulled hnames).mp hd
    exact List.mem_append_right _ (mem_unshadowed.mpr ⟨hmem, hname⟩)

/-- Among what was pulled, the names that a declaration mentions mean what they mean among all that is visible. -/
theorem agree_crossReference (h : DistinctNames m.decls) (hd : d ∈ m.crossReference sources) :
    Scope.Agree ((m.crossReference sources).map fun d => (d.name, d.kind))
      ((m.visible sources).map fun d => (d.name, d.kind)) d.mentions := by
  intro name hname
  refine Option.ext fun kind => ?_
  rw [Scope.kind?_eq_some_iff (distinctNames_crossReference h),
    Scope.kind?_eq_some_iff (distinctNames_visible hnames h)]
  constructor
  · rintro ⟨e, he, heq⟩
    exact ⟨e, mem_visible_of_mem_crossReference hnames he, heq⟩
  · rintro ⟨e, he, rfl, hkind⟩
    exact ⟨e, mem_crossReference_of_mention hnames he hd hname, rfl, hkind⟩

theorem lowerAmong_crossReference (hd : d ∈ m.crossReference sources) (fallback : String) :
    d.lowerAmong (m.crossReference sources) fallback = d.lowerAmong (m.visible sources) fallback := by
  unfold TypeDecl.lowerAmong
  cases hrepeated : firstRepeated [] (m.decls.map (·.name)) with
  | some name =>
    unfold AssemblyManifest.crossReference visible
    rw [Scope.ofDecls_of_repeated hrepeated, Scope.ofDecls_of_repeated hrepeated]
  | none =>
    have h : DistinctNames m.decls := firstRepeated_nil_eq_none.mp hrepeated
    rw [Scope.ofDecls_of_distinctNames (distinctNames_crossReference h),
      Scope.ofDecls_of_distinctNames (distinctNames_visible hnames h)]
    exact TypeDecl.lower_congr (agree_crossReference hnames h hd) fallback

end

theorem names_decls (m : AssemblyManifest) : m.decls.map (·.name) = m.types.map (·.name) := by
  unfold decls
  rw [List.map_map]
  rfl

/-- Cross-referencing gives the declarations of the manifest in order, those without a module in the one named like
the assembly, and behind them once each source that the manifest does not hide and that is reached from it, and no
other. Each of these declarations is lowered among them as it is among all that is visible. -/
theorem crossReference_pulls_reached (m : AssemblyManifest) (sources : List TypeDecl)
    (hnames : (sources.map (·.name)).Nodup) :
    (∃ pulled, m.crossReference sources =
        (m.types.map fun d => { d with module := some (d.module.getD m.assembly) }) ++ pulled ∧ pulled.Nodup ∧
        ∀ d, d ∈ pulled ↔
          d ∈ sources ∧ d.name ∉ m.types.map (·.name) ∧ Reached (m.visible sources) m.decls d) ∧
      ∀ d ∈ m.crossReference sources, ∀ fallback,
        d.lowerAmong (m.crossReference sources) fallback = d.lowerAmong (m.visible sources) fallback := by
  refine ⟨⟨m.pulled sources, rfl, List.Nodup.of_map _ distinctNames_pull, fun d => ?_⟩, fun d hd fallback =>
    lowerAmong_crossReference hnames hd fallback⟩
  rw [mem_pulled hnames, names_decls]

namespace PawnManifest

/-- A declaration of an exported type. -/
def declared (name : String) (kind : TypeKind) (base : Option TypeExpr) (fields : List TypeExpr) : TypeDecl where
  name
  kind
  module := none
  nspace := none
  base
  attributes := [⟨kind.marker, []⟩]
  modifiers := []
  members := fields.map fun type => .field ⟨type.name, type, [⟨"UProperty", []⟩], []⟩
  variants := []

def pawn : TypeDecl := declared "Pawn" .classKind (some (.named "Actor")) [⟨"TArray", [.named "Vector"]⟩]
def actor : TypeDecl := declared "Actor" .classKind none []
def vector : TypeDecl := declared "Vector" .structKind none [.named "Unit"]
def unit : TypeDecl := declared "Unit" .structKind none []
def unused : TypeDecl := declared "Unused" .structKind none [.named "Vector"]

def manifest : AssemblyManifest where
  assembly := "Game"
  engineVersion := none
  allowFastInvoke := true
  types := [pawn]

/-- The companion sources, one of which nothing mentions. -/
def companions : List TypeDecl := [unused, unit, actor, vector]

end PawnManifest

open PawnManifest in
/-- A struct that is mentioned by a struct that is mentioned by the manifest is pulled, and means the same. -/
theorem crossReference_pulls_reached_pawn : (companions.map (·.name)).Nodup ∧
    (manifest.crossReference companions).map (·.name) = ["Pawn", "Actor", "Vector", "Unit"] ∧
      Reached (manifest.visible companions) manifest.decls unit ∧
      vector.lowerAmong (manifest.crossReference companions) "Game" =
        vector.lowerAmong (manifest.visible companions) "Game" := by
  have hnames : (companions.map (·.name)).Nodup := by decide
  have hout : manifest.crossReference companions = manifest.decls ++ [actor, vector, unit] := by cbv
  obtain ⟨⟨pulled, hpulled, -, hmem⟩, hlower⟩ := crossReference_pulls_reached manifest companions hnames
  have hpulled : pulled = [actor, vector, unit] := List.append_cancel_left (hpulled.symm.trans hout)
  refine ⟨hnames, by rw [hout]; rfl, ((hmem unit).mp (by simp [hpulled])).2.2, hlower vector ?_ "Game"⟩
  rw [hout]
  simp

end AssemblyManifest
end EngineBridge
