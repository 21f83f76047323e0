import EngineBridge.Proofs.Export.Writing

/-! Where a write makes anything.

A write makes the directories that are missing on its way, and its file at the end. Where a part of the way is there
already, all that is new lies on the rest of it. -/

namespace EngineBridge
namespace FileTree
open Path (IsName Descends idle)

variable {t t₁ t' : FileTree} {l m x : Location} {p q root : Path} {ss names : List String} {content : ByteArray}
variable {S S' : Set Location}

/-- From one tree to the other nothing changes but at some locations. -/
def OnlyIn (S : Set Location) (t t' : FileTree) : Prop := ∀ x, t'.entry? x ≠ t.entry? x → x ∈ S

namespace OnlyIn

theorem refl (S : Set Location) (t : FileTree) : OnlyIn S t t := fun _ h => absurd rfl h

theorem trans (h : OnlyIn S t t₁) (h' : OnlyIn S t₁ t') : OnlyIn S t t' := fun x hx => by
  by_cases hsame : t₁.entry? x = t.entry? x
  · exact h' x (hsame ▸ hx)
  · exact h x hsame

theorem mono (h : OnlyIn S t t') (hsub : S ⊆ S') : OnlyIn S' t t' := fun x hx => hsub (h x hx)

theorem kept (h : OnlyIn S t t') (hx : x ∉ S) : t'.entry? x = t.entry? x := by
  by_contra hne
  exact hx (h x hne)

theorem put {e : Entry} : OnlyIn {l} t (t.put l e) := fun x hx => by
  by_contra hne
  exact hx (entry?_put_of_ne hne)

end OnlyIn

/-! ### Directories on the way -/

/-- Where nothing was and something is, a part of the way leads. -/
theorem makeAll_new {r : Except FileError Location} (h : t.makeAll l ss = (t', r)) (hx : t'.entry? x ≠ t.entry? x) :
    t.entry? x = none ∧ ∃ front, front <+: ss ∧ t'.follow l front = .ok x := by
  induction ss generalizing t l with
  | nil =>
    obtain ⟨rfl, -⟩ := Prod.mk.inj h
    exact absurd rfl hx
  | cons s ss ih =>
    obtain ⟨t₁, k, hstep, hrest⟩ | ⟨rfl, -⟩ := makeAll_cons h
    · have hk := ((stepMaking_spares hstep).trans (makeAll_spares hrest)).step (stepMaking_ok hstep).1
      by_cases hsame : t₁.entry? x = t.entry? x
      · obtain ⟨hnone, front, hfront, hfollow⟩ := ih hrest (hsame ▸ hx)
        exact ⟨hsame ▸ hnone, s :: front, (List.cons_prefix_cons).mpr ⟨rfl, hfront⟩, follow_cons.mpr ⟨k, hk, hfollow⟩⟩
      · obtain ⟨-, ⟨-, rfl⟩ | ⟨hnone, rfl⟩⟩ := stepMaking_ok hstep
        · exact absurd rfl hsame
        · obtain rfl : x = k := OnlyIn.put x hsame
          exact ⟨hnone, [s], ⟨ss, rfl⟩, follow_cons.mpr ⟨x, hk, rfl⟩⟩
    · exact absurd rfl hx

/-- What is new on a way whose first part was there lies on the rest of it. -/
theorem new_on_way {front : List String} (h : Spares S t t') (hway : t.follow l ss = .ok m) (hnew : t.entry? x = none)
    (hnames : ∀ n ∈ names, IsName n) (hfront : front <+: ss ++ names) (hx : t'.follow l front = .ok x) :
    ∃ rest, rest <+: names ∧ x = m ++ rest := by
  rcases List.prefix_or_prefix_of_prefix hfront (List.prefix_append ss names) with ⟨rest, rfl⟩ | ⟨rest, rfl⟩
  · obtain ⟨k, hk, hgoes⟩ := follow_append.mp hway
    obtain rfl : k = x := Except.ok.inj ((h.follow hk).symm.trans hx)
    cases rest with
    | nil =>
      obtain rfl : k = m := Except.ok.inj hgoes
      exact ⟨[], List.nil_prefix, (List.append_nil _).symm⟩
    | cons s rest =>
      -- One could go on from the place, so a directory was there.
      obtain ⟨_, hstep, -⟩ := follow_cons.mp hgoes
      rw [step_directory hstep] at hnew
      cases hnew
  · have hrest : rest <+: names := (List.prefix_append_right_inj ss).mp hfront
    obtain ⟨k, hk, hgoes⟩ := follow_append.mp hx
    obtain rfl : m = k := Except.ok.inj ((h.follow hway).symm.trans hk)
    exact ⟨rest, hrest, follow_names (fun n hn => hnames n (hrest.subset hn)) hgoes⟩

/-- The locations on the way from a location along names. -/
def Along (m : Location) (names : List String) : Set Location := {x | ∃ front, front <+: names ∧ x = m ++ front}

/-- A write below a directory makes nothing but what lies on the way to its file. -/
theorem write_onlyIn {r : Except FileError Unit} (hp : t.locate p = .ok m) (hq : q.Descends)
    (h : t.write (p.join q) content = (t', r)) : OnlyIn (Along m q.segments) t t' := by
  obtain ⟨front, hfront, hjoin⟩ := p.segments_join_front
  obtain ⟨habsolute, hsegments⟩ := hjoin hq.relative
  have hstart : t.startOf (p.join q) = t.startOf p := by
    unfold startOf
    rw [habsolute]
  have hnamed : q.segments.filter (!idle ·) = q.segments := List.filter_eq_self.mpr fun n hn => by
    simp [idle, (hq.named n hn).notEmpty, (hq.named n hn).notHere]
  by_cases hzero : ZeroFree (p.join q)
  · obtain ⟨t₁, made, hmade, hend⟩ := write_cases h hzero
    have hspares := makeAll_spares hmade
    have hdirectories : OnlyIn (Along m q.segments) t t₁ := fun x hx => by
      obtain ⟨hnew, way, hway, hfollow⟩ := makeAll_new hmade hx
      have hprefix : way.filter (!idle ·) <+: front.filter (!idle ·) ++ q.segments := by
        rw [← hnamed, ← List.filter_append, ← hsegments, ← Path.filter_components]
        exact (hway.trans (List.dropLast_prefix _)).filter _
      have hthere := follow_filter (follow_of_locate hfront hp)
      rw [← hstart] at hthere
      exact new_on_way hspares hthere hnew hq.named hprefix (follow_filter hfollow)
    -- Besides the directories there is at most the file itself.
    obtain ⟨-, rfl⟩ | ⟨-, -, l, hl, -, rfl⟩ := hend
    · exact hdirectories
    · refine hdirectories.trans (OnlyIn.put.mono ?_)
      rintro x rfl
      exact ⟨q.segments, List.prefix_refl _, leads_of_locate (hspares.locate hp) hq hl⟩
  · rw [write_zero hzero] at h
    obtain ⟨rfl, -⟩ := Prod.mk.inj h
    exact .refl _ _

/-! ### Artifacts -/

section
variable {write : FileTree → Path → Artifact → FileTree × Except ExportError WriteOutcome} {a : Artifact}
variable {as : List Artifact} {results : List (Artifact × Except ExportError WriteOutcome)}

theorem writeText_onlyIn {text : String} {r : Except ExportError Unit} (hp : t.locate p = .ok m) (hq : q.Descends)
    (h : t.writeText (p.join q) text = (t', r)) : OnlyIn (Along m q.segments) t t' := by
  obtain ⟨result, hwrite, -⟩ := writeText_cases h
  exact write_onlyIn hp hq hwrite

/-- Writing an artifact below a directory makes nothing but what lies on the way to its file. -/
def Direct (write : FileTree → Path → Artifact → FileTree × Except ExportError WriteOutcome) : Prop :=
  ∀ {t t' : FileTree} {p q : Path} {m : Location} {a : Artifact} {r}, t.locate p = .ok m → q.Descends → a.path.Descends →
    write t (p.join q) a = (t', r) → OnlyIn (Along m (q.join a.path).segments) t t'

theorem direct_writeArtifact : Direct writeArtifact := by
  intro t t' p q m a r hp hq ha h
  obtain ⟨hdescends, hjoin⟩ := Path.descends_join (p := p) hq ha
  obtain ⟨-, rfl, -⟩ | ⟨result, hwrite, -⟩ := writeArtifact_cases h
  · exact .refl _ _
  · rw [← hjoin] at hwrite
    exact writeText_onlyIn hp hdescends hwrite

theorem direct_writeIfAbsent : Direct writeIfAbsent := by
  intro t t' p q m a r hp hq ha h
  obtain ⟨hdescends, hjoin⟩ := Path.descends_join (p := p) hq ha
  obtain ⟨-, rfl, -⟩ | ⟨-, result, hwrite, -⟩ := writeIfAbsent_cases h
  · exact .refl _ _
  · rw [← hjoin] at hwrite
    exact writeText_onlyIn hp hdescends hwrite

/-- A stage makes nothing but what lies on the ways to its files. -/
theorem writeAll_onlyIn (hwrite : Careful write) (hdirect : Direct write) (hp : t.locate p = .ok m) (hq : q.Descends)
    (has : ∀ a ∈ as, a.path.Descends) (h : t.writeAll write (p.join q) as = (t', results)) :
    OnlyIn {x | ∃ a ∈ as, x ∈ Along m (q.join a.path).segments} t t' := by
  induction as generalizing t results with
  | nil => exact (Prod.mk.inj h).1 ▸ .refl _ _
  | cons a as ih =>
    rw [List.forall_mem_cons] at has
    obtain ⟨t₁, r, rest, hfirst, hrest, -⟩ := writeAll_cons h
    have hlater := ih ((hwrite.spares hfirst).locate hp) has.2 hrest
    refine ((hdirect hp hq has.1 hfirst).mono fun x hx => ?_).trans (hlater.mono ?_)
    · exact ⟨a, List.mem_cons_self, hx⟩
    · rintro x ⟨b, hb, hx⟩
      exact ⟨b, List.mem_cons_of_mem a hb, hx⟩

/-- What lies on the way to an artifact begins with the first name of the directory of its stage. -/
theorem mem_along_join {first : String} (hq : q.Descends) (ha : a.path.Descends) (hfirst : q.segments.head? = some first)
    (hx : x ∈ Along m (q.join a.path).segments) : x = m ∨ m ++ [first] <+: x := by
  obtain ⟨rest, hsegments⟩ := List.head?_eq_some_iff.mp hfirst
  obtain ⟨front, hfront, rfl⟩ := hx
  rw [Path.segments_join hq.solid ha.relative, hsegments, List.cons_append] at hfront
  rcases List.prefix_cons_iff.mp hfront with rfl | ⟨front', rfl, -⟩
  · exact .inl (List.append_nil _)
  · exact .inr ((List.prefix_append_right_inj m).mpr ⟨front', rfl⟩)

end
end FileTree
end EngineBridge
