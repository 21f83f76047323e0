import EngineBridge.Proofs.Files.Tree

/-! What is left behind when directories are made, a file is written, or a file is taken away.

Each operation has a fact for its good end and one for its failure. A failed write may have made directories; made once
more it fails in the same way and leaves everything as it is. -/

namespace EngineBridge
namespace FileTree
open Path (IsName Solid idle)
open Outcome

variable {t t₁ t' : FileTree} {l m x : Location} {p q : Path} {n s : String} {content : ByteArray} {ss names : List String}
variable {e : FileError} {r : Except FileError Location}

theorem find?_eq_some {e : Entry} : t.find? p = some e ↔ ∃ l, t.locate p = .ok l ∧ t.entry? l = some e := by
  unfold find?
  split
  · next l hl => simp [hl]
  · next hl => simp [hl]

/-! ### Making directories -/

theorem stepMaking_ok (h : t.stepMaking l s = .ok (t', m)) : t.step l s = .ok m ∧
    (t.entry? m = some .directory ∧ t' = t ∨ t.entry? m = none ∧ t' = t.put m .directory) := by
  obtain ⟨next, hnext, h⟩ := bind_eq_ok.mp h
  split at h
  · next hdirectory =>
    obtain ⟨rfl, rfl⟩ := Prod.mk.inj (Except.ok.inj h)
    exact ⟨hnext, .inl ⟨hdirectory, rfl⟩⟩
  · cases h
  · next hnone =>
    obtain ⟨rfl, rfl⟩ := Prod.mk.inj (Except.ok.inj h)
    exact ⟨hnext, .inr ⟨hnone, rfl⟩⟩

theorem stepMaking_spares (h : t.stepMaking l s = .ok (t', m)) : Spares ∅ t t' := by
  obtain ⟨-, ⟨-, rfl⟩ | ⟨hnone, rfl⟩⟩ := stepMaking_ok h
  · exact .refl _ _
  · exact spares_put_directory hnone

theorem stepMaking_directory (h : t.stepMaking l s = .ok (t', m)) : t'.entry? m = some .directory := by
  obtain ⟨-, ⟨hdirectory, rfl⟩ | ⟨hnone, rfl⟩⟩ := stepMaking_ok h
  · exact hdirectory
  · exact entry?_put_self fun hm => by simp [hm] at hnone

theorem Proper.stepMaking (ht : t.Proper) (hs : '/' ∉ s.toList) (h : t.stepMaking l s = .ok (t', m)) : t'.Proper := by
  obtain ⟨hstep, ⟨-, rfl⟩ | ⟨hnone, rfl⟩⟩ := stepMaking_ok h
  · exact ht
  · rcases ht.step_cases hs hstep with hdirectory | ⟨hn, rfl⟩
    · rw [hnone] at hdirectory
      cases hdirectory
    · exact ht.put (step_directory hstep) hn (.inr rfl)

/-- Where a directory is, none is made. -/
theorem stepMaking_again (hm : t.step l s = .ok m) (hdirectory : t.entry? m = some .directory) :
    t.stepMaking l s = .ok (t, m) := by
  refine bind_eq_ok.mpr ⟨m, hm, ?_⟩
  rw [hdirectory]
  rfl

/-- Directories are made one after the other up to the first that cannot be made. -/
theorem makeAll_cons (h : t.makeAll l (s :: ss) = (t', r)) :
    (∃ t₁ m, t.stepMaking l s = .ok (t₁, m) ∧ t₁.makeAll m ss = (t', r)) ∨ t' = t ∧ ∃ e, r = .error e := by
  unfold makeAll at h
  split at h
  · next t₁ m hstep => exact .inl ⟨t₁, m, hstep, h⟩
  all_goals
    obtain ⟨rfl, rfl⟩ := Prod.mk.inj h
    exact .inr ⟨rfl, _, rfl⟩

theorem makeAll_spares (h : t.makeAll l ss = (t', r)) : Spares ∅ t t' := by
  induction ss generalizing t l with
  | nil =>
    obtain ⟨rfl, -⟩ := Prod.mk.inj h
    exact .refl _ _
  | cons s ss ih =>
    obtain ⟨t₁, m, hstep, hrest⟩ | ⟨rfl, -⟩ := makeAll_cons h
    · exact (stepMaking_spares hstep).trans (ih hrest)
    · exact .refl _ _

theorem Proper.makeAll (ht : t.Proper) (hs : ∀ s ∈ ss, '/' ∉ s.toList) (h : t.makeAll l ss = (t', r)) : t'.Proper := by
  induction ss generalizing t l with
  | nil =>
    obtain ⟨rfl, -⟩ := Prod.mk.inj h
    exact ht
  | cons s ss ih =>
    rw [List.forall_mem_cons] at hs
    obtain ⟨t₁, m, hstep, hrest⟩ | ⟨rfl, -⟩ := makeAll_cons h
    · exact ih (ht.stepMaking hs.1 hstep) hs.2 hrest
    · exact ht

/-- What was made leads to where the making ended. -/
theorem makeAll_ok (hl : t.entry? l = some .directory) (h : t.makeAll l ss = (t', .ok m)) :
    t'.follow l ss = .ok m ∧ t'.entry? m = some .directory := by
  induction ss generalizing t l with
  | nil =>
    obtain ⟨rfl, hm⟩ := Prod.mk.inj h
    obtain rfl := Except.ok.inj hm
    exact ⟨rfl, hl⟩
  | cons s ss ih =>
    obtain ⟨t₁, k, hstep, hrest⟩ | ⟨-, _, ⟨⟩⟩ := makeAll_cons h
    obtain ⟨hfollow, hm⟩ := ih (stepMaking_directory hstep) hrest
    have hk := ((stepMaking_spares hstep).trans (makeAll_spares hrest)).step (stepMaking_ok hstep).1
    exact ⟨follow_cons.mpr ⟨k, hk, hfollow⟩, hm⟩

/-- Making the same directories once more ends in the same way and changes nothing. -/
theorem makeAll_again (h : t.makeAll l ss = (t', r)) : t'.makeAll l ss = (t', r) := by
  induction ss generalizing t l with
  | nil =>
    obtain ⟨rfl, rfl⟩ := Prod.mk.inj h
    rfl
  | cons s ss ih =>
    obtain ⟨t₁, m, hstep, hrest⟩ | ⟨rfl, -⟩ := makeAll_cons h
    · have hspares := makeAll_spares hrest
      have hm := ((stepMaking_spares hstep).trans hspares).step (stepMaking_ok hstep).1
      rw [FileTree.makeAll, stepMaking_again hm (hspares.directory (stepMaking_directory hstep))]
      exact ih hrest
    · exact h

/-! ### Writing a file -/

theorem write_zero (h : ¬ZeroFree p) : t.write p content = (t, .error .zeroInName) := by
  unfold ZeroFree at h
  rw [not_not] at h
  exact if_pos (List.contains_iff_mem.mpr h)

/-- A write makes the directories first; then it fails, or the file is there. -/
theorem write_cases {r : Except FileError Unit} (h : t.write p content = (t', r)) : ZeroFree p →
    ∃ t₁ made, t.makeAll (t.startOf p) p.components.dropLast = (t₁, made) ∧
      ((∃ e, r = .error e) ∧ t' = t₁ ∨ r = .ok () ∧ (∃ m, made = .ok m) ∧
        ∃ l, t₁.locate p = .ok l ∧ t₁.entry? l ≠ some .directory ∧ t' = t₁.put l (.file content)) := by
  intro hzero
  unfold write at h
  rw [if_neg (mt List.contains_iff_mem.mp hzero)] at h
  rcases hmade : t.makeAll (t.startOf p) p.components.dropLast with ⟨t₁, made⟩
  refine ⟨t₁, made, rfl, ?_⟩
  rw [hmade] at h
  cases made with
  | error e =>
    obtain ⟨rfl, rfl⟩ := Prod.mk.inj h
    exact .inl ⟨⟨_, rfl⟩, rfl⟩
  | ok m =>
    dsimp only at h
    split at h
    · obtain ⟨rfl, rfl⟩ := Prod.mk.inj h
      exact .inl ⟨⟨_, rfl⟩, rfl⟩
    · obtain ⟨rfl, rfl⟩ := Prod.mk.inj h
      exact .inl ⟨⟨_, rfl⟩, rfl⟩
    · next l hl =>
      split at h
      · obtain ⟨rfl, rfl⟩ := Prod.mk.inj h
        exact .inl ⟨⟨_, rfl⟩, rfl⟩
      · next hnot =>
        split at h
        · obtain ⟨rfl, rfl⟩ := Prod.mk.inj h
          exact .inl ⟨⟨_, rfl⟩, rfl⟩
        · obtain ⟨rfl, rfl⟩ := Prod.mk.inj h
          exact .inr ⟨rfl, ⟨m, rfl⟩, l, hl, hnot, rfl⟩

/-- Where the directories cannot be made, the file is not written. -/
theorem write_of_makeAll_error (content : ByteArray) (h : t.makeAll (t.startOf p) p.components.dropLast = (t', .error e)) :
    ∃ e', (t.write p content).2 = .error e' ∧ ((t.write p content).1 = t' ∨ (t.write p content).1 = t) := by
  by_cases hzero : ZeroFree p
  · unfold write
    rw [if_neg (mt List.contains_iff_mem.mp hzero), h]
    exact ⟨_, rfl, .inl rfl⟩
  · rw [write_zero hzero]
    exact ⟨_, rfl, .inr rfl⟩

/-- After a write that went well the file is at the end of its path, and no other file has changed. -/
theorem write_ok (h : t.write p content = (t', .ok ())) :
    ∃ l, t'.locate p = .ok l ∧ t'.entry? l = some (.file content) ∧ Spares {l} t t' := by
  by_cases hzero : ZeroFree p
  · obtain ⟨t₁, made, hmade, ⟨⟨_, ⟨⟩⟩, -⟩ | ⟨-, -, l, hl, hnot, rfl⟩⟩ := write_cases h hzero
    have hput : Spares {l} t₁ (t₁.put l (.file content)) := spares_put_file hnot
    refine ⟨l, hput.locate hl, entry?_put_self fun hnil => hnot (by simp [hnil]), ?_⟩
    exact ((makeAll_spares hmade).mono (Set.empty_subset _)).trans hput
  · rw [write_zero hzero] at h
    cases h

/-- A write that fails leaves all files as they are. -/
theorem write_error (h : t.write p content = (t', .error e)) : Spares ∅ t t' := by
  by_cases hzero : ZeroFree p
  · obtain ⟨t₁, made, hmade, ⟨-, rfl⟩ | ⟨⟨⟩, -⟩⟩ := write_cases h hzero
    exact makeAll_spares hmade
  · rw [write_zero hzero] at h
    obtain ⟨rfl, -⟩ := Prod.mk.inj h
    exact .refl _ _

theorem Proper.write {r : Except FileError Unit} (ht : t.Proper) (h : t.write p content = (t', r)) : t'.Proper := by
  by_cases hzero : ZeroFree p
  · obtain ⟨t₁, made, hmade, hend⟩ := write_cases h hzero
    have hfree : ∀ s ∈ p.components.dropLast, '/' ∉ s.toList := fun s hs =>
      Path.slashFree_of_mem_segments (Path.mem_segments_of_mem_components (List.dropLast_subset _ hs))
    have ht₁ : t₁.Proper := ht.makeAll hfree hmade
    obtain ⟨-, rfl⟩ | ⟨-, -, l, hl, hnot, rfl⟩ := hend
    · exact ht₁
    · obtain ⟨m, n, rfl, hn, hm⟩ := ht₁.locate_cases hl hnot
      exact ht₁.put hm hn (.inl hnot)
  · rw [write_zero hzero] at h
    obtain ⟨rfl, -⟩ := Prod.mk.inj h
    exact ht

/-- What is written does not matter to whether it can be written. -/
theorem write_outcome (t : FileTree) (p : Path) (content content' : ByteArray) :
    (t.write p content).2 = (t.write p content').2 := by
  unfold write
  split
  · rfl
  · split
    · rfl
    · split
      · rfl
      · rfl
      · split
        · rfl
        · split <;> rfl

/-! ### Taking a file away -/

theorem removeFile_ok (h : t.removeFile p = (t', .ok ())) :
    ∃ l content, t.locate p = .ok l ∧ t.entry? l = some (.file content) ∧ t' = t.drop l := by
  unfold removeFile at h
  split at h
  · cases h
  · next l hl =>
    split at h
    · cases h
    · cases h
    · next content hfile =>
      split at h
      · cases h
      · exact ⟨l, content, hl, hfile, (Prod.mk.inj h).1.symm⟩

theorem removeFile_error (h : t.removeFile p = (t', .error e)) : t' = t := by
  unfold removeFile at h
  split at h
  · exact (Prod.mk.inj h).1.symm
  · split at h
    · exact (Prod.mk.inj h).1.symm
    · exact (Prod.mk.inj h).1.symm
    · split at h
      · exact (Prod.mk.inj h).1.symm
      · cases h

/-! ### Below a directory -/

/-- A path that goes on with a name leads to a place of that name. -/
theorem locate_child (hp : p.Solid) (hn : IsName n) (h : t.locate (p.child n) = .ok x) :
    ∃ m, t.locate p = .ok m ∧ x = m ++ [n] := by
  obtain ⟨-, hzero, h⟩ := locate_eq_ok.mp h
  rw [startOf_child hp hn, Path.segments_child hn hp] at h
  obtain ⟨m, hm, h⟩ := follow_append.mp h
  have hfree : ZeroFree p := fun hmem => hzero <| by
    rw [Path.child, Path.join_toList hp hn.isRelative]
    exact List.mem_append_left _ hmem
  exact ⟨m, locate_eq_ok.mpr ⟨hp.notEmpty, hfree, hm⟩, follow_names (by simpa using hn) h⟩

theorem locate_foldl_child (hp : p.Solid) (hnames : ∀ n ∈ names, IsName n)
    (h : t.locate (names.foldl Path.child p) = .ok x) : ∃ m, t.locate p = .ok m ∧ x = m ++ names := by
  induction names generalizing p with
  | nil => exact ⟨x, h, by simp⟩
  | cons n names ih =>
    rw [List.forall_mem_cons] at hnames
    obtain ⟨k, hk, rfl⟩ := ih (Path.child_solid hnames.1) hnames.2 h
    obtain ⟨m, hm, rfl⟩ := locate_child hp hnames.1 hk
    exact ⟨m, hm, by simp⟩

/-- Paths that lead down, seen from the path, lead down from the location. -/
def Leads (t : FileTree) (p : Path) (m : Location) : Prop :=
  ∀ {q : Path} {x : Location}, q.Descends → t.locate (p.join q) = .ok x → x = m ++ q.segments

theorem follow_of_locate {front : List String} (hfront : p.segments = front ∨ p.segments = front ++ [""])
    (hl : t.locate p = .ok l) : t.follow (t.startOf p) front = .ok l := by
  obtain ⟨-, -, hl⟩ := locate_eq_ok.mp hl
  rcases hfront with hfront | hfront <;> rw [hfront] at hl
  · exact hl
  · obtain ⟨m, hm, hl⟩ := follow_append.mp hl
    obtain ⟨m', hstep, hl⟩ := follow_cons.mp hl
    obtain rfl : m' = l := Except.ok.inj hl
    have hidle := step_idle (s := "") (step_directory hstep) (by decide)
    rwa [Except.ok.inj (hstep.symm.trans hidle)]

theorem exists_leads (t : FileTree) (p : Path) : ∃ m, t.Leads p m ∧ ∀ {l}, t.locate p = .ok l → l = m := by
  obtain ⟨front, hfront, hjoin⟩ := Path.segments_join_front p
  have hback : ∀ {q x}, q.Descends → t.locate (p.join q) = .ok x →
      ∃ m, t.follow (t.startOf p) front = .ok m ∧ x = m ++ q.segments := by
    intro q x hq hx
    obtain ⟨habsolute, hsegments⟩ := hjoin hq.relative
    have hstart : t.startOf (p.join q) = t.startOf p := by
      unfold startOf
      rw [habsolute]
    obtain ⟨-, -, hx⟩ := locate_eq_ok.mp hx
    rw [hstart, hsegments] at hx
    obtain ⟨m, hm, hx⟩ := follow_append.mp hx
    exact ⟨m, hm, follow_names hq.named hx⟩
  have hself : ∀ {l}, t.locate p = .ok l → t.follow (t.startOf p) front = .ok l := follow_of_locate hfront
  cases hfollow : t.follow (t.startOf p) front with
  | ok m =>
    rw [hfollow] at hself hback
    refine ⟨m, fun {q x} hq hx => ?_, fun hl => (Except.ok.inj (hself hl)).symm⟩
    obtain ⟨k, hk, rfl⟩ := hback hq hx
    rw [Except.ok.inj hk]
  | error e =>
    rw [hfollow] at hself hback
    refine ⟨[], fun {q x} hq hx => ?_, fun hl => nomatch hself hl⟩
    obtain ⟨k, hk, -⟩ := hback hq hx
    cases hk

theorem leads_of_locate (h : t.locate p = .ok m) : t.Leads p m := by
  obtain ⟨k, hleads, hself⟩ := t.exists_leads p
  rwa [hself h]

/-- What is there below a directory was found there before. -/
theorem Proper.locate_of_entry {S : Set Location} {e : Entry} (ht : t.Proper) (h : Spares S t t')
    (hp : t.locate p = .ok m) (hq : q.Descends) (hx : t'.locate (p.join q) = .ok x) (he : t.entry? x = some e) :
    t.locate (p.join q) = .ok x := by
  obtain ⟨front, hfront, hjoin⟩ := p.segments_join_front
  obtain ⟨habsolute, hsegments⟩ := hjoin hq.relative
  have hstart : t.startOf (p.join q) = t.startOf p := by
    unfold FileTree.startOf
    rw [habsolute]
  have hm := follow_of_locate hfront hp
  obtain ⟨htext, hzero, hx⟩ := locate_eq_ok.mp hx
  rw [h.startOf, hsegments, hstart] at hx
  obtain ⟨k, hk, hx⟩ := follow_append.mp hx
  obtain rfl : m = k := Except.ok.inj ((h.follow hm).symm.trans hk)
  refine locate_eq_ok.mpr ⟨htext, hzero, ?_⟩
  rw [hsegments, hstart]
  exact follow_append.mpr ⟨m, hm, ht.follow_of_entry hq.named hx he⟩

/-- Below a directory, names lead to locations of their own. -/
theorem names_eq_of_locate {names' : List String} (hp : p.Solid) (hnames : ∀ n ∈ names, IsName n)
    (hnames' : ∀ n ∈ names', IsName n) (h : t.locate (names.foldl Path.child p) = .ok x)
    (h' : t.locate (names'.foldl Path.child p) = .ok x) : names = names' := by
  obtain ⟨m, hm, rfl⟩ := locate_foldl_child hp hnames h
  obtain ⟨m', hm', heq⟩ := locate_foldl_child hp hnames' h'
  obtain rfl : m = m' := Except.ok.inj (hm.symm.trans hm')
  exact List.append_cancel_left heq

/-- The names that lead from a location to the files below it, in the order in which the tree lists the files. -/
def namesBelow (t : FileTree) (l : Location) : List (List String) :=
  t.entries.filterMap fun x =>
    match x.2 with
    | .file _ => if l.isPrefixOf x.1 then some (x.1.drop l.length) else none
    | .directory => none

/-- The names of the files below a location, in their order. -/
def sortedNames (t : FileTree) (l : Location) : List (List String) := (t.namesBelow l).mergeSort locationLe

theorem filesBelow_names : (t.filesBelow l).map (·.1) = t.sortedNames l := by
  have hnames : t.namesBelow l = (t.entries.filterMap fun x =>
      match x.2 with
      | .file content => if l.isPrefixOf x.1 then some (x.1.drop l.length, content) else none
      | .directory => none).map (·.1) := by
    rw [List.map_filterMap]
    refine List.filterMap_congr fun x _ => ?_
    obtain ⟨y, e⟩ := x
    cases e with
    | directory => rfl
    | file content =>
      dsimp only
      split <;> rfl
  unfold filesBelow sortedNames
  rw [hnames]
  exact List.map_mergeSort fun a _ b _ => rfl

/-- A walk comes to the files below in the order of their names. -/
theorem walk_eq (hl : t.locate p = .ok l) : t.walk p = (t.sortedNames l).map fun names => names.foldl Path.child p := by
  unfold walk
  rw [hl, ← filesBelow_names, List.map_map]
  rfl

theorem walk_perm (hl : t.locate p = .ok l) :
    (t.walk p).Perm ((t.namesBelow l).map fun names => names.foldl Path.child p) := by
  rw [walk_eq hl]
  exact (List.mergeSort_perm _ _).map _

theorem Proper.mem_namesBelow (ht : t.Proper) :
    names ∈ t.namesBelow l ↔ ∃ content, t.entry? (l ++ names) = some (.file content) := by
  unfold namesBelow
  rw [List.mem_filterMap]
  constructor
  · rintro ⟨⟨x, e⟩, hmem, hsome⟩
    cases e with
    | directory => cases hsome
    | file content =>
      dsimp only at hsome
      split at hsome
      · next hprefix =>
        obtain ⟨rest, rfl⟩ := List.isPrefixOf_iff_prefix.mp hprefix
        rw [List.drop_left] at hsome
        obtain rfl := Option.some.inj hsome
        exact ⟨content, ht.listed _ hmem⟩
      · cases hsome
  · rintro ⟨content, hfile⟩
    have hne : l ++ names ≠ [] := fun hnil => by simp [hnil] at hfile
    exact ⟨_, mem_entries hne hfile, by simp⟩

/-- A walk comes to the files that lie below where the path leads. -/
theorem Proper.mem_walk (ht : t.Proper) : q ∈ t.walk p ↔ ∃ l names content,
    t.locate p = .ok l ∧ t.entry? (l ++ names) = some (.file content) ∧ q = names.foldl Path.child p := by
  cases hl : t.locate p with
  | error e => simp [walk, hl]
  | ok l =>
    rw [(walk_perm hl).mem_iff, List.mem_map]
    constructor
    · rintro ⟨names, hnames, rfl⟩
      obtain ⟨content, hfile⟩ := ht.mem_namesBelow.mp hnames
      exact ⟨l, names, content, rfl, hfile, rfl⟩
    · rintro ⟨l', names, content, hl', hfile, rfl⟩
      obtain rfl := Except.ok.inj hl'
      exact ⟨names, ht.mem_namesBelow.mpr ⟨content, hfile⟩, rfl⟩

theorem Proper.names_of_walk (ht : t.Proper) (hq : q ∈ t.walk p) :
    ∃ names : List String, (∀ n ∈ names, IsName n) ∧ q = names.foldl Path.child p := by
  obtain ⟨l, names, content, -, hfile, rfl⟩ := ht.mem_walk.mp hq
  exact ⟨names, fun n hn => ht.isName hfile (List.mem_append_right _ hn), rfl⟩

theorem zeroFree_child (hp : p.Solid) (hn : IsName n) : ZeroFree (p.child n) ↔ ZeroFree p ∧ ZeroFree ⟨n⟩ := by
  have hslash : Char.ofNat 0 ≠ '/' := by decide
  unfold ZeroFree
  rw [Path.child, Path.join_toList hp hn.isRelative, List.mem_append, List.mem_cons, or_iff_right hslash, not_or]

/-- Once the directories of a path are made, the path leads to the last of them. -/
theorem Proper.locate_of_makeAll (ht : t.Proper) (hp : p.Solid) (hzero : ZeroFree p)
    (h : t.makeAll (t.startOf p) p.components = (t', .ok m)) : t'.locate p = .ok m := by
  obtain ⟨hfollow, hm⟩ := makeAll_ok (ht.startOf p) h
  have hfilter := follow_filter hfollow
  rw [Path.filter_components] at hfilter
  exact locate_eq_ok.mpr ⟨hp.notEmpty, hzero, (makeAll_spares h).startOf ▸ follow_of_filter hfilter hm⟩

/-- After a write below a path, the path leads somewhere; or no file can be written below it, and trying to changes
nothing. -/
theorem Proper.write_settles {r : Except FileError Unit} (ht : t.Proper) (hp : p.Solid) (hn : IsName n)
    (hfree : ZeroFree ⟨n⟩) (h : t.write (p.child n) content = (t', r)) :
    (∃ l, t'.locate p = .ok l) ∨ ∀ k bytes, IsName k → ∃ e, t'.write (p.child k) bytes = (t', .error e) := by
  have hdirectories : ∀ {k}, IsName k → (p.child k).components.dropLast = p.components := fun hk => by
    rw [Path.components_child hk hp, List.dropLast_concat]
  by_cases hzero : ZeroFree p
  · obtain ⟨t₁, made, hmade, hend⟩ := write_cases h ((zeroFree_child hp hn).mpr ⟨hzero, hfree⟩)
    rw [startOf_child hp hn, hdirectories hn] at hmade
    cases made with
    | ok m =>
      have hm := ht.locate_of_makeAll hp hzero hmade
      obtain ⟨-, rfl⟩ | ⟨-, -, l, -, hnot, rfl⟩ := hend
      · exact .inl ⟨m, hm⟩
      · exact .inl ⟨m, (spares_put_file hnot).locate hm⟩
    | error e =>
      obtain ⟨-, rfl⟩ | ⟨-, ⟨_, ⟨⟩⟩, -⟩ := hend
      right
      intro k bytes hk
      have hagain := makeAll_again hmade
      rw [← (makeAll_spares hmade).startOf, ← startOf_child hp hk, ← hdirectories hk] at hagain
      obtain ⟨e', he', htree⟩ := write_of_makeAll_error bytes hagain
      exact ⟨e', Prod.ext (htree.elim id id) he'⟩
  · exact .inr fun k bytes hk => ⟨_, write_zero fun hk' => hzero ((zeroFree_child hp hk).mp hk').1⟩

end FileTree
end EngineBridge
