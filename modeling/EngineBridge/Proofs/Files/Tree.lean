import EngineBridge.Files.Tree
import EngineBridge.Proofs.Files.Path
import EngineBridge.Proofs.Lists
import EngineBridge.Proofs.Outcome
import Mathlib.Data.List.Induction
import Mathlib.Data.Set.Insert

/-! Trees of files and where paths lead in them.

A proper tree lists each entry where it is found, within a directory, and under a name. What an operation leaves alone is
said by `FileTree.Spares`: all directories, and the files outside of a set of locations. As a path is followed through
directories only, it leads to the same location afterwards. -/

namespace EngineBridge
namespace FileTree
open Path (IsName Solid idle)
open Outcome

variable {t t₁ t' t'' : FileTree} {l m x : Location} {e : Entry} {p q : Path} {n s : String} {content : ByteArray}
variable {S S' : Set Location} {ss : List String}

/-! ### Entries -/

@[simp] theorem entry?_nil : t.entry? [] = some .directory := if_pos rfl

theorem entry?_put_self (h : l ≠ []) : FileTree.entry? (t.put l e) l = some e := by
  unfold entry?
  simp [put, h]

theorem entry?_put_of_ne (h : x ≠ l) : FileTree.entry? (t.put l e) x = t.entry? x := by
  have hrest : (t.entries.filter fun y => y.1 ≠ l).lookup x = t.entries.lookup x := by
    rw [Labelled.lookup_filter (p := fun y => decide (y ≠ l)), if_pos (by simpa using h)]
  have hne : (x == l) = false := beq_eq_false_iff_ne.mpr h
  unfold entry?
  simp only [put, List.lookup_cons, hne, hrest]

theorem entry?_drop_below (h : l <+: x) (hx : x ≠ []) : FileTree.entry? (t.drop l) x = none := by
  have hpre : l.isPrefixOf x = true := List.isPrefixOf_iff_prefix.mpr h
  unfold entry?
  rw [if_neg hx, drop, Labelled.lookup_filter (p := fun y => !l.isPrefixOf y), hpre]
  rfl

theorem entry?_drop_beside (h : ¬l <+: x) : FileTree.entry? (t.drop l) x = t.entry? x := by
  have hpre : l.isPrefixOf x = false := Bool.eq_false_iff.mpr (mt List.isPrefixOf_iff_prefix.mp h)
  unfold entry?
  rw [drop, Labelled.lookup_filter (p := fun y => !l.isPrefixOf y), hpre]
  rfl

theorem mem_entries (hl : l ≠ []) (h : t.entry? l = some e) : (l, e) ∈ t.entries := by
  unfold entry? at h
  rw [if_neg hl, List.lookup_eq_some_iff] at h
  obtain ⟨front, rest, heq, -⟩ := h
  simp [heq]

/-- There is a file at the location, whatever it holds. -/
def hasFileAt (t : FileTree) (l : Location) : Bool :=
  match t.entry? l with
  | some (.file _) => true
  | _ => false

theorem hasFileAt_iff : t.hasFileAt l = true ↔ ∃ content, t.entry? l = some (.file content) := by
  unfold hasFileAt
  split
  · next content h => simp [h]
  · next hnot => simpa using hnot

/-! ### Proper trees -/

/-- Each location is listed once, and with the entry that is found there; entries have names and lie in directories;
relative paths start from a directory. -/
structure Proper (t : FileTree) : Prop where
  distinct : (t.entries.map (·.1)).Nodup
  listed : ∀ x ∈ t.entries, t.entry? x.1 = some x.2
  named : ∀ x ∈ t.entries, ∀ n ∈ x.1, IsName n
  within : ∀ x ∈ t.entries, t.entry? x.1.dropLast = some .directory
  current : t.entry? t.current = some .directory

instance : Decidable t.Proper :=
  decidable_of_iff ((t.entries.map (·.1)).Nodup ∧ (∀ x ∈ t.entries, t.entry? x.1 = some x.2) ∧
      (∀ x ∈ t.entries, ∀ n ∈ x.1, IsName n) ∧ (∀ x ∈ t.entries, t.entry? x.1.dropLast = some .directory) ∧
      t.entry? t.current = some .directory)
    ⟨fun ⟨h₁, h₂, h₃, h₄, h₅⟩ => ⟨h₁, h₂, h₃, h₄, h₅⟩, fun h => ⟨h.1, h.2, h.3, h.4, h.5⟩⟩

section
variable (ht : t.Proper)
include ht

/-- What there is lies in a directory. -/
theorem Proper.parent (h : t.entry? x = some e) : t.entry? x.dropLast = some .directory := by
  by_cases hx : x = []
  · simp [hx]
  · exact ht.within _ (mem_entries hx h)

/-- All that is on the way to an entry are directories. -/
theorem Proper.directory_of_prefix (h : t.entry? x = some e) (hl : l <+: x) (hne : l ≠ x) :
    t.entry? l = some .directory := by
  obtain ⟨rest, rfl⟩ := hl
  induction rest using List.reverseRec generalizing e with
  | nil => simp at hne
  | append_singleton rest n ih =>
    have hparent := ht.parent h
    rw [← List.append_assoc, List.dropLast_concat] at hparent
    by_cases hrest : rest = []
    · simpa [hrest] using hparent
    · exact ih hparent (by simpa using hrest)

/-- Nothing lies below a file. -/
theorem Proper.ne_of_file_prefix (hl : t.entry? l = some (.file content)) (h : t.entry? x = some e) (hne : l ≠ x) :
    ¬l <+: x := by
  intro hprefix
  have hdirectory := ht.directory_of_prefix h hprefix hne
  rw [hl] at hdirectory
  cases hdirectory

theorem Proper.isName (h : t.entry? x = some e) (hn : n ∈ x) : IsName n :=
  ht.named _ (mem_entries (List.ne_nil_of_mem hn) h) n hn

theorem Proper.startOf (p : Path) : t.entry? (t.startOf p) = some .directory := by
  unfold FileTree.startOf
  split
  · exact entry?_nil
  · exact ht.current

/-- An entry may be put into a directory, as long as no directory becomes a file. -/
theorem Proper.put (hl : t.entry? l = some .directory) (hn : IsName n)
    (h : t.entry? (l ++ [n]) ≠ some .directory ∨ e = .directory) : (t.put (l ++ [n]) e).Proper := by
  have hself : FileTree.entry? (t.put (l ++ [n]) e) (l ++ [n]) = some e := entry?_put_self (by simp)
  have hdirectory : ∀ y, t.entry? y = some .directory → FileTree.entry? (t.put (l ++ [n]) e) y = some .directory := by
    intro y hy
    by_cases heq : y = l ++ [n]
    · rcases h with h | h
      · exact absurd (heq ▸ hy) h
      · rw [heq, hself, h]
    · rw [entry?_put_of_ne heq, hy]
  refine ⟨?_, fun y hy => ?_, fun y hy => ?_, fun y hy => ?_, hdirectory _ ht.current⟩
  · refine List.nodup_cons.mpr ⟨?_, ht.distinct.sublist (List.filter_sublist.map _)⟩
    simp
  · rcases List.mem_cons.mp hy with rfl | hy
    · exact hself
    · obtain ⟨hmem, hne⟩ := List.mem_filter.mp hy
      rw [entry?_put_of_ne (by simpa using hne)]
      exact ht.listed y hmem
  · rcases List.mem_cons.mp hy with rfl | hy
    · intro k hk
      rcases List.mem_append.mp hk with hk | hk
      · exact ht.isName hl hk
      · exact List.mem_singleton.mp hk ▸ hn
    · exact ht.named y (List.mem_filter.mp hy).1
  · rcases List.mem_cons.mp hy with rfl | hy
    · rw [List.dropLast_concat]
      exact hdirectory l hl
    · exact hdirectory _ (ht.within y (List.mem_filter.mp hy).1)

/-- A file may be taken away. -/
theorem Proper.drop (hl : t.entry? l = some (.file content)) : (t.drop l).Proper := by
  have hkept : ∀ y, t.entry? y = some .directory → FileTree.entry? (t.drop l) y = some .directory := by
    intro y hy
    have hne : l ≠ y := fun heq => by simp [heq, hy] at hl
    rw [entry?_drop_beside (ht.ne_of_file_prefix hl hy hne), hy]
  refine ⟨ht.distinct.sublist (List.filter_sublist.map _), fun y hy => ?_,
    fun y hy => ht.named y (List.mem_filter.mp hy).1, fun y hy => ?_, hkept _ ht.current⟩
  · obtain ⟨hmem, hnot⟩ := List.mem_filter.mp hy
    have hprefix : ¬l <+: y.1 := fun hprefix => by
      rw [List.isPrefixOf_iff_prefix.mpr hprefix] at hnot
      cases hnot
    rw [entry?_drop_beside hprefix]
    exact ht.listed y hmem
  · exact hkept _ (ht.within y (List.mem_filter.mp hy).1)

end

/-! ### What is left alone -/

/-- From one tree to the other nothing changes but files at some locations, and directories that are new. -/
structure Spares (S : Set Location) (t t' : FileTree) : Prop where
  current : t'.current = t.current
  locked : t'.locked = t.locked
  directory : ∀ {x}, t.entry? x = some .directory → t'.entry? x = some .directory
  file : ∀ {x content}, x ∉ S → (t'.entry? x = some (.file content) ↔ t.entry? x = some (.file content))

theorem Spares.refl (S : Set Location) (t : FileTree) : Spares S t t := ⟨rfl, rfl, id, fun _ => Iff.rfl⟩

theorem Spares.trans (h : Spares S t t') (h' : Spares S t' t'') : Spares S t t'' :=
  ⟨h'.current.trans h.current, h'.locked.trans h.locked, fun hx => h'.directory (h.directory hx),
    fun hx => (h'.file hx).trans (h.file hx)⟩

theorem Spares.mono (h : Spares S t t') (hsub : S ⊆ S') : Spares S' t t' :=
  ⟨h.current, h.locked, h.directory, fun hx => h.file fun hS => hx (hsub hS)⟩

/-- A directory is made where nothing was. -/
theorem spares_put_directory (h : t.entry? l = none) : Spares ∅ t (t.put l .directory) := by
  have hl : l ≠ [] := fun hl => by simp [hl] at h
  refine ⟨rfl, rfl, fun {x} hx => ?_, fun {x content} _ => ?_⟩
  · by_cases hxl : x = l
    · rw [hxl, entry?_put_self hl]
    · rw [entry?_put_of_ne hxl, hx]
  · by_cases hxl : x = l
    · simp [hxl, entry?_put_self hl, h]
    · rw [entry?_put_of_ne hxl]

/-- A file is written where no directory was. -/
theorem spares_put_file (h : t.entry? l ≠ some .directory) : Spares {l} t (t.put l (.file content)) := by
  refine ⟨rfl, rfl, fun {x} hx => ?_, fun {x content} hx => ?_⟩
  · have hxl : x ≠ l := fun hxl => h (by rw [← hxl, hx])
    rw [entry?_put_of_ne hxl, hx]
  · rw [entry?_put_of_ne (by simpa using hx)]

/-- A file is taken away. -/
theorem Proper.spares_drop (ht : t.Proper) (h : t.entry? l = some (.file content)) : Spares {l} t (t.drop l) := by
  have hnot : ∀ {x e}, x ≠ l → t.entry? x = some e → FileTree.entry? (t.drop l) x = some e := fun hne hx => by
    rw [entry?_drop_beside (ht.ne_of_file_prefix h hx (Ne.symm hne)), hx]
  refine ⟨rfl, rfl, fun {x} hx => hnot (fun hxl => by simp [hxl, h] at hx) hx, fun {x content} hx => ?_⟩
  refine ⟨fun hfile => ?_, hnot (by simpa using hx)⟩
  by_cases hprefix : l <+: x
  · have hx0 : x ≠ [] := fun hx0 => by simp [hx0] at hfile
    rw [entry?_drop_below hprefix hx0] at hfile
    cases hfile
  · rwa [entry?_drop_beside hprefix] at hfile

/-! ### Following segments -/

/-- Follows segments one after the other. -/
def follow (t : FileTree) (l : Location) (ss : List String) : Except FileError Location := ss.foldlM t.step l

theorem follow_cons : t.follow l (s :: ss) = .ok x ↔ ∃ m, t.step l s = .ok m ∧ t.follow m ss = .ok x := by
  unfold follow
  rw [List.foldlM_cons]
  exact bind_eq_ok

theorem follow_append {ss' : List String} :
    t.follow l (ss ++ ss') = .ok x ↔ ∃ m, t.follow l ss = .ok m ∧ t.follow m ss' = .ok x := by
  unfold follow
  rw [List.foldlM_append]
  exact bind_eq_ok

theorem step_directory (h : t.step l s = .ok m) : t.entry? l = some .directory := by
  unfold step at h
  split at h
  · cases h
  · cases h
  · assumption

theorem step_congr (h : t.entry? l = t'.entry? l) : t.step l s = t'.step l s := by
  unfold step
  rw [h]

theorem step_idle (h : t.entry? l = some .directory) (hs : idle s = true) : t.step l s = .ok l := by
  unfold step
  simp only [h]
  exact if_pos (by simpa [idle] using hs)

theorem step_eq_concat (hn : IsName s) (h : t.step l s = .ok m) : m = l ++ [s] := by
  have hl := step_directory h
  unfold step at h
  simp only [hl, hn.notEmpty, hn.notHere, hn.notAbove, decide_false, Bool.or_false, Bool.false_eq_true, if_false] at h
  split at h
  · cases h
  · exact (Except.ok.inj h).symm

/-- A step leads to a directory, or to a place of its name. -/
theorem Proper.step_cases (ht : t.Proper) (hs : '/' ∉ s.toList) (h : t.step l s = .ok m) :
    t.entry? m = some .directory ∨ IsName s ∧ m = l ++ [s] := by
  have hl := step_directory h
  unfold step at h
  simp only [hl] at h
  split at h
  · exact .inl (Except.ok.inj h ▸ hl)
  · split at h
    · exact .inl (Except.ok.inj h ▸ ht.parent hl)
    · split at h
      · cases h
      · next h₁ h₂ _ =>
        rw [Bool.or_eq_true, decide_eq_true_eq, decide_eq_true_eq, not_or] at h₁
        exact .inr ⟨⟨h₁.1, h₁.2, h₂, hs⟩, (Except.ok.inj h).symm⟩

theorem follow_names (hn : ∀ s ∈ ss, IsName s) (h : t.follow l ss = .ok x) : x = l ++ ss := by
  induction ss generalizing l with
  | nil => simpa [follow, pure, Except.pure, eq_comm] using h
  | cons s ss ih =>
    rw [List.forall_mem_cons] at hn
    obtain ⟨m, hm, h⟩ := follow_cons.mp h
    rw [ih hn.2 h, step_eq_concat hn.1 hm, List.append_assoc]
    rfl

section
variable (h : Spares S t t')
include h

theorem Spares.step (hm : t.step l s = .ok m) : t'.step l s = .ok m := by
  have hl := step_directory hm
  unfold FileTree.step at hm ⊢
  rw [h.directory hl]
  rwa [hl] at hm

theorem Spares.follow (hx : t.follow l ss = .ok x) : t'.follow l ss = .ok x := by
  induction ss generalizing l with
  | nil => exact hx
  | cons s ss ih =>
    obtain ⟨m, hm, hx⟩ := follow_cons.mp hx
    exact follow_cons.mpr ⟨m, h.step hm, ih hx⟩

end

/-- The way to what is there was there before. -/
theorem Proper.follow_of_entry (ht : t.Proper) (hnames : ∀ n ∈ ss, IsName n) (hx : t'.follow l ss = .ok x)
    (he : t.entry? x = some e) : t.follow l ss = .ok x := by
  induction ss generalizing l with
  | nil => exact hx
  | cons n ss ih =>
    have hwhole := follow_names hnames hx
    rw [List.forall_mem_cons] at hnames
    obtain ⟨k, hk, hrest⟩ := follow_cons.mp hx
    have hl : t.entry? l = some .directory := by
      refine ht.directory_of_prefix he ?_ ?_
      · rw [hwhole]
        exact List.prefix_append _ _
      · rw [hwhole]
        simp
    exact follow_cons.mpr ⟨k, (step_congr (hl.trans (step_directory hk).symm)).trans hk, ih hnames.2 hrest⟩

/-- Segments that name nothing can be left out. -/
theorem follow_filter (h : t.follow l ss = .ok x) : t.follow l (ss.filter (!idle ·)) = .ok x := by
  induction ss generalizing l with
  | nil => exact h
  | cons s ss ih =>
    obtain ⟨m, hm, h⟩ := follow_cons.mp h
    rw [List.filter_cons]
    split
    · exact follow_cons.mpr ⟨m, hm, ih h⟩
    · next hs =>
      rw [step_idle (step_directory hm) (by simpa using hs)] at hm
      exact ih (Except.ok.inj hm ▸ h)

/-- Segments that name nothing can be put in on the way to a directory. -/
theorem follow_of_filter (h : t.follow l (ss.filter (!idle ·)) = .ok x) (hx : t.entry? x = some .directory) :
    t.follow l ss = .ok x := by
  induction ss generalizing l with
  | nil => exact h
  | cons s ss ih =>
    rw [List.filter_cons] at h
    split at h
    · obtain ⟨m, hm, h⟩ := follow_cons.mp h
      exact follow_cons.mpr ⟨m, hm, ih h⟩
    · next hs =>
      have hl : t.entry? l = some .directory := by
        cases hrest : ss.filter (!idle ·) with
        | nil =>
          rw [hrest] at h
          exact (Except.ok.inj h : l = x) ▸ hx
        | cons s' ss' =>
          rw [hrest] at h
          obtain ⟨m, hm, -⟩ := follow_cons.mp h
          exact step_directory hm
      exact follow_cons.mpr ⟨l, step_idle hl (by simpa using hs), ih h⟩

/-! ### Following paths -/

/-- The text of a path has no zero in it. -/
def ZeroFree (p : Path) : Prop := Char.ofNat 0 ∉ p.text.toList

instance : Decidable (ZeroFree p) := inferInstanceAs (Decidable (_ ∉ _))

theorem locate_eq_ok : t.locate p = .ok l ↔
    p.text ≠ "" ∧ ZeroFree p ∧ t.follow (t.startOf p) p.segments = .ok l := by
  unfold locate ZeroFree follow
  split
  · next h => simp [h]
  · next h =>
    split
    · next hzero => simp [List.contains_iff_mem.mp hzero]
    · next hzero => simp [h, mt List.contains_iff_mem.mpr hzero]

theorem Spares.startOf (h : Spares S t t') : t'.startOf p = t.startOf p := by
  unfold FileTree.startOf
  rw [h.current]

theorem startOf_child (hp : p.Solid) (hn : IsName n) : t.startOf (p.child n) = t.startOf p := by
  unfold startOf
  rw [Path.isAbsolute_child hn hp]

theorem Spares.locate (h : Spares S t t') (hl : t.locate p = .ok l) : t'.locate p = .ok l := by
  obtain ⟨htext, hzero, hl⟩ := locate_eq_ok.mp hl
  exact locate_eq_ok.mpr ⟨htext, hzero, h.startOf ▸ h.follow hl⟩

/-- Where a path leads is called as the path ends. -/
theorem locate_last (hp : p.segments = ss ++ [n]) (hn : IsName n) (h : t.locate p = .ok l) : ∃ m, l = m ++ [n] := by
  obtain ⟨-, -, h⟩ := locate_eq_ok.mp h
  rw [hp] at h
  obtain ⟨m, -, h⟩ := follow_append.mp h
  exact ⟨m, follow_names (by simpa using hn) h⟩

/-- What is no directory at the end of a path has a name and lies in a directory. -/
theorem Proper.locate_cases (ht : t.Proper) (h : t.locate p = .ok l) (hl : t.entry? l ≠ some .directory) :
    ∃ m n, l = m ++ [n] ∧ IsName n ∧ t.entry? m = some .directory := by
  obtain ⟨-, -, h⟩ := locate_eq_ok.mp h
  -- The last segment is the one that leads there.
  have hlast := List.dropLast_concat_getLast (Path.segments_ne_nil (p := p))
  have hfree := Path.slashFree_of_mem_segments (List.getLast_mem (Path.segments_ne_nil (p := p)))
  rw [← hlast] at h
  obtain ⟨m, -, h⟩ := follow_append.mp h
  obtain ⟨l', hl', h⟩ := follow_cons.mp h
  obtain rfl : l' = l := Except.ok.inj h
  rcases ht.step_cases hfree hl' with hdirectory | ⟨hn, rfl⟩
  · exact absurd hdirectory hl
  · exact ⟨m, _, rfl, hn, step_directory hl'⟩

end FileTree
end EngineBridge
