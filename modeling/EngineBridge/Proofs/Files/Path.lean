import EngineBridge.Files.Path
import Mathlib.Data.List.Basic

/-! How paths come apart into their segments, and how they are put together.

A path that ends neither in nothing nor in a slash is gone on from by a slash and a name; its segments are then those
of the path and the name, and so are its components. -/

namespace EngineBridge
namespace Path
variable {p q : Path} {n : String} {a b cs : List Char}

theorem text_inj (h : p.text = q.text) : p = q := by
  cases p
  cases q
  exact congrArg Path.mk h

/-! ### Segments -/

theorem segmentsOf_ne_nil : segmentsOf cs ≠ [] := by
  cases cs with
  | nil => simp [segmentsOf]
  | cons c cs =>
    unfold segmentsOf
    split
    · simp
    · split <;> simp

theorem segmentsOf_append (a b : List Char) : segmentsOf (a ++ '/' :: b) = segmentsOf a ++ segmentsOf b := by
  induction a with
  | nil => simp [segmentsOf]
  | cons c cs ih =>
    rw [List.cons_append, segmentsOf, segmentsOf, ih]
    cases hs : segmentsOf cs with
    | nil => exact absurd hs segmentsOf_ne_nil
    | cons s ss => split <;> simp

theorem segmentsOf_eq_singleton (h : '/' ∉ cs) : segmentsOf cs = [cs] := by
  induction cs with
  | nil => rfl
  | cons c cs ih =>
    obtain ⟨hc, hcs⟩ := List.ne_and_not_mem_of_not_mem_cons h
    have hslash : (c == '/') = false := beq_eq_false_iff_ne.mpr (Ne.symm hc)
    rw [segmentsOf, ih hcs, hslash]
    rfl

theorem slashFree_of_mem_segmentsOf {s : List Char} (h : s ∈ segmentsOf cs) : '/' ∉ s := by
  induction cs generalizing s with
  | nil =>
    rw [segmentsOf, List.mem_singleton] at h
    simp [h]
  | cons c cs ih =>
    rw [segmentsOf] at h
    split at h
    · rcases List.mem_cons.mp h with rfl | h
      · simp
      · exact ih h
    · next hc =>
      have hne : '/' ≠ c := fun heq => hc (beq_iff_eq.mpr heq.symm)
      split at h
      · obtain rfl := List.mem_singleton.mp h
        simpa using hne
      · next s' ss hs =>
        rw [hs, List.forall_mem_cons] at ih
        rcases List.mem_cons.mp h with rfl | h
        · simpa [hne] using ih.1
        · exact ih.2 s h

theorem mem_segmentsOf_of_mem {c : Char} (h : c ∈ cs) (hc : c ≠ '/') : ∃ s ∈ segmentsOf cs, c ∈ s := by
  induction cs with
  | nil => cases h
  | cons d cs ih =>
    rw [segmentsOf]
    rcases List.mem_cons.mp h with rfl | h
    · rw [if_neg (by simpa using hc)]
      split
      · exact ⟨_, List.mem_cons_self, List.mem_cons_self⟩
      · exact ⟨_, List.mem_cons_self, List.mem_cons_self⟩
    · obtain ⟨s, hs, hcs⟩ := ih h
      split
      · exact ⟨s, List.mem_cons_of_mem _ hs, hcs⟩
      · split
        · next hnil => exact absurd hnil segmentsOf_ne_nil
        · next s' ss hcons =>
          rw [hcons] at hs
          rcases List.mem_cons.mp hs with rfl | hs
          · exact ⟨_, List.mem_cons_self, List.mem_cons_of_mem _ hcs⟩
          · exact ⟨s, List.mem_cons_of_mem _ hs, hcs⟩

theorem segments_ne_nil : p.segments ≠ [] := by
  simpa [segments] using segmentsOf_ne_nil

theorem slashFree_of_mem_segments {s : String} (h : s ∈ p.segments) : '/' ∉ s.toList := by
  obtain ⟨cs, hcs, rfl⟩ := List.mem_map.mp h
  rw [String.toList_ofList]
  exact slashFree_of_mem_segmentsOf hcs

theorem segments_of_slashFree (h : '/' ∉ n.toList) : segments ⟨n⟩ = [n] := by
  simp [segments, segmentsOf_eq_singleton h]

/-- The segment names nothing: one stays where one is. -/
def idle (s : String) : Bool := s == "" || s == "."

/-- The components are the segments but for some that name nothing. -/
theorem filter_components : p.components.filter (!idle ·) = p.segments.filter (!idle ·) := by
  have hempty : p.segments.filter (!idle ·) = (p.segments.filter (· ≠ "")).filter (!idle ·) := by
    rw [List.filter_filter]
    refine List.filter_congr fun s _ => ?_
    cases hs : idle s <;> simp_all [idle]
  rw [hempty]
  unfold components
  cases p.segments.filter (· ≠ "") with
  | nil => rfl
  | cons first rest =>
    have hpoint : (rest.filter (· ≠ ".")).filter (!idle ·) = rest.filter (!idle ·) := by
      rw [List.filter_filter]
      refine List.filter_congr fun s _ => ?_
      cases hs : idle s <;> simp_all [idle]
    dsimp only
    rw [List.filter_append, hpoint]
    split
    · next h =>
      have hfirst : idle first = true := by simp_all [idle]
      simp [hfirst]
    · rw [← List.filter_append, List.singleton_append]

theorem mem_segments_of_mem_components {s : String} (h : s ∈ p.components) : s ∈ p.segments := by
  unfold components at h
  dsimp only at h
  split at h
  · cases h
  · next first rest hparts =>
    have hmem : ∀ k ∈ first :: rest, k ∈ p.segments := fun k hk => (List.mem_filter.mp (hparts ▸ hk)).1
    rcases List.mem_append.mp h with h | h
    · split at h
      · cases h
      · exact hmem s (by simp [List.mem_singleton.mp h])
    · exact hmem s (List.mem_cons_of_mem _ (List.mem_filter.mp h).1)

/-! ### Going on from a path -/

/-- The text of the path is not empty and does not end with a slash. -/
structure Solid (p : Path) : Prop where
  notEmpty : p.text ≠ ""
  noSlash : p.text.toList.getLast? ≠ some '/'

/-- The path does not start at the root. -/
def IsRelative (p : Path) : Prop := p.isAbsolute = false

theorem isRelative_of_slashFree (h : '/' ∉ n.toList) : IsRelative ⟨n⟩ := by
  unfold IsRelative isAbsolute
  cases hcs : n.toList with
  | nil => rfl
  | cons c cs =>
    have hc : '/' ≠ c := (List.ne_and_not_mem_of_not_mem_cons (hcs ▸ h)).1
    simpa using Ne.symm hc

theorem solid_of_slashFree (hn : n ≠ "") (h : '/' ∉ n.toList) : Solid ⟨n⟩ :=
  ⟨hn, fun hlast => h (List.mem_of_getLast? hlast)⟩

theorem join_text (hp : p.Solid) (hq : q.IsRelative) : (p.join q).text = p.text ++ "/" ++ q.text := by
  have hnot : ¬(p.text == "" || p.text.toList.getLast? == some '/') = true := by
    simp [hp.notEmpty, hp.noSlash]
  unfold join
  rw [if_neg (by simp [show q.isAbsolute = false from hq]), if_neg hnot]

theorem join_toList (hp : p.Solid) (hq : q.IsRelative) : (p.join q).text.toList = p.text.toList ++ '/' :: q.text.toList := by
  rw [join_text hp hq, String.toList_append, String.toList_append, List.append_assoc]
  rfl

theorem toList_ne_nil (h : p.text ≠ "") : p.text.toList ≠ [] := fun hnil => h (String.toList_eq_nil_iff.mp hnil)

theorem join_isAbsolute (hp : p.Solid) (hq : q.IsRelative) : (p.join q).isAbsolute = p.isAbsolute := by
  unfold isAbsolute
  rw [join_toList hp hq]
  cases hcs : p.text.toList with
  | nil => exact absurd hcs (toList_ne_nil hp.notEmpty)
  | cons c cs => rfl

theorem solid_of_text (htext : ∃ front, p.text = front ++ q.text) (hq : q.Solid) : p.Solid := by
  obtain ⟨front, htext⟩ := htext
  have hlist : p.text.toList = front.toList ++ q.text.toList := by rw [htext, String.toList_append]
  have hne := toList_ne_nil hq.notEmpty
  constructor
  · intro hempty
    rw [hempty, String.toList_empty, eq_comm, List.append_eq_nil_iff] at hlist
    exact hne hlist.2
  · rw [hlist, List.getLast?_append_of_ne_nil _ hne]
    exact hq.noSlash

theorem join_solid (hq : q.Solid) : (p.join q).Solid := by
  refine solid_of_text ?_ hq
  unfold join
  split
  · exact ⟨"", by simp⟩
  · split
    · exact ⟨_, rfl⟩
    · exact ⟨p.text ++ "/", rfl⟩

theorem segments_join (hp : p.Solid) (hq : q.IsRelative) : (p.join q).segments = p.segments ++ q.segments := by
  unfold segments
  rw [join_toList hp hq, segmentsOf_append, List.map_append]

/-- Whatever a path ends with, the segments of the paths that go on from it come behind the same ones. -/
theorem segments_join_front (p : Path) : ∃ front, (p.segments = front ∨ p.segments = front ++ [""]) ∧
    ∀ {q : Path}, q.IsRelative → (p.join q).isAbsolute = p.isAbsolute ∧ (p.join q).segments = front ++ q.segments := by
  by_cases hempty : p.text = ""
  · -- The one segment of the empty path is empty, and is dropped.
    have hp : p = ⟨""⟩ := text_inj hempty
    subst hp
    refine ⟨[], .inr rfl, fun {q} hq => ?_⟩
    have hjoin : Path.join ⟨""⟩ q = q := text_inj (by simp [join])
    rw [hjoin]
    exact ⟨hq, rfl⟩
  by_cases hlast : p.text.toList.getLast? = some '/'
  · -- A slash at the end leaves an empty segment, which is dropped as well.
    obtain ⟨cs, hcs⟩ := List.getLast?_eq_some_iff.mp hlast
    refine ⟨(segmentsOf cs).map String.ofList, .inr ?_, fun {q} hq => ?_⟩
    · unfold segments
      rw [hcs, segmentsOf_append, List.map_append]
      rfl
    · have hjoin : (p.join q).text.toList = cs ++ '/' :: q.text.toList := by
        unfold join
        rw [if_neg (by simp [show q.isAbsolute = false from hq]), if_pos (by simp [hlast]), String.toList_append, hcs,
          List.append_assoc]
        rfl
      constructor
      · unfold isAbsolute
        rw [hjoin, hcs]
        cases cs <;> rfl
      · unfold segments
        rw [hjoin, segmentsOf_append, List.map_append]
  · have hsolid : p.Solid := ⟨hempty, hlast⟩
    exact ⟨p.segments, .inl rfl, fun {q} hq => ⟨join_isAbsolute hsolid hq, segments_join hsolid hq⟩⟩

theorem join_isRelative (hp : p.Solid) (hrel : p.IsRelative) (hq : q.IsRelative) : (p.join q).IsRelative :=
  (join_isAbsolute hp hq).trans hrel

/-- A path that does not end with a slash has a segment that is not empty. -/
theorem filter_segments_ne_nil (hp : p.Solid) : p.segments.filter (· ≠ "") ≠ [] := by
  obtain ⟨c, hlast⟩ := Option.ne_none_iff_exists'.mp (mt List.getLast?_eq_none_iff.mp (toList_ne_nil hp.notEmpty))
  have hc : c ≠ '/' := fun heq => hp.noSlash (heq ▸ hlast)
  obtain ⟨s, hs, hcs⟩ := mem_segmentsOf_of_mem (List.mem_of_getLast? hlast) hc
  refine List.ne_nil_of_mem (a := String.ofList s) (List.mem_filter.mpr ⟨List.mem_map_of_mem hs, ?_⟩)
  rw [decide_eq_true_eq, ne_eq, String.ofList_eq_empty_iff]
  exact List.ne_nil_of_mem hcs

/-! ### Names -/

/-- What an entry of a directory can be called. -/
structure IsName (n : String) : Prop where
  notEmpty : n ≠ ""
  notHere : n ≠ "."
  notAbove : n ≠ ".."
  slashFree : '/' ∉ n.toList

instance : Decidable (IsName n) :=
  decidable_of_iff (n ≠ "" ∧ n ≠ "." ∧ n ≠ ".." ∧ '/' ∉ n.toList)
    ⟨fun ⟨h₁, h₂, h₃, h₄⟩ => ⟨h₁, h₂, h₃, h₄⟩, fun h => ⟨h.1, h.2, h.3, h.4⟩⟩

section
variable (hn : IsName n)
include hn

theorem IsName.isRelative : IsRelative ⟨n⟩ := isRelative_of_slashFree hn.slashFree

theorem IsName.solid : Solid ⟨n⟩ := solid_of_slashFree hn.notEmpty hn.slashFree

theorem child_solid : (p.child n).Solid := join_solid hn.solid

theorem segments_child (hp : p.Solid) : (p.child n).segments = p.segments ++ [n] := by
  rw [child, segments_join hp hn.isRelative, segments_of_slashFree hn.slashFree]

theorem components_child (hp : p.Solid) : (p.child n).components = p.components ++ [n] := by
  unfold components
  rw [segments_child hn hp, List.filter_append, child, join_isAbsolute hp hn.isRelative]
  cases hs : p.segments.filter (· ≠ "") with
  | nil => exact absurd hs (filter_segments_ne_nil hp)
  | cons s ss => simp [hn.notEmpty, hn.notHere]

theorem text_child (hp : p.Solid) : (p.child n).text = p.text ++ "/" ++ n := join_text hp hn.isRelative

theorem isAbsolute_child (hp : p.Solid) : (p.child n).isAbsolute = p.isAbsolute := join_isAbsolute hp hn.isRelative

/-- It does not matter whether one goes on by a name before or after the path is seen from another. -/
theorem join_child (hq : q.Solid) : p.join (q.child n) = (p.join q).child n := by
  have hsolid : (p.join q).Solid := join_solid hq
  by_cases habs : q.isAbsolute = true
  · have hchild : (q.child n).isAbsolute = true := (isAbsolute_child hn hq).trans habs
    rw [join, if_pos hchild, join, if_pos habs]
  · have hrel : q.IsRelative := Bool.eq_false_iff.mpr habs
    apply text_inj
    rw [text_child hn hsolid]
    by_cases hp : p.Solid
    · rw [join_text hp hrel, join_text hp ((isAbsolute_child hn hq).trans hrel), text_child hn hq]
      simp only [String.append_assoc]
    · have hnot : (p.text == "" || p.text.toList.getLast? == some '/') = true := by
        by_contra h
        simp only [Bool.or_eq_true, beq_iff_eq, not_or] at h
        exact hp ⟨h.1, h.2⟩
      have hjoin : ∀ {r : Path}, r.isAbsolute = false → p.join r = ⟨p.text ++ r.text⟩ := fun hr => by
        rw [join, if_neg (by simp [hr]), if_pos hnot]
      rw [hjoin hrel, hjoin ((isAbsolute_child hn hq).trans hrel), text_child hn hq]
      simp only [String.append_assoc]

end

/-- The last component of a path is its last segment, if that is a name. -/
theorem getLast?_components {front : List String} (h : p.segments = front ++ [n]) (hn : IsName n) :
    p.components.getLast? = some n := by
  have hempty : p.segments.filter (· ≠ "") = front.filter (· ≠ "") ++ [n] := by simp [h, hn.notEmpty]
  unfold components
  rw [hempty]
  cases front.filter (· ≠ "") with
  | nil => simp [hn.notHere]
  | cons s ss => simp [hn.notHere]

theorem segments_join_last {front : List String} (p : Path) (hq : q.segments = front ++ [n]) :
    ∃ front, (p.join q).segments = front ++ [n] := by
  by_cases habsolute : q.isAbsolute = true
  · rw [join, if_pos habsolute]
    exact ⟨front, hq⟩
  · obtain ⟨front', -, hjoin⟩ := segments_join_front p
    have hsegments := (hjoin (Bool.eq_false_iff.mpr habsolute)).2
    rw [hq, ← List.append_assoc] at hsegments
    exact ⟨_, hsegments⟩

/-- From wherever a path is seen, its file keeps its name. -/
theorem fileName?_join {front : List String} (hq : q.segments = front ++ [n]) (hn : IsName n) :
    (p.join q).fileName? = some n := by
  obtain ⟨front', hsegments⟩ := segments_join_last p hq
  unfold fileName?
  rw [getLast?_components hsegments hn]
  split
  · next h => exact absurd (Option.some.inj h) hn.notHere
  · next h => exact absurd (Option.some.inj h) hn.notAbove
  · next h => cases h
  · next h => exact h.symm

theorem slashFree_of_fileName? (h : p.fileName? = some n) : '/' ∉ n.toList := by
  have hlast : p.components.getLast? = some n := by
    unfold fileName? at h
    split at h
    · cases h
    · cases h
    · cases h
    · next hlast => rw [hlast, h]
  exact slashFree_of_mem_segments (mem_segments_of_mem_components (List.mem_of_getLast? hlast))

theorem splitName_subset (n : String) : ∀ c ∈ (splitName n).1.toList, c ∈ n.toList := by
  intro c hc
  unfold splitName at hc
  dsimp only at hc
  split at hc
  · rw [String.toList_ofList] at hc
    have hreversed := List.mem_reverse.mp (List.dropLast_subset _ hc)
    exact List.mem_reverse.mp ((List.dropWhile_suffix _).subset hreversed)
  · exact hc

theorem segments_child_last (p : Path) (hn : IsName n) : ∃ front, (p.child n).segments = front ++ [n] := by
  have hsegments : segments ⟨n⟩ = [] ++ [n] := segments_of_slashFree hn.slashFree
  exact segments_join_last p hsegments

theorem fileName?_congr {p' : Path} (h : p.components = p'.components) : p.fileName? = p'.fileName? := by
  unfold fileName?
  rw [h]

theorem fileName?_child (p : Path) (hn : IsName n) : (p.child n).fileName? = some n := by
  have hsegments : segments ⟨n⟩ = [] ++ [n] := segments_of_slashFree hn.slashFree
  exact fileName?_join hsegments hn

/-! ### Going down along names -/

section
variable {names : List String} (hp : p.Solid) (hnames : ∀ n ∈ names, IsName n)
include hp hnames

theorem components_foldl_child : (names.foldl child p).components = p.components ++ names := by
  induction names generalizing p with
  | nil => simp
  | cons n names ih =>
    rw [List.forall_mem_cons] at hnames
    rw [List.foldl_cons, ih (child_solid hnames.1) hnames.2, components_child hnames.1 hp, List.append_assoc]
    rfl

end

/-- The path leads down along names, from wherever it is seen. -/
structure Descends (q : Path) : Prop where
  named : ∀ n ∈ q.segments, IsName n
  solid : q.Solid
  relative : q.IsRelative
  join_eq : ∀ {p : Path}, p.Solid → p.join q = q.segments.foldl child p

theorem descends_name (hn : IsName n) : Descends ⟨n⟩ := by
  have hsegments := segments_of_slashFree hn.slashFree
  refine ⟨by simpa [hsegments] using hn, hn.solid, hn.isRelative, fun _ => ?_⟩
  rw [hsegments]
  rfl

theorem Descends.child (hq : q.Descends) (hn : IsName n) : (q.child n).Descends := by
  refine ⟨fun k hk => ?_, child_solid hn, join_isRelative hq.solid hq.relative hn.isRelative, fun {p} hp => ?_⟩
  · rw [segments_child hn hq.solid] at hk
    rcases List.mem_append.mp hk with hk | hk
    · exact hq.named k hk
    · exact List.mem_singleton.mp hk ▸ hn
  · rw [segments_child hn hq.solid, List.foldl_append, ← hq.join_eq hp, join_child hn hq.solid]
    rfl

/-- Going down along names is the same before and after the path is seen from another. -/
theorem descends_foldl_child {names : List String} (hq : q.Descends) (hnames : ∀ n ∈ names, IsName n) :
    (names.foldl child q).Descends ∧ p.join (names.foldl child q) = names.foldl child (p.join q) := by
  induction names generalizing q with
  | nil => exact ⟨hq, rfl⟩
  | cons n names ih =>
    rw [List.forall_mem_cons] at hnames
    obtain ⟨hdescends, hjoin⟩ := ih (hq.child hnames.1) hnames.2
    exact ⟨hdescends, by rw [List.foldl_cons, hjoin, join_child hnames.1 hq.solid, List.foldl_cons]⟩

theorem descends_join {q' : Path} (hq : q.Descends) (hq' : q'.Descends) :
    (q.join q').Descends ∧ p.join (q.join q') = (p.join q).join q' := by
  rw [hq'.join_eq hq.solid, hq'.join_eq (join_solid hq.solid)]
  exact descends_foldl_child hq hq'.named

end Path
end EngineBridge
