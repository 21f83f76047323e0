import EngineBridge.Proofs.Export.TrampolineText

/-! The fast functions are exactly the candidates that can be lowered.

What becomes of a candidate depends on the names of its type, on the function and on the layouts of the document's
types. The index, the report and the files are these outcomes in the order of the document, so that leaving functions
out takes away their own parts and nothing else. -/

namespace EngineBridge

/-! ### Symbols -/

theorem isDigit_of_startsName {c : Char} (h : startsName c = true) : c.isDigit = false := by
  unfold startsName at h
  rcases Bool.or_eq_true_iff.mp h with h | h
  · by_contra hd
    delta Char.isAlpha Char.isUpper Char.isLower at h
    simp [Char.isDigit, UInt32.le_iff_toNat_le] at h hd
    omega
  · rw [beq_iff_eq.mp h]
    decide

/-- A name with its length in front is told from what follows. -/
theorem sized_inj {a b : String} {rest rest' : List Char} (ha : isIdentifier a = true) (hb : isIdentifier b = true)
    (h : (sized a).toList ++ rest = (sized b).toList ++ rest') : a = b ∧ rest = rest' := by
  have hsplit : ∀ {s : String} (more : List Char), isIdentifier s = true →
      ((sized s).toList ++ more).takeWhile Char.isDigit = Nat.toDigits 10 s.utf8ByteSize ∧
        ((sized s).toList ++ more).dropWhile Char.isDigit = s.toList ++ more := by
    intro s more hs
    obtain ⟨c, cs, hlist, hc, -⟩ := isIdentifier_cons hs
    have hdigits : ∀ k ∈ Nat.toDigits 10 s.utf8ByteSize, k.isDigit = true :=
      fun k hk => Nat.isDigit_of_mem_toDigits (by decide) (by decide) hk
    have hnot : ¬ c.isDigit = true := by simp [isDigit_of_startsName hc]
    have htext : (sized s).toList ++ more = Nat.toDigits 10 s.utf8ByteSize ++ (c :: (cs ++ more)) := by
      show (s.utf8ByteSize.repr ++ s).toList ++ more = _
      rw [String.toList_append, Nat.toList_repr, hlist, List.append_assoc, List.cons_append]
    rw [htext, List.takeWhile_append_of_pos hdigits, List.dropWhile_append_of_pos hdigits,
      List.takeWhile_cons_of_neg hnot, List.dropWhile_cons_of_neg hnot, hlist, List.append_nil]
    exact ⟨rfl, rfl⟩
  obtain ⟨htake, hdrop⟩ := hsplit rest ha
  obtain ⟨htake', hdrop'⟩ := hsplit rest' hb
  rw [h, htake'] at htake
  rw [h, hdrop'] at hdrop
  have hsize : a.utf8ByteSize = b.utf8ByteSize := by
    have := congrArg (numberOfDigits 10) htake
    rw [numberOfDigits_toDigits (by decide) (by decide), numberOfDigits_toDigits (by decide) (by decide)] at this
    exact this.symm
  -- Of two names before the same text one begins the other, and what it is longer by takes no bytes.
  have hempty : ∀ {s u : String} {mid : List Char}, s.utf8ByteSize = u.utf8ByteSize → s.toList = u.toList ++ mid → mid = [] := by
    intro s u mid hsize heq
    have hs : s = u ++ String.ofList mid := String.toList_inj.mp (by rw [heq, String.toList_append, String.toList_ofList])
    rw [hs, String.utf8ByteSize_append] at hsize
    have : String.ofList mid = "" := String.utf8ByteSize_eq_zero_iff.mp (by omega)
    simpa using congrArg String.toList this
  rcases List.append_eq_append_iff.mp hdrop with ⟨mid, hmid, hrest⟩ | ⟨mid, hmid, hrest⟩
  · obtain rfl := hempty hsize hmid
    exact ⟨String.toList_inj.mp (by simpa using hmid), by simpa using hrest.symm⟩
  · obtain rfl := hempty hsize.symm hmid
    exact ⟨String.toList_inj.mp (by simpa using hmid.symm), by simpa using hrest⟩

/-- Functions whose names are identifiers have symbols of their own. -/
theorem trampolineSymbol_inj {a b : FunctionId} (ha : isIdentifier a.type = true) (ha' : isIdentifier a.function = true)
    (hb : isIdentifier b.type = true) (hb' : isIdentifier b.function = true)
    (h : trampolineSymbol a = trampolineSymbol b) : a = b := by
  have htexts := congrArg String.toList h
  unfold trampolineSymbol at htexts
  simp only [String.toList_append, List.append_assoc] at htexts
  obtain ⟨htype, hrest⟩ := sized_inj ha hb (List.append_cancel_left htexts)
  have hrest' := List.append_cancel_left hrest
  obtain ⟨hfunction, -⟩ : a.function = b.function ∧ ([] : List Char) = [] := sized_inj ha' hb' (by simpa using hrest')
  cases a
  cases b
  rw [FunctionId.mk.injEq]
  exact ⟨htype, hfunction⟩

namespace Trampoline
variable {c : BindingContext} {d : Document} {t : TypeRecord} {f : FunctionRecord} {x : Candidate} {e : TrampolineEntry}
variable {layout : FrameLayout} {keep : FunctionId → Bool}

/-! ### What makes a function fast -/

/-- The functions of a document, in its order. -/
def functionsOf (d : Document) : List Candidate := d.types.flatMap fun t => t.functions.map (⟨t, ·⟩)

/-- The document and the schema permit a trampoline, and the function asks for one. -/
structure IsCandidate (c : BindingContext) (x : Candidate) : Prop where
  schema : c.schema = .native
  permitted : c.document.allowsFastInvoke = true
  eligible : x.function.flags.contains FunctionFlags.fastInvokeEligible = true
  callable : x.function.flags.contains FunctionFlags.nativeCallable = true
  noEvent : x.function.isEvent = false

/-- A candidate whose names are identifiers and whose arguments and result have a layout. -/
structure Lowers (c : BindingContext) (x : Candidate) (layout : FrameLayout) : Prop extends IsCandidate c x where
  type : isIdentifier x.owner.name = true
  function : isIdentifier x.function.name = true
  params : ∀ p ∈ x.function.params, isIdentifier p.name = true
  layout_eq : FrameLayout.ofFunction c.document x.owner x.function = .ok layout

theorem isCandidate_iff : c.isCandidate x.function = true ↔ IsCandidate c x := by
  unfold BindingContext.isCandidate BindingContext.fastInvokeEnabled
  simp only [Bool.and_eq_true, beq_iff_eq, Bool.not_eq_true', FlagSet.contains_union]
  constructor
  · rintro ⟨⟨⟨hschema, hpermitted⟩, heligible, hcallable⟩, hevent⟩
    exact ⟨hschema, hpermitted, heligible, hcallable, hevent⟩
  · rintro ⟨hschema, hpermitted, heligible, hcallable, hevent⟩
    exact ⟨⟨⟨hschema, hpermitted⟩, heligible, hcallable⟩, hevent⟩

instance : Decidable (IsCandidate c x) := decidable_of_iff _ isCandidate_iff

theorem lower_iff : lower d x = .ok e ↔ (∀ n ∈ spelledNames x, isIdentifier n = true) ∧
    FrameLayout.ofFunction d x.owner x.function = .ok e.layout ∧ e = ⟨x.id, trampolineSymbol x.id, e.layout⟩ := by
  constructor
  · intro h
    obtain ⟨hid, hsymbol, hlayout⟩ := lower_eq_ok h
    refine ⟨identifiers_of_lower h, hlayout, ?_⟩
    rw [← hsymbol, ← hid]
  · rintro ⟨hnames, hlayout, he⟩
    have hnone : (spelledNames x).find? (fun name => !isIdentifier name) = none := by simpa using hnames
    unfold lower
    rw [hnone]
    dsimp only
    rw [hlayout, he]

/-- A candidate's trampoline is made exactly if the candidate lowers, with that layout. -/
theorem lowers_iff : Lowers c x layout ↔
    c.isCandidate x.function = true ∧ lower c.document x = .ok ⟨x.id, trampolineSymbol x.id, layout⟩ := by
  rw [isCandidate_iff, lower_iff]
  simp only [spelledNames, List.forall_mem_cons, List.forall_mem_map, and_true]
  constructor
  · rintro ⟨hcandidate, htype, hfunction, hparams, hlayout⟩
    exact ⟨hcandidate, ⟨htype, hfunction, hparams⟩, hlayout⟩
  · rintro ⟨hcandidate, ⟨htype, hfunction, hparams⟩, hlayout⟩
    exact ⟨hcandidate, htype, hfunction, hparams, hlayout⟩

/-- The trampoline of a function, if there is one. -/
def lowered? (d : Document) (x : Candidate) : Option Lowered := (lower d x).toOption.map (⟨x, ·⟩)

theorem lowered?_eq_some {y : Lowered} : lowered? d x = some y ↔ y.candidate = x ∧ lower d x = .ok y.entry := by
  unfold lowered?
  cases h : lower d x with
  | error e => simp [Except.toOption]
  | ok e =>
    obtain ⟨x', e'⟩ := y
    simp [Except.toOption, eq_comm]

theorem exists_lowers_iff : (∃ layout, Lowers c x layout) ↔
    c.isCandidate x.function = true ∧ (lowered? c.document x).isSome = true := by
  simp only [lowers_iff, Option.isSome_iff_exists, lowered?_eq_some]
  constructor
  · rintro ⟨layout, hcandidate, hlower⟩
    exact ⟨hcandidate, ⟨x, _⟩, rfl, hlower⟩
  · rintro ⟨hcandidate, y, -, hlower⟩
    refine ⟨y.entry.layout, hcandidate, ?_⟩
    rw [← (lower_iff.mp hlower).2.2]
    exact hlower

instance : Decidable (∃ layout, Lowers c x layout) := decidable_of_iff _ exists_lowers_iff.symm

/-- The functions that get a trampoline. -/
def members (c : BindingContext) : List Candidate := (functionsOf c.document).filter fun x => ∃ layout, Lowers c x layout

/-- The functions of a type that get a trampoline. -/
def membersOf (c : BindingContext) (t : TypeRecord) : List Candidate :=
  (t.functions.map (⟨t, ·⟩)).filter fun x => ∃ layout, Lowers c x layout

/-- The candidates of a document, in its order. -/
def candidatesOf (c : BindingContext) : List Candidate := (functionsOf c.document).filter fun x => IsCandidate c x

/-- The types that have a function with a trampoline. -/
def typesOf (c : BindingContext) : List TypeRecord := c.document.types.filter fun t => !(membersOf c t).isEmpty

/-! ### What is generated, candidate by candidate -/

theorem candidates_eq : c.candidates = candidatesOf c := by
  unfold BindingContext.candidates candidatesOf functionsOf
  rw [List.filter_flatMap]
  refine List.flatMap_congr fun t _ => ?_
  rw [List.filter_map]
  refine congrArg (List.map _) (List.filter_congr fun f _ => ?_)
  rw [Function.comp_apply, Bool.eq_iff_iff, decide_eq_true_iff]
  exact isCandidate_iff (x := ⟨t, f⟩)

/-- What is reported of a candidate. -/
def reportOf (d : Document) (x : Candidate) : ReportEntry :=
  match lower d x with
  | .ok _ => ⟨x.id.display, .success⟩
  | .error e => ⟨x.id.display, .recovered ("no trampoline, using reflection dispatch: " ++ e.message)⟩

/-- The trampolines of a type. -/
def loweredOf (c : BindingContext) (t : TypeRecord) : List Lowered :=
  (groupOf c t).candidates.filterMap (lowered? c.document)

theorem lowerGroup_eq : lowerGroup c.document (groupOf c t) =
    (loweredOf c t, (groupOf c t).candidates.map (reportOf c.document)) := by
  have howner : ∀ x ∈ (groupOf c t).candidates, { x with owner := t } = x := by
    intro x hx
    obtain ⟨f, -, rfl⟩ := List.mem_map.mp hx
    rfl
  have hresults : ((groupOf c t).candidates.map fun x =>
      let x := { x with owner := (groupOf c t).type }
      (x, lower c.document x)) = (groupOf c t).candidates.map fun x => (x, lower c.document x) :=
    List.map_congr_left fun x hx => by
      have hx : { x with owner := (groupOf c t).type } = x := howner x hx
      simp only [hx]
  unfold lowerGroup loweredOf
  dsimp only at hresults ⊢
  rw [hresults, List.filterMap_map, List.map_map, Prod.mk.injEq]
  refine ⟨List.filterMap_congr fun x _ => ?_, List.map_congr_left fun x _ => ?_⟩
  · dsimp only [Function.comp_apply, lowered?]
    cases lower c.document x <;> rfl
  · dsimp only [Function.comp_apply, reportOf]
    cases lower c.document x <;> rfl

section
variable (hnames : (c.document.types.map (·.name)).Nodup)
include hnames

theorem groups_flatMap {β : Type} {g : Group → List β} (hg : ∀ g', g'.candidates = [] → g g' = []) :
    (groups c).flatMap g = c.document.types.flatMap fun t => g (groupOf c t) := by
  rw [groups_eq hnames, Labelled.flatMap_filter, List.flatMap_map]
  intro g' hempty
  exact hg g' (by simpa using hempty)

theorem report_eq : (generate c).report = ⟨.trampolines, c.candidates.map (reportOf c.document)⟩ := by
  show Report.mk .trampolines ([] ++ ((groups c).map fun g => (g, lowerGroup c.document g)).flatMap (·.2.2)) = _
  rw [List.nil_append, List.flatMap_map, groups_flatMap hnames, Report.mk.injEq]
  · refine ⟨rfl, ?_⟩
    simp only [lowerGroup_eq]
    unfold BindingContext.candidates groupOf
    rw [List.map_flatMap]
  · intro g hg
    simp [lowerGroup, hg]

theorem entries_eq : (generate c).manifest.entries = (c.document.types.flatMap (loweredOf c)).map (·.entry) := by
  rw [generate_entries, madeGroups, Labelled.flatMap_filter, List.flatMap_map, groups_flatMap hnames]
  · simp only [lowerGroup_eq, List.map_flatMap]
  · intro g hg
    simp [lowerGroup, hg]
  · intro g hg
    have hnone : g.2.1 = [] := by simpa using hg
    rw [hnone]
    rfl

theorem artifacts_eq : (generate c).artifacts =
    (c.document.types.filter fun t => !(loweredOf c t).isEmpty).map (fun t => typeFile t (loweredOf c t)) ++ [header] := by
  have hmade : madeGroups c = (c.document.types.filter fun t => !(loweredOf c t).isEmpty).map fun t =>
      (groupOf c t, loweredOf c t, (groupOf c t).candidates.map (reportOf c.document)) := by
    unfold madeGroups
    rw [groups_eq hnames, List.filter_map, List.filter_map, List.filter_map, List.filter_filter, List.map_map]
    simp only [Function.comp_def, lowerGroup_eq]
    refine congrArg (List.map _) (List.filter_congr fun t _ => ?_)
    cases hcandidates : (groupOf c t).candidates with
    | nil => simp [loweredOf, hcandidates]
    | cons x xs => simp
  rw [generate_artifacts, hmade, List.map_map]
  rfl

end

/-! ### What is generated is exact -/

/-- The entry of a function that lowers. -/
structure IsEntry (c : BindingContext) (x : Candidate) (e : TrampolineEntry) : Prop where
  id_eq : e.id = x.id
  symbol_eq : e.symbol = trampolineSymbol x.id
  lowers : Lowers c x e.layout

/-- What is reported of a candidate: success if it lowers, and otherwise why it does not and how it is served. -/
structure IsReport (c : BindingContext) (x : Candidate) (r : ReportEntry) : Prop where
  subject : r.subject = x.id.display
  success : (∃ layout, Lowers c x layout) → r.outcome = .success
  recovered : (¬∃ layout, Lowers c x layout) → ∃ e, lower c.document x = .error e ∧
    r.outcome = .recovered ("no trampoline, using reflection dispatch: " ++ e.message)

/-- The file of a type: it consists of the trampolines of the type's functions that have one, and its text defines their
symbols and no others, as long as what it copies has no line breaks of its own. -/
structure IsFile (c : BindingContext) (t : TypeRecord) (a : Artifact) : Prop where
  consists : ∃ functions, a = typeFile t functions ∧
    List.Forall₂ (fun x y => y.candidate = x ∧ IsEntry c x y.entry) (membersOf c t) functions
  defines : c.document.NamesLineFree →
    definedSymbols a.contents.toList = (membersOf c t).map fun x => trampolineSymbol x.id

/-- What is generated is exactly the trampolines of the functions that lower. -/
structure Exact (c : BindingContext) (o : Output) : Prop where
  functions : ∀ id, id ∈ o.functions ↔ ∃ x ∈ members c, x.id = id
  functions_once : o.functions.Nodup
  entries : List.Forall₂ (IsEntry c) (members c) o.manifest.entries
  ids_once : (o.manifest.entries.map (·.id)).Nodup
  symbols_once : (o.manifest.entries.map (·.symbol)).Nodup
  stage : o.report.stage = .trampolines
  report : List.Forall₂ (IsReport c) (candidatesOf c) o.report.entries
  files : ∃ files, o.artifacts = files ++ [header] ∧ List.Forall₂ (IsFile c) (typesOf c) files
  paths_once : (o.artifacts.map (·.path)).Nodup

theorem forall₂_filterMap {α β : Type} {g : α → Option β} {R : α → β → Prop} {xs : List α}
    (h : ∀ x ∈ xs, ∀ y, g x = some y → R x y) :
    List.Forall₂ R (xs.filter fun x => (g x).isSome) (xs.filterMap g) := by
  induction xs with
  | nil => exact .nil
  | cons x xs ih =>
    rw [List.forall_mem_cons] at h
    cases hx : g x with
    | none => simpa [hx] using ih h.2
    | some y => simpa [hx] using ⟨h.1 y hx, ih h.2⟩

theorem membersOf_eq : membersOf c t = (groupOf c t).candidates.filter fun x => (lowered? c.document x).isSome := by
  unfold membersOf groupOf
  dsimp only
  rw [List.filter_map, List.filter_map, List.filter_filter]
  refine congrArg (List.map _) (List.filter_congr fun f _ => ?_)
  rw [Bool.eq_iff_iff, Function.comp_apply, decide_eq_true_iff, exists_lowers_iff, Bool.and_eq_true, and_comm]
  rfl

theorem isEntry_of_lowered {y : Lowered} (hx : x ∈ (groupOf c t).candidates) (hy : lowered? c.document x = some y) :
    y.candidate = x ∧ IsEntry c x y.entry := by
  obtain ⟨f, hf, rfl⟩ := List.mem_map.mp hx
  obtain ⟨hcandidate, hlower⟩ := lowered?_eq_some.mp hy
  obtain ⟨hid, hsymbol, hlayout⟩ := lower_eq_ok hlower
  refine ⟨hcandidate, hid, hsymbol, lowers_iff.mpr ⟨(List.mem_filter.mp hf).2, ?_⟩⟩
  rw [← (lower_iff.mp hlower).2.2]
  exact hlower

theorem loweredOf_entries : List.Forall₂ (fun x y => y.candidate = x ∧ IsEntry c x y.entry) (membersOf c t)
    (loweredOf c t) := by
  rw [membersOf_eq]
  exact forall₂_filterMap fun x hx y hy => isEntry_of_lowered hx hy

theorem membersOf_isEmpty : (membersOf c t).isEmpty = (loweredOf c t).isEmpty := by
  have hlength := loweredOf_entries (c := c) (t := t) |>.length_eq
  cases hm : membersOf c t <;> cases hl : loweredOf c t <;> simp_all

theorem members_eq : members c = c.document.types.flatMap (membersOf c) := by
  unfold members functionsOf membersOf
  rw [List.filter_flatMap]

theorem isFile_typeFile (ht : t ∈ c.document.types) (hne : membersOf c t ≠ []) : IsFile c t (typeFile t (loweredOf c t)) := by
  refine ⟨⟨_, rfl, loweredOf_entries⟩, fun hfree => ?_⟩
  have hlowered : ∀ y ∈ loweredOf c t, IsLowered c.document t y := by
    intro y hy
    obtain ⟨x, hx, hsome⟩ := List.mem_filterMap.mp hy
    obtain ⟨f, -, rfl⟩ := List.mem_map.mp hx
    obtain ⟨hcandidate, hlower⟩ := lowered?_eq_some.mp hsome
    exact ⟨hcandidate ▸ rfl, hcandidate ▸ hlower⟩
  have hne' : loweredOf c t ≠ [] := by
    have hempty := membersOf_isEmpty (c := c) (t := t)
    intro h
    rw [h] at hempty
    exact hne (by simpa using hempty)
  rw [definedSymbols_typeFile hfree ht hlowered hne']
  have hentries := loweredOf_entries (c := c) (t := t)
  generalize membersOf c t = xs at hentries
  generalize loweredOf c t = ys at hentries
  induction hentries with
  | nil => rfl
  | cons h _ ih => rw [List.map_cons, List.map_cons, ih, h.2.symbol_eq]

theorem isReport_reportOf (hx : c.isCandidate x.function = true) : IsReport c x (reportOf c.document x) := by
  have hiff := exists_lowers_iff (c := c) (x := x)
  unfold reportOf
  cases hlower : lower c.document x with
  | ok e =>
    refine ⟨rfl, fun _ => rfl, fun hnot => absurd (hiff.mpr ⟨hx, ?_⟩) hnot⟩
    rw [lowered?, hlower]
    rfl
  | error e =>
    refine ⟨rfl, fun h => ?_, fun _ => ⟨e, hlower, rfl⟩⟩
    have hsome := (hiff.mp h).2
    rw [lowered?, hlower] at hsome
    cases hsome

theorem entries_lower (hnames : (c.document.types.map (·.name)).Nodup) :
    List.Forall₂ (IsEntry c) (members c) (generate c).manifest.entries := by
  rw [entries_eq hnames, members_eq, List.forall₂_map_right_iff]
  induction c.document.types with
  | nil => exact .nil
  | cons t ts ih =>
    rw [List.flatMap_cons, List.flatMap_cons]
    exact List.rel_append (loweredOf_entries.imp fun _ _ h => h.2) ih

/-- Entries of different functions have different symbols. -/
theorem symbols_once {xs : List Candidate} {es : List TrampolineEntry} (h : List.Forall₂ (IsEntry c) xs es)
    (hids : (es.map (·.id)).Nodup) : (es.map (·.symbol)).Nodup := by
  refine List.pairwise_map.mpr ((List.pairwise_map.mp hids).imp_of_mem fun {e e'} he he' hne heq => hne ?_)
  obtain ⟨x, -, hx⟩ := Paired.exists_left h he
  obtain ⟨x', -, hx'⟩ := Paired.exists_left h he'
  rw [hx.symbol_eq, hx'.symbol_eq] at heq
  rw [hx.id_eq, hx'.id_eq]
  exact trampolineSymbol_inj hx.lowers.type hx.lowers.function hx'.lowers.type hx'.lowers.function heq

theorem isIdentifier_of_members (h : membersOf c t ≠ []) : isIdentifier t.name = true := by
  obtain ⟨x, hx⟩ := List.exists_mem_of_ne_nil _ h
  obtain ⟨hf, hlowers⟩ := List.mem_filter.mp hx
  obtain ⟨layout, hlowers⟩ := of_decide_eq_true hlowers
  obtain ⟨f, -, rfl⟩ := List.mem_map.mp hf
  exact hlowers.type

theorem mem_typesOf : t ∈ typesOf c ↔ t ∈ c.document.types ∧ membersOf c t ≠ [] := by
  unfold typesOf
  rw [List.mem_filter]
  simp

theorem artifacts_typesOf (hnames : (c.document.types.map (·.name)).Nodup) :
    (generate c).artifacts = (typesOf c).map (fun t => typeFile t (loweredOf c t)) ++ [header] := by
  rw [artifacts_eq hnames, typesOf]
  simp only [membersOf_isEmpty]

/-- The path of a file tells its type, and the header has none. -/
theorem paths_once (hnames : (c.document.types.map (·.name)).Nodup) : ((generate c).artifacts.map (·.path)).Nodup := by
  refine List.Nodup.of_map typeOfPath? ?_
  have hfiles : (((typesOf c).map fun t => typeFile t (loweredOf c t)).map (·.path)).map typeOfPath? =
      (typesOf c).map fun t => some t.name := by
    rw [List.map_map, List.map_map]
    refine List.map_congr_left fun t ht => ?_
    dsimp only [Function.comp_apply, typeFile]
    exact typeOfPath?_typeFilePath (isIdentifier_of_members (mem_typesOf.mp ht).2)
  rw [artifacts_typesOf hnames, List.map_append, List.map_append, hfiles, List.map_singleton, List.map_singleton,
    typeOfPath?_header, List.nodup_append]
  refine ⟨?_, List.nodup_singleton _, ?_⟩
  · have hsome := (hnames.map (Option.some_injective _)).sublist ((List.filter_sublist (p := fun t => !(membersOf c t).isEmpty)
      (l := c.document.types)).map (fun t : TypeRecord => t.name) |>.map some)
    rwa [List.map_map] at hsome
  · intro n hn
    obtain ⟨t, -, rfl⟩ := List.mem_map.mp hn
    simp

theorem functions_once {o : Output} (hids : (o.manifest.entries.map (·.id)).Nodup) : o.functions.Nodup := by
  have hself : (o.manifest.entries.map (·.id)).eraseDups = o.manifest.entries.map (·.id) :=
    Labelled.eraseDupsBy_eq_self id (hids.imp fun hne => beq_eq_false_iff_ne.mpr (Ne.symm hne))
  unfold Output.functions FunctionId.sorted
  rw [hself]
  exact (List.mergeSort_perm _ _).nodup_iff.mpr hids

theorem exact_generate (hd : c.document.Consistent) : Exact c (generate c) := by
  have hentries := entries_lower hd.names
  have hids := entries_once hd
  refine ⟨fun id => ?_, functions_once hids, hentries, hids, symbols_once hentries hids, ?_, ?_, ?_, paths_once hd.names⟩
  · rw [mem_functions_iff]
    constructor
    · rintro ⟨e, he, rfl⟩
      obtain ⟨x, hx, hentry⟩ := Paired.exists_left hentries he
      exact ⟨x, hx, hentry.id_eq.symm⟩
    · rintro ⟨x, hx, rfl⟩
      obtain ⟨e, he, hentry⟩ := Paired.exists_left hentries.flip hx
      exact ⟨e, he, hentry.id_eq⟩
  · rw [report_eq hd.names]
  · rw [report_eq hd.names, ← candidates_eq, List.forall₂_map_right_iff, List.forall₂_same]
    intro x hx
    rw [candidates_eq] at hx
    exact isReport_reportOf (isCandidate_iff.mpr (of_decide_eq_true (List.mem_filter.mp hx).2))
  · refine ⟨_, artifacts_typesOf hd.names, ?_⟩
    rw [List.forall₂_map_right_iff, List.forall₂_same]
    intro t ht
    obtain ⟨hmem, hne⟩ := mem_typesOf.mp ht
    exact isFile_typeFile hmem hne

end Trampoline

/-! ### Leaving functions out -/

/-- The type with some of its functions. -/
def TypeRecord.keeping (keep : FunctionId → Bool) (t : TypeRecord) : TypeRecord :=
  { t with functions := t.functions.filter fun f => keep ⟨t.name, f.name⟩ }

/-- The document with some of its functions. -/
def Document.keeping (keep : FunctionId → Bool) (d : Document) : Document :=
  { d with types := d.types.map (·.keeping keep) }

/-- The context with some of its document's functions. -/
def BindingContext.keeping (keep : FunctionId → Bool) (c : BindingContext) : BindingContext :=
  { c with document := c.document.keeping keep }

namespace Document
variable {d : Document} {keep : FunctionId → Bool}

theorem type?_keeping {name : String} : (d.keeping keep).type? name = (d.type? name).map (·.keeping keep) := by
  unfold type? Document.keeping
  rw [List.find?_map]
  rfl

theorem layoutType_keeping {name : String} :
    (d.keeping keep).layoutType name = (d.layoutType name).map (·.keeping keep) := by
  unfold layoutType
  rw [type?_keeping]
  cases d.type? name <;> rfl

/-- Layouts of types do not depend on functions. -/
theorem reprWithin_keeping {fuel : Nat} {inside : List String} {type : TypeRef} :
    (d.keeping keep).reprWithin fuel inside type = d.reprWithin fuel inside type := by
  induction fuel generalizing inside type with
  | zero => rfl
  | succ fuel ih =>
    cases type with
    | object name | enum name =>
      simp only [reprWithin, layoutType_keeping, ih]
      cases d.layoutType name <;> rfl
    | struct name =>
      simp only [reprWithin, layoutType_keeping, ih]
      cases d.layoutType name <;> rfl
    | _ => rfl

theorem nativeRepr_keeping {type : TypeRef} : (d.keeping keep).nativeRepr type = d.nativeRepr type := by
  have hlength : (d.keeping keep).types.length = d.types.length := List.length_map _
  unfold nativeRepr
  rw [reprWithin_keeping, hlength]

end Document

namespace Trampoline
variable {c : BindingContext} {d : Document} {t : TypeRecord} {keep : FunctionId → Bool} {x : Candidate}

/-- The function as one of the type with some of its functions. -/
def keepingOwner (keep : FunctionId → Bool) (x : Candidate) : Candidate := { x with owner := x.owner.keeping keep }

theorem ofFunction_keeping {f : FunctionRecord} :
    FrameLayout.ofFunction (d.keeping keep) (t.keeping keep) f = FrameLayout.ofFunction d t f := by
  have hrepr : (d.keeping keep).nativeRepr = d.nativeRepr := funext fun _ => Document.nativeRepr_keeping
  unfold FrameLayout.ofFunction
  rw [hrepr]
  rfl

theorem lower_keeping : lower (d.keeping keep) (keepingOwner keep x) = lower d x := by
  have hlayout : FrameLayout.ofFunction (d.keeping keep) (keepingOwner keep x).owner (keepingOwner keep x).function =
      FrameLayout.ofFunction d x.owner x.function := ofFunction_keeping
  unfold lower
  rw [hlayout]
  rfl

/-- A trampoline as one of the type with some of its functions. -/
def keepingLowered (keep : FunctionId → Bool) (y : Lowered) : Lowered := { y with candidate := keepingOwner keep y.candidate }

theorem groupOf_keeping : (groupOf (c.keeping keep) (t.keeping keep)).candidates =
    ((groupOf c t).candidates.filter fun x => keep x.id).map (keepingOwner keep) := by
  show ((t.functions.filter fun f => keep ⟨t.name, f.name⟩).filter c.isCandidate).map _ =
    List.map _ (List.filter _ ((t.functions.filter c.isCandidate).map _))
  rw [List.filter_map, List.map_map, List.filter_filter, List.filter_filter]
  refine congrArg (List.map _) (List.filter_congr fun f _ => ?_)
  exact Bool.and_comm _ _

theorem candidates_keeping :
    (c.keeping keep).candidates = (c.candidates.filter fun x => keep x.id).map (keepingOwner keep) := by
  show ((c.document.types.map (·.keeping keep)).flatMap fun t => (groupOf (c.keeping keep) t).candidates) =
    ((c.document.types.flatMap fun t => (groupOf c t).candidates).filter fun x => keep x.id).map (keepingOwner keep)
  rw [List.flatMap_map, List.filter_flatMap, List.map_flatMap]
  exact List.flatMap_congr fun t _ => groupOf_keeping

theorem lowered?_keeping :
    lowered? (d.keeping keep) (keepingOwner keep x) = (lowered? d x).map (keepingLowered keep) := by
  unfold lowered?
  rw [lower_keeping]
  cases lower d x <;> rfl

theorem reportOf_keeping : reportOf (d.keeping keep) (keepingOwner keep x) = reportOf d x := by
  unfold reportOf
  rw [lower_keeping]
  rfl

theorem loweredOf_keeping : loweredOf (c.keeping keep) (t.keeping keep) =
    ((loweredOf c t).filter fun y => keep y.entry.id).map (keepingLowered keep) := by
  have hid : ∀ x y, lowered? c.document x = some y → y.entry.id = x.id := by
    intro x y hy
    exact (lower_eq_ok (lowered?_eq_some.mp hy).2).1
  have hlowered : (lowered? (c.keeping keep).document ∘ keepingOwner keep) =
      fun x => (lowered? c.document x).map (keepingLowered keep) := funext fun _ => lowered?_keeping
  unfold loweredOf
  rw [groupOf_keeping, List.filterMap_map, hlowered]
  induction (groupOf c t).candidates with
  | nil => rfl
  | cons x xs ih =>
    cases hx : lowered? c.document x with
    | none => cases hkeep : keep x.id <;> simp [hkeep, hx, ih]
    | some y => cases hkeep : keep x.id <;> simp [hkeep, hx, hid x y hx, ih]

/-- The text of a trampoline does not depend on the other functions of its type. -/
theorem typeFile_keeping {functions : List Lowered} :
    typeFile (t.keeping keep) (functions.map (keepingLowered keep)) = typeFile t functions := by
  have hbody : bodyText (functions.map (keepingLowered keep)) = bodyText functions := by
    unfold bodyText
    rw [List.foldl_map]
    rfl
  have hsizes : ((functions.map (keepingLowered keep)).flatMap fun f => frameSizes f.entry.layout) =
      functions.flatMap fun f => frameSizes f.entry.layout := by
    rw [List.flatMap_map]
    rfl
  unfold typeFile
  rw [hbody, hsizes]
  rfl

/-- Where functions are left out, the others keep their entries, what is reported of them, and their code. -/
structure Isolated (c : BindingContext) (keep : FunctionId → Bool) : Prop where
  entries : (generate (c.keeping keep)).manifest.entries = (generate c).manifest.entries.filter fun e => keep e.id
  report : (generate (c.keeping keep)).report.entries =
    (((candidatesOf c).zip (generate c).report.entries).filter fun p => keep p.1.id).map (·.2)
  files : ∃ made : List (TypeRecord × List Lowered),
    (generate c).manifest.entries = made.flatMap (fun m => m.2.map (·.entry)) ∧
      (generate c).artifacts = made.map (fun m => typeFile m.1 m.2) ++ [header] ∧
      (generate (c.keeping keep)).artifacts =
        ((made.map fun m => (m.1, m.2.filter fun y => keep y.entry.id)).filter fun m => !m.2.isEmpty).map
          (fun m => typeFile m.1 m.2) ++ [header]

section
variable (hnames : (c.document.types.map (·.name)).Nodup)
include hnames

theorem names_keeping : ((c.keeping keep).document.types.map (·.name)).Nodup := by
  show ((c.document.types.map (·.keeping keep)).map (·.name)).Nodup
  rw [List.map_map]
  exact hnames

theorem entries_keeping :
    (generate (c.keeping keep)).manifest.entries = (generate c).manifest.entries.filter fun e => keep e.id := by
  rw [entries_eq (names_keeping hnames), entries_eq hnames, List.filter_map, List.filter_flatMap]
  show ((c.document.types.map (·.keeping keep)).flatMap (loweredOf (c.keeping keep))).map _ = _
  rw [List.flatMap_map, List.map_flatMap, List.map_flatMap]
  refine List.flatMap_congr fun t _ => ?_
  rw [loweredOf_keeping, List.map_map]
  rfl

theorem report_keeping : (generate (c.keeping keep)).report.entries =
    (((candidatesOf c).zip (generate c).report.entries).filter fun p => keep p.1.id).map (·.2) := by
  rw [report_eq (names_keeping hnames), report_eq hnames, ← candidates_eq]
  dsimp only
  rw [candidates_keeping, List.map_map]
  induction c.candidates with
  | nil => rfl
  | cons x xs ih =>
    have hx : reportOf (c.keeping keep).document (keepingOwner keep x) = reportOf c.document x := reportOf_keeping
    cases hkeep : keep x.id <;> simp [hkeep, hx, ih]

theorem files_keeping : (generate (c.keeping keep)).artifacts =
    (((c.document.types.map fun t => (t, loweredOf c t)).map fun m => (m.1, m.2.filter fun y => keep y.entry.id)).filter
      fun m => !m.2.isEmpty).map (fun m => typeFile m.1 m.2) ++ [header] := by
  rw [artifacts_eq (names_keeping hnames)]
  show List.map _ (List.filter _ (c.document.types.map (·.keeping keep))) ++ _ = _
  rw [List.filter_map, List.map_map, List.map_map, List.filter_map, List.map_map]
  simp only [Function.comp_def, loweredOf_keeping, List.isEmpty_map, typeFile_keeping]

theorem isolated (keep : FunctionId → Bool) : Isolated c keep := by
  refine ⟨entries_keeping hnames, report_keeping hnames, (typesOf c).map fun t => (t, loweredOf c t), ?_, ?_, ?_⟩
  · rw [entries_eq hnames, List.map_flatMap, List.flatMap_map, typesOf, Labelled.flatMap_filter]
    intro t ht
    have hnone : loweredOf c t = [] := by simpa [membersOf_isEmpty] using ht
    rw [hnone]
    rfl
  · rw [artifacts_typesOf hnames, List.map_map]
    rfl
  · rw [files_keeping hnames]
    -- A type without trampolines has none when functions are left out.
    have hkept : ∀ t : TypeRecord, (!((loweredOf c t).filter fun y => keep y.entry.id).isEmpty) = true →
        (!(membersOf c t).isEmpty) = true := by
      intro t h
      rw [membersOf_isEmpty]
      cases hl : loweredOf c t with
      | nil => simp [hl] at h
      | cons y ys => rfl
    refine congrArg (· ++ [header]) ?_
    simp only [List.map_map, List.filter_map, typesOf, List.filter_filter, Function.comp_def]
    refine congrArg (List.map _) (List.filter_congr fun t _ => ?_)
    have := hkept t
    cases h : (!((loweredOf c t).filter fun y => keep y.entry.id).isEmpty) <;> simp_all

end
end Trampoline

end EngineBridge
