import EngineBridge.Proofs.Layout.Repr
import EngineBridge.Proofs.Model.Validity

/-! Which types have a representation.

A representation is looked for along the properties of structs, with the structs around at hand. In a document that
passes the check these are distinct structs of the document, each with a property that leads on to the type; so the
search ends at a managed type, at a struct that contains itself, or with a representation. -/

namespace EngineBridge
open Outcome

/-- The type is one of managed code only. -/
def TypeRef.isManaged : TypeRef → Bool
  | .string | .text | .softObject _ | .array _ | .set _ | .map _ _ | .delegate _ => true
  | _ => false

theorem Outcome.bind_congr_ok {ε α β : Type} {x : Except ε α} {f g : α → Except ε β} (h : ∀ a, x = .ok a → f a = g a) :
    x >>= f = x >>= g := by
  cases x with
  | error e => rfl
  | ok a => exact h a rfl

namespace Packing
variable {ι α : Type} {reprOf reprOf' : ι → Except LayoutError NativeRepr} {make : ι → NativeRepr → Nat → α} {xs : List ι}
variable {p : Packing α}

theorem exists_of_foldlM_add_error {e : LayoutError}
    (h : xs.foldlM (fun p x => do let r ← reprOf x; return p.add r (make x r)) p = .error e) :
    ∃ x ∈ xs, reprOf x = .error e := by
  induction xs generalizing p with
  | nil => cases h
  | cons x xs ih =>
    rw [List.foldlM_cons] at h
    rcases bind_eq_error.mp h with h | ⟨q, -, h⟩
    · rcases bind_eq_error.mp h with h | ⟨r, -, h⟩
      · exact ⟨x, List.mem_cons_self, h⟩
      · cases h
    · obtain ⟨y, hy, h⟩ := ih h
      exact ⟨y, List.mem_cons_of_mem x hy, h⟩

theorem foldlM_add_congr (h : ∀ x ∈ xs, reprOf x = reprOf' x) :
    xs.foldlM (fun p x => do let r ← reprOf x; return p.add r (make x r)) p =
      xs.foldlM (fun p x => do let r ← reprOf' x; return p.add r (make x r)) p := by
  induction xs generalizing p with
  | nil => rfl
  | cons x xs ih =>
    rw [List.forall_mem_cons] at h
    simp only [List.foldlM_cons, h.1, ih h.2]

end Packing

namespace Document
variable {d : Document} {fuel : Nat} {inside : List String} {type s s' : String} {t u : TypeRef} {e : LayoutError}

/-! ### Types within types -/

/-- The struct has a property of the type. -/
def HasField (d : Document) (s : String) (u : TypeRef) : Prop :=
  ∃ record, d.type? s = some record ∧ ∃ p ∈ record.properties, p.type = u

/-- The second type is the first, or lies in it through the properties of structs. -/
inductive Reaches (d : Document) (t : TypeRef) : TypeRef → Prop
  | self : Reaches d t t
  | field {s : String} {u : TypeRef} (hs : Reaches d t (.struct s)) (hu : d.HasField s u) : Reaches d t u

/-- A struct has a property in which the other lies. -/
def Contains (d : Document) (s s' : String) : Prop := ∃ u, d.HasField s u ∧ d.Reaches u (.struct s')

/-- Nothing in the type is managed, and no struct in it contains itself. -/
structure Representable (d : Document) (t : TypeRef) : Prop where
  native : ∀ u, d.Reaches t u → u.isManaged = false
  finite : ∀ s, d.Reaches t (.struct s) → ¬d.Contains s s

/-- The error names what in the type has no representation. -/
inductive Obstacle (d : Document) (t : TypeRef) : LayoutError → Prop
  | managed {u : TypeRef} (reason : String) (hreaches : d.Reaches t u) (hmanaged : u.isManaged = true) :
    Obstacle d t (.unsupported u reason)
  | recursive {s : String} (hreaches : d.Reaches t (.struct s)) (hcontains : d.Contains s s) :
    Obstacle d t (.recursiveAggregate s)

theorem Reaches.trans {v : TypeRef} (h : d.Reaches t u) (h' : d.Reaches u v) : d.Reaches t v := by
  induction h' with
  | self => exact h
  | field _ hfield ih => exact ih.field hfield

theorem HasField.reaches (h : d.HasField s u) : d.Reaches (.struct s) u := Reaches.self.field h

theorem Obstacle.of_reaches (h : d.Reaches t u) (hu : d.Obstacle u e) : d.Obstacle t e := by
  cases hu with
  | managed reason hreaches hmanaged => exact .managed reason (h.trans hreaches) hmanaged
  | recursive hreaches hcontains => exact .recursive (h.trans hreaches) hcontains

theorem Obstacle.not_representable (h : d.Obstacle t e) : ¬d.Representable t := fun ht => by
  cases h with
  | managed reason hreaches hmanaged =>
    rw [ht.native _ hreaches] at hmanaged
    cases hmanaged
  | recursive hreaches hcontains => exact ht.finite _ hreaches hcontains

/-! ### What has a representation -/

/-- Whatever lies in a type with a representation has one, within more structs. -/
theorem reprWithin_of_reaches {r : NativeRepr} (h : d.reprWithin fuel inside t = .ok r) (hu : d.Reaches t u) :
    ∃ fuel' inside' r', inside ⊆ inside' ∧ d.reprWithin fuel' inside' u = .ok r' := by
  induction hu with
  | self => exact ⟨fuel, inside, r, List.Subset.refl _, h⟩
  | field _ hfield ih =>
    obtain ⟨fuel', inside', r', hinside, hr'⟩ := ih
    obtain ⟨record, hrecord, p, hp, rfl⟩ := hfield
    cases fuel' with
    | zero => cases hr'
    | succ fuel' =>
      obtain ⟨-, record', hrecord', -, rs, hrs, -⟩ := reprWithin_struct.mp hr'
      obtain rfl := Option.some.inj (hrecord.symm.trans hrecord')
      obtain ⟨r, -, hr⟩ := Paired.exists_right hrs hp
      exact ⟨fuel', _, r, List.subset_cons_of_subset _ hinside, hr⟩

theorem reprWithin_native {r : NativeRepr} (h : d.reprWithin fuel inside t = .ok r) : t.isManaged = false := by
  cases fuel with
  | zero => cases h
  | succ fuel =>
    cases t with
    | string | text | softObject | array | set | map | delegate => cases h
    | _ => rfl

theorem reprWithin_struct_finite {r : NativeRepr} (h : d.reprWithin fuel inside (.struct s) = .ok r) :
    ¬d.Contains s s := by
  rintro ⟨u, ⟨record, hrecord, p, hp, rfl⟩, hback⟩
  cases fuel with
  | zero => cases h
  | succ fuel =>
    obtain ⟨-, record', hrecord', -, rs, hrs, -⟩ := reprWithin_struct.mp h
    obtain rfl := Option.some.inj (hrecord.symm.trans hrecord')
    obtain ⟨r, -, hr⟩ := Paired.exists_right hrs hp
    -- Within the struct, the struct has no representation.
    obtain ⟨fuel', inside', r', hinside, hr'⟩ := reprWithin_of_reaches hr hback
    cases fuel' with
    | zero => cases hr'
    | succ fuel' => exact (reprWithin_struct.mp hr').1 (hinside List.mem_cons_self)

theorem representable_of_reprWithin {r : NativeRepr} (h : d.reprWithin fuel inside t = .ok r) : d.Representable t where
  native u hu := by
    obtain ⟨fuel', inside', r', -, hr'⟩ := reprWithin_of_reaches h hu
    exact reprWithin_native hr'
  finite s hs := by
    obtain ⟨fuel', inside', r', -, hr'⟩ := reprWithin_of_reaches h hs
    exact reprWithin_struct_finite hr'

/-! ### What has none -/

theorem reprWithin_struct_error (h : d.reprWithin (fuel + 1) inside (.struct type) = .error e) :
    type ∈ inside ∧ e = .recursiveAggregate type ∨ d.kind? type ≠ some .structKind ∨
      type ∉ inside ∧ ∃ u, d.HasField type u ∧ d.reprWithin fuel (type :: inside) u = .error e := by
  rw [reprWithin] at h
  by_cases hin : inside.contains type = true
  · simp only [hin, ↓reduceIte] at h
    cases h
    exact .inl ⟨List.contains_iff_mem.mp hin, rfl⟩
  · simp only [hin, Bool.false_eq_true, ↓reduceIte] at h
    have hnew : type ∉ inside := fun h => hin (List.contains_iff_mem.mpr h)
    refine .inr ?_
    by_cases hkind : d.kind? type = some .structKind
    · obtain ⟨record, hrecord, hstruct⟩ := kind?_eq_some.mp hkind
      rcases bind_eq_error.mp h with h | ⟨record', hrecord', h⟩
      · rw [layoutType_eq_ok.mpr hrecord] at h
        cases h
      · obtain rfl := Except.ok.inj ((layoutType_eq_ok.mpr hrecord).symm.trans hrecord')
        simp only [hstruct, ne_eq, not_true_eq_false, ↓reduceIte] at h
        rcases bind_eq_error.mp h with h | ⟨packing, -, h⟩
        · obtain ⟨p, hp, h⟩ := Packing.exists_of_foldlM_add_error h
          exact .inr ⟨hnew, p.type, ⟨record, hrecord, p, hp, rfl⟩, h⟩
        · cases h
    · exact .inl hkind

/-- The structs around a type are distinct structs of the document, and each has a property in which the type lies. -/
structure Visiting (d : Document) (inside : List String) (t : TypeRef) : Prop where
  distinct : inside.Nodup
  named : inside ⊆ d.types.map (·.name)
  leads : ∀ s ∈ inside, ∃ u, d.HasField s u ∧ d.Reaches u t

namespace Visiting

theorem start (t : TypeRef) : d.Visiting [] t := ⟨List.nodup_nil, List.nil_subset _, List.forall_mem_nil _⟩

theorem length_le (h : d.Visiting inside t) : inside.length ≤ d.types.length := by
  simpa using (List.subperm_of_subset h.distinct h.named).length_le

theorem enter (h : d.Visiting inside (.struct type)) (hnew : type ∉ inside) (hu : d.HasField type u) :
    d.Visiting (type :: inside) u := by
  refine ⟨List.nodup_cons.mpr ⟨hnew, h.distinct⟩, List.cons_subset.mpr ⟨?_, h.named⟩, ?_⟩
  · obtain ⟨record, hrecord, -⟩ := hu
    obtain ⟨hmem, rfl⟩ := type?_mem hrecord
    exact List.mem_map_of_mem hmem
  · refine List.forall_mem_cons.mpr ⟨⟨u, hu, .self⟩, fun s hs => ?_⟩
    obtain ⟨v, hv, hreaches⟩ := h.leads s hs
    exact ⟨v, hv, hreaches.field hu⟩

end Visiting

section
variable (hd : d.Consistent)
include hd

theorem Consistent.resolves_field (hu : d.HasField s u) : d.Resolves u := by
  obtain ⟨record, hrecord, p, hp, rfl⟩ := hu
  exact (hd.accepts record (type?_mem hrecord).1).property hp

/-- An enum is represented as the integer type behind it, which is one step further. -/
theorem Consistent.reprWithin_enum_eq (ht : d.Resolves (.enum type)) :
    ∃ r, ∀ fuel inside, d.reprWithin (fuel + 2) inside (.enum type) = .ok r := by
  obtain ⟨record, hrecord, hkind⟩ := kind?_eq_some.mp (ht (.toEnum, type) (by simp [TypeRef.references]))
  obtain ⟨i, hi, -⟩ := (hd.accepts record (type?_mem hrecord).1).underlying hkind
  refine ⟨_, fun fuel inside => reprWithin_enum.mpr ⟨record, hrecord, .number (.integer i.signed) i.bytes i.name, ?_, rfl⟩⟩
  rw [hi, reprWithin]

/-- With fuel for the structs that are not around yet, the search fails only at an obstacle. -/
theorem Consistent.obstacle_of_error (hfuel : d.types.length + 2 ≤ fuel + inside.length) (hv : d.Visiting inside t)
    (ht : d.Resolves t) (h : d.reprWithin fuel inside t = .error e) : d.Obstacle t e := by
  induction fuel generalizing inside t with
  | zero => exact absurd hv.length_le (by omega)
  | succ fuel ih =>
    cases t with
    | bool | integer | float | double | name | classOf => cases h
    | string | text | softObject | array | set | map | delegate =>
      cases h
      exact .managed _ .self rfl
    | object type =>
      obtain ⟨record, hrecord, -⟩ := kind?_eq_some.mp (ht (.toClass, type) (by simp [TypeRef.references]))
      rw [reprWithin_object.mpr ⟨record, hrecord, rfl⟩] at h
      cases h
    | enum type =>
      obtain ⟨r, hr⟩ := hd.reprWithin_enum_eq ht
      obtain ⟨fuel, rfl⟩ : ∃ n, fuel = n + 1 := ⟨fuel - 1, by have := hv.length_le; omega⟩
      rw [hr] at h
      cases h
    | struct type =>
      rcases reprWithin_struct_error h with ⟨hin, rfl⟩ | hkind | ⟨hnew, u, hu, herror⟩
      · exact .recursive .self (hv.leads type hin)
      · exact absurd (ht (.toStruct, type) (by simp [TypeRef.references])) hkind
      · refine .of_reaches hu.reaches (ih ?_ (hv.enter hnew hu) (hd.resolves_field hu) herror)
        rw [List.length_cons]
        omega

/-- More fuel than that changes nothing. -/
theorem Consistent.reprWithin_succ (hfuel : d.types.length + 2 ≤ fuel + inside.length) (hv : d.Visiting inside t)
    (ht : d.Resolves t) : d.reprWithin (fuel + 1) inside t = d.reprWithin fuel inside t := by
  induction fuel generalizing inside t with
  | zero => exact absurd hv.length_le (by omega)
  | succ fuel ih =>
    cases t with
    | enum type =>
      obtain ⟨r, hr⟩ := hd.reprWithin_enum_eq ht
      obtain ⟨fuel, rfl⟩ : ∃ n, fuel = n + 1 := ⟨fuel - 1, by have := hv.length_le; omega⟩
      rw [hr, hr]
    | struct type =>
      rw [reprWithin, reprWithin]
      by_cases hin : inside.contains type = true
      · simp only [hin, ↓reduceIte]
        rfl
      · have hnew : type ∉ inside := fun h => hin (List.contains_iff_mem.mpr h)
        simp only [hin, Bool.false_eq_true, ↓reduceIte]
        refine bind_congr_ok fun record hrecord => ?_
        have hfields : ∀ p ∈ record.properties,
            d.reprWithin (fuel + 1) (type :: inside) p.type = d.reprWithin fuel (type :: inside) p.type := by
          intro p hp
          have hfield : d.HasField type p.type := ⟨record, layoutType_eq_ok.mp hrecord, p, hp, rfl⟩
          refine ih ?_ (hv.enter hnew hfield) (hd.resolves_field hfield)
          rw [List.length_cons]
          omega
        simp only [Packing.foldlM_add_congr hfields]
    | _ => rfl

theorem Consistent.reprWithin_eq (ht : d.Resolves t) (hfuel : d.types.length + 2 ≤ fuel) :
    d.reprWithin fuel [] t = d.reprWithin (d.types.length + 2) [] t := by
  induction fuel, hfuel using Nat.le_induction with
  | base => rfl
  | succ fuel hfuel ih => rw [hd.reprWithin_succ (by simpa using hfuel) (.start t) ht, ih]

end

/-- Whether a type has a representation is decided by what lies in it, at any depth; if it has none, the error names
what is in the way: a managed type, or a struct that contains itself. The search ends by itself: looking deeper than
that changes nothing. -/
theorem nativeRepr_decides (hd : d.validate = .ok ()) (ht : d.Resolves t) :
    ((∃ r, d.nativeRepr t = .ok r) ↔ d.Representable t) ∧ (∀ e, d.nativeRepr t = .error e → d.Obstacle t e) ∧
      ∀ fuel, d.types.length + 2 ≤ fuel → d.reprWithin fuel [] t = d.nativeRepr t := by
  have hconsistent := validate_eq_ok.mp hd
  have hfuel : d.types.length + 2 ≤ (d.types.length + 1) * (d.types.length + 2) := Nat.le_mul_of_pos_left _ (by omega)
  have herror : ∀ e, d.nativeRepr t = .error e → d.Obstacle t e := fun e h =>
    hconsistent.obstacle_of_error (by simpa using hfuel) (.start t) ht h
  refine ⟨⟨?ok, fun hrepresentable => ?representable⟩, herror, fun fuel hle => ?steady⟩
  case ok =>
    rintro ⟨r, hr⟩
    exact representable_of_reprWithin hr
  case representable =>
    cases hr : d.nativeRepr t with
    | ok r => exact ⟨r, rfl⟩
    | error e => exact absurd hrepresentable (herror e hr).not_representable
  case steady =>
    unfold nativeRepr
    rw [hconsistent.reprWithin_eq ht hle, hconsistent.reprWithin_eq ht hfuel]

/-! ### Two structs -/

namespace Chain

/-- A struct with two properties of a type. -/
def pair (name : String) (t : TypeRef) : TypeRecord :=
  { TypeRecord.bare name "Engine" .structKind with properties := [⟨"First", t, .empty⟩, ⟨"Second", t, .empty⟩] }

/-- Each struct holds the other twice, or the second one holds numbers. -/
def document (closed : Bool) : Document :=
  ⟨"5.4", .empty, [pair "Segment" (.struct "Point"), pair "Point" (if closed then .struct "Segment" else .double)]⟩

/-- A struct that is met twice has a representation, and one that lies in itself is named. -/
theorem nativeRepr_decides_chain : (∀ closed, (document closed).validate = .ok ()) ∧
    (∀ closed, (document closed).Resolves (.struct "Segment")) ∧ (document false).Representable (.struct "Segment") ∧
    (document true).Contains "Segment" "Segment" := by
  have hvalid : ∀ closed, (document closed).validate = .ok () := by decide
  have hresolves : ∀ closed, (document closed).Resolves (.struct "Segment") := by
    intro closed r hr
    obtain rfl := List.mem_singleton.mp hr
    cases closed <;> decide
  have hopen : ∃ r, (document false).nativeRepr (.struct "Segment") = .ok r := ⟨_, rfl⟩
  have hclosed : (document true).nativeRepr (.struct "Segment") = .error (.recursiveAggregate "Segment") := rfl
  refine ⟨hvalid, hresolves, (nativeRepr_decides (hvalid false) (hresolves false)).1.mp hopen, ?_⟩
  cases (nativeRepr_decides (hvalid true) (hresolves true)).2.1 _ hclosed with
  | recursive _ hcontains => exact hcontains

end Chain
end Document
end EngineBridge
