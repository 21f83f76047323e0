import EngineBridge.Export.Manifest
import EngineBridge.Proofs.Layout.Sizes
import EngineBridge.Proofs.Model.Reload

/-! Layouts are read from JSON as they were written, unless they are nested too deep.

A representation is one object: what belongs to its category stands beside what every representation has, and the reader
tells the two apart by their names. Each struct adds three levels of arrays and objects, so that the limit of the reader
is a limit of how deep structs may be nested. -/

namespace EngineBridge
open Json (Plain)

variable {limit : Nat}

namespace NativeRepr
open ScalarKind

/-- Every size, alignment and offset within the representation can be held by a word. -/
structure Fits (r : NativeRepr) : Prop where
  size : ∀ {k part}, r.Holds k part → part.size < UInt64.size
  align : ∀ {k part}, r.Holds k part → part.align < UInt64.size
  offset : ∀ {k type fields size align nativeType}, r.Holds k (.aggregate type fields size align nativeType) →
    ∀ p ∈ fields, p.offset < UInt64.size

theorem word_of_align {n : Nat} (h : n ∈ [1, 2, 4, 8]) : n < UInt64.size := by
  simp only [List.mem_cons, List.not_mem_nil, or_false] at h
  rcases h with rfl | rfl | rfl | rfl <;> decide

/-- Where the size can be held by a word, so can all that is laid out within it. -/
theorem IsCLayout.fits {d : Document} {r : NativeRepr} (h : r.IsCLayout d) (hsize : r.size < UInt64.size) : r.Fits := by
  have hpart : ∀ {k part}, r.Holds k part → part.size ≤ r.size := fun hp =>
    Nat.le_trans (Nat.le_add_left _ _) (h.place hp).2
  refine ⟨fun hp => Nat.lt_of_le_of_lt (hpart hp) hsize, fun hp => word_of_align (h.aligned hp).align_mem, ?_⟩
  intro k type fields size align nativeType hp p hmem
  have hstop : p.stop ≤ size := (h.structs hp).laidOut.inside p hmem
  have hwhole : size ≤ r.size := hpart hp
  have hoffset : p.offset ≤ p.stop := Nat.le_add_right _ _
  omega

section
variable {type nativeType : String} {fields : List (Placed NativeRepr)} {size align : Nat} {p : Placed NativeRepr}

theorem Fits.field (h : (aggregate type fields size align nativeType).Fits) (hp : p ∈ fields) : p.repr.Fits :=
  ⟨fun hpart => h.size (.inField hp hpart), fun hpart => h.align (.inField hp hpart),
    fun hpart => h.offset (.inField hp hpart)⟩

/-- A field as it is written. -/
def placedJson (p : Placed NativeRepr) : Json :=
  .record [("name", .str p.name), ("offset", .nat p.offset), ("repr", p.repr.toJson)]

theorem fieldsJson_eq (fields : List (Placed NativeRepr)) : fieldsJson fields = fields.map placedJson := by
  induction fields with
  | nil => rw [fieldsJson, List.map_nil]
  | cons p fields ih =>
    obtain ⟨name, offset, r⟩ := p
    rw [fieldsJson, ih, List.map_cons]
    rfl

/-- What belongs to the category of a representation. -/
def categoryFields : NativeRepr → List (String × Json)
  | .scalar kind _ _ _ => scalarFields kind
  | .aggregate type fields _ _ _ =>
    [("category", .str "aggregate"), ("name", .str type), ("fields", .array (fields.map placedJson))]

theorem toJson_eq (r : NativeRepr) :
    r.toJson = .record (r.categoryFields ++ commonFields r.size r.align r.nativeType) := by
  cases r with
  | scalar => rw [toJson]; rfl
  | aggregate => rw [toJson, fieldsJson_eq]; rfl

theorem names_categoryFields (r : NativeRepr) :
    (r.categoryFields.map Prod.fst).Nodup ∧ ∀ f ∈ r.categoryFields, f.1 ∉ commonNames := by
  cases r with
  | scalar kind => cases kind <;> simp [categoryFields, scalarFields, commonNames]
  | aggregate => simp [categoryFields, commonNames]

theorem mem_categoryFields :
    ("fields", .array (fields.map placedJson)) ∈ (aggregate type fields size align nativeType).categoryFields := by
  simp [categoryFields]

/-- A struct is nested deeper than what lies in its fields by the list of fields, the field and itself. -/
theorem depth_field {n : Nat} (hp : p ∈ fields) (h : (aggregate type fields size align nativeType).toJson.depth ≤ n) :
    p.repr.toJson.depth + 3 ≤ n := by
  have hrepr : p.repr.toJson.depth < (placedJson p).depth := Json.depth_field_lt "repr" (by simp)
  have hitem : (placedJson p).depth < (Json.array (fields.map placedJson)).depth :=
    Json.depth_item_lt (List.mem_map_of_mem hp)
  have hlist : (Json.array (fields.map placedJson)).depth <
      (aggregate type fields size align nativeType).toJson.depth := by
    rw [toJson_eq]
    exact Json.depth_field_lt "fields" (List.mem_append_left _ mem_categoryFields)
  omega

end

/-! ### Plain representations -/

theorem plain_nat {n : Nat} (h : n < UInt64.size) : Plain (.nat n) := .int h

theorem plain_commonFields {r : NativeRepr} (h : r.Fits) :
    ∀ f ∈ commonFields r.size r.align r.nativeType, Plain f.2 := by
  simp [commonFields, plain_nat (h.size (.whole r)), plain_nat (h.align (.whole r))]

theorem plain_scalarFields (kind : ScalarKind) : ∀ f ∈ scalarFields kind, Plain f.2 := by
  cases kind <;> simp [scalarFields, Plain.bool]

theorem plain_toJson {r : NativeRepr} (h : r.Fits) : Plain r.toJson := by
  -- The induction is on how deep the representation is nested, which is less for the fields of a struct.
  suffices hbound : ∀ n (r : NativeRepr), r.toJson.depth ≤ n → r.Fits → Plain r.toJson from hbound _ r (Nat.le_refl _) h
  intro n
  induction n with
  | zero =>
    intro r hdepth
    rw [toJson_eq] at hdepth
    exact absurd (Nat.le_zero.mp hdepth) (Json.depth_record_ne_zero _)
  | succ n ih =>
    intro r hdepth hfits
    rw [toJson_eq]
    refine .record (List.forall_mem_append.mpr ⟨?_, plain_commonFields hfits⟩)
    cases r with
    | scalar kind => exact plain_scalarFields kind
    | aggregate type fields size align nativeType =>
      have hfield : ∀ p ∈ fields, Plain (placedJson p) := by
        intro p hp
        have hrepr := ih p.repr (by have := depth_field hp hdepth; omega) (hfits.field hp)
        exact .record (by simp [plain_nat (hfits.offset (.whole _) p hp), hrepr])
      have hlist : Plain (.array (fields.map placedJson)) := .array (List.forall_mem_map.mpr hfield)
      simp [categoryFields, hlist]

theorem size?_nat {n : Nat} (h : n < UInt64.size) : size? (.nat n) = some n := by
  have hbounds : (0 ≤ (n : Int) && (n : Int) < UInt64.size) = true := by
    rw [Bool.and_eq_true, decide_eq_true_eq, decide_eq_true_eq]
    exact ⟨Int.natCast_nonneg n, Int.ofNat_lt.mpr h⟩
  rw [Json.nat, Json.int, size?, JsonNumber.int?_ofInt, Option.bind_some, if_pos hbounds]
  rfl

/-! ### Reading -/

theorem nodup_fields (r : NativeRepr) :
    ((r.categoryFields ++ commonFields r.size r.align r.nativeType).map Prod.fst).Nodup := by
  obtain ⟨hnodup, hbeside⟩ := r.names_categoryFields
  rw [List.map_append]
  refine hnodup.append (by simp [commonFields]) fun n hn hcommon => ?_
  obtain ⟨f, hf, rfl⟩ := List.mem_map.mp hn
  exact hbeside f hf hcommon

theorem part?_record {α : Type} {fields : List (String × Json)} (h : (fields.map Prod.fst).Nodup) (name : String)
    (read : Json → Option α) :
    part? name read (fields.map fun f => (some f.1, f.2)) = (List.lookup name fields).bind read := by
  rw [part?, Json.single?_record h]
  rfl

/-- What every representation has is found beside what belongs to the category. -/
theorem part?_common {α : Type} {read : Json → Option α} (r : NativeRepr) (name : String) (hname : name ∈ commonNames)
    {j : Json} {a : α} (hj : List.lookup name (commonFields r.size r.align r.nativeType) = some j) (ha : read j = some a) :
    part? name read ((r.categoryFields ++ commonFields r.size r.align r.nativeType).map fun f => (some f.1, f.2)) =
      some a := by
  have hnone : List.lookup name r.categoryFields = none :=
    List.lookup_eq_none_iff.mpr fun f hf => bne_iff_ne.mpr fun hsame => r.names_categoryFields.2 f hf (hsame ▸ hname)
  rw [part?_record r.nodup_fields, List.lookup_append, hnone, Option.none_or, hj, Option.bind_some, ha]

/-- What is left of a representation without what all have is what belongs to its category. -/
theorem rest_eq (r : NativeRepr) :
    ((r.categoryFields ++ commonFields r.size r.align r.nativeType).map
        fun f => ((some f.1, f.2) : JsonText × Json)).filter (fun f => !commonNames.any fun n => f.1 == some n) =
      r.categoryFields.map fun f => (some f.1, f.2) := by
  have hcategory : (r.categoryFields.map fun f => ((some f.1, f.2) : JsonText × Json)).filter
      (fun f => !commonNames.any fun n => f.1 == some n) = r.categoryFields.map fun f => (some f.1, f.2) := by
    rw [List.filter_eq_self, List.forall_mem_map]
    intro f hf
    have hname := r.names_categoryFields.2 f hf
    simpa [commonNames] using hname
  rw [List.map_append, List.filter_append, hcategory]
  simp [commonFields, commonNames]

theorem scalarOf?_scalarFields (kind : ScalarKind) : ∃ category,
    part? "category" category? ((scalarFields kind).map fun f => (some f.1, f.2)) = some category ∧
      category ≠ "aggregate" ∧ scalarOf? category ((scalarFields kind).map fun f => (some f.1, f.2)) = some kind := by
  cases kind <;> exact ⟨_, rfl, by decide, rfl⟩

theorem placed?_of_fields {read : Json → Option NativeRepr} {j : Json} {name offset repr : Option Json}
    (h : j.fields? ["name", "offset", "repr"] = some [name, offset, repr]) :
    placed? read j = (Json.required Json.string? name).bind fun name => (Json.required size? offset).bind fun offset =>
      (Json.required read repr).map fun r => ⟨name, offset, r⟩ := by
  rw [placed?, h]
  simp only [Option.bind_eq_bind, Option.bind_some, Option.map_eq_bind]
  rfl

theorem fields?_placedJson (p : Placed NativeRepr) : (placedJson p).fields? ["name", "offset", "repr"] =
    some [some (.str p.name), some (.nat p.offset), some p.repr.toJson] := by
  rw [placedJson, Json.fields?_record (by simp)]
  simp [List.lookup_cons]

theorem read?_toJson {fuel : Nat} {r : NativeRepr} (hfits : r.Fits) (h : r.toJson.depth ≤ fuel) :
    read? fuel r.toJson = some r := by
  induction fuel generalizing r with
  | zero =>
    rw [toJson_eq] at h
    exact absurd (Nat.le_zero.mp h) (Json.depth_record_ne_zero _)
  | succ fuel ih =>
    have hsize := part?_common r "size" (by decide) rfl (size?_nat (hfits.size (.whole r)))
    have halign := part?_common r "align" (by decide) rfl (size?_nat (hfits.align (.whole r)))
    have hnative := part?_common r "native_type" (by decide) rfl (Json.string?_str r.nativeType)
    rw [toJson_eq, Json.record, read?, hsize, halign, hnative, rest_eq]
    simp only [Option.bind_eq_bind, Option.bind_some]
    cases r with
    | scalar kind size align nativeType =>
      obtain ⟨category, hcategory, hscalar, hkind⟩ := scalarOf?_scalarFields kind
      simp only [categoryFields, hcategory, Option.bind_some, if_neg hscalar, hkind]
      rfl
    | aggregate type fields size align nativeType =>
      have hfield : ∀ p ∈ fields, placed? (read? fuel) (placedJson p) = some p := by
        intro p hp
        have hrepr := ih (hfits.field hp) (by have := depth_field hp h; omega)
        have hoffset := size?_nat (hfits.offset (.whole _) p hp)
        rw [placed?_of_fields (fields?_placedJson p), Json.required_some, Json.string?_str, Option.bind_some,
          Json.required_some, hoffset, Option.bind_some, Json.required_some, hrepr, Option.map_some]
      have hfields := list?_map hfield
      show ((Json.list? (placed? (read? fuel)) (.array (fields.map placedJson))).bind fun _ => _) = _
      rw [hfields]
      rfl

theorem ofJson?_toJson {r : NativeRepr} (hfits : r.Fits) (h : r.toJson.depth ≤ limit) :
    ofJson? limit r.toJson = some r := by
  rw [ofJson?, if_pos ((plain_toJson hfits).isReadable_iff.mpr h), read?_toJson hfits (Nat.le_succ_of_le h)]

/-- What is nested too deep is not read. -/
theorem ofJson?_deep {r : NativeRepr} (hfits : r.Fits) (h : limit < r.toJson.depth) : ofJson? limit r.toJson = none := by
  rw [ofJson?, if_neg]
  rw [(plain_toJson hfits).isReadable_iff]
  exact Nat.not_le.mpr h

theorem toJson_ne_null (r : NativeRepr) : r.toJson ≠ .null := by
  rw [toJson_eq]
  exact Json.noConfusion

end NativeRepr

/-! ### Frames -/

namespace FrameSlot
variable {s : FrameSlot}

theorem plain_toJson (hoffset : s.offset < UInt64.size) (hrepr : s.repr.Fits) : Plain s.toJson :=
  .record (by simp [NativeRepr.plain_nat hoffset, NativeRepr.plain_toJson hrepr])

theorem fields?_toJson (s : FrameSlot) : s.toJson.fields? ["name", "offset", "direction", "repr"] =
    some [some (.str s.name), some (.nat s.offset), some s.direction.toJson, some s.repr.toJson] := by
  rw [toJson, Json.fields?_record (by simp)]
  simp [List.lookup_cons]

theorem ofJson?_of_fields {j : Json} {name offset direction repr : Option Json}
    (h : j.fields? ["name", "offset", "direction", "repr"] = some [name, offset, direction, repr]) :
    ofJson? limit j = (Json.required Json.string? name).bind fun name =>
      (Json.required NativeRepr.size? offset).bind fun offset =>
        (Json.required Direction.ofJson? direction).bind fun direction =>
          (Json.required (NativeRepr.ofJson? (limit - 1)) repr).map fun r => ⟨name, offset, direction, r⟩ := by
  rw [ofJson?, h]
  simp only [Option.bind_eq_bind, Option.bind_some, Option.map_eq_bind]
  rfl

/-- A slot is read up to what lies in it. -/
theorem ofJson?_toJson (hoffset : s.offset < UInt64.size) :
    ofJson? limit s.toJson = (NativeRepr.ofJson? (limit - 1) s.repr.toJson).map fun r => { s with repr := r } := by
  rw [ofJson?_of_fields (fields?_toJson s), Json.required_some, Json.string?_str, Option.bind_some, Json.required_some,
    NativeRepr.size?_nat hoffset, Option.bind_some, Json.required_some, Direction.ofJson?_toJson, Option.bind_some,
    Json.required_some]

theorem depth_toJson_le (s : FrameSlot) : s.toJson.depth ≤ s.repr.toJson.depth + 1 := by
  have hdirection : s.direction.toJson.depth = 0 := by
    rw [Direction.toJson, Json.str, Json.depth]
  rw [toJson, Json.depth_record_le]
  simp [hdirection, Json.str, Json.nat, Json.int, Json.depth]

/-- A slot that is nested too deep is not read. -/
theorem ofJson?_deep (hoffset : s.offset < UInt64.size) (hrepr : s.repr.Fits) (h : limit < s.toJson.depth) :
    ofJson? limit s.toJson = none := by
  have hdeep : limit - 1 < s.repr.toJson.depth := by
    have hslot := s.depth_toJson_le
    have hpos : s.repr.toJson.depth ≠ 0 := by
      rw [NativeRepr.toJson_eq]
      exact Json.depth_record_ne_zero _
    omega
  rw [ofJson?_toJson hoffset, NativeRepr.ofJson?_deep hrepr hdeep, Option.map_none]

end FrameSlot

namespace FrameLayout
variable {l : FrameLayout}

/-- Every size, alignment and offset of the frame can be held by a word. -/
structure Fits (l : FrameLayout) : Prop where
  size : l.size < UInt64.size
  align : l.align < UInt64.size
  offset : ∀ s ∈ l.slots, s.offset < UInt64.size
  slots : ∀ s ∈ l.slots, s.repr.Fits
  ret : ∀ r ∈ l.ret, r.Fits

/-- The bytes of the frame and of what is returned can be counted by a word. -/
structure Countable (l : FrameLayout) : Prop where
  size : l.size < UInt64.size
  ret : ∀ r ∈ l.ret, r.size < UInt64.size

/-- Where the bytes of a frame can be counted, so can those of all that lies in it. -/
theorem IsCFrame.fits {d : Document} {owner : TypeRecord} {f : FunctionRecord} (h : l.IsCFrame d owner f)
    (hcount : l.Countable) : l.Fits where
  size := hcount.size
  align := NativeRepr.word_of_align h.align_mem
  offset s hs := by
    have hstop := (h.place s hs (.whole _)).2
    have hsize := hcount.size
    omega
  slots s hs := by
    have hstop := (h.place s hs (.whole _)).2
    have hsize := hcount.size
    exact (h.slots s hs).fits (by omega)
  ret r hr := by
    have hlaid : r.IsCLayout d := by
      have hrel := h.ret
      rw [Option.mem_def.mp hr] at hrel
      generalize f.returnType = t at hrel
      cases hrel with
      | some h => exact h.2
    exact hlaid.fits (hcount.ret r hr)

/-- The fields that a layout is written with. -/
def fields (l : FrameLayout) : List (String × Json) :=
  [("receiver", .bool l.receiver), ("slots", .array (l.slots.map FrameSlot.toJson)), ("size", .nat l.size),
    ("align", .nat l.align)] ++ optionalField "ret" NativeRepr.toJson l.ret

theorem names_fields (l : FrameLayout) :
    (l.fields.map Prod.fst).Sublist ["receiver", "slots", "size", "align", "ret"] := by
  rw [fields, List.map_append]
  exact (List.Sublist.refl _).append (names_optionalField _ _ _)

theorem fields?_toJson (l : FrameLayout) : l.toJson.fields? ["receiver", "slots", "size", "align", "ret"] =
    some [some (.bool l.receiver), some (.array (l.slots.map FrameSlot.toJson)), some (.nat l.size), some (.nat l.align),
      l.ret.map NativeRepr.toJson] := by
  rw [toJson, ← fields, Json.fields?_record (l.names_fields.nodup (by decide))]
  simp [fields, List.lookup_cons, lookup_optionalField]

theorem plain_toJson (h : l.Fits) : Plain l.toJson := by
  have hslots : Plain (.array (l.slots.map FrameSlot.toJson)) :=
    .array (List.forall_mem_map.mpr fun s hs => FrameSlot.plain_toJson (h.offset s hs) (h.slots s hs))
  refine .record (List.forall_mem_append.mpr ⟨?_, plain_optionalField fun r hr => NativeRepr.plain_toJson (h.ret r hr)⟩)
  simp [Plain.bool, hslots, NativeRepr.plain_nat h.size, NativeRepr.plain_nat h.align]

theorem ofJson?_of_fields {j : Json} {receiver slots size align ret : Option Json}
    (h : j.fields? ["receiver", "slots", "size", "align", "ret"] = some [receiver, slots, size, align, ret]) :
    ofJson? limit j = (Json.defaulted false Json.bool? receiver).bind fun receiver =>
      (Json.required (Json.list? (FrameSlot.ofJson? (limit - 2))) slots).bind fun slots =>
        (Json.required NativeRepr.size? size).bind fun size => (Json.required NativeRepr.size? align).bind fun align =>
          (Json.nullable (NativeRepr.ofJson? (limit - 1)) ret).map fun ret => ⟨receiver, slots, size, align, ret⟩ := by
  rw [ofJson?, h]
  simp only [Option.bind_eq_bind, Option.bind_some, Option.map_eq_bind]
  rfl

theorem ofJson?_toJson (hfits : l.Fits) (h : l.toJson.depth ≤ limit) : ofJson? limit l.toJson = some l := by
  have hslot : ∀ s ∈ l.slots, FrameSlot.ofJson? (limit - 2) s.toJson = some s := by
    intro s hs
    have hdepth : s.toJson.depth ≤ limit - 2 := depth_le_of_listed "slots" (by simp) hs h
    rw [FrameSlot.ofJson?_toJson (hfits.offset s hs),
      NativeRepr.ofJson?_toJson (hfits.slots s hs) (Json.depth_le_of_field "repr" (by simp) hdepth)]
    rfl
  have hret : ∀ r ∈ l.ret, NativeRepr.ofJson? (limit - 1) r.toJson = some r := fun r hr =>
    NativeRepr.ofJson?_toJson (hfits.ret r hr) (Json.depth_le_of_field "ret" (by simp [mem_optionalField hr]) h)
  rw [ofJson?_of_fields (fields?_toJson l), Json.defaulted_some, Json.bool?_bool, Option.bind_some, Json.required_some,
    list?_map hslot, Option.bind_some, Json.required_some, NativeRepr.size?_nat hfits.size, Option.bind_some,
    Json.required_some, NativeRepr.size?_nat hfits.align, Option.bind_some,
    nullable_map NativeRepr.toJson_ne_null hret, Option.map_some]

/-- Of the fields of a layout, only the slots and what is returned are nested. -/
theorem nested_fields {f : String × Json} {n : Nat} (hf : f ∈ l.fields) (h : n < f.2.depth) :
    f.2 = .array (l.slots.map FrameSlot.toJson) ∨ ∃ r ∈ l.ret, f.2 = r.toJson := by
  rcases List.mem_append.mp hf with hf | hf
  · simp only [List.mem_cons, List.not_mem_nil, or_false] at hf
    rcases hf with rfl | rfl | rfl | rfl
    · exact absurd h (Nat.not_lt_zero n)
    · exact .inl rfl
    · exact absurd h (Nat.not_lt_zero n)
    · exact absurd h (Nat.not_lt_zero n)
  · cases hret : l.ret with
    | none => simp [hret, optionalField] at hf
    | some r =>
      rw [hret, optionalField, List.mem_singleton] at hf
      exact .inr ⟨r, rfl, hf ▸ rfl⟩

/-- A layout that is nested too deep is not read: a slot is, or what is returned. -/
theorem ofJson?_deep (hfits : l.Fits) (hlimit : 2 ≤ limit) (h : limit < l.toJson.depth) :
    ofJson? limit l.toJson = none := by
  obtain ⟨limit, rfl⟩ := Nat.exists_eq_add_of_le' hlimit
  have hrecord : limit + 1 + 1 < (Json.record l.fields).depth := h
  obtain ⟨f, hf, hdeep⟩ := Json.exists_deep_field hrecord
  rw [ofJson?_of_fields (fields?_toJson l), Json.defaulted_some, Json.bool?_bool, Option.bind_some, Json.required_some]
  rcases nested_fields hf hdeep with hslots | ⟨r, hr, hret⟩
  · obtain ⟨_, hv, hslot⟩ := Json.exists_deep_item (hslots ▸ hdeep)
    obtain ⟨s, hs, rfl⟩ := List.mem_map.mp hv
    rw [Nat.add_sub_cancel, list?_map_none hs (FrameSlot.ofJson?_deep (hfits.offset s hs) (hfits.slots s hs) hslot),
      Option.bind_none]
  · have hnone : Json.nullable (NativeRepr.ofJson? (limit + 2 - 1)) (l.ret.map NativeRepr.toJson) = none :=
      nullable_map_none NativeRepr.toJson_ne_null hr (NativeRepr.ofJson?_deep (hfits.ret r hr) (hret ▸ hdeep))
    simp only [hnone, Option.map_none, Option.bind_eq_none_iff, implies_true]

end FrameLayout

end EngineBridge
