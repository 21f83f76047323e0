import EngineBridge.Project.Source
import EngineBridge.Proofs.Files.Edit
import EngineBridge.Proofs.Json.Fields
import EngineBridge.Proofs.Model.Flags
import EngineBridge.Proofs.Text.Utf8

/-! A saved document is loaded as it was.

For each kind of record: what it is written as is plain, and it is read back unless it is nested deeper than the reader
goes. A record leaves out what is empty, and what is missing is read as empty. -/

namespace EngineBridge
open Json (Plain)

variable {limit : Nat}

/-! ### Fields that may be left out -/

section Fields
variable {α : Type} {name : String} {write : α → Json} {read : Json → Option α}

theorem names_optionalField (name : String) (write : α → Json) (o : Option α) :
    ((optionalField name write o).map Prod.fst).Sublist [name] := by
  cases o with
  | none => exact List.nil_sublist _
  | some a => exact List.Sublist.refl _

theorem names_listField (name : String) (write : α → Json) (as : List α) :
    ((listField name write as).map Prod.fst).Sublist [name] := by
  cases as with
  | nil => exact List.nil_sublist _
  | cons a as => exact List.Sublist.refl _

theorem lookup_optionalField (key name : String) (write : α → Json) (o : Option α) :
    List.lookup key (optionalField name write o) = if key = name then o.map write else none := by
  cases o with
  | none => split <;> rfl
  | some a =>
    rw [optionalField, List.lookup_cons, List.lookup_nil]
    split <;> simp_all

/-- What a list is written as, if it is. -/
def listed (write : α → Json) : List α → Option Json
  | [] => none
  | as => some (.array (as.map write))

theorem lookup_listField (key name : String) (write : α → Json) (as : List α) :
    List.lookup key (listField name write as) = if key = name then listed write as else none := by
  cases as with
  | nil => split <;> rfl
  | cons a as =>
    rw [listField, List.lookup_cons, List.lookup_nil]
    · split <;> simp_all [listed]
    · exact List.cons_ne_nil _ _

theorem list?_map {as : List α} (h : ∀ a ∈ as, read (write a) = some a) :
    Json.list? read (.array (as.map write)) = some as := by
  rw [Json.list?]
  induction as with
  | nil => rfl
  | cons a as ih =>
    obtain ⟨ha, has⟩ := List.forall_mem_cons.mp h
    rw [List.map_cons, List.mapM_cons, ha, ih has]
    rfl

theorem list?_map_none {as : List α} {a : α} (ha : a ∈ as) (h : read (write a) = none) :
    Json.list? read (.array (as.map write)) = none := by
  rw [Json.list?]
  induction as with
  | nil => cases ha
  | cons b as ih =>
    rw [List.map_cons, List.mapM_cons]
    rcases List.mem_cons.mp ha with rfl | ha
    · rw [h]
      rfl
    · rw [ih ha]
      cases read (write b) <;> rfl

theorem defaulted_listed {as : List α} (h : ∀ a ∈ as, read (write a) = some a) :
    Json.defaulted [] (Json.list? read) (listed write as) = some as := by
  cases as with
  | nil => rfl
  | cons a as => exact list?_map h

theorem nullable_map {o : Option α} (hnull : ∀ a, write a ≠ .null) (h : ∀ a ∈ o, read (write a) = some a) :
    Json.nullable read (o.map write) = some o := by
  cases o with
  | none => rfl
  | some a =>
    rw [Option.map_some, Json.nullable, h a rfl]
    · rfl
    · exact hnull a

theorem nullable_map_none {o : Option α} {a : α} (hnull : ∀ a, write a ≠ .null) (ha : a ∈ o)
    (h : read (write a) = none) : Json.nullable read (o.map write) = none := by
  rw [Option.mem_def.mp ha, Option.map_some, Json.nullable, h, Option.map_none]
  exact hnull a

theorem mem_optionalField {o : Option α} {a : α} (h : a ∈ o) : (name, write a) ∈ optionalField name write o := by
  rw [Option.mem_def.mp h]
  exact List.mem_singleton_self _

theorem mem_listField {as : List α} {a : α} (h : a ∈ as) :
    (name, .array (as.map write)) ∈ listField name write as := by
  cases as with
  | nil => cases h
  | cons a as => exact List.mem_singleton_self _

/-- The items of a list that is a field are nested less deep by two. -/
theorem depth_le_of_listed {fields : List (String × Json)} {as : List α} {a : α} (name : String)
    (hf : (name, .array (as.map write)) ∈ fields) (ha : a ∈ as) (h : (Json.record fields).depth ≤ limit) :
    (write a).depth ≤ limit - 2 :=
  Json.depth_le_of_item (List.mem_map_of_mem ha) (Json.depth_le_of_field name hf h)

theorem plain_optionalField {o : Option α} (h : ∀ a ∈ o, Plain (write a)) :
    ∀ f ∈ optionalField name write o, Plain f.2 := by
  cases o with
  | none => exact List.forall_mem_nil _
  | some a => exact List.forall_mem_singleton.mpr (h a rfl)

theorem plain_listField {as : List α} (h : ∀ a, Plain (write a)) : ∀ f ∈ listField name write as, Plain f.2 := by
  cases as with
  | nil => exact List.forall_mem_nil _
  | cons a as => exact List.forall_mem_singleton.mpr (.array (List.forall_mem_map.mpr fun a _ => h a))

end Fields

/-! ### Sets of flags and fixed choices -/

theorem FlagSet.ofJson?_toJson {names : List String} (h : FlagSet.Legible names) (a : FlagSet names) :
    FlagSet.ofJson? a.toJson = some a := FlagSet.parse?_render h a

theorem legible_documentAttributes : FlagSet.Legible ["ALLOW_FAST_INVOKE_GENERATION"] := by decide

theorem legible_typeFlags : FlagSet.Legible ["ABSTRACT", "BLUEPRINT_TYPE", "DEPRECATED"] := by decide

theorem legible_functionFlags :
    FlagSet.Legible ["NATIVE_CALLABLE", "SCRIPT_CALLABLE", "FAST_INVOKE_ELIGIBLE", "STATIC", "CONST", "EVENT"] := by
  decide

theorem legible_propertyFlags : FlagSet.Legible ["READ_ONLY", "SCRIPT_VISIBLE"] := by decide

theorem Direction.ofJson?_toJson (d : Direction) : Direction.ofJson? d.toJson = some d := by cases d <;> rfl

theorem TypeKind.ofJson?_toJson (k : TypeKind) : TypeKind.ofJson? k.toJson = some k := by cases k <;> rfl

/-! ### Type references -/

namespace TypeRef

/-- The fields that a reference has beside its tag. -/
def parts : TypeRef → List (String × Json)
  | .object n | .softObject n => [("class", .str n)]
  | .classOf n => [("meta", .str n)]
  | .struct n | .enum n => [("name", .str n)]
  | .array e | .set e => [("element", e.toJson)]
  | .map k v => [("key", k.toJson), ("value", v.toJson)]
  | .delegate s => [("signature", .str s)]
  | _ => []

theorem toJson_eq (t : TypeRef) : t.toJson = .record (("kind", .str t.tag) :: t.parts) := by
  cases t <;> rfl

theorem plain_toJson (t : TypeRef) : Plain t.toJson := by
  rw [toJson_eq]
  induction t with
  | array e ih | set e ih =>
    rw [← toJson_eq] at ih
    exact .record (by simp [parts, Plain.str, ih])
  | map k v ihk ihv =>
    rw [← toJson_eq] at ihk ihv
    exact .record (by simp [parts, Plain.str, ihk, ihv])
  | _ => exact .record (by simp [parts, Plain.str])

theorem parts_untagged (t : TypeRef) : ∀ f ∈ t.parts, f.1 ≠ "kind" := by
  cases t <;> simp [parts]

/-- The tag is told apart from the other fields. -/
theorem untag?_toJson (inner : Bool) (t : TypeRef) : untag? inner t.toJson = some (t.tag, .record t.parts) := by
  have hkind : (t.parts.map fun f => ((some f.1, f.2) : JsonText × Json)).filter (fun f => f.1 == some "kind") = [] := by
    rw [List.filter_eq_nil_iff, List.forall_mem_map]
    exact fun f hf => by simpa using parts_untagged t f hf
  have hparts : (t.parts.map fun f => ((some f.1, f.2) : JsonText × Json)).filter (fun f => f.1 != some "kind") =
      t.parts.map fun f => (some f.1, f.2) := by
    rw [List.filter_eq_self, List.forall_mem_map]
    exact fun f hf => by simpa using parts_untagged t f hf
  rw [toJson_eq, Json.record, List.map_cons, untag?, Json.single?, List.filter_cons_of_pos (by simp), hkind]
  rw [List.filter_cons_of_neg (by simp), hparts]
  rfl

theorem exists_fuel {t : TypeRef} {fuel : Nat} (h : t.toJson.depth ≤ fuel) : ∃ m, fuel = m + 1 := by
  refine Nat.exists_eq_succ_of_ne_zero ?_
  rintro rfl
  rw [toJson_eq] at h
  exact Json.depth_record_ne_zero _ (Nat.le_zero.mp h)

theorem depth_part_le {t : TypeRef} {fuel : Nat} {n : String} {v : Json} (hf : (n, v) ∈ t.parts)
    (h : t.toJson.depth ≤ fuel + 1) : v.depth ≤ fuel := by
  rw [toJson_eq] at h
  exact Json.depth_le_of_field n (List.mem_cons_of_mem _ hf) h

theorem read?_toJson {t : TypeRef} {fuel : Nat} (inner : Bool) (h : t.toJson.depth ≤ fuel) :
    read? fuel inner t.toJson = some t := by
  induction t generalizing fuel inner with
  | array e ih | set e ih =>
    obtain ⟨fuel, rfl⟩ := exists_fuel h
    have he := ih true (depth_part_le (n := "element") (by simp [parts]) h)
    rw [read?, untag?_toJson]
    show (read? fuel true e.toJson).bind _ = _
    rw [he]
    rfl
  | map k v ihk ihv =>
    obtain ⟨fuel, rfl⟩ := exists_fuel h
    have hk := ihk true (depth_part_le (n := "key") (by simp [parts]) h)
    have hv := ihv true (depth_part_le (n := "value") (by simp [parts]) h)
    rw [read?, untag?_toJson]
    show ((read? fuel true k.toJson).bind fun k => (read? fuel true v.toJson).bind fun v => some (TypeRef.map k v)) = _
    rw [hk, hv]
    rfl
  | integer i =>
    obtain ⟨fuel, rfl⟩ := exists_fuel h
    rw [read?, untag?_toJson]
    cases i <;> rfl
  | _ =>
    obtain ⟨fuel, rfl⟩ := exists_fuel h
    rw [read?, untag?_toJson]
    rfl

theorem ofJson?_toJson {t : TypeRef} (h : t.toJson.depth ≤ limit) : ofJson? limit t.toJson = some t := by
  rw [ofJson?, if_pos ((plain_toJson t).isReadable_iff.mpr h), read?_toJson false h]

theorem toJson_ne_null (t : TypeRef) : t.toJson ≠ .null := by
  rw [toJson_eq]
  exact Json.noConfusion

end TypeRef

/-! ### Records -/

attribute [simp] Plain.str TypeRef.plain_toJson

@[simp] theorem FlagSet.plain_toJson {names : List String} (a : FlagSet names) : Plain a.toJson := .str _

@[simp] theorem Direction.plain_toJson (d : Direction) : Plain d.toJson := .str _

namespace ParamRecord

theorem plain_toJson (p : ParamRecord) : Plain p.toJson := .record (by simp)

theorem ofJson?_toJson {p : ParamRecord} (h : p.toJson.depth ≤ limit) : ofJson? limit p.toJson = some p := by
  have htype : TypeRef.ofJson? (limit - 1) p.type.toJson = some p.type :=
    TypeRef.ofJson?_toJson (Json.depth_le_of_field "type" (by simp) h)
  rw [ofJson?, toJson, Json.fields?_record (by simp)]
  simp [List.lookup_cons, htype, Direction.ofJson?_toJson]

end ParamRecord

namespace PropertyRecord

theorem plain_toJson (p : PropertyRecord) : Plain p.toJson := .record (by simp)

theorem ofJson?_toJson {p : PropertyRecord} (h : p.toJson.depth ≤ limit) : ofJson? limit p.toJson = some p := by
  have htype : TypeRef.ofJson? (limit - 1) p.type.toJson = some p.type :=
    TypeRef.ofJson?_toJson (Json.depth_le_of_field "type" (by simp) h)
  have hflags := FlagSet.ofJson?_toJson legible_propertyFlags p.flags
  rw [ofJson?, toJson, Json.fields?_record (by simp)]
  simp [List.lookup_cons, htype, hflags]

end PropertyRecord

namespace EnumValue

theorem plain_toJson (v : EnumValue) : Plain v.toJson := by
  have hsize : v.value.toInt.natAbs < UInt64.size := by
    have hlow := v.value.le_toInt
    have hhigh := v.value.toInt_lt
    rw [show UInt64.size = 2 ^ 64 from rfl]
    omega
  exact .record (by simp [Plain.int hsize])

theorem ofJson?_toJson (v : EnumValue) : ofJson? v.toJson = some v := by
  rw [ofJson?, toJson, Json.fields?_record (by simp)]
  simp [List.lookup_cons]

end EnumValue

namespace FunctionRecord

/-- The fields that a function is written with. -/
def fields (f : FunctionRecord) : List (String × Json) :=
  [("name", .str f.name), ("params", .array (f.params.map ParamRecord.toJson))]
    ++ optionalField "return_type" TypeRef.toJson f.returnType ++ [("flags", f.flags.toJson)]

theorem names_fields (f : FunctionRecord) :
    (f.fields.map Prod.fst).Sublist ["name", "params", "return_type", "flags"] := by
  rw [fields, List.map_append, List.map_append]
  exact ((List.Sublist.refl _).append (names_optionalField _ _ _)).append (.refl _)

theorem fields?_toJson (f : FunctionRecord) :
    f.toJson.fields? ["name", "params", "return_type", "flags"] =
      some [some (.str f.name), some (.array (f.params.map ParamRecord.toJson)), f.returnType.map TypeRef.toJson,
        some f.flags.toJson] := by
  rw [toJson, ← fields, Json.fields?_record (f.names_fields.nodup (by decide))]
  simp [fields, List.lookup_cons, List.lookup_append, lookup_optionalField]

theorem plain_toJson (f : FunctionRecord) : Plain f.toJson := by
  have hparams : Plain (.array (f.params.map ParamRecord.toJson)) :=
    .array (List.forall_mem_map.mpr fun p _ => p.plain_toJson)
  refine .record (List.forall_mem_append.mpr ⟨List.forall_mem_append.mpr ⟨by simp [hparams], ?_⟩, by simp⟩)
  exact plain_optionalField fun t _ => t.plain_toJson

theorem ofJson?_toJson {f : FunctionRecord} (h : f.toJson.depth ≤ limit) : ofJson? limit f.toJson = some f := by
  have hparam : ∀ p ∈ f.params, ParamRecord.ofJson? (limit - 2) p.toJson = some p := fun p hp =>
    ParamRecord.ofJson?_toJson (depth_le_of_listed "params" (by simp) hp h)
  have hreturn : ∀ t ∈ f.returnType, TypeRef.ofJson? (limit - 1) t.toJson = some t := fun t ht =>
    TypeRef.ofJson?_toJson (Json.depth_le_of_field "return_type" (by simp [optionalField, Option.mem_def.mp ht]) h)
  have hflags := FlagSet.ofJson?_toJson legible_functionFlags f.flags
  rw [ofJson?, fields?_toJson]
  simp [list?_map hparam, nullable_map TypeRef.toJson_ne_null hreturn, hflags]

end FunctionRecord

namespace TypeRecord

/-- The names of the fields that a type is read from. -/
def fieldNames : List String :=
  ["name", "module", "kind", "native_name", "super_type", "flags", "properties", "functions", "enum_values",
    "underlying_type"]

/-- The fields that a type is written with. -/
def fields (t : TypeRecord) : List (String × Json) :=
  [("name", .str t.name), ("module", .str t.module), ("kind", t.kind.toJson)]
    ++ optionalField "native_name" .str t.nativeName? ++ optionalField "super_type" .str t.superType
    ++ [("flags", t.flags.toJson)] ++ listField "properties" PropertyRecord.toJson t.properties
    ++ listField "functions" FunctionRecord.toJson t.functions
    ++ listField "enum_values" EnumValue.toJson t.enumValues
    ++ optionalField "underlying_type" TypeRef.toJson t.underlyingType?

theorem names_fields (t : TypeRecord) : (t.fields.map Prod.fst).Sublist fieldNames := by
  simp only [fields, List.map_append]
  exact ((((((((List.Sublist.refl _).append (names_optionalField _ _ _)).append (names_optionalField _ _ _)).append
    (.refl _)).append (names_listField _ _ _)).append (names_listField _ _ _)).append (names_listField _ _ _)).append
    (names_optionalField _ _ _))

theorem fields?_toJson (t : TypeRecord) :
    t.toJson.fields? fieldNames =
      some [some (.str t.name), some (.str t.module), some t.kind.toJson, t.nativeName?.map .str, t.superType.map .str,
        some t.flags.toJson, listed PropertyRecord.toJson t.properties, listed FunctionRecord.toJson t.functions,
        listed EnumValue.toJson t.enumValues, t.underlyingType?.map TypeRef.toJson] := by
  rw [toJson, ← fields, Json.fields?_record (t.names_fields.nodup (by decide))]
  simp [fields, fieldNames, List.lookup_cons, List.lookup_append, lookup_optionalField, lookup_listField]

theorem plain_toJson (t : TypeRecord) : Plain t.toJson := by
  have hfields : ∀ f ∈ t.fields, Plain f.2 := by
    simp only [fields, List.forall_mem_append]
    exact ⟨⟨⟨⟨⟨⟨⟨by simp [TypeKind.toJson], plain_optionalField fun _ _ => .str _⟩, plain_optionalField fun _ _ => .str _⟩,
      by simp⟩, plain_listField PropertyRecord.plain_toJson⟩, plain_listField FunctionRecord.plain_toJson⟩,
      plain_listField EnumValue.plain_toJson⟩, plain_optionalField fun u _ => u.plain_toJson⟩
  exact .record hfields

theorem ofJson?_toJson {t : TypeRecord} (h : t.toJson.depth ≤ limit) : ofJson? limit t.toJson = some t := by
  have hproperties : ∀ p ∈ t.properties, PropertyRecord.ofJson? (limit - 2) p.toJson = some p := fun p hp =>
    PropertyRecord.ofJson?_toJson (depth_le_of_listed "properties" (by simp [mem_listField hp]) hp h)
  have hfunctions : ∀ f ∈ t.functions, FunctionRecord.ofJson? (limit - 2) f.toJson = some f := fun f hf =>
    FunctionRecord.ofJson?_toJson (depth_le_of_listed "functions" (by simp [mem_listField hf]) hf h)
  have hunderlying : ∀ u ∈ t.underlyingType?, TypeRef.ofJson? (limit - 1) u.toJson = some u := fun u hu =>
    TypeRef.ofJson?_toJson (Json.depth_le_of_field "underlying_type" (by simp [mem_optionalField hu]) h)
  have htext : ∀ o : Option String, Json.nullable Json.string? (o.map .str) = some o := fun o =>
    nullable_map (fun _ => Json.noConfusion) fun s _ => Json.string?_str s
  have hflags := FlagSet.ofJson?_toJson legible_typeFlags t.flags
  rw [ofJson?, ← fieldNames, fields?_toJson]
  simp [htext, hflags, TypeKind.ofJson?_toJson, defaulted_listed hproperties, defaulted_listed hfunctions,
    defaulted_listed fun v _ => EnumValue.ofJson?_toJson v, nullable_map TypeRef.toJson_ne_null hunderlying]

end TypeRecord

namespace Document

theorem plain_toJson (d : Document) : Plain d.toJson := by
  have htypes : Plain (.array (d.types.map TypeRecord.toJson)) :=
    .array (List.forall_mem_map.mpr fun t _ => t.plain_toJson)
  exact .record (by simp [htypes])

theorem ofJson?_toJson {d : Document} (h : d.toJson.depth ≤ nestingLimit) : ofJson? d.toJson = some d := by
  have htypes : ∀ t ∈ d.types, TypeRecord.ofJson? (nestingLimit - 2) t.toJson = some t := fun t ht =>
    TypeRecord.ofJson?_toJson (depth_le_of_listed "types" (by simp) ht h)
  have hattributes := FlagSet.ofJson?_toJson legible_documentAttributes d.attributes
  rw [ofJson?, toJson, Json.fields?_record (by simp)]
  simp [List.lookup_cons, hattributes, list?_map htypes]

/-- The text of a document is read as that document. -/
theorem ofText?_toText {d : Document} (h : d.toJson.depth ≤ nestingLimit) : ofText? d.toText = some d := by
  rw [ofText?, toText, Json.parse?_toPretty d.plain_toJson, Option.bind_some, ofJson?_toJson h]

end Document

/-! ### Files -/

namespace FileTree
variable {t t' : FileTree} {p : Path} {s : String} {d : Document}

theorem readText_of_entry {l : Location} (hl : t.locate p = .ok l) (hfile : t.entry? l = some (.file s.toUTF8)) :
    t.readText p = .ok s := by
  have hread : t.read p = .ok s.toUTF8 := Outcome.bind_eq_ok.mpr ⟨l, hl, by rw [hfile]; rfl⟩
  exact Outcome.bind_eq_ok.mpr ⟨_, hread, by rw [Utf8.fromUTF8?_toUTF8]; rfl⟩

/-- A text that was written is there to be read. -/
theorem readText_write (h : t.write p s.toUTF8 = (t', .ok ())) : t'.readText p = .ok s := by
  obtain ⟨l, hl, hfile, -⟩ := write_ok h
  exact readText_of_entry hl hfile

/-- A file with the text of a consistent document holds that document. -/
theorem loadDocument_of_text (htext : t.readText p = .ok d.toText) (hvalid : d.validate = .ok ())
    (hdepth : d.toJson.depth ≤ nestingLimit) : t.loadDocument p = .ok d := by
  have hinput : t.readInput p = .ok d.toText := by rw [readInput, htext]
  simp only [loadDocument, hinput, bind, Except.bind, Document.ofText?_toText hdepth, hvalid]
  rfl

/-- A consistent document that was saved is loaded as it was. -/
theorem loadDocument_saved (hvalid : d.validate = .ok ()) (hdepth : d.toJson.depth ≤ nestingLimit)
    (hsaved : t.write p d.toText.toUTF8 = (t', .ok ())) : t'.loadDocument p = .ok d :=
  loadDocument_of_text (readText_write hsaved) hvalid hdepth

/-- A document with flags that have no name, the least number there is, and texts that have to be escaped. -/
def oddDocument : Document where
  engineVersion := "5.4 \"é\" \\ \n"
  attributes := ⟨0x80000001⟩
  types := [
    { TypeRecord.bare "Mode" "Engine" .enumKind with
      flags := ⟨0xF0⟩, enumValues := [⟨"Off", Int64.minValue⟩], underlyingType? := some (.integer .int64) },
    { TypeRecord.bare "Actor" "" .classKind with
      nativeName? := some "\x01|0x", properties := [⟨"Names", .map .name (.array (.enum "Mode")), ⟨6⟩⟩],
      functions := [⟨"Jump", [⟨"height", .double, .inOut⟩], some .bool, ⟨0xFFFFFFFF⟩⟩] }]

theorem loadDocument_saved_odd : oddDocument.validate = .ok () ∧ oddDocument.toJson.depth ≤ nestingLimit ∧
    ∃ t', (FileTree.mk [] [] []).write ⟨"/kept/saved.json"⟩ oddDocument.toText.toUTF8 = (t', .ok ()) ∧
      t'.loadDocument ⟨"/kept/saved.json"⟩ = .ok oddDocument := by
  have hvalid : oddDocument.validate = .ok () := by decide
  have hdepth : oddDocument.toJson.depth ≤ nestingLimit := by decide
  have hsaved : ((FileTree.mk [] [] []).write ⟨"/kept/saved.json"⟩ oddDocument.toText.toUTF8).2 = .ok () := rfl
  exact ⟨hvalid, hdepth, _, Prod.ext rfl hsaved, loadDocument_saved hvalid hdepth (Prod.ext rfl hsaved)⟩

end FileTree

end EngineBridge
