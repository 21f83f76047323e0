import EngineBridge.Proofs.Layout.Repr

/-! Frames of functions lie as in C.

A frame is a struct whose fields are the receiver, if there is one, and the parameters. The main statement takes it
together with the representations: `layouts_follow_c`. -/

namespace EngineBridge

/-- The layout of a function's arguments is that of a C struct of its receiver and parameters, and every part of
an argument lies at a multiple of its alignment from the start of the frame. -/
structure FrameLayout.IsCFrame (d : Document) (owner : TypeRecord) (f : FunctionRecord) (l : FrameLayout) : Prop where
  laidOut : LaidOut (l.slots.map FrameSlot.placed) l.size l.align
  size_empty : l.slots = [] → l.size = 0
  align_mem : l.align ∈ [1, 2, 4, 8]
  align_dvd : l.align ∣ l.size
  slots : ∀ s ∈ l.slots, s.repr.IsCLayout d
  place : ∀ s ∈ l.slots, ∀ {k part}, s.repr.Holds k part →
    part.align ∣ s.offset + k ∧ s.offset + k + part.size ≤ l.size
  receiver_iff : l.receiver = true ↔ f.isStatic = false
  receiver_slot : l.slots = if f.isStatic then l.params else FrameLayout.receiverSlot owner :: l.params
  params : List.Forall₂ (fun p s => s.name = p.name ∧ s.direction = p.direction ∧ d.nativeRepr p.type = .ok s.repr)
    f.params l.params
  ret : Option.Rel (fun t r => d.nativeRepr t = .ok r ∧ r.IsCLayout d) f.returnType l.ret

namespace FrameLayout
open NativeRepr Outcome
variable {d : Document} {owner : TypeRecord} {f : FunctionRecord} {l : FrameLayout}

/-- The slot that a parameter becomes at an offset. -/
def slotAt (p : ParamRecord) (r : NativeRepr) (offset : Nat) : FrameSlot := ⟨p.name, offset, p.direction, r⟩

/-- The slots of a function whose parameters have the given representations. -/
def slotPacking (owner : TypeRecord) (f : FunctionRecord) (rs : List NativeRepr) : Packing FrameSlot :=
  Packing.addAll slotAt (start owner f) (f.params.zip rs)

theorem ofFunction_eq_ok : ofFunction d owner f = .ok l ↔ ∃ rs ret,
    List.Forall₂ (fun p r => d.nativeRepr p.type = .ok r) f.params rs ∧
    Option.Rel (fun t r => d.nativeRepr t = .ok r) f.returnType ret ∧
    l = ⟨!f.isStatic, (slotPacking owner f rs).placed,
      alignTo (slotPacking owner f rs).offset (slotPacking owner f rs).align, (slotPacking owner f rs).align, ret⟩ := by
  unfold ofFunction
  constructor
  · intro h
    obtain ⟨packing, hpacking, h⟩ := bind_eq_ok.mp h
    obtain ⟨ret, hret, h⟩ := bind_eq_ok.mp h
    obtain ⟨rs, hrs, rfl⟩ := Packing.foldlM_add_eq_ok.mp hpacking
    cases h
    exact ⟨rs, ret, hrs, option_mapM_eq_ok.mp hret, rfl⟩
  · rintro ⟨rs, ret, hrs, hret, rfl⟩
    refine bind_eq_ok.mpr ⟨_, Packing.foldlM_add_eq_ok.mpr ⟨rs, hrs, rfl⟩, ?_⟩
    exact bind_eq_ok.mpr ⟨ret, option_mapM_eq_ok.mpr hret, rfl⟩

theorem start_sound (owner : TypeRecord) (f : FunctionRecord) : (start owner f).Sound FrameSlot.placed := by
  unfold start
  split
  · exact Packing.sound_empty
  · exact Packing.sound_empty.add (Nat.zero_lt_succ 7) (fun _ => rfl) (fun _ => rfl)

theorem start_placed (owner : TypeRecord) (f : FunctionRecord) :
    (start owner f).placed = if f.isStatic then [] else [receiverSlot owner] := by
  have hzero : alignTo 0 8 = 0 := by decide
  unfold start
  split
  · rfl
  · show [{ receiverSlot owner with offset := alignTo 0 8 }] = _
    rw [hzero]
    rfl

theorem slotPacking_sound (owner : TypeRecord) {R : ParamRecord → NativeRepr → Prop} (hpos : ∀ p r, R p r → 0 < r.align)
    {rs : List NativeRepr} (hrs : List.Forall₂ R f.params rs) :
    (slotPacking owner f rs).Sound FrameSlot.placed ∧
      ∃ slots, (slotPacking owner f rs).placed = (if f.isStatic then [] else [receiverSlot owner]) ++ slots ∧
        List.Forall₂ (fun p s => ∃ r n, R p r ∧ s = slotAt p r n) f.params slots := by
  obtain ⟨hsound, slots, hplaced, hslots⟩ :=
    Packing.addAll_sound FrameSlot.placed slotAt (fun _ _ _ => rfl) (fun _ _ _ => rfl) hpos hrs (start_sound owner f)
  exact ⟨hsound, slots, start_placed owner f ▸ hplaced, hslots⟩

/-! ### The slots as fields of a struct -/

section
variable {rs : List NativeRepr}
  (hrs : List.Forall₂ (fun p r => d.nativeRepr p.type = .ok r ∧ r.IsCLayout d) f.params rs)
include hrs

theorem slotPacking_isCLayout (owner : TypeRecord) :
    ∀ s ∈ (slotPacking owner f rs).placed, s.repr.IsCLayout d := by
  obtain ⟨-, slots, hplaced, hslots⟩ :=
    slotPacking_sound owner (fun _ _ h => (h.2.aligned (.whole _)).align_pos) hrs
  rw [hplaced]
  intro s hs
  rcases List.mem_append.mp hs with hs | hs
  · split at hs
    · cases hs
    · rw [List.mem_singleton] at hs
      subst hs
      exact (aligned_number (by decide)).isCLayout_scalar
  · obtain ⟨-, -, r, n, ⟨-, hr⟩, rfl⟩ := Paired.exists_left hslots hs
    exact hr

theorem slotPacking_aligned (owner : TypeRecord) :
    ∀ p ∈ (slotPacking owner f rs).placed.map FrameSlot.placed, p.repr.Aligned := by
  intro p hp
  obtain ⟨s, hs, rfl⟩ := List.mem_map.mp hp
  exact (slotPacking_isCLayout hrs owner s hs).aligned (.whole _)

theorem slotPacking_laidOut (owner : TypeRecord) :
    LaidOut ((slotPacking owner f rs).placed.map FrameSlot.placed)
        (alignTo (slotPacking owner f rs).offset (slotPacking owner f rs).align) (slotPacking owner f rs).align ∧
      ((slotPacking owner f rs).placed = [] →
        alignTo (slotPacking owner f rs).offset (slotPacking owner f rs).align = 0) := by
  obtain ⟨⟨hpacked, hoffset, halign⟩, -⟩ :=
    slotPacking_sound owner (fun _ _ h => (h.2.aligned (.whole _)).align_pos) hrs
  rw [halign, hoffset]
  have hpos := widest_pos (slotPacking_aligned hrs owner)
  refine ⟨laidOut_of_packed hpacked (alignTo_isNextMultiple _ hpos), fun hnil => ?_⟩
  rw [hnil]
  rfl

end

/-- The parameters of a frame are those of the function, behind the receiver if there is one. -/
theorem params_slots {R : ParamRecord → NativeRepr → Prop} (hpos : ∀ p r, R p r → 0 < r.align) {rs : List NativeRepr}
    (hrs : List.Forall₂ R f.params rs) (hreceiver : l.receiver = !f.isStatic)
    (hslots : l.slots = (slotPacking owner f rs).placed) :
    l.slots = (if f.isStatic then l.params else receiverSlot owner :: l.params) ∧
      List.Forall₂ (fun p s => ∃ r n, R p r ∧ s = slotAt p r n) f.params l.params := by
  obtain ⟨-, slots, hplaced, hall⟩ := slotPacking_sound owner hpos hrs
  have hparams : l.params = slots := by
    unfold params
    rw [hreceiver, hslots, hplaced]
    cases f.isStatic <;> rfl
  rw [hslots, hplaced, hparams]
  refine ⟨?_, hall⟩
  cases f.isStatic <;> rfl

theorem isCFrame_ofFunction (h : ofFunction d owner f = .ok l) : l.IsCFrame d owner f := by
  obtain ⟨rs, ret, hrs, hret, rfl⟩ := ofFunction_eq_ok.mp h
  replace hrs : List.Forall₂ (fun p r => d.nativeRepr p.type = .ok r ∧ r.IsCLayout d) f.params rs :=
    hrs.imp fun _ _ hr => ⟨hr, Document.nativeRepr_isCLayout hr⟩
  obtain ⟨hlaid, hempty⟩ := slotPacking_laidOut hrs owner
  have haligned := slotPacking_aligned hrs owner
  obtain ⟨hslots, hparams⟩ :=
    params_slots (l := ⟨!f.isStatic, (slotPacking owner f rs).placed,
      alignTo (slotPacking owner f rs).offset (slotPacking owner f rs).align, (slotPacking owner f rs).align, ret⟩)
      (fun _ _ h => (h.2.aligned (.whole _)).align_pos) hrs rfl rfl
  refine ⟨hlaid, hempty, ?_, ?_, slotPacking_isCLayout hrs owner, ?_, ?_, hslots, ?_, ?_⟩
  · rw [hlaid.align_eq]
    exact widest_mem haligned
  · exact Nat.dvd_mul_left _ _
  · intro s hs k part hpart
    have hmem : s.placed ∈ (slotPacking owner f rs).placed.map FrameSlot.placed := List.mem_map_of_mem hs
    exact (slotPacking_isCLayout hrs owner s hs).place_from hpart (hlaid.packed.dvd_offset hmem) (hlaid.inside _ hmem)
  · simp
  · refine hparams.imp ?_
    rintro p s ⟨r, n, ⟨hr, -⟩, rfl⟩
    exact ⟨rfl, rfl, hr⟩
  · show Option.Rel _ f.returnType ret
    generalize f.returnType = t at hret
    cases hret with
    | none => exact .none
    | some hr => exact .some ⟨hr, Document.nativeRepr_isCLayout hr⟩

end FrameLayout

/-- Layouts are those of C: of every type that has a representation, at any depth, and of every frame. -/
theorem layouts_follow_c (d : Document) :
    (∀ t r, d.nativeRepr t = .ok r → r.IsCLayout d) ∧
      ∀ owner f l, FrameLayout.ofFunction d owner f = .ok l → l.IsCFrame d owner f :=
  ⟨fun _ _ => Document.nativeRepr_isCLayout, fun _ _ _ => FrameLayout.isCFrame_ofFunction⟩


namespace HitDocument

/-- A struct of three coordinates. -/
def vector : TypeRecord :=
  { TypeRecord.bare "Vector" "Core" .structKind with
    properties := [⟨"X", .double, .empty⟩, ⟨"Y", .double, .empty⟩, ⟨"Z", .double, .empty⟩] }

/-- A struct with a struct between smaller fields. -/
def hit : TypeRecord :=
  { TypeRecord.bare "Hit" "Engine" .structKind with
    properties := [⟨"Blocking", .bool, .empty⟩, ⟨"Location", .struct "Vector", .empty⟩, ⟨"Bone", .name, .empty⟩,
      ⟨"Item", .integer .int16, .empty⟩] }

/-- A function that gives back such a struct beside a truth value. -/
def trace : FunctionRecord where
  name := "Trace"
  params := [⟨"Flag", .bool, .inward⟩, ⟨"Result", .struct "Hit", .outward⟩, ⟨"Count", .integer .int32, .inOut⟩]
  returnType := some .bool
  flags := .empty

def actor : TypeRecord := { TypeRecord.bare "Actor" "Engine" .classKind with functions := [trace] }

/-- A document with a struct in a struct, and a function that takes it. -/
def document : Document := ⟨"5.4", .empty, [vector, hit, actor]⟩

end HitDocument

open HitDocument in
/-- The struct and the frame of the document: a truth value at the front, the inner struct at 8, and padding
behind the last field. -/
theorem layouts_follow_c_hit :
    ∃ r l, document.nativeRepr (.struct "Hit") = .ok r ∧ r.IsCLayout document ∧ r.size = 48 ∧
      FrameLayout.ofFunction document actor trace = .ok l ∧ l.IsCFrame document actor trace ∧
      l.slots.map (·.offset) = [0, 8, 16, 64] :=
  ⟨_, _, rfl, (layouts_follow_c document).1 (.struct "Hit") _ rfl, rfl, rfl,
    (layouts_follow_c document).2 actor trace _ rfl, rfl⟩

end EngineBridge
