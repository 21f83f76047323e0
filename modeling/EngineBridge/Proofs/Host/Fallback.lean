import EngineBridge.Host.Reflection
import EngineBridge.Proofs.Host.Direct
import EngineBridge.Proofs.Layout.Representable
import EngineBridge.Proofs.Memory.Portable
import EngineBridge.Proofs.Model.Invariants

/-! Functions that are called by their symbol where they could have had a trampoline.

Both ways of calling have a part before anything is called: the arguments are counted and stored. What could be stored
in a frame can be stored alone, so that the second way comes as far as the first with the same values; unless the
function gives back a struct or a name, takes a struct without properties by value, or gets for a parameter that only
goes out something that cannot be stored there. -/

namespace EngineBridge
open Outcome
variable {σ τ : Type} {d : Document} {owner : TypeRecord} {f : FunctionRecord} {frame : Buffer} {c : CallState σ}

/-! ### Calls up to the callee -/

namespace DirectInvocable

/-- What is done before the trampoline is called: its frame and the room for what it returns. -/
def prepare (call : DirectInvocable σ) : Call σ (Buffer × Buffer) := do
  Call.checkCount call.id.display call.layout.argCount
  let frame ← call.frame (← get).args
  let ret ← Buffer.allocated call.layout.returnSize
  return (frame, ret)

theorem invoke_eq_prepare (call : DirectInvocable σ) : call.invoke = do
    let (frame, ret) ← call.prepare
    let answer ← Call.outside (call.trampoline frame call.layout.argCount ret)
    if answer.status ≠ 0 then Action.fail (.nativeCallFailed call.id answer.status)
    unpack (frame.kept answer.frame) 0 call.layout.slots
    match call.layout.ret with
    | some r => (ret.kept answer.ret).load 0 r
    | none => return .void := by
  unfold invoke prepare
  simp only [bind_assoc]
  refine bind_congr fun _ => bind_congr fun _ => bind_congr fun frame => bind_congr fun ret => ?_
  rfl

/-- A call that comes to its trampoline has all arguments that go in in its frame. -/
theorem packs_of_prepare {call : DirectInvocable σ} {ret : Buffer} (hsound : call.layout.Sound)
    (h : call.prepare.runOn c = (.ok (frame, ret), c)) :
    c.args.length = call.layout.argCount ∧ call.layout.size ≤ Buffer.sizeLimit ∧ call.layout.Storable c.args ∧
      call.layout.Packs c.args frame := by
  obtain ⟨⟨⟩, c₁, hcounted, h⟩ := runOn_bind_eq_ok.mp h
  have hcount : c.args.length = call.layout.argCount := by
    by_contra hne
    rw [Call.checkCount_error hne] at hcounted
    cases hcounted
  rw [Call.checkCount_ok hcount] at hcounted
  cases hcounted
  obtain ⟨_, _, hget, h⟩ := runOn_bind_eq_ok.mp h
  cases hget
  obtain ⟨frame', c₂, hframe, h⟩ := runOn_bind_eq_ok.mp h
  have hsize : call.layout.size ≤ Buffer.sizeLimit := by
    by_contra hlarge
    rw [frame_crash (Nat.not_le.mp hlarge)] at hframe
    cases hframe
  obtain ⟨outcome, hstores, hpacks⟩ := pack_stores call.id call.layout.slots c.args
    (fun s hs => ⟨hsound.slots s hs, hsound.inside s hs⟩) hsound.disjoint
  cases outcome with
  | error e =>
    rw [frame_error hsize hstores] at hframe
    cases hframe
  | ok m =>
    rw [frame_ok hsize hstores] at hframe
    cases hframe
    obtain ⟨_, _, -, h⟩ := runOn_bind_eq_ok.mp h
    cases h
    exact ⟨hcount, hsize, packs_of_packsAs (Buffer.le_addressLimit hsize) hpacks⟩

end DirectInvocable

namespace SymbolReflection

/-- What is done before a native function is called: the function, how it is called, and its arguments. -/
def prepare (s : SymbolReflection σ) (id : FunctionId) : Call σ (Symbol σ × Signature × List NativeArgument) := do
  match s.function? id with
  | none => Action.fail (.unknownFunction id.display)
  | some (symbol, f) =>
    let signature ← Action.ofExcept (signature s.document id f)
    match s.lookup symbol with
    | none => Action.fail (.unknownFunction (id.display ++ " (symbol " ++ symbol ++ ")"))
    | some target =>
      Call.checkCount id.display signature.params.length
      let args ← arguments 0 signature.params (← get).args
      if !signature.params.all isCallable then Action.crash
      return (target, signature, args)

theorem call_eq_prepare (s : SymbolReflection σ) (id : FunctionId) : s.call id = do
    let (target, signature, args) ← s.prepare id
    let answer ← Call.outside (target.function args)
    let result ← resultValue signature.ret answer.result
    unpack 0 signature.params args answer.arguments
    return result := by
  unfold call prepare
  cases s.function? id with
  | none => rfl
  | some x =>
    dsimp only
    rw [bind_assoc]
    refine bind_congr fun signature => ?_
    cases s.lookup x.1 with
    | none => rfl
    | some target =>
      simp only [bind_assoc]
      refine bind_congr fun _ => bind_congr fun _ => bind_congr fun args => ?_
      split
      · rfl
      · rfl

/-! ### Arguments -/

/-- How the parameter of a slot goes into a native call. -/
def paramOf (s : FrameSlot) : NativeParam := if s.direction.writesBack then .byPointer s.repr else .byValue s.repr

end SymbolReflection

/-- The native argument stands for the slot of a frame: it holds the same bytes, if the slot's argument goes in, and
can be written to if it goes out. -/
def FrameSlot.Passes (frame : Buffer) (s : FrameSlot) (a : NativeArgument) : Prop :=
  match s.direction with
  | .inward => a = .value (frame.slice s.offset s.repr.size)
  | .inOut => a = .storage (frame.slice s.offset s.repr.size)
  | .outward => ∃ b, a = .storage b ∧ b.length = s.repr.size

namespace SymbolReflection
open FrameSlot (Passes)

theorem stored_ok {r : NativeRepr} {v : Value} {b : Buffer} (h : (Buffer.write 0 r v).runOn (.zeroed r.size) = (.ok (), b))
    (t : τ) : (stored r v).runOn t = (.ok b, t) := by
  unfold stored
  rw [h]
  rfl

theorem argument_byValue {r : NativeRepr} {v : Value} {b : Buffer}
    (h : (Buffer.write 0 r v).runOn (.zeroed r.size) = (.ok (), b)) (index : Nat) (t : τ) :
    (argument index (.byValue r) v).runOn t = (.ok (.value b), t) :=
  run_bind_of_ok (stored_ok h t) _

theorem argument_byPointer {r : NativeRepr} {v : Value} {b : Buffer} (hv : v ≠ .void)
    (h : (Buffer.write 0 r v).runOn (.zeroed r.size) = (.ok (), b)) (index : Nat) (t : τ) :
    (argument index (.byPointer r) v).runOn t = (.ok (.storage b), t) := by
  have hstored := run_bind_of_ok (stored_ok h t) fun b => (return .storage b : Action τ HostError NativeArgument)
  cases v with
  | void => exact absurd rfl hv
  | _ => exact hstored

/-- A handle is stored alike whatever it is to. -/
theorem write_receiver {nativeType : String} {v : Value} {b b' : Buffer} {offset : Nat}
    (h : (Buffer.write offset (.handle nativeType) v).runOn b = (.ok (), b')) :
    (Buffer.write offset receiver v).runOn b = (.ok (), b') := by
  unfold NativeRepr.handle NativeRepr.number at h
  unfold receiver NativeRepr.number
  rw [Buffer.write] at h ⊢
  cases v with
  | handle address => exact h
  | _ =>
    obtain ⟨_, _, -, h⟩ := runOn_bind_eq_ok.mp h
    cases h

theorem length_of_write {r : NativeRepr} {v : Value} (hr : r.Sound) (hlimit : r.size ≤ Buffer.addressLimit)
    (h : ((Buffer.write 0 r v).runOn (.zeroed r.size)).1 = .ok ()) :
    ∃ b, (Buffer.write 0 r v).runOn (.zeroed r.size) = (.ok (), b) ∧ b.length = r.size := by
  have hwrite : Buffer.StoresOn (Buffer.write 0 r v) (0 + r.size) (r.Covers 0) := Buffer.storesOn_write r v hr
  obtain ⟨outcome, hstores, -⟩ := hwrite
  rw [Nat.zero_add] at hstores
  cases outcome with
  | error e =>
    obtain ⟨b, hb⟩ := hstores.zeroed_error hlimit
    rw [hb] at h
    cases h
  | ok m => exact ⟨_, hstores.zeroed_ok hlimit, by rw [Buffer.length_marked, Buffer.length_zeroed]⟩

/-- The parameter takes the value, and what it makes of it stands for the slot. -/
def Serves (frame : Buffer) (p : NativeParam) (x : FrameSlot × Value) : Prop :=
  ∃ a, x.1.Passes frame a ∧ ∀ {τ : Type} (index : Nat) (t : τ), (argument index p x.2).runOn t = (.ok a, t)

theorem arguments_of_serves {ps : List NativeParam} {xs : List (FrameSlot × Value)}
    (h : List.Forall₂ (Serves frame) ps xs) (index : Nat) (t : τ) :
    ∃ as, (arguments index ps (xs.map (·.2))).runOn t = (.ok as, t) ∧
      List.Forall₂ (fun x a => x.1.Passes frame a) xs as := by
  induction h generalizing index with
  | nil => exact ⟨[], rfl, .nil⟩
  | @cons p x ps xs hfirst _ ih =>
    obtain ⟨a, hpasses, hrun⟩ := hfirst
    obtain ⟨as, hruns, hall⟩ := ih (index + 1)
    exact ⟨a :: as, (run_bind_of_ok (hrun index t) _).trans (run_bind_of_ok hruns _), .cons hpasses hall⟩

/-- The argument of a parameter that only goes out can be passed by pointer. -/
def Fits (x : FrameSlot × Value) : Prop :=
  x.1.direction = .outward → x.2 = .void ∨ ((Buffer.write 0 x.1.repr x.2).runOn (.zeroed x.1.repr.size)).1 = .ok ()

section
variable {l : FrameLayout} {args : List Value} {x : FrameSlot × Value} (hsound : l.Sound)
  (hlimit : l.size ≤ Buffer.addressLimit) (hstorable : l.Storable args) (hpacks : l.Packs args frame)
  (hx : x ∈ l.slots.zip args)
include hsound hlimit hstorable hpacks hx

/-- An argument that is in the frame is stored alone with the bytes of its slot. -/
theorem write_of_packs (hin : x.1.direction.takesIn = true) :
    (Buffer.write 0 x.1.repr x.2).runOn (.zeroed x.1.repr.size) = (.ok (), frame.slice x.1.offset x.1.repr.size) := by
  have hincoming : x ∈ FrameLayout.incoming l.slots args := List.mem_filter.mpr ⟨hx, hin⟩
  have hslot : x.1 ∈ l.slots := (List.of_mem_zip hx).1
  rw [hpacks.slots x hincoming]
  exact Buffer.write_alone (hsound.slots _ hslot) (hsound.inside _ hslot) hlimit (hstorable x hincoming)

theorem serves_paramOf (hfits : Fits x) : Serves frame (paramOf x.1) x := by
  have hstores := write_of_packs hsound hlimit hstorable hpacks hx
  obtain ⟨⟨name, offset, direction, r⟩, v⟩ := x
  cases direction with
  | inward => exact ⟨_, rfl, argument_byValue (hstores rfl)⟩
  | inOut =>
    refine ⟨_, rfl, argument_byPointer (fun hvoid => ?_) (hstores rfl)⟩
    dsimp only at hvoid hstores
    have hwritten := congrArg Prod.fst (hstores rfl)
    rw [hvoid] at hwritten
    exact Buffer.write_void hwritten
  | outward =>
    rcases hfits rfl with rfl | hwritten
    · exact ⟨.storage (.zeroed r.size), ⟨_, rfl, Buffer.length_zeroed _⟩, fun _ _ => rfl⟩
    · have hslot := (List.of_mem_zip hx).1
      obtain ⟨b, hb, hlength⟩ := length_of_write (hsound.slots _ hslot)
        (Nat.le_trans (Nat.le_trans (Nat.le_add_left _ _) (hsound.inside _ hslot)) hlimit) hwritten
      exact ⟨.storage b, ⟨b, rfl, hlength⟩, argument_byPointer (fun hvoid => Buffer.write_void (hvoid ▸ hwritten)) hb⟩

/-- The receiver goes into the call as its handle. -/
theorem serves_receiver (hreceiver : x.1 = FrameLayout.receiverSlot owner) : Serves frame (.byValue receiver) x := by
  have hstores := write_of_packs hsound hlimit hstorable hpacks hx
  rw [hreceiver] at hstores
  refine ⟨_, ?_, argument_byValue (write_receiver (hstores rfl))⟩
  rw [hreceiver]
  rfl

end

/-! ### Signatures -/

section
variable {id : FunctionId} {l : FrameLayout}

theorem isText_of_repr {t : TypeRef} {r : NativeRepr} (h : d.nativeRepr t = .ok r) : t.isText = false := by
  have hnative := Document.reprWithin_native h
  cases t with
  | string | text => cases hnative
  | _ => rfl

theorem param_of_slot {p : ParamRecord} {s : FrameSlot} (hdirection : s.direction = p.direction)
    (hrepr : d.nativeRepr p.type = .ok s.repr) : param d id p = .ok (paramOf s) := by
  unfold param paramOf
  rw [isText_of_repr hrepr, hrepr, hdirection]
  rfl

theorem nativeRepr_scalar {t : TypeRef} {r : NativeRepr} (h : d.nativeRepr t = .ok r) (hname : t ≠ .name)
    (hstruct : ∀ n, t ≠ .struct n) : ∃ kind size align nativeType, r = .scalar kind size align nativeType ∧ kind ≠ .name := by
  obtain ⟨fuel, hfuel⟩ := Document.exists_nativeRepr_eq d
  rw [hfuel] at h
  cases t with
  | name => exact absurd rfl hname
  | struct n => exact absurd rfl (hstruct n)
  | object type =>
    obtain ⟨record, -, rfl⟩ := Document.reprWithin_object.mp h
    exact ⟨_, _, _, _, rfl, by decide⟩
  | enum type =>
    obtain ⟨record, -, underlying, -, rfl⟩ := Document.reprWithin_enum.mp h
    exact ⟨_, _, _, _, rfl, fun heq => nomatch heq⟩
  | bool | integer | float | double | classOf =>
    cases h
    exact ⟨_, _, _, _, rfl, fun heq => nomatch heq⟩
  | string | text | softObject | array | set | map | delegate => cases h

theorem returned_ok {t : Option TypeRef} {r : Option NativeRepr}
    (h : Option.Rel (fun t r => d.nativeRepr t = .ok r ∧ r.IsCLayout d) t r)
    (hreturn : ∀ u, t = some u → u ≠ .name ∧ ∀ n, u ≠ .struct n) : ∃ ret, returned d id t = .ok ret := by
  cases h with
  | none => exact ⟨_, rfl⟩
  | @some u r hret =>
    obtain ⟨hrepr, -⟩ := hret
    obtain ⟨hname, hstruct⟩ := hreturn u rfl
    obtain ⟨kind, size, align, nativeType, rfl, hkind⟩ := nativeRepr_scalar hrepr hname hstruct
    unfold returned
    simp only [isText_of_repr hrepr, hrepr]
    cases kind with
    | name => exact absurd rfl hkind
    | _ => exact ⟨_, rfl⟩

/-- The parameters of a native call: one for each slot of the frame. -/
def paramsOf (f : FunctionRecord) (l : FrameLayout) : List NativeParam :=
  (if f.isStatic then [] else [.byValue receiver]) ++ l.params.map paramOf

theorem signature_of_frame (hframe : l.IsCFrame d owner f)
    (hreturn : ∀ t, f.returnType = some t → t ≠ .name ∧ ∀ n, t ≠ .struct n) :
    ∃ ret, signature d id f = .ok ⟨paramsOf f l, ret⟩ := by
  have hparams : f.params.mapM (param d id) = .ok (l.params.map paramOf) :=
    mapM_eq_ok.mpr (List.forall₂_map_right_iff.mpr (hframe.params.imp fun p s h => param_of_slot h.2.1 h.2.2))
  obtain ⟨ret, hret⟩ : ∃ ret, returned d id f.returnType = .ok ret := returned_ok hframe.ret hreturn
  exact ⟨ret, bind_eq_ok.mpr ⟨_, hparams, bind_eq_ok.mpr ⟨_, hret, rfl⟩⟩⟩

end

/-! ### Types of native calls -/

theorem fieldsExtent?_isSome {fields : List (Placed NativeRepr)} (e : ForeignType.Extent)
    (h : ∀ p ∈ fields, p.repr.foreignType.isCallable = true) :
    (ForeignType.fieldsExtent? e (NativeRepr.foreignTypes fields)).isSome = true := by
  induction fields generalizing e with
  | nil => rfl
  | cons p fields ih =>
    rw [List.forall_mem_cons] at h
    obtain ⟨g, hg⟩ := Option.isSome_iff_exists.mp h.1
    rw [NativeRepr.foreignTypes, ForeignType.fieldsExtent?, hg]
    exact ih _ h.2

theorem isCallable_record {fields : List (Placed NativeRepr)} (hne : fields ≠ [])
    (h : ∀ p ∈ fields, p.repr.foreignType.isCallable = true) :
    (ForeignType.record (NativeRepr.foreignTypes fields)).isCallable = true := by
  obtain ⟨p, fields, rfl⟩ := List.exists_cons_of_ne_nil hne
  have hfields := fieldsExtent?_isSome ⟨0, 1⟩ h
  unfold ForeignType.isCallable
  rw [NativeRepr.foreignTypes] at hfields ⊢
  rw [ForeignType.extent?, Option.isSome_map]
  exact hfields

theorem isCallable_scalar {kind : ScalarKind} {size align : Nat} {nativeType : String} :
    (NativeRepr.scalar kind size align nativeType).foreignType.isCallable = true := by
  rw [NativeRepr.foreignType]
  cases kind with
  | float =>
    unfold NativeRepr.scalarForeignType
    dsimp only
    split
    · rfl
    · rfl
  | _ => rfl

/-- A type in which every struct has properties can be passed by value. -/
theorem isCallable_of_repr {t : TypeRef} {r : NativeRepr} {fuel : Nat} {inside : List String}
    (hfuel : fuel ≤ (d.types.length + 1) * (d.types.length + 2)) (h : d.reprWithin fuel inside t = .ok r)
    (hfields : ∀ n, d.Reaches t (.struct n) → ∃ u, d.HasField n u) : r.foreignType.isCallable = true := by
  induction fuel generalizing inside t r with
  | zero => cases h
  | succ fuel ih =>
    have hfuel' : fuel ≤ (d.types.length + 1) * (d.types.length + 2) := Nat.le_of_succ_le hfuel
    cases t with
    | struct n =>
      obtain ⟨record, fields, _, _, hrecord, rfl, hmade⟩ := Document.reprWithin_fields hfuel' h
      rw [NativeRepr.foreignType]
      refine isCallable_record (fun hnil => ?_) fun p hp => ?_
      · obtain ⟨u, record', hrecord', q, hq, -⟩ := hfields n .self
        obtain rfl := Option.some.inj (hrecord.symm.trans hrecord')
        obtain ⟨p, hp, -⟩ := Paired.exists_right hmade hq
        rw [hnil] at hp
        cases hp
      · obtain ⟨q, hq, r, offset, hr, rfl⟩ := Paired.exists_left hmade hp
        have hfield : d.HasField n q.type := ⟨record, hrecord, q, hq, rfl⟩
        exact ih hfuel' hr fun m hm => hfields m (hfield.reaches.trans hm)
    | object type =>
      obtain ⟨record, -, rfl⟩ := Document.reprWithin_object.mp h
      exact isCallable_scalar
    | enum type =>
      obtain ⟨record, -, underlying, -, rfl⟩ := Document.reprWithin_enum.mp h
      exact isCallable_scalar
    | bool | integer | float | double | name | classOf =>
      cases h
      exact isCallable_scalar
    | string | text | softObject | array | set | map | delegate => cases h

theorem isCallable_params {l : FrameLayout} (hframe : l.IsCFrame d owner f)
    (hfields : ∀ p ∈ f.params, p.direction = .inward → ∀ n, d.Reaches p.type (.struct n) → ∃ u, d.HasField n u) :
    (paramsOf f l).all isCallable = true := by
  unfold paramsOf
  rw [List.all_append, Bool.and_eq_true]
  refine ⟨?_, ?_⟩
  · split
    · rfl
    · rfl
  · rw [List.all_map, List.all_eq_true]
    intro s hs
    obtain ⟨p, hp, -, hdirection, hrepr⟩ := Paired.exists_left hframe.params hs
    unfold Function.comp paramOf
    cases hs' : s.direction with
    | inward =>
      exact isCallable_of_repr (Nat.le_refl _) hrepr (hfields p hp (hdirection.symm.trans hs'))
    | outward | inOut => rfl

/-! ### Calls by symbol -/

theorem function?_of_mem (hd : d.Consistent) (howner : owner ∈ d.types) (hf : f ∈ owner.functions)
    {s : SymbolReflection σ} (hs : s.document = d) : ∃ symbol, s.function? ⟨owner.name, f.name⟩ = some (symbol, f) := by
  have hfunction : owner.function? f.name = some f := by
    obtain ⟨g, hg⟩ : ∃ g, owner.function? f.name = some g := by
      rw [TypeRecord.function?, ← Option.isSome_iff_exists, List.find?_isSome]
      exact ⟨f, hf, beq_self_eq_true _⟩
    have hname : g.name = f.name := by simpa using List.find?_some hg
    rw [hg, (hd.accepts owner howner).eq_of_name (List.mem_of_find?_eq_some hg) hf hname]
  unfold function?
  simp only [hs, Document.type?_of_mem hd.names howner, Option.bind_eq_bind, Option.bind_some, hfunction]
  exact ⟨_, rfl⟩

theorem forall₂_map_zip {α β γ : Type} {R : γ → α × β → Prop} {g : α → γ} {xs : List α} {ys : List β}
    (hlength : ys.length = xs.length) (h : ∀ x ∈ xs.zip ys, R (g x.1) x) : List.Forall₂ R (xs.map g) (xs.zip ys) := by
  have hfirst : (xs.zip ys).map (·.1) = xs := List.map_fst_zip (Nat.le_of_eq hlength.symm)
  have hmap : xs.map g = (xs.zip ys).map fun x => g x.1 := by
    conv_lhs => rw [← hfirst]
    exact List.map_map
  rw [hmap, List.forall₂_map_left_iff, List.forall₂_same]
  exact h

/-- Every parameter takes the argument of its slot. -/
theorem serves_params {l : FrameLayout} {args : List Value} (hsound : l.Sound) (hframe : l.IsCFrame d owner f)
    (hlimit : l.size ≤ Buffer.addressLimit) (hcount : args.length = l.argCount) (hstorable : l.Storable args)
    (hpacks : l.Packs args frame) (hfits : ∀ x ∈ l.slots.zip args, Fits x) :
    List.Forall₂ (Serves frame) (paramsOf f l) (l.slots.zip args) := by
  have hserves : ∀ x ∈ l.slots.zip args, Serves frame (paramOf x.1) x := fun x hx =>
    serves_paramOf hsound hlimit hstorable hpacks hx (hfits x hx)
  have hreceiver : ∀ x ∈ l.slots.zip args, x.1 = FrameLayout.receiverSlot owner → Serves frame (.byValue receiver) x :=
    fun x hx => serves_receiver hsound hlimit hstorable hpacks hx
  have hslots := hframe.receiver_slot
  unfold FrameLayout.argCount at hcount
  unfold paramsOf
  split at hslots
  · next hstatic =>
    rw [if_pos hstatic, List.nil_append]
    rw [hslots] at hserves hcount ⊢
    exact forall₂_map_zip hcount hserves
  · next hstatic =>
    rw [if_neg hstatic]
    rw [hslots] at hserves hreceiver hcount ⊢
    obtain ⟨v, args, rfl⟩ := List.exists_of_length_succ _ hcount
    rw [List.zip_cons_cons, List.forall_mem_cons] at hserves hreceiver
    exact .cons (hreceiver.1 rfl) (forall₂_map_zip (Nat.succ.inj hcount) hserves.2)

/-- Where a direct call comes to its trampoline, a call by symbol comes to the native function, with the same receiver
and the same values of all parameters that go in: if the function gives back neither a struct nor a name, no struct
without properties lies in a parameter that only goes in, and what is passed for a parameter that only goes out can be
kept there. -/
theorem prepare_of_direct (hd : d.validate = .ok ()) (howner : owner ∈ d.types) (hf : f ∈ owner.functions)
    {call : DirectInvocable σ} (hid : call.id = ⟨owner.name, f.name⟩)
    (hlayout : FrameLayout.ofFunction d owner f = .ok call.layout) {s : SymbolReflection σ} (hs : s.document = d)
    (hpresent : s.reflection.contains call.id = true)
    (hreturn : ∀ t, f.returnType = some t → t ≠ .name ∧ ∀ n, t ≠ .struct n)
    (hfields : ∀ p ∈ f.params, p.direction = .inward → ∀ n, d.Reaches p.type (.struct n) → ∃ u, d.HasField n u)
    (hfits : ∀ x ∈ call.layout.slots.zip c.args, Fits x) {ret : Buffer}
    (hreached : call.prepare.runOn c = (.ok (frame, ret), c)) :
    ∃ target signature args, (s.prepare call.id).runOn c = (.ok (target, signature, args), c) ∧
      List.Forall₂ (Passes frame) call.layout.slots args := by
  have hconsistent := Document.validate_eq_ok.mp hd
  have hframe := FrameLayout.isCFrame_ofFunction hlayout
  have hsound := FrameLayout.sound_ofFunction hconsistent howner hf hlayout
  obtain ⟨hcount, hsize, hstorable, hpacks⟩ := DirectInvocable.packs_of_prepare hsound hreached
  obtain ⟨symbol, hfunction⟩ := function?_of_mem hconsistent howner hf hs
  rw [← hid] at hfunction
  obtain ⟨target, htarget⟩ : ∃ target, s.lookup symbol = some target := by
    unfold reflection at hpresent
    dsimp only at hpresent
    rw [hfunction] at hpresent
    exact Option.isSome_iff_exists.mp hpresent
  obtain ⟨ret, hsignature⟩ : ∃ ret, signature d call.id f = .ok ⟨paramsOf f call.layout, ret⟩ :=
    signature_of_frame hframe hreturn
  have hserves := serves_params hsound hframe (Buffer.le_addressLimit hsize) hcount hstorable hpacks hfits
  have hparams : c.args.length = (paramsOf f call.layout).length := by
    rw [hserves.length_eq, List.length_zip, hcount]
    exact (Nat.min_self _).symm
  have hsecond : (call.layout.slots.zip c.args).map (·.2) = c.args := List.map_snd_zip (Nat.le_of_eq hcount)
  have hfirst : (call.layout.slots.zip c.args).map (·.1) = call.layout.slots := List.map_fst_zip (Nat.le_of_eq hcount.symm)
  obtain ⟨args, harguments, hpass⟩ := arguments_of_serves hserves 0 c
  rw [hsecond] at harguments
  refine ⟨target, ⟨paramsOf f call.layout, ret⟩, args, ?_, ?_⟩
  · unfold prepare
    rw [hfunction]
    dsimp only
    rw [hs, hsignature, htarget]
    refine (run_bind_of_ok (Call.checkCount_ok hparams) _).trans ?_
    refine (run_bind_of_ok harguments _).trans ?_
    simp only [isCallable_params hframe hfields]
    rfl
  · rw [← hfirst]
    exact List.forall₂_map_left_iff.mpr hpass

end SymbolReflection

/-! ### An actor's functions -/

namespace FallbackActor

def vector : TypeRecord :=
  { TypeRecord.bare "Vector" "Core" .structKind with properties := [⟨"X", .double, .empty⟩, ⟨"Y", .double, .empty⟩] }

/-- A struct without properties. -/
def marker : TypeRecord := TypeRecord.bare "Marker" "Core" .structKind

def move : FunctionRecord where
  name := "Move"
  params := [⟨"By", .struct "Vector", .inward⟩, ⟨"Steps", .integer .int32, .inOut⟩, ⟨"Reached", .struct "Vector", .outward⟩]
  returnType := some .bool
  flags := .empty

/-- Gives back a name. -/
def rename : FunctionRecord := ⟨"Rename", [⟨"Old", .name, .inward⟩], some .name, FunctionFlags.static⟩

/-- Takes the struct without properties. -/
def mark : FunctionRecord := ⟨"Mark", [⟨"At", .struct "Marker", .inward⟩], none, FunctionFlags.static⟩

/-- Gives a number through a parameter. -/
def count : FunctionRecord := ⟨"Count", [⟨"Result", .integer .int32, .outward⟩], none, FunctionFlags.static⟩

def actor : TypeRecord :=
  { TypeRecord.bare "Actor" "Engine" .classKind with functions := [move, rename, mark, count] }

def document : Document := ⟨"5.4", .empty, [vector, marker, actor]⟩

/-- What stands behind every symbol counts how often it is called. -/
def symbol : Symbol Nat where
  trampoline frame _ ret := do
    modify (· + 1)
    return ⟨0, frame, ret⟩
  function args := do
    modify (· + 1)
    return ⟨.nothing, args⟩

def source : SymbolReflection Nat := ⟨document, fun _ => some symbol, []⟩

/-- A receiver, and one argument for each parameter of the function that moves. -/
def given : List Value := [.handle 16, .struct [.double 0, .double 0], .integer (.ofBits .int32 3), .void]

theorem reaches_vector {u : TypeRef} (h : document.Reaches (.struct "Vector") u) : u = .struct "Vector" ∨ u = .double := by
  induction h with
  | self => exact .inl rfl
  | field _ hfield ih =>
    rcases ih with heq | heq
    · cases heq
      obtain ⟨record, hrecord, p, hp, rfl⟩ := hfield
      cases hrecord
      simp only [vector, List.mem_cons, List.not_mem_nil, or_false] at hp
      rcases hp with rfl | rfl
      · exact .inr rfl
      · exact .inr rfl
    · cases heq

open SymbolReflection in
/-- The function that moves is called by its symbol with the receiver, the struct and the number of the frame. -/
theorem prepare_of_direct_move : ∃ (call : DirectInvocable Nat) (frame ret : Buffer),
    FrameLayout.ofFunction document actor move = .ok call.layout ∧
      call.prepare.runOn ⟨0, given⟩ = (.ok (frame, ret), ⟨0, given⟩) ∧
      ∃ target signature args, (source.prepare ⟨"Actor", "Move"⟩).runOn ⟨0, given⟩ =
        (.ok (target, signature, args), ⟨0, given⟩) ∧ List.Forall₂ (FrameSlot.Passes frame) call.layout.slots args := by
  obtain ⟨call, hid, hlayout, houtward, frame, ret, hreached⟩ : ∃ call : DirectInvocable Nat,
      call.id = ⟨"Actor", "Move"⟩ ∧ FrameLayout.ofFunction document actor move = .ok call.layout ∧
        (∀ x ∈ call.layout.slots.zip given, x.1.direction = .outward → x.2 = .void) ∧
        ∃ frame ret, call.prepare.runOn ⟨0, given⟩ = (.ok (frame, ret), ⟨0, given⟩) := by
    refine ⟨⟨⟨"Actor", "Move"⟩, "", _, symbol.trampoline⟩, rfl, rfl, fun x hx hout => ?_, _, _, rfl⟩
    change x ∈ [_, _, _, _] at hx
    simp only [List.mem_cons, List.not_mem_nil, or_false] at hx
    rcases hx with rfl | rfl | rfl | rfl
    · cases hout
    · cases hout
    · cases hout
    · rfl
  refine ⟨call, frame, ret, hlayout, hreached, ?_⟩
  rw [← hid]
  have hvalid : document.validate = .ok () := rfl
  have howner : actor ∈ document.types := by decide
  have hmove : move ∈ actor.functions := by decide
  refine prepare_of_direct hvalid howner hmove hid hlayout rfl
    (by rw [hid]; rfl) (fun t ht => ?returned) (fun p hp hinward n hn => ?fields)
    (fun x hx hout => .inl (houtward x hx hout)) hreached
  case returned =>
    cases ht
    exact ⟨by decide, fun n => by simp⟩
  case fields =>
    simp only [move, List.mem_cons, List.not_mem_nil, or_false] at hp
    rcases hp with rfl | rfl | rfl
    · rcases reaches_vector hn with heq | heq
      · cases heq
        exact ⟨.double, vector, rfl, _, List.mem_cons_self, rfl⟩
      · cases heq
    · cases hinward
    · cases hinward

/-- The function's symbol is there and a direct call comes to the trampoline, but a call by symbol does not come to the
native function. -/
def Strands (f : FunctionRecord) (args : List Value) : Prop :=
  ∃ call : DirectInvocable Nat, call.id = ⟨"Actor", f.name⟩ ∧
    FrameLayout.ofFunction document actor f = .ok call.layout ∧ source.reflection.contains call.id = true ∧
    (∃ x, call.prepare.runOn ⟨0, args⟩ = (.ok x, ⟨0, args⟩)) ∧
    ∀ x c, (source.prepare call.id).runOn ⟨0, args⟩ ≠ (.ok x, c)

/-- What the call by symbol does not come through: a name that is given back, a struct without properties that is passed
by value, and a text where a number is going to be put. -/
theorem fallback_strands : document.validate = .ok () ∧ Strands rename [.name 7 9] ∧ Strands mark [.struct []] ∧
    Strands count [.string "many"] := by
  refine ⟨rfl, ?_, ?_, ?_⟩
  · exact ⟨⟨_, "", _, symbol.trampoline⟩, rfl, rfl, rfl, ⟨_, rfl⟩, fun _ _ h => nomatch h⟩
  · exact ⟨⟨_, "", _, symbol.trampoline⟩, rfl, rfl, rfl, ⟨_, rfl⟩, fun _ _ h => nomatch h⟩
  · exact ⟨⟨_, "", _, symbol.trampoline⟩, rfl, rfl, rfl, ⟨_, rfl⟩, fun _ _ h => nomatch h⟩

end FallbackActor
end EngineBridge
