import EngineBridge.Proofs.Host.ForeignLayout
import EngineBridge.Proofs.Memory.Outcomes

/-! Calls by symbol are all or nothing.

All that can be refused is refused before the native function is called: afterwards only storage is loaded that has the
size of its representation, and the bytes of a number that has a size. So a call that fails has called nothing and changed
nothing, and one that ends well has replaced exactly the arguments that go out. -/

namespace EngineBridge
open Outcome
variable {σ τ : Type}

/-! ### What a call hands over -/

namespace NativeParam

/-- How a parameter of a document goes into a call: texts as texts, other values by value, and what goes out by pointer. -/
inductive For (d : Document) (p : ParamRecord) : NativeParam → Prop
  | byValue {r : NativeRepr} (hin : p.direction.writesBack = false) (hrepr : d.nativeRepr p.type = .ok r) :
      For d p (.byValue r)
  | text (hin : p.direction.writesBack = false) (htext : p.type.isText = true) : For d p .text
  | byPointer {r : NativeRepr} (hout : p.direction.writesBack = true) (hrepr : d.nativeRepr p.type = .ok r) :
      For d p (.byPointer r)

/-- What is handed over for a value: its bytes, its characters, or storage that holds it. For no value the storage is
zero. -/
inductive Passes : NativeParam → Value → NativeArgument → Prop
  | byValue {r : NativeRepr} {v : Value} {b : Buffer} (h : (Buffer.write 0 r v).runOn (.zeroed r.size) = (.ok (), b)) :
      Passes (.byValue r) v (.value b)
  | text {v : Value} {s : String} (hs : v.string? = some s) (hzero : s.toList.contains zeroChar = false) :
      Passes .text v (.text (Utf8.encode s))
  | empty {r : NativeRepr} : Passes (.byPointer r) .void (.storage (.zeroed r.size))
  | byPointer {r : NativeRepr} {v : Value} {b : Buffer} (hv : v ≠ .void)
      (h : (Buffer.write 0 r v).runOn (.zeroed r.size) = (.ok (), b)) : Passes (.byPointer r) v (.storage b)

/-- What an argument becomes by a call that answered for what was handed over: what the storage holds then, if there is
any. -/
def Becomes (p : NativeParam) (passed : NativeArgument) (answered : Option NativeArgument) (before after : Value) : Prop :=
  match p, passed with
  | .byPointer r, .storage b =>
    (Buffer.read 0 r).runOn (SymbolReflection.left b answered) = (.ok after, SymbolReflection.left b answered)
  | _, _ => after = before

end NativeParam

/-- A native function, and what it is called with. -/
structure NativeCall (σ : Type) where
  record : FunctionRecord
  target : Symbol σ
  params : List NativeParam
  args : List NativeArgument

namespace NativeCall

/-- What the native function does when it is called, once. -/
def answer (n : NativeCall σ) (world : σ) : NativeAnswer × σ := (n.target.function n.args).run world

/-- The parameters of a function in a call: the receiver, if it has one, and then its own. -/
def Takes (d : Document) (f : FunctionRecord) (params : List NativeParam) : Prop :=
  if f.isStatic then List.Forall₂ (NativeParam.For d) f.params params
  else ∃ own, params = .byValue SymbolReflection.receiver :: own ∧ List.Forall₂ (NativeParam.For d) f.params own

/-- The native call that stands for a call of a function with these arguments. -/
structure Serves (n : NativeCall σ) (s : SymbolReflection σ) (id : FunctionId) (args : List Value) : Prop where
  found : ∃ symbol, s.function? id = some (symbol, n.record) ∧ s.lookup symbol = some n.target
  takes : Takes s.document n.record n.params
  count : args.length = n.params.length
  passes : List.Forall₂ (fun x a => x.1.Passes x.2 a) (n.params.zip args) n.args

/-- The arguments after a call: each has become what its parameter makes of it. -/
structure Replaces (params : List NativeParam) (passed answered : List NativeArgument) (before after : List Value) :
    Prop where
  length : after.length = before.length
  becomes : ∀ (i : Nat) (p : NativeParam) (a : NativeArgument) (v : Value), params[i]? = some p →
    passed[i]? = some a → before[i]? = some v → ∃ v', after[i]? = some v' ∧ p.Becomes a answered[i]? v v'

/-- The world and the arguments after a call of the native function, and what the call gives back. -/
structure Finishes (n : NativeCall σ) (s : SymbolReflection σ) (id : FunctionId) (c c' : CallState σ) (result : Value) :
    Prop where
  world : c'.world = (n.answer c.world).2
  args : Replaces n.params n.args (n.answer c.world).1.arguments c.args c'.args
  result : ∃ ret, SymbolReflection.returned s.document id n.record.returnType = .ok ret ∧
    (SymbolReflection.resultValue ret (n.answer c.world).1.result).runOn c = (.ok result, c)

end NativeCall

namespace SymbolReflection

/-- The same symbols, with something else behind them. -/
def behind (s : SymbolReflection σ) (target : Symbol σ) : SymbolReflection σ :=
  { s with lookup := fun symbol => (s.lookup symbol).map fun _ => target }

/-- A call either fails, whatever stands behind the symbols, and leaves everything as it was, or it calls the native
function and ends with what that left. Once the arguments are prepared it comes to its end, if storage is not larger than
all addresses. -/
structure AllOrNothing (s : SymbolReflection σ) (id : FunctionId) (c : CallState σ) : Prop where
  refused : ∀ e c', (s.call id).runOn c = (.error (.failed e), c') →
    c' = c ∧ ∀ target, ((s.behind target).call id).runOn c = (.error (.failed e), c)
  called : ∀ result c', (s.call id).runOn c = (.ok result, c') →
    ∃ n : NativeCall σ, n.Serves s id c.args ∧ n.Finishes s id c c' result
  completed : ∀ target signature args c', (s.prepare id).runOn c = (.ok (target, signature, args), c') →
    (∀ r, .byPointer r ∈ signature.params → r.size ≤ Buffer.addressLimit) →
    ∃ result c', (s.call id).runOn c = (.ok result, c')

/-! ### Preparing a call -/

theorem stored_outcome (τ : Type) (r : NativeRepr) (v : Value) :
    (∃ stop, ∀ t : τ, (stored r v).runOn t = (.error stop, t)) ∨
      ∃ b, (Buffer.write 0 r v).runOn (.zeroed r.size) = (.ok (), b) ∧ ∀ t : τ, (stored r v).runOn t = (.ok b, t) := by
  rcases hwrite : (Buffer.write 0 r v).runOn (.zeroed r.size) with ⟨(e | _) | _, b⟩
  · refine .inl ⟨.failed (.marshal (.buffer e)), fun t => ?_⟩
    unfold stored
    rw [hwrite]
    rfl
  · refine .inl ⟨.crashed, fun t => ?_⟩
    unfold stored
    rw [hwrite]
    rfl
  · exact .inr ⟨b, rfl, stored_ok hwrite⟩

/-- An argument is handed over or not, and nothing else comes of it. -/
theorem argument_outcome (τ : Type) (index : Nat) (p : NativeParam) (v : Value) :
    (∃ stop, ∀ t : τ, (argument index p v).runOn t = (.error stop, t)) ∨
      ∃ a, p.Passes v a ∧ ∀ t : τ, (argument index p v).runOn t = (.ok a, t) := by
  cases p with
  | byValue r =>
    rcases stored_outcome τ r v with ⟨stop, hstop⟩ | ⟨b, hwrite, hstored⟩
    · exact .inl ⟨stop, fun t => run_bind_of_error (hstop t) _⟩
    · exact .inr ⟨_, .byValue hwrite, argument_byValue hwrite index⟩
  | text =>
    unfold argument
    cases hs : v.string? with
    | none => exact .inl ⟨_, fun _ => rfl⟩
    | some s =>
      dsimp only
      by_cases hzero : s.toList.contains zeroChar = true
      · exact .inl ⟨.failed (.marshal .zeroInText), fun t => by rw [if_pos hzero]; rfl⟩
      · exact .inr ⟨_, .text hs (Bool.not_eq_true _ ▸ hzero), fun t => by rw [if_neg hzero]; rfl⟩
  | byPointer r =>
    by_cases hv : v = .void
    · subst hv
      exact .inr ⟨_, .empty, fun _ => rfl⟩
    · rcases stored_outcome τ r v with ⟨stop, hstop⟩ | ⟨b, hwrite, hstored⟩
      · refine .inl ⟨stop, fun t => ?_⟩
        have hrun := run_bind_of_error (hstop t) fun b => (return .storage b : Action τ HostError NativeArgument)
        cases v with
        | void => exact absurd rfl hv
        | _ => exact hrun
      · exact .inr ⟨_, .byPointer hv hwrite, argument_byPointer hv hwrite index⟩

theorem arguments_outcome (τ : Type) (index : Nat) (ps : List NativeParam) (vs : List Value) :
    (∃ stop, ∀ t : τ, (arguments index ps vs).runOn t = (.error stop, t)) ∨
      ∃ as, List.Forall₂ (fun x a => x.1.Passes x.2 a) (ps.zip vs) as ∧
        ∀ t : τ, (arguments index ps vs).runOn t = (.ok as, t) := by
  induction ps generalizing index vs with
  | nil => exact .inr ⟨[], .nil, fun _ => rfl⟩
  | cons p ps ih =>
    cases vs with
    | nil => exact .inr ⟨[], .nil, fun _ => rfl⟩
    | cons v vs =>
      rcases argument_outcome τ index p v with ⟨stop, hstop⟩ | ⟨a, hpasses, hargument⟩
      · exact .inl ⟨stop, fun t => run_bind_of_error (hstop t) _⟩
      · rcases ih (index + 1) vs with ⟨stop, hstop⟩ | ⟨as, hall, harguments⟩
        · refine .inl ⟨stop, fun t => (run_bind_of_ok (hargument t) _).trans ?_⟩
          exact run_bind_of_error (hstop t) _
        · refine .inr ⟨a :: as, .cons hpasses hall, fun t => (run_bind_of_ok (hargument t) _).trans ?_⟩
          exact run_bind_of_ok (harguments t) _

theorem param_eq_ok {d : Document} {id : FunctionId} {q : ParamRecord} {p : NativeParam} (h : param d id q = .ok p) :
    p.For d q := by
  unfold param at h
  split at h
  · next htext =>
    split at h
    · cases h
    · next hin =>
      cases h
      exact .text (Bool.not_eq_true _ ▸ hin) htext
  · split at h
    · cases h
    · next r hrepr =>
      split at h
      · next hout =>
        cases h
        exact .byPointer hout hrepr
      · next hin =>
        cases h
        exact .byValue (Bool.not_eq_true _ ▸ hin) hrepr

theorem signature_eq_ok {d : Document} {id : FunctionId} {f : FunctionRecord} {g : Signature} (h : signature d id f = .ok g) :
    NativeCall.Takes d f g.params ∧ returned d id f.returnType = .ok g.ret := by
  obtain ⟨params, hparams, h⟩ := bind_eq_ok.mp h
  obtain ⟨ret, hret, h⟩ := bind_eq_ok.mp h
  cases h
  have hown : List.Forall₂ (NativeParam.For d) f.params params := (mapM_eq_ok.mp hparams).imp fun _ _ => param_eq_ok
  refine ⟨?_, hret⟩
  unfold NativeCall.Takes
  split
  · exact hown
  · exact ⟨params, rfl, hown⟩

/-- The arguments for the native function, when it is known how it is called. -/
def gather (id : FunctionId) (g : Signature) : Call σ (List NativeArgument) := do
  Call.checkCount id.display g.params.length
  let args ← arguments 0 g.params (← get).args
  if !g.params.all isCallable then Action.crash
  return args

theorem gather_outcome (id : FunctionId) (g : Signature) (c : CallState σ) :
    (∃ stop, (gather id g).runOn c = (.error stop, c)) ∨
      ∃ args, (gather id g).runOn c = (.ok args, c) ∧ c.args.length = g.params.length ∧
        List.Forall₂ (fun x a => x.1.Passes x.2 a) (g.params.zip c.args) args := by
  unfold gather
  by_cases hcount : c.args.length = g.params.length
  · have hcounted : (Call.checkCount id.display g.params.length : Call σ Unit).runOn c = (.ok (), c) :=
      Call.checkCount_ok hcount
    rcases arguments_outcome (CallState σ) 0 g.params c.args with ⟨stop, hstop⟩ | ⟨args, hpasses, harguments⟩
    · exact .inl ⟨stop, (run_bind_of_ok hcounted _).trans (run_bind_of_error (hstop c) _)⟩
    · by_cases hcallable : g.params.all isCallable = true
      · refine .inr ⟨args, (run_bind_of_ok hcounted _).trans ((run_bind_of_ok (harguments c) _).trans ?_), hcount, hpasses⟩
        simp only [hcallable]
        rfl
      · refine .inl ⟨.crashed, (run_bind_of_ok hcounted _).trans ((run_bind_of_ok (harguments c) _).trans ?_)⟩
        simp only [hcallable]
        rfl
  · exact .inl ⟨_, run_bind_of_error (Call.checkCount_error hcount) _⟩

theorem prepare_of_found {s : SymbolReflection σ} {id : FunctionId} {symbol : String} {f : FunctionRecord} {g : Signature}
    {target : Symbol σ} (hf : s.function? id = some (symbol, f)) (hg : signature s.document id f = .ok g)
    (ht : s.lookup symbol = some target) : s.prepare id = do return (target, g, ← gather id g) := by
  unfold prepare gather
  rw [hf]
  dsimp only
  rw [hg, ht]
  refine (pure_bind g _).trans ?_
  simp only [bind_assoc]
  refine bind_congr fun _ => bind_congr fun _ => bind_congr fun args => ?_
  split
  · rfl
  · rfl

/-- What is done before the native function is called does not depend on the function. -/
theorem prepare_behind (s : SymbolReflection σ) (id : FunctionId) (target : Symbol σ) : (s.behind target).prepare id = do
    let (_, g, args) ← s.prepare id
    return (target, g, args) := by
  have hfunction : (s.behind target).function? id = s.function? id := rfl
  unfold prepare
  rw [hfunction]
  cases s.function? id with
  | none => rfl
  | some found =>
    dsimp only
    rw [bind_assoc]
    refine bind_congr fun g => ?_
    rw [show (s.behind target).lookup found.1 = (s.lookup found.1).map fun _ => target from rfl]
    cases s.lookup found.1 with
    | none => rfl
    | some _ =>
      simp only [bind_assoc]
      refine bind_congr fun _ => bind_congr fun _ => bind_congr fun args => ?_
      split
      · rfl
      · rfl

/-- Preparing a call leaves everything as it is, and gives what the native call is made of. -/
theorem prepare_outcome (s : SymbolReflection σ) (id : FunctionId) (c : CallState σ) :
    (∃ stop, (s.prepare id).runOn c = (.error stop, c)) ∨
      ∃ (n : NativeCall σ) (ret : NativeReturn), (s.prepare id).runOn c = (.ok (n.target, ⟨n.params, ret⟩, n.args), c) ∧
        n.Serves s id c.args ∧ returned s.document id n.record.returnType = .ok ret := by
  cases hf : s.function? id with
  | none =>
    refine .inl ⟨.failed (.unknownFunction id.display), ?_⟩
    unfold prepare
    rw [hf]
    rfl
  | some found =>
    obtain ⟨symbol, f⟩ := found
    cases hg : signature s.document id f with
    | error e =>
      refine .inl ⟨.failed e, ?_⟩
      unfold prepare
      rw [hf]
      dsimp only
      rw [hg]
      rfl
    | ok g =>
      cases ht : s.lookup symbol with
      | none =>
        refine .inl ⟨.failed (.unknownFunction (id.display ++ " (symbol " ++ symbol ++ ")")), ?_⟩
        unfold prepare
        rw [hf]
        dsimp only
        rw [hg, ht]
        rfl
      | some target =>
        rw [prepare_of_found hf hg ht]
        rcases gather_outcome id g c with ⟨stop, hstop⟩ | ⟨args, hargs, hcount, hpasses⟩
        · exact .inl ⟨stop, run_bind_of_error hstop _⟩
        · obtain ⟨htakes, hret⟩ := signature_eq_ok hg
          exact .inr ⟨⟨f, target, g.params, args⟩, g.ret, run_bind_of_ok hargs _,
            ⟨⟨symbol, hf, ht⟩, htakes, hcount, hpasses⟩, hret⟩

/-! ### After the native function -/

section
variable {d : Document}

theorem function?_mem {s : SymbolReflection σ} {id : FunctionId} {symbol : String} {f : FunctionRecord}
    (h : s.function? id = some (symbol, f)) : ∃ owner ∈ s.document.types, f ∈ owner.functions := by
  unfold function? at h
  obtain ⟨owner, howner, h⟩ := Option.bind_eq_some_iff.mp h
  obtain ⟨f', hf, h⟩ := Option.bind_eq_some_iff.mp h
  cases h
  exact ⟨owner, (Document.type?_mem howner).1, List.mem_of_find?_eq_some hf⟩

/-- Storage of the size of a representation holds a value of it, unless it is larger than all addresses. -/
theorem load_outcome (τ : Type) {r : NativeRepr} {b : Buffer} (hr : r.Sound) (hlength : b.length = r.size) :
    (∃ v, (Buffer.read 0 r).runOn b = (.ok v, b) ∧ ∀ t : τ, (b.load 0 r).runOn t = (.ok v, t)) ∨
      Buffer.addressLimit < r.size ∧ ∀ t : τ, (b.load 0 r).runOn t = (.error .crashed, t) := by
  have hplace : 0 + r.size ≤ b.length := by rw [Nat.zero_add, hlength]
  have hproceeds : Buffer.Proceeds (Buffer.read 0 r) b := Buffer.proceeds_read r hr hplace
  rcases hread : (Buffer.read 0 r).runOn b with ⟨(e | _) | v, b'⟩
  · exact absurd (congrArg Prod.fst hread) (hproceeds e)
  · refine .inr ⟨?_, fun t => ?_⟩
    · by_contra hlimit
      rw [← hlength] at hlimit
      obtain ⟨v, hv⟩ := Buffer.loads_read r hr b hplace (Nat.not_lt.mp hlimit)
      rw [hv] at hread
      cases hread
    · unfold Buffer.load
      rw [hread]
      rfl
  · obtain rfl := (Buffer.idle_read r).eq hread
    exact .inl ⟨v, rfl, Buffer.load_ok hread⟩

theorem returned_scalar {id : FunctionId} {type : Option TypeRef} {kind : ScalarKind} {size : Nat}
    (h : returned d id type = .ok (.scalar kind size)) :
    ∃ t align nativeType, type = some t ∧ d.nativeRepr t = .ok (.scalar kind size align nativeType) := by
  cases type with
  | none => cases h
  | some t =>
    unfold returned at h
    dsimp only at h
    split at h
    · cases h
    · split at h
      · cases h
      · cases h
      · cases h
      · next hrepr =>
        cases h
        exact ⟨t, _, _, rfl, hrepr⟩

/-- What a function gives back is never refused. -/
theorem resultValue_ok (hd : d.Consistent) {id : FunctionId} {type : Option TypeRef} (ht : ∀ t, type = some t → d.Resolves t)
    {ret : NativeReturn} (h : returned d id type = .ok ret) (result : NativeResult) :
    ∃ v, ∀ t : τ, (resultValue ret result).runOn t = (.ok v, t) := by
  cases ret with
  | nothing => exact ⟨.void, fun _ => rfl⟩
  | text =>
    unfold resultValue
    split
    · next heq => cases heq
    · exact ⟨_, fun _ => rfl⟩
    · exact ⟨_, fun _ => rfl⟩
    · next heq => cases heq
  | scalar kind size =>
    obtain ⟨type, align, nativeType, htype, hrepr⟩ := returned_scalar h
    have hsize : kind.HasSize size := (hd.nativeRepr_sound (ht type htype) hrepr).scalar
    have hnumber : ∀ bytes, ∃ v, ∀ t : τ, (resultValue (.scalar kind size) (.bytes bytes)).runOn t = (.ok v, t) := by
      intro bytes
      -- The bytes are cut off or filled up to the size of the scalar.
      have hlength : ((Buffer.zeroed size).kept bytes).length = size := Buffer.length_kept.trans (Buffer.length_zeroed _)
      obtain ⟨v, hv⟩ := Buffer.readScalar_ok (hlength.symm ▸ hsize) []
      refine ⟨v, fun t => ?_⟩
      unfold resultValue
      dsimp only
      rw [hv]
      rfl
    cases result with
    | bytes bytes => exact hnumber bytes
    | nothing | text => exact hnumber []

/-- The first argument and the others are replaced. -/
theorem replaces_cons {p : NativeParam} {ps : List NativeParam} {a : NativeArgument} {as answers : List NativeArgument}
    {v v' : Value} {vs vs' : List Value} (h : p.Becomes a answers.head? v v')
    (hs : NativeCall.Replaces ps as answers.tail vs vs') :
    NativeCall.Replaces (p :: ps) (a :: as) answers (v :: vs) (v' :: vs') where
  length := congrArg (· + 1) hs.length
  becomes i q b w hq hb hw := by
    cases i with
    | zero =>
      cases hq
      cases hb
      cases hw
      rw [List.head?_eq_getElem?] at h
      exact ⟨v', rfl, h⟩
    | succ i =>
      have hrest := hs.becomes i q b w hq hb hw
      rw [List.getElem?_tail] at hrest
      exact hrest

theorem length_left {b : Buffer} {answered : Option NativeArgument} : (left b answered).length = b.length := by
  unfold left
  split
  · exact Buffer.length_kept
  · rfl

section
variable {p : NativeParam} {a : NativeArgument} {v : Value} {ps : List NativeParam} {natives : List NativeArgument}
  {args : List Value}

theorem unpack_storage {r : NativeRepr} {b : Buffer} (hr : r.Sound) (hlength : b.length = r.size)
    (answers : List NativeArgument) (world : σ) (done : List Value) :
    (∃ v', NativeParam.Becomes (.byPointer r) (.storage b) answers.head? v v' ∧
        (unpack done.length (.byPointer r :: ps) (.storage b :: natives) answers).runOn ⟨world, done ++ v :: args⟩ =
          (unpack (done.length + 1) ps natives answers.tail).runOn ⟨world, done ++ v' :: args⟩) ∨
      Buffer.addressLimit < r.size ∧
        ∃ c, (unpack done.length (.byPointer r :: ps) (.storage b :: natives) answers).runOn ⟨world, done ++ v :: args⟩ =
          (.error .crashed, c) := by
  rcases load_outcome (CallState σ) hr (length_left.trans hlength : (left b answers.head?).length = r.size) with
    ⟨v', hread, hload⟩ | ⟨hlarge, hload⟩
  · refine .inl ⟨v', hread, (run_bind_of_ok (hload _) _).trans ?_⟩
    have hreplace : (Call.replace done.length v').runOn (⟨world, done ++ v :: args⟩ : CallState σ) =
        (.ok (), ⟨world, done ++ v' :: args⟩) := by
      show (Except.ok (), CallState.mk world ((done ++ v :: args).set done.length v')) = _
      simp
    exact run_bind_of_ok hreplace _
  · exact .inr ⟨hlarge, _, run_bind_of_error (hload _) _⟩

/-- The first argument is replaced if it goes out, unless its storage is larger than all addresses. -/
theorem unpack_first (hsound : ∀ r, p = .byPointer r → r.Sound) (hpasses : p.Passes v a) (answers : List NativeArgument)
    (world : σ) (done : List Value) :
    (∃ v', p.Becomes a answers.head? v v' ∧
        (unpack done.length (p :: ps) (a :: natives) answers).runOn ⟨world, done ++ v :: args⟩ =
          (unpack (done.length + 1) ps natives answers.tail).runOn ⟨world, done ++ v' :: args⟩) ∨
      ∃ r, p = .byPointer r ∧ Buffer.addressLimit < r.size ∧
        ∃ c, (unpack done.length (p :: ps) (a :: natives) answers).runOn ⟨world, done ++ v :: args⟩ =
          (.error .crashed, c) := by
  cases hpasses with
  | byValue | text => exact .inl ⟨v, rfl, rfl⟩
  | empty =>
    exact (unpack_storage (hsound _ rfl) (Buffer.length_zeroed _) answers world done).imp_right fun h => ⟨_, rfl, h⟩
  | byPointer hv hwrite =>
    exact (unpack_storage (hsound _ rfl) (length_of_stored hwrite) answers world done).imp_right fun h => ⟨_, rfl, h⟩

/-- Every argument that goes out is replaced, unless its storage is larger than all addresses. -/
theorem unpack_outcome (hsound : ∀ r, .byPointer r ∈ ps → r.Sound)
    (hpasses : List.Forall₂ (fun x a => x.1.Passes x.2 a) (ps.zip args) natives) (hlength : args.length = ps.length)
    (answers : List NativeArgument) (world : σ) (done : List Value) :
    (∃ args', (unpack done.length ps natives answers).runOn ⟨world, done ++ args⟩ = (.ok (), ⟨world, done ++ args'⟩) ∧
        NativeCall.Replaces ps natives answers args args') ∨
      ∃ r, .byPointer r ∈ ps ∧ Buffer.addressLimit < r.size ∧
        ∃ c, (unpack done.length ps natives answers).runOn ⟨world, done ++ args⟩ = (.error .crashed, c) := by
  induction ps generalizing args natives answers done with
  | nil =>
    obtain rfl := List.length_eq_zero_iff.mp hlength
    exact .inl ⟨[], rfl, rfl, nofun⟩
  | cons p ps ih =>
    obtain ⟨v, args, rfl⟩ := List.exists_of_length_succ _ hlength
    rw [List.zip_cons_cons] at hpasses
    obtain _ | @⟨_, a, _, natives, hfirst, hpasses⟩ := hpasses
    rcases unpack_first (fun r hr => hsound r (hr ▸ List.mem_cons_self)) hfirst answers world done with
      ⟨v', hbecomes, hrun⟩ | ⟨r, rfl, hcrash⟩
    · -- What the first argument has become stands before the others like those in `done`.
      have hrest := ih (fun r hr => hsound r (List.mem_cons_of_mem _ hr)) hpasses (Nat.succ.inj hlength) answers.tail
        (done ++ [v'])
      rw [List.length_append] at hrest
      simp only [List.append_assoc, List.singleton_append] at hrest
      rw [hrun]
      rcases hrest with ⟨args', hok, hreplaces⟩ | ⟨r, hr, hcrash⟩
      · exact .inl ⟨v' :: args', hok, replaces_cons hbecomes hreplaces⟩
      · exact .inr ⟨r, List.mem_cons_of_mem _ hr, hcrash⟩
    · exact .inr ⟨r, List.mem_cons_self, hcrash⟩

end

end

/-! ### Calls -/

/-- The representations of what goes out can be loaded. -/
theorem sound_of_takes {d : Document} (hd : d.Consistent) {owner : TypeRecord} {f : FunctionRecord}
    (howner : owner ∈ d.types) (hf : f ∈ owner.functions) {params : List NativeParam} (h : NativeCall.Takes d f params) :
    ∀ r, .byPointer r ∈ params → r.Sound := by
  have hown : ∀ own, List.Forall₂ (NativeParam.For d) f.params own → ∀ r, .byPointer r ∈ own → r.Sound := by
    intro own hown r hr
    obtain ⟨p, hp, hfor⟩ := Paired.exists_left hown hr
    obtain ⟨_, hrepr⟩ | _ | ⟨-, hrepr⟩ := hfor
    have hp' : p.type ∈ f.types := List.mem_append_left _ (List.mem_map_of_mem hp)
    exact hd.nativeRepr_sound ((hd.accepts owner howner).function hf hp') hrepr
  unfold NativeCall.Takes at h
  split at h
  · exact hown params h
  · obtain ⟨own, rfl, h⟩ := h
    intro r hr
    exact hown own h r (by simpa using hr)

section
variable {s : SymbolReflection σ} {id : FunctionId} {c : CallState σ}

theorem call_refused {stop : Stop HostError} (h : (s.prepare id).runOn c = (.error stop, c)) :
    (s.call id).runOn c = (.error stop, c) ∧ ∀ target, ((s.behind target).call id).runOn c = (.error stop, c) := by
  refine ⟨?_, fun target => ?_⟩
  · rw [call_eq_prepare]
    exact run_bind_of_error h _
  · rw [call_eq_prepare, prepare_behind]
    exact run_bind_of_error (run_bind_of_error h _) _

/-- What was prepared is called, and from then on only storage larger than all addresses stops the call. -/
theorem call_of_prepare (hd : s.document.Consistent) {n : NativeCall σ} {ret : NativeReturn}
    (hprepare : (s.prepare id).runOn c = (.ok (n.target, ⟨n.params, ret⟩, n.args), c)) (hn : n.Serves s id c.args)
    (hret : returned s.document id n.record.returnType = .ok ret) :
    (∃ result c', (s.call id).runOn c = (.ok result, c') ∧ n.Finishes s id c c' result) ∨
      ∃ r, .byPointer r ∈ n.params ∧ Buffer.addressLimit < r.size ∧ ∃ c', (s.call id).runOn c = (.error .crashed, c') := by
  obtain ⟨symbol, hfunction, -⟩ := hn.found
  obtain ⟨owner, howner, hf⟩ := function?_mem hfunction
  have hsound := sound_of_takes hd howner hf hn.takes
  have hresolves : ∀ t, n.record.returnType = some t → s.document.Resolves t := fun t ht =>
    (hd.accepts owner howner).function hf (List.mem_append_right _ (by simp [ht]))
  have houtside : (Call.outside (n.target.function n.args)).runOn c =
      (.ok (n.answer c.world).1, { c with world := (n.answer c.world).2 }) := rfl
  obtain ⟨result, hresult⟩ : ∃ v, ∀ t : CallState σ, (resultValue ret (n.answer c.world).1.result).runOn t = (.ok v, t) :=
    resultValue_ok hd hresolves hret _
  rw [call_eq_prepare]
  rcases unpack_outcome hsound hn.passes hn.count (n.answer c.world).1.arguments (n.answer c.world).2 [] with
    ⟨args', hunpack, hreplaces⟩ | ⟨r, hr, hlarge, c', hcrash⟩
  · refine .inl ⟨result, ⟨(n.answer c.world).2, args'⟩, ?_, rfl, hreplaces, ret, hret, hresult c⟩
    refine (run_bind_of_ok hprepare _).trans ((run_bind_of_ok houtside _).trans ?_)
    exact (run_bind_of_ok (hresult _) _).trans (run_bind_of_ok hunpack _)
  · refine .inr ⟨r, hr, hlarge, c', ?_⟩
    refine (run_bind_of_ok hprepare _).trans ((run_bind_of_ok houtside _).trans ?_)
    exact (run_bind_of_ok (hresult _) _).trans (run_bind_of_error hcrash _)

end

end SymbolReflection

/-- A call of a function of a valid document by its symbol is all or nothing, whatever its arguments are and whatever the
native function does. -/
theorem symbol_calls_all_or_nothing (s : SymbolReflection σ) (hd : s.document.validate = .ok ()) (id : FunctionId)
    (c : CallState σ) : s.AllOrNothing id c := by
  have hconsistent := Document.validate_eq_ok.mp hd
  rcases SymbolReflection.prepare_outcome s id c with ⟨stop, hstop⟩ | ⟨n, ret, hprepare, hn, hret⟩
  · obtain ⟨hcall, hbehind⟩ := SymbolReflection.call_refused hstop
    refine ⟨fun e c' h => ?_, fun result c' h => ?_, fun target signature args c' h => ?_⟩
    · rw [hcall] at h
      cases h
      exact ⟨rfl, hbehind⟩
    · rw [hcall] at h
      cases h
    · rw [hstop] at h
      cases h
  · rcases SymbolReflection.call_of_prepare hconsistent hprepare hn hret with
      ⟨result, c', hcall, hfinishes⟩ | ⟨r, hr, hlarge, c', hcall⟩
    · refine ⟨fun e c' h => ?_, fun result c' h => ?_, fun target signature args _ _ _ => ⟨_, _, hcall⟩⟩
      · rw [hcall] at h
        cases h
      · rw [hcall] at h
        cases h
        exact ⟨n, hn, hfinishes⟩
    · refine ⟨fun e c' h => ?_, fun result c' h => ?_, fun target signature args c' h hsmall => ?_⟩
      · rw [hcall] at h
        cases h
      · rw [hcall] at h
        cases h
      · rw [hprepare] at h
        cases h
        exact absurd (hsmall r hr) (Nat.not_le.mpr hlarge)

namespace FallbackActor

/-- A native function that counts its calls, goes nine steps and arrives by the vector that it gets. -/
def walk : NativeFunction Nat
  | [receiver, .value way, .storage _, .storage _] => do
    modify (· + 1)
    return ⟨.bytes [1], [receiver, .value way, .storage [9, 0, 0, 0], .storage way]⟩
  | args => return ⟨.nothing, args⟩

def walker : SymbolReflection Nat := { source with lookup := fun _ => some ⟨symbol.trampoline, walk⟩ }

/-- A receiver, a vector, a number of steps, and nothing for where the actor arrives. -/
def walking (steps : Value) : List Value := [.handle 16, .struct [.double 1, .double 2], steps, .void]

end FallbackActor

open FallbackActor in
/-- The function that moves is called with a number of steps and not called with a text. -/
theorem symbol_calls_all_or_nothing_move : (∀ c, walker.AllOrNothing ⟨"Actor", "Move"⟩ c) ∧
    (walker.call ⟨"Actor", "Move"⟩).runOn ⟨0, walking (.integer (.ofBits .int32 3))⟩ =
      (.ok (.bool true), ⟨1, [.handle 16, .struct [.double 1, .double 2], .integer (.ofBits .int32 9),
        .struct [.double 1, .double 2]]⟩) ∧
    (walker.call ⟨"Actor", "Move"⟩).runOn ⟨0, walking (.string "three")⟩ =
      (.error (.failed (.marshal (.buffer (.cannotStore "string" "int32")))), ⟨0, walking (.string "three")⟩) := by
  refine ⟨fun c => symbol_calls_all_or_nothing walker rfl ⟨"Actor", "Move"⟩ c, ?_, ?_⟩
  · rfl
  · rfl

end EngineBridge
