import EngineBridge.Proofs.Host.Index
import Mathlib.Data.List.Induction
import Mathlib.Data.String.Basic

/-! Hosts side by side.

Hosts draw the numbers of their lives from one sequence, and bindings may be carried from one to another. A binding is
good only for the host that gave it out, and only as long as that host is ready; what it calls was settled by the index
with which the host was started. -/

namespace EngineBridge
open Outcome

/-! ### The order of functions -/

namespace FunctionId
variable {a b c : FunctionId}

/-- The first stands before the second: by type, and then by name. -/
def Before (a b : FunctionId) : Prop := a.type < b.type ∨ a.type = b.type ∧ a.function < b.function

theorem le_iff : a.le b = true ↔ a.Before b ∨ a = b := by
  obtain ⟨type, function⟩ := a
  obtain ⟨type', function'⟩ := b
  simp only [le, Before, Bool.or_eq_true, Bool.and_eq_true, decide_eq_true_eq, beq_iff_eq, mk.injEq]
  tauto

theorem Before.trans (hab : a.Before b) (hbc : b.Before c) : a.Before c := by
  rcases hab with hab | ⟨hab, hab'⟩ <;> rcases hbc with hbc | ⟨hbc, hbc'⟩
  · exact .inl (hab.trans hbc)
  · exact .inl (hbc ▸ hab)
  · exact .inl (hab ▸ hbc)
  · exact .inr ⟨hab.trans hbc, hab'.trans hbc'⟩

theorem le_trans (a b c : FunctionId) (hab : a.le b = true) (hbc : b.le c = true) : a.le c = true := by
  rw [le_iff] at hab hbc ⊢
  rcases hab with hab | rfl
  · rcases hbc with hbc | rfl
    · exact .inl (hab.trans hbc)
    · exact .inl hab
  · exact hbc

theorem le_total (a b : FunctionId) : (a.le b || b.le a) = true := by
  rw [Bool.or_eq_true, le_iff, le_iff]
  rcases lt_trichotomy a.type b.type with htype | htype | htype
  · exact .inl (.inl (.inl htype))
  · rcases lt_trichotomy a.function b.function with hname | hname | hname
    · exact .inl (.inl (.inr ⟨htype, hname⟩))
    · exact .inl (.inr (by cases a; cases b; cases htype; cases hname; rfl))
    · exact .inr (.inl (.inr ⟨htype.symm, hname⟩))
  · exact .inr (.inl (.inl htype))

theorem mem_sorted {ids : List FunctionId} : a ∈ sorted ids ↔ a ∈ ids := by
  rw [sorted, List.mem_mergeSort, List.mem_eraseDups]

/-- Functions in their order stand strictly one before the other. -/
theorem pairwise_sorted (ids : List FunctionId) : (sorted ids).Pairwise Before := by
  have hle : (sorted ids).Pairwise fun a b => a.le b = true := List.pairwise_mergeSort le_trans le_total _
  have hne : (sorted ids).Pairwise fun a b => a ≠ b := (List.mergeSort_perm _ _).nodup_iff.mpr (Labelled.nodup_eraseDups _)
  exact hle.imp₂ (fun a b hle hne => (le_iff.mp hle).resolve_right hne) hne

end FunctionId

/-! ### The table of trampolines -/

namespace Launch
variable {σ β ρ : Type} {source : TrampolineSource σ} {entries : List TrampolineEntry} {id : FunctionId}
  {d : DirectInvocable σ}

/-- Of the entries of the function whose trampolines are there, this is the last, and that its trampoline. -/
structure Chosen (source : TrampolineSource σ) (entries : List TrampolineEntry) (id : FunctionId) (e : TrampolineEntry)
    (f : Trampoline σ) : Prop where
  function : e.id = id
  found : source e.symbol = some f
  last : ∃ before after, entries = before ++ e :: after ∧ ∀ e' ∈ after, e'.id = id → source e'.symbol = none

theorem Chosen.concat {e : TrampolineEntry} {f : Trampoline σ} (h : Chosen source entries id e f) {e' : TrampolineEntry}
    (he : e'.id = id → source e'.symbol = none) : Chosen source (entries ++ [e']) id e f := by
  obtain ⟨hfunction, hfound, before, after, rfl, hlast⟩ := h
  refine ⟨hfunction, hfound, before, after ++ [e'], by simp, fun x hx => ?_⟩
  rcases List.mem_append.mp hx with hx | hx
  · exact hlast x hx
  · rw [List.mem_singleton.mp hx]
    exact he

theorem table_concat (entries : List TrampolineEntry) (e : TrampolineEntry) : table source (entries ++ [e]) =
    ((source e.symbol).map fun f => (e.id, .ofEntry e f)).toList ++ table source entries := by
  unfold table
  rw [List.filterMap_append, List.reverse_append]
  cases h : source e.symbol <;> simp [h]

/-- In the table is the last entry of a function whose trampoline is there. -/
theorem chosen_of_lookup (h : (table source entries).lookup id = some d) :
    ∃ e f, Chosen source entries id e f ∧ d = .ofEntry e f := by
  induction entries using List.reverseRecOn with
  | nil => cases h
  | append_singleton entries e ih =>
    rw [table_concat] at h
    cases hfound : source e.symbol with
    | none =>
      rw [hfound] at h
      obtain ⟨e', f, hchosen, rfl⟩ := ih h
      exact ⟨e', f, hchosen.concat fun _ => hfound, rfl⟩
    | some f =>
      rw [hfound, Option.map_some, Option.toList_some, List.singleton_append, List.lookup_cons] at h
      split at h
      · next heq =>
        cases h
        exact ⟨e, f, ⟨(beq_iff_eq.mp heq).symm, hfound, entries, [], rfl, List.forall_mem_nil _⟩, rfl⟩
      · next hne =>
        obtain ⟨e', f', hchosen, rfl⟩ := ih h
        refine ⟨e', f', hchosen.concat fun hid => ?_, rfl⟩
        rw [hid, beq_self_eq_true] at hne
        cases hne

theorem lookup_isSome_iff :
    ((table source entries).lookup id).isSome ↔ ∃ e ∈ entries, e.id = id ∧ (source e.symbol).isSome := by
  rw [List.lookup_isSome_iff]
  simp only [table, List.mem_reverse, List.mem_filterMap, Option.map_eq_some_iff]
  constructor
  · rintro ⟨_, ⟨e, he, f, hf, rfl⟩, hid⟩
    exact ⟨e, he, (beq_iff_eq.mp hid).symm, by rw [hf]; rfl⟩
  · rintro ⟨e, he, rfl, hsome⟩
    obtain ⟨f, hf⟩ := Option.isSome_iff_exists.mp hsome
    exact ⟨_, ⟨e, he, f, hf, rfl⟩, beq_self_eq_true _⟩

end Launch

/-! ### Operations -/

/-- What is done with hosts. Sources of functions may change from call to call. -/
inductive HostsOperation (ι σ β ρ : Type)
  | start (i : ι) (s : Surroundings σ) (l : Launch σ β ρ)
  | bind (i : ι) (id : FunctionId)
  /-- Takes a binding to any host. The number says how many were given out before it. -/
  | invoke (i : ι) (n : Nat) (sources : ρ → Reflection σ) (args : List Value)
  | shutdown (i : ι)

/-- A binding with the host that gave it out and the function that was asked for. -/
structure Grant (ι σ ρ : Type) where
  giver : ι
  id : FunctionId
  binding : Binding σ ρ

/-- Hosts, and the bindings that they gave out so far. -/
structure HostsRun (ι σ β ρ : Type) where
  hosts : Hosts ι σ β ρ
  grants : List (Grant ι σ ρ)

namespace Hosts
variable {ι σ β ρ ε α : Type} [DecidableEq ι]

/-- One of the hosts by itself. -/
def part (h : Hosts ι σ β ρ) (i : ι) : Setting σ β ρ := ⟨h.world, h.host i, h.nextGeneration⟩

/-- The hosts after something was done with one of them. -/
def put (h : Hosts ι σ β ρ) (i : ι) (t : Setting σ β ρ) : Hosts ι σ β ρ :=
  ⟨t.world, fun j => if j = i then t.host else h.host j, t.nextGeneration⟩

theorem runOn_on (h : Hosts ι σ β ρ) (i : ι) (a : Action (Setting σ β ρ) ε α) :
    ((on i a).runOn h).2 = h.put i (a.runOn (h.part i)).2 := rfl

end Hosts

namespace HostsRun
variable {ι σ β ρ : Type} [DecidableEq ι]

def act (run : HostsRun ι σ β ρ) : HostsOperation ι σ β ρ → HostsRun ι σ β ρ
  | .start i s l => { run with hosts := ((Hosts.on i (Setting.start s l)).runOn run.hosts).2 }
  | .bind i id =>
    match (run.hosts.host i).bind id with
    | .ok binding => { run with grants := run.grants ++ [⟨i, id, binding⟩] }
    | .error _ => run
  | .invoke i n sources args =>
    match run.grants[n]? with
    | some g =>
      let call := (run.hosts.host i).invoke sources g.binding
      { run with hosts := { run.hosts with world := (call.runOn ⟨run.hosts.world, args⟩).2.world } }
    | none => run
  | .shutdown i => { run with hosts := ((Hosts.on i Setting.shutdown).runOn run.hosts).2 }

/-- New hosts with which this was done. -/
def after (world : σ) (ops : List (HostsOperation ι σ β ρ)) : HostsRun ι σ β ρ := ops.foldl act ⟨Hosts.fresh world, []⟩

theorem after_concat (world : σ) (ops : List (HostsOperation ι σ β ρ)) (op : HostsOperation ι σ β ρ) :
    after world (ops ++ [op]) = (after world ops).act op := List.foldl_concat ..

end HostsRun

/-! ### What an operation makes of a host -/

namespace Setting
variable {σ β ρ : Type}

/-- An operation leaves a host as it is, ends its life or keeps it from having one, or begins its life. -/
inductive Moves (P : Runtime σ β ρ → Prop) (t t' : Setting σ β ρ) : Prop
  | stays (host : t'.host = t.host) (next : t'.nextGeneration = t.nextGeneration)
  | idles (ready : t'.host.state ≠ .ready) (begun : t'.host.state ≠ .uninitialized)
    (next : t'.nextGeneration = t.nextGeneration)
  | rises (r : Runtime σ β ρ) (fresh : t.host = .uninitialized) (host : t'.host = .ready t.nextGeneration r)
    (next : t'.nextGeneration = t.nextGeneration + 1) (brought : P r)

/-- The runtime is one that this start can bring. -/
def Brings (s : Surroundings σ) (l : Launch σ β ρ) (r : Runtime σ β ρ) : Prop :=
  ∃ source entries, l.source s = .ok source ∧ l.entries s = .ok entries ∧ r.reflection = l.reflection ∧
    r.direct = Launch.table source entries

theorem moves_start (s : Surroundings σ) (l : Launch σ β ρ) (t : Setting σ β ρ) :
    Moves (fun r => t.host = .uninitialized ∧ Brings s l r) t ((start s l).runOn t).2 := by
  by_cases ht : t.host.state = .uninitialized
  · have hfresh := Host.eq_uninitialized ht
    rw [start_fresh hfresh, runOn_finishStart]
    rcases hload : (l.load s).runOn ((t.moved t.world .loading).world, l.fresh) with ⟨(e | _) | direct, world, state⟩
    · exact .idles (by rintro ⟨⟩) (by rintro ⟨⟩) rfl
    · exact .idles (by rintro ⟨⟩) (by rintro ⟨⟩) rfl
    · obtain ⟨source, entries, hsource, hentries, rfl⟩ := Launch.table_of_load hload
      exact .rises _ hfresh rfl rfl ⟨hfresh, source, entries, hsource, hentries, rfl, rfl⟩
  · rw [start_refused ht]
    exact .stays rfl rfl

theorem moves_shutdown (t : Setting σ β ρ) : Moves (fun _ => False) t (shutdown.runOn t).2 := by
  by_cases hready : t.host.state = .ready
  · obtain ⟨n, r, ht⟩ := Host.eq_ready hready
    rw [shutdown_ready ht, runOn_finishShutdown]
    split
    · exact .idles (by rintro ⟨⟩) (by rintro ⟨⟩) rfl
    · exact .idles (by rintro ⟨⟩) (by rintro ⟨⟩) rfl
  by_cases hfailed : t.host.state = .failed
  · obtain ⟨reason, ht⟩ := Host.eq_failed hfailed
    rw [shutdown_failed ht]
    exact .idles (by rintro ⟨⟩) (by rintro ⟨⟩) rfl
  rw [shutdown_refused hready hfailed]
  exact .stays rfl rfl

end Setting

/-! ### What holds of hosts side by side -/

namespace HostsRun
variable {ι σ β ρ : Type} [DecidableEq ι] {world : σ} {ops : List (HostsOperation ι σ β ρ)} {run : HostsRun ι σ β ρ}
  {i j : ι} {n : Nat} {r : Runtime σ β ρ}

/-- The runtime came with the first start of the host. -/
def Origin (world : σ) (ops : List (HostsOperation ι σ β ρ)) (i : ι) (r : Runtime σ β ρ) : Prop :=
  ∃ before s l rest, ops = before ++ .start i s l :: rest ∧ (after world before).hosts.host i = .uninitialized ∧
    Setting.Brings s l r

theorem Origin.concat (h : Origin world ops i r) (op : HostsOperation ι σ β ρ) : Origin world (ops ++ [op]) i r := by
  obtain ⟨before, s, l, rest, rfl, horigin⟩ := h
  exact ⟨before, s, l, rest ++ [op], by simp, horigin⟩

/-- No number of a life is used twice, and bindings have the numbers of the lives in which they were given out. -/
structure Valid (world : σ) (ops : List (HostsOperation ι σ β ρ)) (run : HostsRun ι σ β ρ) : Prop where
  numbered : ∀ i n r, run.hosts.host i = .ready n r → n < run.hosts.nextGeneration
  apart : ∀ i j n r r', run.hosts.host i = .ready n r → run.hosts.host j = .ready n r' → i = j
  origin : ∀ i n r, run.hosts.host i = .ready n r → Origin world ops i r
  begun : ∀ g ∈ run.grants, (run.hosts.host g.giver).state ≠ .uninitialized
  past : ∀ g ∈ run.grants, g.binding.generation < run.hosts.nextGeneration
  own : ∀ g ∈ run.grants, ∀ i r, run.hosts.host i = .ready g.binding.generation r → g.giver = i
  bound : ∀ g ∈ run.grants, ∀ n r, run.hosts.host g.giver = .ready n r → g.binding = ⟨n, r.target g.id⟩

theorem valid_fresh : Valid world [] (⟨Hosts.fresh world, []⟩ : HostsRun ι σ β ρ) where
  numbered := by rintro i n r ⟨⟩
  apart := by rintro i j n r r' ⟨⟩
  origin := by rintro i n r ⟨⟩
  begun := List.forall_mem_nil _
  past := List.forall_mem_nil _
  own := List.forall_mem_nil _
  bound := List.forall_mem_nil _

section
variable {P : Runtime σ β ρ → Prop} {h : Hosts ι σ β ρ} {t : Setting σ β ρ}

theorem next_le (hmoves : Setting.Moves P (h.part i) t) : h.nextGeneration ≤ (h.put i t).nextGeneration := by
  cases hmoves with
  | stays _ next => exact next.ge
  | idles _ _ next => exact next.ge
  | rises _ _ _ next _ => exact (Nat.le_succ _).trans next.ge

theorem begun_put (hmoves : Setting.Moves P (h.part i) t) (hj : (h.host j).state ≠ .uninitialized) :
    ((h.put i t).host j).state ≠ .uninitialized := by
  unfold Hosts.put
  dsimp only
  split
  case isFalse => exact hj
  case isTrue heq =>
    subst heq
    cases hmoves with
    | stays host _ => rwa [host]
    | idles _ begun _ => exact begun
    | rises _ _ host _ _ =>
      rw [host]
      rintro ⟨⟩

/-- A host that is ready was so before, or its life begins with the next number. -/
theorem ready_put (hmoves : Setting.Moves P (h.part i) t) (hready : (h.put i t).host j = .ready n r) :
    h.host j = .ready n r ∨
      (j = i ∧ h.host i = .uninitialized ∧ n = h.nextGeneration ∧ n < (h.put i t).nextGeneration ∧ P r) := by
  unfold Hosts.put at hready
  dsimp only at hready
  split at hready
  case isFalse => exact .inl hready
  case isTrue heq =>
    subst heq
    cases hmoves with
    | stays host _ => exact .inl (host.symm.trans hready)
    | idles hidle _ _ => exact absurd (congrArg Host.state hready) hidle
    | rises r' fresh host next brought =>
      cases host.symm.trans hready
      exact .inr ⟨rfl, fresh, rfl, (Nat.lt_succ_self _).trans_eq next.symm, brought⟩

end

/-- An operation on one host keeps all hosts apart. -/
theorem Valid.put (h : Valid world ops run) {ops' : List (HostsOperation ι σ β ρ)}
    {P : Runtime σ β ρ → Prop} {t : Setting σ β ρ} (hmoves : Setting.Moves P (run.hosts.part i) t)
    (hkept : ∀ j r, Origin world ops j r → Origin world ops' j r) (hbrought : ∀ r, P r → Origin world ops' i r) :
    Valid world ops' { run with hosts := run.hosts.put i t } where
  numbered j n r hready := by
    rcases ready_put hmoves hready with hready | ⟨-, -, -, hn, -⟩
    · exact (h.numbered j n r hready).trans_le (next_le hmoves)
    · exact hn
  apart j k n r r' hj hk := by
    -- A host that becomes ready gets a number that none has had.
    rcases ready_put hmoves hj with hj | ⟨hj, -, hn, -, -⟩ <;> rcases ready_put hmoves hk with hk | ⟨hk, -, hn', -, -⟩
    · exact h.apart j k n r r' hj hk
    · exact absurd hn' (h.numbered j n r hj).ne
    · exact absurd hn (h.numbered k n r' hk).ne
    · exact hj.trans hk.symm
  origin j n r hready := by
    rcases ready_put hmoves hready with hready | ⟨rfl, -, -, -, hr⟩
    · exact hkept j r (h.origin j n r hready)
    · exact hbrought r hr
  begun g hg := begun_put hmoves (h.begun g hg)
  past g hg := (h.past g hg).trans_le (next_le hmoves)
  own g hg j r hready := by
    rcases ready_put hmoves hready with hready | ⟨-, -, hn, -, -⟩
    · exact h.own g hg j r hready
    · exact absurd hn (h.past g hg).ne
  bound g hg n r hready := by
    rcases ready_put hmoves hready with hready | ⟨hgiver, hfresh, -, -, -⟩
    · exact h.bound g hg n r hready
    · exact absurd (congrArg Host.state (hgiver ▸ hfresh)) (h.begun g hg)

theorem Valid.mono (h : Valid world ops run) (op : HostsOperation ι σ β ρ) : Valid world (ops ++ [op]) run :=
  { h with origin := fun i n r hready => (h.origin i n r hready).concat op }

theorem bind_eq_ok {h : Host σ β ρ} {id : FunctionId} {b : Binding σ ρ} (hbind : h.bind id = .ok b) :
    ∃ n r, h = .ready n r ∧ b = ⟨n, r.target id⟩ := by
  cases h with
  | ready n r =>
    cases hbind
    exact ⟨n, r, rfl, rfl⟩
  | _ => cases hbind

theorem Valid.grant (h : Valid world ops run) {id : FunctionId} {b : Binding σ ρ}
    (hbind : (run.hosts.host i).bind id = .ok b) : Valid world ops { run with grants := run.grants ++ [⟨i, id, b⟩] } := by
  obtain ⟨n, r, hready, rfl⟩ := bind_eq_ok hbind
  have hgrants : ∀ {Q : Grant ι σ ρ → Prop}, (∀ g ∈ run.grants, Q g) → Q ⟨i, id, ⟨n, r.target id⟩⟩ →
      ∀ g ∈ run.grants ++ [⟨i, id, ⟨n, r.target id⟩⟩], Q g := by
    intro Q hold hnew g hg
    rcases List.mem_append.mp hg with hg | hg
    · exact hold g hg
    · rw [List.mem_singleton.mp hg]
      exact hnew
  refine { h with begun := hgrants h.begun ?_, past := hgrants h.past ?_, own := hgrants h.own ?_, bound := hgrants h.bound ?_ }
  · show (run.hosts.host i).state ≠ .uninitialized
    rw [hready]
    rintro ⟨⟩
  · exact h.numbered i n r hready
  · exact fun j r' hj => h.apart i j n r r' hready hj
  · intro n' r' hready'
    cases hready.symm.trans hready'
    rfl

/-- What one operation keeps. -/
theorem valid_act (h : Valid world ops (after world ops)) (op : HostsOperation ι σ β ρ) :
    Valid world (ops ++ [op]) ((after world ops).act op) := by
  cases op with
  | start i s l =>
    refine h.put (Setting.moves_start s l _) (fun j r horigin => horigin.concat _) fun r hr => ?_
    exact ⟨ops, s, l, [], rfl, hr.1, hr.2⟩
  | shutdown i => exact h.put (Setting.moves_shutdown _) (fun j r horigin => horigin.concat _) fun r hr => hr.elim
  | bind i id =>
    dsimp only [act]
    split
    · next hbind => exact (h.grant hbind).mono _
    · exact h.mono _
  | invoke i n sources args =>
    dsimp only [act]
    split
    · exact { h.mono _ with }
    · exact h.mono _

theorem valid_after (world : σ) (ops : List (HostsOperation ι σ β ρ)) : Valid world ops (after world ops) := by
  induction ops using List.reverseRecOn with
  | nil => exact valid_fresh
  | append_singleton ops op ih =>
    rw [after_concat]
    exact valid_act ih op

end HostsRun

/-! ### Bindings -/

namespace Host
variable {σ β ρ : Type} {h : Host σ β ρ}

/-- What a host answers to calls that it does not take. -/
def refusal : Host σ β ρ → HostError
  | failed reason => .unavailable reason
  | _ => .notInitialized

theorem invoke_ready (n : Nat) (r : Runtime σ β ρ) (sources : ρ → Reflection σ) (b : Binding σ ρ) :
    (ready n r).invoke sources b = if b.generation = n then b.target.invoke sources else Action.fail .notInitialized := by
  unfold invoke
  dsimp only [running, Action.ofExcept]
  rw [pure_bind]
  by_cases hb : b.generation = n
  · rw [if_pos hb]
    simp only [ne_eq, hb, not_true_eq_false, if_false]
  · rw [if_neg hb]
    simp only [ne_eq, hb, not_false_eq_true, if_true]
    rfl

theorem invoke_refused (hstate : h.state ≠ .ready) (sources : ρ → Reflection σ) (b : Binding σ ρ) :
    h.invoke sources b = Action.fail h.refusal := by
  cases h with
  | ready n r => exact absurd rfl hstate
  | _ => rfl

/-- How a host that is ready goes by the index and the sources that it was started with. -/
structure Follows (source : TrampolineSource σ) (entries : List TrampolineEntry) (reflection : ρ) (h : Host σ β ρ) :
    Prop where
  bound : ∀ id, ∃ b, h.bind id = .ok b ∧
    (b.target.isDirect = true ↔ ∃ e ∈ entries, e.id = id ∧ (source e.symbol).isSome) ∧
    (b.target.isDirect = true →
      ∃ e f, Launch.Chosen source entries id e f ∧ b.target = .direct ⟨id, e.symbol, e.layout, f⟩) ∧
    (b.target.isDirect = false → ∀ sources, b.target.invoke sources = (sources reflection).call id)
  sorted : h.directFunctions.Pairwise FunctionId.Before
  listed : ∀ id, id ∈ h.directFunctions ↔ ∃ b, h.bind id = .ok b ∧ b.target.isDirect = true

theorem isDirect_target {r : Runtime σ β ρ} {id : FunctionId} :
    (r.target id).isDirect = (r.direct.lookup id).isSome := by
  unfold Runtime.target
  cases r.direct.lookup id <;> rfl

theorem mem_directFunctions {r : Runtime σ β ρ} {id : FunctionId} :
    id ∈ r.directFunctions ↔ (r.direct.lookup id).isSome := by
  unfold Runtime.directFunctions
  rw [FunctionId.mem_sorted, List.lookup_isSome_iff, List.mem_map]
  exact exists_congr fun p => and_congr_right fun _ => by rw [beq_iff_eq, eq_comm]

theorem follows_of_table {r : Runtime σ β ρ} {source : TrampolineSource σ} {entries : List TrampolineEntry}
    (hdirect : r.direct = Launch.table source entries) (n : Nat) :
    (ready n r).Follows source entries r.reflection where
  bound id := by
    refine ⟨⟨n, r.target id⟩, rfl, ?_, fun h => ?_, fun h sources => ?_⟩
    · rw [isDirect_target, hdirect]
      exact Launch.lookup_isSome_iff
    · rw [isDirect_target] at h
      obtain ⟨d, hd⟩ := Option.isSome_iff_exists.mp h
      obtain ⟨e, f, hchosen, rfl⟩ := Launch.chosen_of_lookup (hdirect ▸ hd)
      refine ⟨e, f, hchosen, ?_⟩
      rw [Runtime.target, hd, ← hchosen.function]
      rfl
    · rw [isDirect_target, Option.isSome_eq_false_iff, Option.isNone_iff_eq_none] at h
      dsimp only
      rw [Runtime.target, h]
      rfl
  sorted := FunctionId.pairwise_sorted _
  listed id := by
    refine mem_directFunctions.trans ⟨fun h => ⟨⟨n, r.target id⟩, rfl, isDirect_target.trans h⟩, ?_⟩
    rintro ⟨b, hb, hdirect⟩
    cases hb
    exact isDirect_target.symm.trans hdirect

end Host

/-- The host gave the binding out, and its life goes on. -/
def Grant.Holds {ι σ β ρ : Type} (g : Grant ι σ ρ) (hosts : Hosts ι σ β ρ) (i : ι) : Prop :=
  g.giver = i ∧ (hosts.host i).state = .ready

/-- A binding runs only through the host that gave it out, in the life in which it was given out: any other host, and
the same host later, refuse it before anything runs. In its life, a host binds functions by the index with which it was
started. -/
theorem bindings_are_capabilities {ι σ β ρ : Type} [DecidableEq ι] (world : σ) (ops : List (HostsOperation ι σ β ρ)) :
    let run := HostsRun.after world ops
    (∀ g ∈ run.grants, ∀ i, g.Holds run.hosts i → (run.hosts.host i).bind g.id = .ok g.binding ∧
      ∀ sources, (run.hosts.host i).invoke sources g.binding = g.binding.target.invoke sources) ∧
    (∀ g ∈ run.grants, ∀ i, ¬ g.Holds run.hosts i →
      ∀ sources, (run.hosts.host i).invoke sources g.binding = Action.fail (run.hosts.host i).refusal) ∧
    ∀ i, (run.hosts.host i).state = .ready → ∃ before s l rest source entries,
      ops = before ++ .start i s l :: rest ∧ (HostsRun.after world before).hosts.host i = .uninitialized ∧
        l.source s = .ok source ∧ l.entries s = .ok entries ∧
        (run.hosts.host i).Follows source entries l.reflection := by
  intro run
  have hvalid : HostsRun.Valid world ops run := HostsRun.valid_after world ops
  refine ⟨?_, ?_, ?_⟩
  · rintro g hg i ⟨rfl, hstate⟩
    obtain ⟨n, r, hready⟩ := Host.eq_ready hstate
    have hbinding : g.binding = ⟨n, r.target g.id⟩ := hvalid.bound g hg n r hready
    rw [hready]
    refine ⟨congrArg Except.ok hbinding.symm, fun sources => ?_⟩
    rw [Host.invoke_ready, if_pos (congrArg Binding.generation hbinding)]
  · intro g hg i hholds sources
    by_cases hstate : (run.hosts.host i).state = .ready
    · obtain ⟨n, r, hready⟩ := Host.eq_ready hstate
      rw [hready, Host.invoke_ready, if_neg]
      · rfl
      · rintro rfl
        exact hholds ⟨hvalid.own g hg i r hready, hstate⟩
    · exact Host.invoke_refused hstate sources g.binding
  · intro i hstate
    obtain ⟨n, r, hready⟩ := Host.eq_ready hstate
    obtain ⟨before, s, l, rest, hops, hfresh, source, entries, hsource, hentries, hreflection, hdirect⟩ :=
      hvalid.origin i n r hready
    refine ⟨before, s, l, rest, source, entries, hops, hfresh, hsource, hentries, ?_⟩
    rw [hready, ← hreflection]
    exact Host.follows_of_table hdirect n

/-- Two hosts that are ready, the first of which bound a function. -/
theorem bindings_are_capabilities_second_host :
    let launch := Boundary.TwoBytes.launch (.usual ⟨"base"⟩)
    let start (i : Bool) := HostsOperation.start i Boundary.TwoBytes.surroundings launch
    let add : FunctionId := ⟨"Math", "Add"⟩
    let run := HostsRun.after () [start true, start false, .bind true add]
    ∃ g ∈ run.grants, g.Holds run.hosts true ∧ ¬ g.Holds run.hosts false ∧
      (run.hosts.host true).bind add = .ok g.binding ∧
      ∀ sources, (run.hosts.host false).invoke sources g.binding = Action.fail .notInitialized := by
  intro launch start add run
  have hholds : Grant.Holds ⟨true, add, ⟨1, .lookup add ()⟩⟩ run.hosts true := ⟨rfl, rfl⟩
  have hother : ¬ Grant.Holds ⟨true, add, ⟨1, .lookup add ()⟩⟩ run.hosts false := fun h => Bool.noConfusion h.1
  have hmem : ⟨true, add, ⟨1, .lookup add ()⟩⟩ ∈ run.grants := List.mem_singleton_self _
  obtain ⟨hown, hforeign, -⟩ := bindings_are_capabilities () [start true, start false, .bind true add]
  exact ⟨_, hmem, hholds, hother, (hown _ hmem _ hholds).1, hforeign _ hmem _ hother⟩

end EngineBridge
