import EngineBridge.Model.Resolve
import EngineBridge.Proofs.Model.Validity

/-! What lowering a declaration asks of the scope: the kinds of the names that the declaration mentions, and nothing
else. Two scopes that know the same of these names give the same record, or the same error. -/

namespace EngineBridge

theorem firstRepeated_append_of_some {α : Type} [BEq α] {seen xs : List α} {x : α} (h : firstRepeated seen xs = some x)
    (ys : List α) : firstRepeated seen (xs ++ ys) = some x := by
  induction xs generalizing seen with
  | nil => cases h
  | cons a xs ih =>
    rw [firstRepeated] at h
    rw [List.cons_append, firstRepeated]
    split at h
    · next ha =>
      rw [if_pos ha]
      exact h
    · next ha =>
      rw [if_neg ha]
      exact ih h

/-- The scopes know the same of the names. -/
def Scope.Agree (s s' : Scope) (names : List String) : Prop := ∀ n ∈ names, s.kind? n = s'.kind? n

variable {s s' : Scope}

namespace Scope

theorem Agree.mono {names names' : List String} (h : s.Agree s' names) (hsub : ∀ n ∈ names', n ∈ names) :
    s.Agree s' names' :=
  fun n hn => h n (hsub n hn)

theorem Agree.declared? {names : List String} {name : String} (h : s.Agree s' names) (hname : name ∈ names) :
    s.declared? name = s'.declared? name := by
  unfold Scope.declared?
  rw [h name hname]

theorem resolve_congr : ∀ {e : TypeExpr}, s.Agree s' e.names → s.resolve e = s'.resolve e
  | ⟨name, []⟩, h => by rw [resolve, resolve, h.declared? (TypeExpr.name_mem_names _)]
  | ⟨name, [a]⟩, h => by
    have ha : s.Agree s' a.names := h.mono fun n => TypeExpr.mem_names_of_arg (by simp)
    rw [resolve, resolve, resolve_congr ha, ha _ a.name_mem_names]
  | ⟨name, [a, b]⟩, h => by
    have ha : s.Agree s' a.names := h.mono fun n => TypeExpr.mem_names_of_arg (by simp)
    have hb : s.Agree s' b.names := h.mono fun n => TypeExpr.mem_names_of_arg (by simp)
    rw [resolve, resolve, resolve_congr ha, resolve_congr hb]
  | ⟨name, _ :: _ :: _ :: _⟩, _ => by
    rw [resolve, resolve]
    all_goals simp

theorem resolveIn_congr {owner member : String} {e : TypeExpr} (h : s.Agree s' e.names) :
    s.resolveIn owner member e = s'.resolveIn owner member e := by
  unfold resolveIn
  rw [resolve_congr h]

end Scope

/-! ### Members -/

section
variable {owner : String}

/-- The scopes know the same of all names in the types. -/
def Scope.AgreeOn (s s' : Scope) (types : List TypeExpr) : Prop := ∀ e ∈ types, s.Agree s' e.names

theorem FieldDecl.lower_congr {f : FieldDecl} (h : s.Agree s' f.type.names) : f.lower s owner = f.lower s' owner := by
  unfold FieldDecl.lower
  rw [Scope.resolveIn_congr h]

theorem MethodDecl.lower_congr {m : MethodDecl} (h : s.AgreeOn s' (MemberDecl.method m).types) :
    m.lower s owner = m.lower s' owner := by
  unfold MethodDecl.lower
  have hret : s.resolveIn owner m.name m.ret = s'.resolveIn owner m.name m.ret :=
    Scope.resolveIn_congr (h _ List.mem_cons_self)
  have hparams : (m.params.mapM fun p => do
        let type ← s.resolveIn owner m.name p.type
        return ParamRecord.mk p.name type p.direction : Except DocumentError (List ParamRecord)) =
      m.params.mapM fun p => do
        let type ← s'.resolveIn owner m.name p.type
        return ParamRecord.mk p.name type p.direction := by
    refine Outcome.mapM_congr fun p hp => ?_
    have hp : p.type ∈ (MemberDecl.method m).types := List.mem_cons_of_mem _ (List.mem_map_of_mem hp)
    rw [Scope.resolveIn_congr (h _ hp)]
  rw [hret, hparams]

theorem lowerMembers_congr {ms : List MemberDecl} (h : s.AgreeOn s' (ms.flatMap MemberDecl.types)) :
    lowerMembers s owner ms = lowerMembers s' owner ms := by
  induction ms with
  | nil => rfl
  | cons m ms ih =>
    have hm : s.AgreeOn s' m.types := fun e he => h e (List.mem_flatMap.mpr ⟨m, List.mem_cons_self, he⟩)
    have hms : s.AgreeOn s' (ms.flatMap MemberDecl.types) := fun e he => h e (by
      rw [List.flatMap_cons]
      exact List.mem_append_right _ he)
    cases m with
    | field f => rw [lowerMembers, lowerMembers, FieldDecl.lower_congr (hm _ List.mem_cons_self), ih hms]
    | method m => rw [lowerMembers, lowerMembers, MethodDecl.lower_congr hm, ih hms]

end

/-! ### Types -/

namespace TypeDecl
variable {d : TypeDecl}

theorem names_sub_mentions {e : TypeExpr} (he : e ∈ d.types) : ∀ n ∈ e.names, n ∈ d.mentions :=
  fun _ hn => List.mem_flatMap.mpr ⟨e, he, hn⟩

theorem base_mem_types {base : TypeExpr} (hbase : d.base = some base) : base ∈ d.types := by
  unfold types
  rw [hbase]
  exact List.mem_append_left _ List.mem_cons_self

variable (h : s.Agree s' d.mentions)
include h

theorem superType_congr : d.superType s = d.superType s' := by
  unfold superType
  split
  · next base _ hbase =>
    have hname : base.name ∈ d.mentions := names_sub_mentions (base_mem_types hbase) _ base.name_mem_names
    rw [h _ hname]
  · rfl

theorem underlying_congr {member : String} :
    d.base.mapM (s.resolveIn d.name member) = d.base.mapM (s'.resolveIn d.name member) := by
  cases hbase : d.base with
  | none => rfl
  | some base =>
    show some <$> s.resolveIn d.name member base = some <$> s'.resolveIn d.name member base
    rw [Scope.resolveIn_congr (h.mono (names_sub_mentions (base_mem_types hbase)))]

theorem members_congr : lowerMembers s d.name d.members = lowerMembers s' d.name d.members :=
  lowerMembers_congr fun _ he => h.mono (names_sub_mentions (List.mem_append_right _ he))

/-- The record of a declaration depends on no more of the scope than the names that the declaration mentions. -/
theorem lower_congr (fallback : String) : d.lower s fallback = d.lower s' fallback := by
  unfold lower
  rw [superType_congr h, underlying_congr h, members_congr h]

end TypeDecl
end EngineBridge
