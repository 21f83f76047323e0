import EngineBridge.Proofs.Text.Progress

/-! What is known of values that are read from texts of a kind.

The kind is one that the ends of such a text are of too. So what is known of the text that a parser begins with is known
again where the next one goes on. -/

namespace EngineBridge.Parser
variable {α β : Type} {p q : Parser α} {Q : List Char → Prop} {P P' : α → Prop} {R : β → Prop}

/-- The ends of a text of the kind are of the kind. -/
class Inherited (Q : List Char → Prop) : Prop where
  of_suffix : ∀ {cs rest : List Char}, rest <:+ cs → Q cs → Q rest

/-- What the parser reads from texts of the kind has the property. -/
def Yields (Q : List Char → Prop) (P : α → Prop) (p : Parser α) : Prop :=
  ∀ ⦃cs rest : List Char⦄ ⦃a : α⦄, Q cs → p.on cs = some (a, rest) → P a

namespace Yields

theorem mono (h : Yields Q P p) (hP : ∀ a, P a → P' a) : Yields Q P' p := fun _ _ _ hcs hread => hP _ (h hcs hread)

theorem anything (p : Parser α) : Yields Q (fun _ => True) p := fun _ _ _ _ _ => trivial

theorem pure {a : α} (h : P a) : Yields Q P (Pure.pure a : Parser α) := fun _ _ _ _ hread => by
  cases hread
  exact h

theorem fail : Yields Q P (Parser.fail : Parser α) := fun _ _ _ _ hread => by cases hread

theorem orElse (h : Yields Q P p) (h' : Yields Q P q) : Yields Q P (p <|> q) := by
  intro cs rest a hcs hread
  rcases on_orElse_eq_some hread with hread | ⟨-, hread⟩
  · exact h hcs hread
  · exact h' hcs hread

theorem optional (h : Yields Q P p) : Yields Q (fun o => ∀ a ∈ o, P a) (Parser.optional p) := by
  intro cs rest o hcs hread
  rcases on_optional_eq_some hread with ⟨a, rfl, hp⟩ | ⟨rfl, -, -⟩
  · intro b hb
    cases hb
    exact h hcs hp
  · intro b hb
    cases hb

section
variable [Inherited Q]

theorem bind [Shrinks p] {f : α → Parser β} (h : Yields Q P p) (hf : ∀ a, P a → Yields Q R (f a)) : Yields Q R (p >>= f) := by
  intro cs rest b hcs hread
  obtain ⟨a, mid, hp, hmore⟩ := on_bind_eq_some hread
  exact hf a (h hcs hp) (Inherited.of_suffix (Shrinks.suffix hp) hcs) hmore

/-- What is read first does not matter. -/
theorem seq [Shrinks p] {f : α → Parser β} (hf : ∀ a, Yields Q R (f a)) : Yields Q R (p >>= f) :=
  (anything p).bind fun a _ => hf a

theorem many [Shrinks p] (h : Yields Q P p) : Yields Q (fun as => ∀ a ∈ as, P a) (Parser.many p) := by
  intro cs rest as hcs hread
  induction hn : cs.length using Nat.strongRecOn generalizing cs as with
  | _ n ih =>
    subst hn
    rw [on_many] at hread
    rcases hp : p.on cs with _ | ⟨a, mid⟩ <;> rw [hp] at hread
    · cases hread
      exact List.forall_mem_nil _
    dsimp only at hread
    split at hread
    · rename_i hlt
      obtain ⟨⟨as', rest'⟩, hmore, heq⟩ := Option.map_eq_some_iff.mp hread
      cases heq
      have hmid : Q mid := Inherited.of_suffix (Shrinks.suffix hp) hcs
      exact List.forall_mem_cons.mpr ⟨h hcs hp, ih _ hlt hmid hmore rfl⟩
    · cases hread
      exact List.forall_mem_singleton.mpr (h hcs hp)

section
variable {opening closing separator : Parser Unit} [Shrinks opening] [Shrinks closing] [Shrinks p] [Shrinks separator]

theorem between (h : Yields Q P p) : Yields Q P (Parser.between opening closing p) :=
  seq fun _ => h.bind fun _ ha => seq fun _ => pure ha

theorem sepBy1 (h : Yields Q P p) : Yields Q (fun as => ∀ a ∈ as, P a) (Parser.sepBy1 p separator) := by
  have hmore : Yields Q P (do separator; p) := seq fun _ => h
  exact h.bind fun _ ha => hmore.many.bind fun _ has => pure (List.forall_mem_cons.mpr ⟨ha, has⟩)

theorem sepEndBy (h : Yields Q P p) : Yields Q (fun as => ∀ a ∈ as, P a) (Parser.sepEndBy p separator) := by
  have hall : Yields Q (fun as => ∀ a ∈ as, P a) (do let as ← Parser.sepBy1 p separator; let _ ← Parser.optional separator; return as) :=
    h.sepBy1.bind fun _ has => seq fun _ => pure has
  refine hall.optional.bind fun as has => pure ?_
  cases as with
  | none => exact List.forall_mem_nil _
  | some as => exact has as rfl

end
end

/-- A parser that is described in terms of itself yields what its description yields of itself. -/
theorem recursive {f : Parser α → Parser α} [Guarded f] (hf : ∀ p [Shrinks p], Yields Q P p → Yields Q P (f p)) :
    Yields Q P (Parser.recursive f) := by
  have hunfolded : ∀ n, Yields Q P (unfolded f n) := by
    intro n
    induction n with
    | zero => exact fail
    | succ n ih => exact hf _ ih
  exact fun cs _ _ hcs hread => hunfolded (cs.length + 1) hcs hread

end Yields

end EngineBridge.Parser
