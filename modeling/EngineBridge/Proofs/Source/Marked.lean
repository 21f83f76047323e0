import EngineBridge.Proofs.Source.Ahead
import EngineBridge.Proofs.Text.Progress

/-! Lists with marks between, and what the mark behind a word is good for. -/

namespace EngineBridge.Parser
variable {α : Type} {item : Parser α} {separator : Parser Unit} {a : α} {as : List α} {cs mid next rest : List Char}

theorem on_sepBy1_single (h : item.on cs = some (a, rest)) (hend : (do separator; item).on rest = none) :
    (sepBy1 item separator).on cs = some ([a], rest) :=
  (on_bind_of_some h).trans (on_bind_of_some (on_many_of_none hend))

theorem on_sepBy1_cons [Shrinks item] (h : item.on cs = some (a, mid)) (hseparator : separator.on mid = some ((), next))
    (hlength : next.length < mid.length) (hmore : (sepBy1 item separator).on next = some (as, rest)) :
    (sepBy1 item separator).on cs = some (a :: as, rest) := by
  obtain ⟨b, behind, hb, hmore⟩ := on_bind_eq_some hmore
  obtain ⟨bs, hbs, rfl⟩ := on_map_eq_some hmore
  have hsuffix := (Shrinks.suffix hb).length_le
  refine (on_bind_of_some h).trans (on_bind_of_some (on_many_of_some ((on_bind_of_some hseparator).trans hb) ?_ hbs))
  omega

theorem on_sepEndBy_of_some {o : Option Unit} (h : (sepBy1 item separator).on cs = some (as, mid))
    (hend : (optional separator).on mid = some (o, rest)) : (sepEndBy item separator).on cs = some (as, rest) :=
  on_bind_of_some (on_optional_of_some ((on_bind_of_some h).trans (on_bind_of_some hend)))

theorem on_sepEndBy_of_none (h : item.on cs = none) : (sepEndBy item separator).on cs = some ([], cs) :=
  on_bind_of_some (on_optional_of_none (on_bind_of_none (on_bind_of_none h)))

end EngineBridge.Parser

namespace EngineBridge.Source
open EngineBridge.Parser

variable {α : Type} {p : Parser α} {c : Char} {gap cs rest : List Char}

/-- The text is over or goes on with a mark. -/
def Marked (cs : List Char) : Prop := ∀ c ∈ cs.head?, c ∈ marks

theorem marked_cons (hc : c ∈ marks) : Marked (c :: cs) := fun d hd => by
  cases hd
  exact hc

theorem Marked.ends (hgap : Gap gap) (h : Marked rest) : Ends gap rest := by
  have hmark : ∀ c ∈ marks, c ∉ gapStarts ∧ isIdentifierPart c = false ∧ c ≠ '.' := by
    intro c hc
    fin_cases hc <;> decide
  have hsolid : Solid rest := fun c hc => (hmark c (h c hc)).1
  rcases eq_or_ne gap [] with rfl | hne
  · exact ⟨.none, hsolid, fun c hc => (hmark c (h c hc)).2⟩
  · exact .of_gap hgap hne hsolid

theorem on_padded_behind_gap (hgap : Gap gap) (hcs : Solid cs) : (padded p).on (gap ++ cs) = (padded p).on cs := by
  rw [padded, on_bind, on_bind, on_trivia hgap hcs, on_trivia_of_solid hcs]

end EngineBridge.Source
