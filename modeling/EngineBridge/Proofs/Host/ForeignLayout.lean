import EngineBridge.Proofs.Host.Fallback
import EngineBridge.Proofs.Layout.Foreign
import EngineBridge.Proofs.Memory.Outcomes

/-! Arguments by value, as they are stored and as a native call takes them.

An argument by value is stored in memory of the size of its representation, and the call reads as many bytes as its own
type takes. The two agree, field by field, for every type that a call takes at all; it takes none in which a struct has no
properties, although such a struct has a byte in memory and in the frame of a trampoline. -/

namespace EngineBridge
open Outcome
variable {d : Document} {t : TypeRef} {r : NativeRepr}

namespace SymbolReflection

theorem stored_eq_ok {τ : Type} {v : Value} {b : Buffer} {s s' : τ} : (stored r v).runOn s = (.ok b, s') ↔
    (Buffer.write 0 r v).runOn (.zeroed r.size) = (.ok (), b) ∧ s' = s := by
  constructor
  · intro h
    unfold stored at h
    rcases hrun : (Buffer.write 0 r v).runOn (.zeroed r.size) with ⟨(e | _) | _, b'⟩ <;> rw [hrun] at h
    · cases h
    · cases h
    · cases h
      exact ⟨rfl, rfl⟩
  · rintro ⟨hwrite, rfl⟩
    exact stored_ok hwrite s'

/-- What is stored alone fills the size of its representation. -/
theorem length_of_stored {v : Value} {b : Buffer} (h : (Buffer.write 0 r v).runOn (.zeroed r.size) = (.ok (), b)) :
    b.length = r.size := by
  have hkeeps : ((Buffer.write 0 r v).runOn (.zeroed r.size)).2.length = (Buffer.zeroed r.size).length :=
    Buffer.keepsLength_write r v _
  rw [h, Buffer.length_zeroed] at hkeeps
  exact hkeeps

end SymbolReflection

/-- A call takes a type exactly if every struct within it has a property, and then lays it out as memory does: it reads an
argument by value from all of what the argument is stored in, and from nothing else. Only a reference to an enum that
names no enum may have another size. -/
theorem foreign_layout_iff (hd : d.validate = .ok ()) (h : d.nativeRepr t = .ok r) :
    (r.foreignType.isCallable = true ↔ d.FullStructs t) ∧
      (r.LiesAlike ↔ d.FullStructs t ∧ ∀ e, t = .enum e → d.kind? e ≠ some .enumKind → r.size = r.align) ∧
      (r.LiesAlike → ∀ (τ : Type) (s s' : τ) (v : Value) (b : Buffer),
        (SymbolReflection.stored r v).runOn s = (.ok b, s') → r.foreignType.extent? = some ⟨b.length, r.align⟩) := by
  have hconsistent := Document.validate_eq_ok.mp hd
  refine ⟨⟨Document.fullStructs_of_callable h, SymbolReflection.isCallable_of_repr (Nat.le_refl _) h⟩,
    ⟨fun halike => ⟨Document.fullStructs_of_callable h halike.isCallable, ?natural⟩, ?alike⟩, ?stored⟩
  case natural =>
    rintro e rfl -
    have hextent := halike.extent 0 r (.whole r)
    obtain ⟨signed, size, align, nativeType, rfl⟩ := Document.nativeRepr_enum h
    obtain ⟨hsize, halign⟩ := ForeignType.Extent.mk.inj (Option.some.inj hextent)
    exact hsize.symm.trans halign
  case alike =>
    rintro ⟨hstructs, hnatural⟩
    refine (hconsistent.filled h hstructs fun e he => ?_).liesAlike
    by_cases hkind : d.kind? e = some .enumKind
    · subst he
      exact hconsistent.enum_natural hkind h
    · exact hnatural e he hkind
  case stored =>
    intro halike τ s s' v b hstored
    rw [SymbolReflection.length_of_stored (SymbolReflection.stored_eq_ok.mp hstored).1]
    exact halike.extent 0 r (.whole r)

open HitDocument in
/-- The struct of a truth value, a struct, a name and a number: 48 bytes in memory and in a call, with the second field
at 8, the third at 32 and the last at 40. -/
theorem foreign_layout_iff_hit : ∃ r, document.nativeRepr (.struct "Hit") = .ok r ∧ document.FullStructs (.struct "Hit") ∧
    r.LiesAlike ∧ r.foreignType.extent? = some ⟨48, 8⟩ ∧
    ∃ fields, r.foreignType = .record fields ∧ ForeignType.placesFrom 0 fields = some [0, 8, 32, 40] := by
  have hvalid : document.validate = .ok () := rfl
  obtain ⟨r, hrepr, hcallable⟩ : ∃ r, document.nativeRepr (.struct "Hit") = .ok r ∧ r.foreignType.isCallable = true :=
    ⟨_, rfl, rfl⟩
  obtain ⟨htaken, halike, -⟩ := foreign_layout_iff hvalid hrepr
  have hstructs : document.FullStructs (.struct "Hit") := htaken.mp hcallable
  refine ⟨r, hrepr, hstructs, halike.mpr ⟨hstructs, nofun⟩, ?_⟩
  cases hrepr
  exact ⟨rfl, _, rfl, rfl⟩

open FallbackActor in
/-- A struct without properties has a byte in memory, and a place in the frame of a direct call. A call by symbol takes no
such type: it breaks off before the native function. -/
theorem marker_not_callable : document.validate = .ok () ∧ ∃ r, document.nativeRepr (.struct "Marker") = .ok r ∧
    r.size = 1 ∧ r.foreignType.extent? = none ∧ ¬ r.LiesAlike ∧
    (∃ l, FrameLayout.ofFunction document actor mark = .ok l ∧ l.slots.map (·.repr) = [r]) ∧
    (source.call ⟨"Actor", "Mark"⟩).runOn ⟨0, [.struct []]⟩ = (.error .crashed, ⟨0, [.struct []]⟩) := by
  refine ⟨rfl, _, rfl, rfl, rfl, fun halike => ?_, ⟨_, rfl, rfl⟩, rfl⟩
  have hcallable := halike.isCallable
  cases hcallable

end EngineBridge
