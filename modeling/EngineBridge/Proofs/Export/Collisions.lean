import EngineBridge.Proofs.Export.FastSet

/-! Symbols of trampolines do not collide.

A name that is an identifier does not begin with a digit, so that the digits in front of it end where it begins, and
say where it ends. Without that condition names can be taken for others. -/

namespace EngineBridge

/-- The names of the type and of the function are identifiers. -/
structure FunctionId.IsSpellable (id : FunctionId) : Prop where
  type : isIdentifier id.type = true
  function : isIdentifier id.function = true

instance (id : FunctionId) : Decidable id.IsSpellable :=
  decidable_of_iff (isIdentifier id.type = true ∧ isIdentifier id.function = true)
    ⟨fun h => ⟨h.1, h.2⟩, fun h => ⟨h.type, h.function⟩⟩

/-! ### Symbols are identifiers -/

theorem inName_of_isDigit {c : Char} (h : c.isDigit = true) : inName c = true := by
  unfold inName Char.isAlphanum
  rw [h, Bool.or_true, Bool.true_or]

theorem all_inName_append {a b : String} :
    (a ++ b).toList.all inName = (a.toList.all inName && b.toList.all inName) := by
  rw [String.toList_append, List.all_append]

/-- A name may stand in an identifier with its length in front. -/
theorem all_inName_sized {name : String} (h : isIdentifier name = true) : (sized name).toList.all inName = true := by
  obtain ⟨-, -, -, -, hname⟩ := isIdentifier_cons h
  have hdigits : (toString name.utf8ByteSize).toList.all inName = true := by
    rw [List.all_eq_true]
    show ∀ k ∈ name.utf8ByteSize.repr.toList, inName k = true
    rw [Nat.toList_repr]
    exact fun k hk => inName_of_isDigit (Nat.isDigit_of_mem_toDigits (by decide) (by decide) hk)
  unfold sized
  rw [all_inName_append, hdigits, List.all_eq_true.mpr hname]
  rfl

theorem isIdentifier_trampolineSymbol {id : FunctionId} (h : id.IsSpellable) :
    isIdentifier (trampolineSymbol id) = true := by
  have hrest : (sized id.type ++ ("_" ++ sized id.function)).toList.all inName = true := by
    rw [all_inName_append, all_inName_append, all_inName_sized h.type, all_inName_sized h.function]
    decide
  unfold trampolineSymbol
  rw [String.append_assoc, String.append_assoc]
  exact isIdentifier_append (by decide) hrest

/-! ### The symbols of an index -/

namespace Trampoline
variable {c : BindingContext} {entries : List TrampolineEntry}

/-- Each entry has the symbol of its function, which is an identifier, and no two entries have the same. -/
structure SymbolsApart (entries : List TrampolineEntry) : Prop where
  spellable : ∀ e ∈ entries, e.id.IsSpellable
  symbol_eq : ∀ e ∈ entries, e.symbol = trampolineSymbol e.id
  once : (entries.map (·.symbol)).Nodup

theorem SymbolsApart.isIdentifier (h : SymbolsApart entries) {e : TrampolineEntry} (he : e ∈ entries) :
    isIdentifier e.symbol = true := by
  rw [h.symbol_eq e he]
  exact isIdentifier_trampolineSymbol (h.spellable e he)

theorem SymbolsApart.sublist {fewer : List TrampolineEntry} (h : SymbolsApart entries) (hsub : fewer.Sublist entries) :
    SymbolsApart fewer where
  spellable e he := h.spellable e (hsub.subset he)
  symbol_eq e he := h.symbol_eq e (hsub.subset he)
  once := h.once.sublist (hsub.map _)

theorem symbolsApart_generate (hd : c.document.Consistent) : SymbolsApart (generate c).manifest.entries := by
  have hexact := exact_generate hd
  have hentry : ∀ e ∈ (generate c).manifest.entries, ∃ x, IsEntry c x e := fun e he =>
    let ⟨x, _, hx⟩ := Paired.exists_left hexact.entries he
    ⟨x, hx⟩
  refine ⟨fun e he => ?_, fun e he => ?_, hexact.symbols_once⟩
  · obtain ⟨x, hx⟩ := hentry e he
    rw [hx.id_eq]
    exact ⟨hx.lowers.type, hx.lowers.function⟩
  · obtain ⟨x, hx⟩ := hentry e he
    rw [hx.symbol_eq, hx.id_eq]

/-- The index that is written has some of the entries that were generated. -/
theorem writeOut_entries (tree : FileTree) (c : BindingContext) :
    (writeOut tree c).2.manifest.entries.Sublist (generate c).manifest.entries := by
  show (keptEntries _ _).Sublist _
  exact List.filter_sublist

end Trampoline

open Trampoline in
/-- The symbol of a function whose names are identifiers is one as well, and tells both names; and in the index of a
document that passes the check, generated or written, no two entries have the same symbol. -/
theorem trampoline_symbols_apart :
    (∀ type₁ function₁ type₂ function₂ : String, FunctionId.IsSpellable ⟨type₁, function₁⟩ →
      FunctionId.IsSpellable ⟨type₂, function₂⟩ →
      trampolineSymbol ⟨type₁, function₁⟩ = trampolineSymbol ⟨type₂, function₂⟩ → type₁ = type₂ ∧ function₁ = function₂) ∧
    (∀ type function : String, FunctionId.IsSpellable ⟨type, function⟩ →
      isIdentifier (trampolineSymbol ⟨type, function⟩) = true) ∧
    ∀ c : BindingContext, c.document.validate = .ok () → SymbolsApart (generate c).manifest.entries ∧
      ∀ tree : FileTree, SymbolsApart (writeOut tree c).2.manifest.entries := by
  refine ⟨fun t₁ f₁ t₂ f₂ h₁ h₂ hsymbol => ?_, fun t f h => isIdentifier_trampolineSymbol h, fun c h => ?_⟩
  · exact FunctionId.mk.inj (trampolineSymbol_inj h₁.type h₁.function h₂.type h₂.function hsymbol)
  · have hmade := symbolsApart_generate (Document.validate_eq_ok.mp h)
    exact ⟨hmade, fun tree => hmade.sublist (writeOut_entries tree c)⟩

open Trampoline ActorDocument in
/-- Names of the same letters and underscores that are split elsewhere, and the index of a document with a trampoline. -/
theorem trampoline_symbols_apart_actor :
    (FunctionId.IsSpellable ⟨"A_1", "B1_C"⟩ ∧ FunctionId.IsSpellable ⟨"A", "_1B1_C"⟩ ∧
      (trampolineSymbol ⟨"A_1", "B1_C"⟩ = trampolineSymbol ⟨"A", "_1B1_C"⟩ → "A_1" = "A" ∧ "B1_C" = "_1B1_C")) ∧
    isIdentifier (trampolineSymbol ⟨"A_1", "B1_C"⟩) = true ∧
    (context.document.validate = .ok () ∧ SymbolsApart (generate context).manifest.entries) ∧
    (generate context).manifest.entries.map (·.symbol) = ["SBFI_5Actor_4Jump"] :=
  have hfirst : FunctionId.IsSpellable ⟨"A_1", "B1_C"⟩ := by decide
  have hsecond : FunctionId.IsSpellable ⟨"A", "_1B1_C"⟩ := by decide
  ⟨⟨hfirst, hsecond, trampoline_symbols_apart.1 "A_1" "B1_C" "A" "_1B1_C" hfirst hsecond⟩,
    trampoline_symbols_apart.2.1 "A_1" "B1_C" hfirst,
    ⟨rfl, (trampoline_symbols_apart.2.2 context rfl).1⟩, by decide +kernel⟩

/-- The condition is needed: where a name begins with a digit, another split of the same text has the same symbol. -/
example : trampolineSymbol ⟨"1", "aaaaaaaa_1G"⟩ = trampolineSymbol ⟨"_11aaaaaaaa", "G"⟩ := by decide +kernel

end EngineBridge
