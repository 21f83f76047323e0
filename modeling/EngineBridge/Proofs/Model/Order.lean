import EngineBridge.Proofs.Model.Denotation
import EngineBridge.Proofs.Model.Lowering

/-! That the order of declarations does not matter.

The record of a declaration depends on the others through the kinds of their names, and the check of a document on what
types there are. Neither has an order, so the same declarations in another one make the same records in that order, or
no document as before. -/

namespace EngineBridge
open Outcome

/-! ### The check -/

namespace Document
variable {d d' : Document}

section
variable (h : d'.types.Perm d.types)
include h

theorem extends_perm : d'.Extends = d.Extends := by
  funext name parent
  simp only [Extends, h.mem_iff]

theorem declares_perm : d'.Declares = d.Declares := by
  funext name kind
  simp only [Declares, h.mem_iff]

theorem covers_perm : d'.Covers = d.Covers := by
  funext type
  simp only [Covers, declares_perm h]

theorem Admits.perm {t : TypeRecord} (ht : d.Admits t) : d'.Admits t where
  members := ht.members
  super := by
    rw [declares_perm h]
    exact ht.super
  values := ht.values
  properties := by
    rw [covers_perm h]
    exact ht.properties
  params := by
    rw [covers_perm h]
    exact ht.params
  returns := by
    rw [covers_perm h]
    exact ht.returns

theorem WellFormed.perm (hd : d.WellFormed) : d'.WellFormed where
  names := (h.pairwise_iff fun hne => hne.symm).mpr hd.names
  acyclic := by
    rw [extends_perm h]
    exact hd.acyclic
  types t ht := (hd.types t (h.mem_iff.mp ht)).perm h

end

/-! ### Documents of declarations -/

variable {decls decls' : List TypeDecl} {fallback version : String} {attributes : DocumentAttributes}

theorem ofDecls_eq_ok : ofDecls decls fallback version attributes = .ok d ↔ DistinctNames decls ∧
    d.engineVersion = version ∧ d.attributes = attributes ∧
      decls.mapM (·.lower (Scope.ofDistinct decls) fallback) = .ok d.types ∧ d.WellFormed := by
  rw [← consistent_iff_wellFormed, ← validate_eq_ok]
  constructor
  · intro h
    obtain ⟨scope, hscope, h⟩ := bind_eq_ok.mp h
    obtain ⟨hnames, rfl⟩ := Scope.ofDecls_eq_ok hscope
    obtain ⟨types, htypes, h⟩ := bind_eq_ok.mp h
    obtain ⟨⟨⟩, hvalid, h⟩ := bind_eq_ok.mp h
    cases h
    exact ⟨hnames, rfl, rfl, htypes, hvalid⟩
  · rintro ⟨hnames, rfl, rfl, htypes, hvalid⟩
    exact bind_eq_ok.mpr ⟨_, Scope.ofDecls_of_distinctNames hnames, bind_eq_ok.mpr ⟨_, htypes, bind_eq_ok.mpr ⟨⟨⟩, hvalid, rfl⟩⟩⟩

theorem kind?_ofDistinct_perm (hnames : DistinctNames decls) (h : decls'.Perm decls) :
    (Scope.ofDistinct decls').kind? = (Scope.ofDistinct decls).kind? := by
  have hnames' : DistinctNames decls' := (h.map _).nodup_iff.mpr hnames
  funext name
  refine Option.ext fun kind => ?_
  rw [Scope.kind?_eq_some_iff hnames, Scope.kind?_eq_some_iff hnames']
  simp only [h.mem_iff]

theorem lower_ofDistinct_perm (hnames : DistinctNames decls) (h : decls'.Perm decls) (d : TypeDecl) :
    d.lower (Scope.ofDistinct decls') fallback = d.lower (Scope.ofDistinct decls) fallback :=
  TypeDecl.lower_congr (fun name _ => congrFun (kind?_ofDistinct_perm hnames h) name) fallback

/-- The record of a declaration in a scope in which it has one. -/
def recordIn (s : Scope) (fallback : String) (d : TypeDecl) : TypeRecord :=
  (d.lower s fallback).toOption.getD (.bare d.name (d.moduleOf fallback) d.kind)

theorem eq_map_recordIn {s : Scope} {types : List TypeRecord} (h : decls.mapM (·.lower s fallback) = .ok types) :
    types = decls.map (recordIn s fallback) := by
  have hrecords : ∀ {ds : List TypeDecl} {ts}, List.Forall₂ (fun d t => d.lower s fallback = .ok t) ds ts →
      ts = ds.map (recordIn s fallback) := by
    intro ds ts hforall
    induction hforall with
    | nil => rfl
    | cons hlower _ ih =>
      rw [List.map_cons, ← ih, recordIn, hlower]
      rfl
  exact hrecords (mapM_eq_ok.mp h)

/-- Of two documents either both are made, and then of the same records, one of each declaration, or neither is. -/
structure Rearranged (decls decls' : List TypeDecl) (made made' : Except DocumentError Document) : Prop where
  exists_iff : (∃ d, made = .ok d) ↔ ∃ d', made' = .ok d'
  records : ∀ d d', made = .ok d → made' = .ok d' → d'.engineVersion = d.engineVersion ∧ d'.attributes = d.attributes ∧
    ∃ record : TypeDecl → TypeRecord, d.types = decls.map record ∧ d'.types = decls'.map record

theorem exists_of_perm (h : decls'.Perm decls) (hd : ofDecls decls fallback version attributes = .ok d) :
    ∃ d', ofDecls decls' fallback version attributes = .ok d' := by
  obtain ⟨hnames, -, -, htypes, hwell⟩ := ofDecls_eq_ok.mp hd
  obtain ⟨types', htypes', hperm⟩ := mapM_perm h htypes
  refine ⟨⟨version, attributes, types'⟩, ofDecls_eq_ok.mpr ⟨(h.map _).nodup_iff.mpr hnames, rfl, rfl, ?_, hwell.perm hperm⟩⟩
  rwa [mapM_congr fun d _ => lower_ofDistinct_perm hnames h d]

theorem rearranged_of_perm (h : decls'.Perm decls) :
    Rearranged decls decls' (ofDecls decls fallback version attributes) (ofDecls decls' fallback version attributes) where
  exists_iff := ⟨fun ⟨_, hd⟩ => exists_of_perm h hd, fun ⟨_, hd'⟩ => exists_of_perm h.symm hd'⟩
  records d d' hd hd' := by
    obtain ⟨hnames, hversion, hattributes, htypes, -⟩ := ofDecls_eq_ok.mp hd
    obtain ⟨-, hversion', hattributes', htypes', -⟩ := ofDecls_eq_ok.mp hd'
    rw [mapM_congr fun d _ => lower_ofDistinct_perm hnames h d] at htypes'
    exact ⟨hversion'.trans hversion.symm, hattributes'.trans hattributes.symm, _, eq_map_recordIn htypes,
      eq_map_recordIn htypes'⟩

end Document
end EngineBridge
