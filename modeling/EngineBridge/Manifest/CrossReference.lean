import EngineBridge.Manifest.Decode

/-! The declarations that a manifest reaches. To the declarations of the manifest are added those of the companion
sources that they mention, what these mention, and so on; the manifest's own declarations come first and hide others of
the same name. -/

namespace EngineBridge

/-- The last declaration of that name. -/
def lastNamed (name : String) (decls : List TypeDecl) : Option TypeDecl :=
  decls.reverse.find? (·.name == name)

/-- The declarations of other names. -/
def othersThan (name : String) (decls : List TypeDecl) : List TypeDecl := decls.filter (·.name != name)

theorem length_othersThan_lt {name : String} {decls : List TypeDecl} {d : TypeDecl}
    (h : lastNamed name decls = some d) : (othersThan name decls).length < decls.length := by
  unfold othersThan
  rw [List.length_filter_lt_length_iff_exists]
  refine ⟨d, ?_, ?_⟩
  · exact List.mem_reverse.mp (List.mem_of_find?_eq_some h)
  · have := List.find?_some h
    simpa using this

/-- Goes through the names in the queue. A name that is not known yet and is declared by the sources adds its
declaration, and what that mentions to the end of the queue. Each addition takes the name out of the sources, so that
there are no more additions than sources. -/
def pull (known : List String) (sources : List TypeDecl) : List String → List TypeDecl
  | [] => []
  | name :: queue =>
    if known.contains name then pull known sources queue
    else
      match _h : lastNamed name sources with
      | none => pull known sources queue
      | some d => d :: pull (name :: known) (othersThan name sources) (queue ++ d.mentions)
termination_by queue => (sources.length, queue.length)
decreasing_by
  · exact Prod.Lex.right _ (by simp)
  · exact Prod.Lex.right _ (by simp)
  · exact Prod.Lex.left _ _ (length_othersThan_lt _h)

namespace AssemblyManifest

/-- The manifest's declarations; those without a module belong to the one named like the assembly. -/
def decls (m : AssemblyManifest) : List TypeDecl :=
  m.types.map fun d => { d with module := some (d.module.getD m.assembly) }

/-- The manifest's declarations and all they reach among the sources. -/
def crossReference (m : AssemblyManifest) (sources : List TypeDecl) : List TypeDecl :=
  m.decls ++ pull (m.decls.map (·.name)) sources (m.decls.flatMap (·.mentions))

end AssemblyManifest
end EngineBridge
