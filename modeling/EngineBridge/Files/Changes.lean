import EngineBridge.Files.Tree

/-! What became of the files of a tree. -/

namespace EngineBridge

/-- The difference between two trees of files. -/
structure FileChanges where
  /-- Files that are new or hold something else. -/
  written : List (Location × ByteArray)
  removed : List Location

namespace FileTree

/-- What has to be done to the files of one tree to get those of another. -/
def changesTo (before after : FileTree) : FileChanges where
  written := (after.filesBelow []).filter fun f => before.entry? f.1 != some (.file f.2)
  removed := ((before.filesBelow []).filter fun f =>
    match after.entry? f.1 with
    | some (.file _) => false
    | _ => true).map (·.1)

end FileTree
end EngineBridge
