import Lineage.Ingest.Import

/-! Following single files of the content folder: one that has changed is imported, and
one that is gone takes its item with it. -/

namespace Lineage

/-- What was done about a path. -/
inductive WatchAction where
  | imported (outcome : ImportOutcome)
  /-- The file is the one that was last imported. -/
  | unchanged
  /-- There is no such file, and these items came from it. -/
  | deleted (ids : List NodeId)
  /-- The path is not one of an export in the content folder. -/
  | ignored
deriving DecidableEq, Repr

namespace Watch

/-- A path without dots in it. Of a file that is gone, the folder says where it was. -/
def settledPath? (tree : FileTree) (working : Location) (path : String) : Option String :=
  match tree.canonical? working path with
  | some found => some found
  | none => do
    let folder := (Path.components path).dropLast
    let name ← Path.fileName? path
    let found ← tree.canonical? working (Path.spellFrom folder)
    some (found ++ "/" ++ name)

/-- The source path of an export, whether or not the file is there. A path that does not
begin like the content folder's may still lead into it. -/
def sourcePath? (tree : FileTree) (working : Location) (root path : String) : Option String :=
  if !SourcePath.isExport path then none
  else match SourcePath.below? root path with
    | some sourcePath => some sourcePath
    | none => do
      let root ← tree.canonical? working root
      let path ← settledPath? tree working path
      SourcePath.below? root path

def storedHash (sourcePath : String) : Action (Option String) := do
  let rows := (← Action.items).rows
  pure ((rows.find? fun row => row.sourcePath == some sourcePath).bind ItemRow.fileHash)

/-- Brings the content store in line with what is at a path now. -/
def handleChange (tree : FileTree) (working : Location) (root path : String) :
    Action WatchAction := do
  match sourcePath? tree working root path with
  | none => pure .ignored
  | some sourcePath =>
    match tree.read working path with
    | .error _ => .deleted <$> Ingest.deleteSources [sourcePath]
    | .ok bytes =>
      let file : ExportFile := ⟨sourcePath, bytes⟩
      if (← storedHash sourcePath) == some file.hash then pure .unchanged
      else .imported <$> Ingest.importFile file

end Watch

end Lineage
