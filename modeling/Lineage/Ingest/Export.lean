import Lineage.Dictionary
import Lineage.Digest
import Lineage.Files.Path
import Lineage.Files.Tree

/-! Export files: what a content folder holds, and how it compares with what was last
imported from it. -/

namespace Lineage

/-- A file found below the content folder, under its source path. -/
structure ExportFile where
  path : String
  bytes : List UInt8

namespace ExportFile

def hash (file : ExportFile) : String := Digest.sha256 file.bytes

/-- Every export below a folder, in ascending order of the source paths. A folder that
is not there holds none. -/
def discover (tree : FileTree) (folder : Location) : List ExportFile :=
  let exports := (tree.filesBelow folder).filter fun file =>
    SourcePath.isExport (Path.spellNames file.1)
  (exports.map fun file =>
    { path := SourcePath.normalize (Path.spellNames file.1), bytes := file.2.toBytes }).mergeSort
      fun a b => a.path ≤ b.path

end ExportFile

/-- Files apart by how they compare with the hashes of the last import. -/
structure Classification where
  new : List ExportFile
  modified : List ExportFile
  unchanged : List ExportFile

namespace Classification

/-- Whether a file was imported before with this content, with another, or never. -/
inductive Status where
  | new
  | modified
  | unchanged
deriving DecidableEq, Repr

def statusOf (hashes : Dictionary String) (file : ExportFile) : Status :=
  match hashes.find? file.path with
  | none => .new
  | some stored => if stored == file.hash then .unchanged else .modified

def ofFiles (hashes : Dictionary String) (files : List ExportFile) : Classification :=
  let judged := files.map fun file => (file, statusOf hashes file)
  let having := fun status => (judged.filter fun j => j.2 == status).map Prod.fst
  ⟨having .new, having .modified, having .unchanged⟩

/-- The files that are worth importing, new ones first. -/
def changed (c : Classification) : List ExportFile := c.new ++ c.modified

end Classification

end Lineage
