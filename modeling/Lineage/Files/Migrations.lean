import Lineage.Database.Script
import Lineage.Files.Tree

/-! The folder of migrations in a file tree. -/

namespace Lineage.FileTree

def migrationsName : String := "migrations"

def migrationFile (name : String) (content : FileContent) : MigrationFile :=
  ⟨Text.utf8 name, (Text.text? content.toBytes).map SchemaChange.ofScript⟩

/-- The name of what is directly in a folder. -/
def nameIn? (folder location : Location) : Option String :=
  if folder.isPrefixOf location then
    match location.drop folder.length with
    | [name] => some name
    | _ => none
  else none

/-- What is directly in a folder; a folder in it is no text. -/
def migrationFiles (tree : FileTree) (folder : Location) : Option (List MigrationFile) :=
  if !tree.isFolder folder then none
  else
    let folders := (tree.folders.filterMap (nameIn? folder)).map fun name =>
      ⟨Text.utf8 name, none⟩
    let files := tree.files.filterMap fun file =>
      (nameIn? folder file.1).map fun name => migrationFile name file.2
    some (folders ++ files)

/-- The migrations that a program finds from where it works. -/
def migrations (tree : FileTree) (working : Location) : Option (List MigrationFile) :=
  tree.migrationFiles (working ++ [migrationsName])

/-- Puts the scripts of the standard tables into the folder. -/
def installMigrations (working : Location) (tree : FileTree) : FileTree :=
  StandardTable.all.foldl (fun tree table =>
    let path := migrationsName ++ "/" ++ table.migrationName
    (tree.write working path (Text.utf8 table.script)).1) tree

end Lineage.FileTree
