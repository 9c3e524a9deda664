import Lineage.Database.Basic
import Lineage.Text.Bytes
import Lineage.Text.Basic

/-! Numbered migrations. A folder of files brings the tables of a database up to date;
each file is applied once, in a transaction of its own that also records it. -/

namespace Lineage

/-- The tables that the library works with, the ledger apart. -/
inductive StandardTable where
  | items
  | edges
  | queue
deriving DecidableEq, Repr

namespace StandardTable

def all : List StandardTable := [items, edges, queue]

def name : StandardTable → String
  | items => "content_items"
  | edges => "descendant_relations"
  | queue => "descendant_queue"

/-- The name of the migration file that makes a table. -/
def migrationName : StandardTable → String
  | items => "001_content_items.sql"
  | edges => "002_descendant_relations.sql"
  | queue => "003_descendant_queue.sql"

end StandardTable

def ledgerName : String := "schema_migrations"

namespace Database

def hasTable (db : Database) : StandardTable → Bool
  | .items => db.items.isSome
  | .edges => db.edges.isSome
  | .queue => db.queue.isSome

def withTable (db : Database) : StandardTable → Database
  | .items => { db with items := some .empty }
  | .edges => { db with edges := some .empty }
  | .queue => { db with queue := some .empty }

/-- The names of all tables, in ascending order. -/
def tableNames (db : Database) : List String :=
  let standard := StandardTable.all.filter db.hasTable
  let ledger := if db.ledger.isSome then [ledgerName] else []
  (standard.map StandardTable.name ++ ledger ++ db.otherTables).mergeSort fun a b => a ≤ b

/-- Removes the table with a name; the ones that number their rows start anew when they
are made again. -/
def dropTable (db : Database) (name : String) : Database :=
  if name == StandardTable.items.name then { db with items := none }
  else if name == StandardTable.edges.name then { db with edges := none }
  else if name == StandardTable.queue.name then { db with queue := none }
  else if name == ledgerName then { db with ledger := none }
  else { db with otherTables := db.otherTables.filter (· != name) }

end Database

inductive SchemaChange where
  /-- Makes a table; one of that name must not be there. -/
  | create (name : String)
  /-- Makes a table unless it is there. -/
  | createMissing (table : StandardTable)
  /-- Something that is not understood. -/
  | invalid
deriving DecidableEq, Repr

namespace SchemaChange

/-- Table names differ by more than the size of their letters. -/
def sameName (a b : String) : Bool :=
  a.toList.map Char.toLower == b.toList.map Char.toLower

/-- Names that begin like this are the database's own. -/
def reserved : List Char := "sqlite_".toList

def isFree (name : String) (db : Database) : Bool :=
  !(db.tableNames.any (sameName name)) &&
    !reserved.isPrefixOf (name.toList.map Char.toLower)

/-- The table of a name, with the columns that come with it when it is a standard one. -/
def apply (change : SchemaChange) (db : Database) : Option Database :=
  match change with
  | create name =>
    if isFree name db then some { db with otherTables := db.otherTables ++ [name] } else none
  | createMissing table => if db.hasTable table then some db else some (db.withTable table)
  | invalid => none

/-- The changes in turn. The first that cannot be made is the end, and what was made before it
is there. -/
def applyAll (changes : List SchemaChange) (db : Database) : Except Database Database :=
  changes.foldlM (fun db change =>
    match change.apply db with
    | some after => .ok after
    | none => .error db) db

end SchemaChange

/-- A file in the folder of migrations, with its script. File names need not be text, and
neither need what the files hold; such a file has no script. -/
structure ScriptFile (σ : Type) where
  name : List UInt8
  script : Option σ
deriving DecidableEq, Repr

/-- What a folder of scripts holds, if it is there. -/
abbrev ScriptFolder (σ : Type) := Option (List (ScriptFile σ))

/-- A file whose script is understood change by change. -/
abbrev MigrationFile := ScriptFile (List SchemaChange)

structure Migration (σ : Type) where
  version : Nat
  name : String
  script : σ
deriving DecidableEq, Repr

namespace ScriptFile
variable {σ : Type}

def dot : UInt8 := 0x2E

/-- Migrations are the files whose extension is `sql`. -/
def isMigration (file : ScriptFile σ) : Bool :=
  match (file.name.splitOn dot).reverse with
  | last :: before => last == Text.utf8 "sql" && (1 < before.length || before.any (!·.isEmpty))
  | [] => false

/-- Takes every ending of that kind off a name. -/
def dropEndings (reversed : List Char) : List Char :=
  match reversed with
  | 'l' :: 'q' :: 's' :: '.' :: rest => dropEndings rest
  | rest => rest

/-- The version stands before the first underscore of a name. -/
def versionText (name : String) : List Char := name.toList.takeWhile (· != '_')

def version? (name : String) : Option Nat :=
  Text.countUpTo? Text.maxUnsigned32 (versionText name)

def migration (file : ScriptFile σ) : Except Failure (Migration σ) :=
  match Text.text? file.name with
  | none => .error (.config "Invalid migration filename")
  | some name =>
    match version? name, file.script with
    | none, _ =>
      .error (.config ("Invalid migration version: " ++ String.ofList (versionText name)))
    | some _, none => .error (.file "not a file that can be read as text")
    | some version, some script =>
      .ok ⟨version, String.ofList (dropEndings name.toList.reverse).reverse, script⟩

/-- Byte names in the order of their bytes. -/
def isBefore : List UInt8 → List UInt8 → Bool
  | [], _ => true
  | _ :: _, [] => false
  | a :: as, b :: bs => a < b || (a == b && isBefore as bs)

end ScriptFile

namespace Migration
variable {σ : Type}

/-- The migrations of a folder by version, and by file name where versions are equal. -/
def load (folder : ScriptFolder σ) : Except Failure (List (Migration σ)) :=
  match folder with
  | none => .error (.file "no such folder")
  | some files => do
    let files := (files.filter ScriptFile.isMigration).mergeSort fun a b =>
      ScriptFile.isBefore a.name b.name
    let migrations ← files.mapM ScriptFile.migration
    pure (migrations.mergeSort fun a b => a.version ≤ b.version)

/-- Adds a record, in ascending order of versions; a version stands there only once. -/
def record (m : Migration σ) : List MigrationRecord → Option (List MigrationRecord)
  | [] => some [⟨m.version, m.name⟩]
  | r :: rest =>
    if m.version < r.version then some (⟨m.version, m.name⟩ :: r :: rest)
    else if m.version = r.version then none
    else (record m rest).map (r :: ·)

/-- Carries out the script of a migration. One that fails leaves what it had done by then. -/
def carryOut (exec : σ → Database → Except Database Database) (m : Migration σ) :
    Action Unit := do
  match exec m.script (← getThe Database) with
  | .error half =>
    set half
    throw (.config ("Failed to execute migration " ++ m.name))
  | .ok db => set db

def enter (m : Migration σ) : Action Unit := do
  match m.record (← Action.ledger) with
  | none => throw (.database "UNIQUE constraint failed: schema_migrations.version")
  | some records => Action.setLedger records

/-- Applies a migration: its script comes about together with its record. -/
def run (exec : σ → Database → Except Database Database) (m : Migration σ) : Action Unit :=
  Action.transaction do
    m.carryOut exec
    m.enter

/-- A migration is left out if its name is among those of the applied ones. -/
def runUnlessIn (applied : List String) (exec : σ → Database → Except Database Database)
    (m : Migration σ) : Action Unit :=
  if applied.contains m.name then pure () else m.run exec

end Migration

namespace Database

/-- Makes the ledger unless it is there. -/
def ensureLedger : Action Unit :=
  modifyThe Database fun db => { db with ledger := db.ledger <|> some [] }

def appliedMigrations : Action (List String) := do
  pure ((← Action.ledger).map MigrationRecord.name)

/-- Applies what a folder holds and the ledger does not name, whatever the scripts are and
`exec` makes of them. -/
def migrateBy {σ : Type} (exec : σ → Database → Except Database Database)
    (folder : ScriptFolder σ) : Action Unit := do
  ensureLedger
  let applied ← appliedMigrations
  let migrations ← MonadExcept.ofExcept (Migration.load folder)
  migrations.forM (Migration.runUnlessIn applied exec)

/-- Applies scripts that are understood change by change. -/
def migrate (folder : Option (List MigrationFile)) : Action Unit :=
  migrateBy SchemaChange.applyAll folder

def standardMigrations : List MigrationFile :=
  StandardTable.all.map fun table =>
    ⟨Text.utf8 table.migrationName, some [.createMissing table]⟩

def migrated : Database := (fresh.perform (migrate (some standardMigrations))).2

end Database

end Lineage
