import Lineage.Database.ItemTable
import Lineage.Database.Numbered
import Lineage.Failure
import Lineage.Relationships

/-! The database: stored items, edges, the queue of requested reindexes and the ledger
of migrations. Each of the four tables may be missing, and then what needs it fails. -/

namespace Lineage

/-- A request to reindex an item. -/
structure QueueEntry where
  item : NodeId
  /-- In the table a number of 32 bits, and without bound here. A failure is noted only below a
  limit of 32 bits, so that no run gets to the last of these numbers that does not begin with it,
  and counting in them makes no difference: see `Lineage.Proofs.FailureCounts`. -/
  failures : Nat
  error : Option String
  /-- Whether the time of a failure was noted. -/
  hasErrorTime : Bool
deriving DecidableEq, Repr

structure MigrationRecord where
  version : Nat
  name : String
deriving DecidableEq, Repr

structure Database where
  items : Option ItemTable
  edges : Option (Numbered Edge)
  queue : Option (Numbered QueueEntry)
  ledger : Option (List MigrationRecord)
  otherTables : List String
deriving DecidableEq

/-- What is done to a database. A failure leaves the changes that came before it, unless
they are part of a transaction. -/
abbrev Action (α : Type) := ExceptT Failure (StateM Database) α

namespace Database

def fresh : Database := ⟨none, none, none, none, []⟩

def perform {α : Type} (db : Database) (act : Action α) : Except Failure α × Database :=
  act.run.run db

end Database

namespace Action
variable {α : Type}

/-- Either all changes of an action come about, or it fails and none does. -/
def transaction (act : Action α) : Action α :=
  ExceptT.mk fun db =>
    match db.perform act with
    | (.ok a, after) => (.ok a, after)
    | (.error e, _) => (.error e, db)

/-- What an action does where nothing may be written: it fails if it would change
something. -/
def reading (act : Action α) : Action α :=
  ExceptT.mk fun db =>
    match db.perform act with
    | (outcome, after) =>
      if after = db then (outcome, db)
      else (.error (.database "attempt to write a readonly database"), db)

/-- The outcome of an action as a value. -/
def attempt (act : Action α) : Action (Except Failure α) :=
  ExceptT.mk fun db =>
    match db.perform act with
    | (outcome, after) => (.ok outcome, after)

def table (name : String) (get : Database → Option α) : Action α := do
  match get (← getThe Database) with
  | some rows => pure rows
  | none => throw (.database ("no such table: " ++ name))

def items : Action ItemTable := table "content_items" Database.items
def edges : Action (Numbered Edge) := table "descendant_relations" Database.edges
def queue : Action (Numbered QueueEntry) := table "descendant_queue" Database.queue
def ledger : Action (List MigrationRecord) := table "schema_migrations" Database.ledger

def setItems (table : ItemTable) : Action Unit :=
  modifyThe Database fun db => { db with items := some table }

def setEdges (table : Numbered Edge) : Action Unit :=
  modifyThe Database fun db => { db with edges := some table }

def setQueue (table : Numbered QueueEntry) : Action Unit :=
  modifyThe Database fun db => { db with queue := some table }

def setLedger (records : List MigrationRecord) : Action Unit :=
  modifyThe Database fun db => { db with ledger := some records }

end Action

end Lineage
