import Lineage.Database.Basic
import Lineage.Text.Bytes

/-! What files hold. A database is a file like others: a program that does not open it as
a database finds bytes there. -/

namespace Lineage

/-- How a database keeps a change apart until it is complete: in a log beside it, or by
noting what was there before. -/
inductive Journal where
  | log
  | rollback
deriving DecidableEq, Repr

def Journal.name : Journal → String
  | log => "wal"
  | rollback => "delete"

namespace Database

def imageStart : List UInt8 := Text.utf8 "SQLite format 3" ++ [0]

def pageSize : Nat := 4096

/-- Pages of a table and its indexes. The first page lists the tables, and one page has
the numbers that tables gave last. -/
def pages (db : Database) : Nat :=
  let has := fun (there : Bool) (n : Nat) => if there then n else 0
  1 + has db.items.isSome 3 + has db.edges.isSome 3 + has db.queue.isSome 2 +
    has (db.edges.isSome || db.queue.isSome) 1 + has db.ledger.isSome 1 + db.otherTables.length

/-- A byte that no text has, as the first page has one when it lists tables. -/
def listMark (db : Database) : List UInt8 := if db.pages == 1 then [] else [0x84]

/-- The bytes of the file. No more of them is told than that they are of the right number
and no export, document or text. -/
def image (db : Database) : List UInt8 :=
  let start := imageStart ++ db.listMark
  start ++ List.replicate (pageSize * db.pages - start.length) 0

end Database

inductive FileContent where
  | bytes (b : List UInt8)
  | database (db : Database) (journal : Journal)
deriving DecidableEq

namespace FileContent

def toBytes : FileContent → List UInt8
  | bytes b => b
  | database db _ => db.image

/-- The database that a file holds, with its journal. A file of one byte at most is a new
database to which nothing was written, and other bytes are none. -/
def database? : FileContent → Option (Database × Option Journal)
  | bytes b => if b.length ≤ 1 then some (.fresh, none) else none
  | database db journal => some (db, some journal)

end FileContent

end Lineage
