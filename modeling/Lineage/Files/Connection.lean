import Lineage.Database.Address
import Lineage.Files.Tree

/-! Connections to the databases of a file tree: where an address leads, what is found
there, and what an action over the connection leaves behind. -/

namespace Lineage

/-- A database as a program has opened it. Without a place it ends with the connection. -/
structure Connection where
  place : Option Location
  database : Database
  journal : Journal
  readOnly : Bool

namespace FileTree

/-- The longest path of a database with the slash that begins it, and what is kept free
behind it for the names of files beside it. -/
def maxDatabasePath : Nat := 511
def besideRoom : Nat := 7

def pathLength (location : Location) : Nat :=
  location.foldl (fun length name => length + name.utf8ByteSize + 1) 0

/-- Goes on by one segment. Names are looked up on the way: nothing can be below a file,
and a name that is too long cannot be in a folder. What is not there is passed over. -/
def stepTo? (tree : FileTree) (location : Location) (segment : String) : Option Location :=
  if segment.isEmpty || segment == "." then some location
  else if segment == ".." then some location.dropLast
  else
    let next := location ++ [segment]
    if maxDatabasePath < pathLength next || (tree.fileAt? location).isSome ||
      (tree.isFolder location && maxName < segment.utf8ByteSize) then none
    else some next

/-- The place that a path of a database names. Its folder has to be there, and it must not
be a folder itself. -/
def databasePlace? (tree : FileTree) (working : Location) (path : String) : Option Location :=
  if path.toList.any fun c => c.toNat == 0 then none
  else
    let (base, way) := start working path
    match (base ++ way).foldlM tree.stepTo? [] with
    | none => none
    | some location =>
      if maxDatabasePath < pathLength location + besideRoom || tree.isFolder location ||
        !tree.isFolder location.dropLast then none
      else some location

def beside (location : Location) (ending : String) : Location :=
  location.dropLast ++ [(location.getLast?.getD "") ++ ending]

/-- Whether the files that a change needs beside a database can be made. -/
def hasRoomBeside (tree : FileTree) (location : Location) : Bool :=
  !tree.isFolder (beside location "-wal") && !tree.isFolder (beside location "-journal")

/-- A connection to what is found in a file: a database with its journal, or a new one
that has none. A frozen database is only read. The journal of a new or a shared database
becomes a log, which a reader cannot bring about and which needs shared memory. -/
def connectTo? (tree : FileTree) (address : DatabaseAddress) (location : Location) :
    Database × Option Journal → Option Connection
  | (database, journal) =>
    let readOnly := address.access == .read
    if address.frozen then some ⟨location, database, .rollback, true⟩
    else if !tree.hasRoomBeside location then none
    else if !address.shared then
      if journal == some .log then none
      else some ⟨location, database, .rollback, readOnly⟩
    else if readOnly then
      if journal == some .log then some ⟨location, database, .log, true⟩ else none
    else
      let longest := (beside location "-journal").getLast?.getD ""
      if journal.isNone && maxName < longest.utf8ByteSize then none
      else some ⟨location, database, .log, tree.isFolder (beside location "-shm")⟩

/-- Opens a database. The file is made when it is not there and may be made, also when the
database then cannot be opened. -/
def connect (tree : FileTree) (working : Location) (address : DatabaseAddress) :
    Option Connection × FileTree :=
  match address.path with
  | none => (some ⟨none, .fresh, .rollback, address.access == .read⟩, tree)
  | some path =>
    match tree.databasePlace? working path with
    | none => (none, tree)
    | some location =>
      match tree.fileAt? location with
      | some content => (content.database?.bind (tree.connectTo? address location), tree)
      | none =>
        if address.access == .create then
          (tree.connectTo? address location (.fresh, none), tree.setFile location (.bytes []))
        else (none, tree)

/-- Runs an action over a connection; the action is told the journal. -/
def act {α : Type} (tree : FileTree) (c : Connection) (action : Journal → Action α) :
    Except Failure α × FileTree :=
  if c.readOnly then ((c.database.perform (action c.journal).reading).1, tree)
  else
    let (outcome, after) := c.database.perform (action c.journal)
    match c.place with
    | none => (outcome, tree)
    | some location => (outcome, tree.setFile location (.database after c.journal))

def withDatabase {α : Type} (tree : FileTree) (working : Location)
    (address : Option DatabaseAddress) (action : Journal → Action α) :
    Except Failure α × FileTree :=
  match address.map (tree.connect working) with
  | some (some c, tree) => tree.act c action
  | some (none, tree) => (.error (.database "unable to open database file"), tree)
  | none => (.error (.database "unable to open database file"), tree)

end FileTree

end Lineage
