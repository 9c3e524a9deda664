import Lineage.Toml.Basic

/-! The statements of a document and the table that they add up to. Tables are opened
by headers or by dotted keys and may be opened further only in the same way; a value
that was written whole is closed. -/

namespace Lineage.Toml

inductive Statement where
  | header (path : List String)
  | arrayHeader (path : List String)
  | assign (path : List String) (value : Toml)

/-- How a table came to be: by a header of its own, on the way to the table of a
header, or on the way of a dotted key. -/
inductive Opening where
  | byHeader
  | onTheWay
  | byDots
deriving DecidableEq

/-- A place in a document that is still being read. -/
inductive Node where
  | closed (value : Toml)
  | table (opening : Opening) (entries : List (String × Node))
  | tables (elements : List (List (String × Node)))

abbrev Node.Entries := List (String × Node)

namespace Node

def find? (entries : Entries) (key : String) : Option Node :=
  (List.find? (fun e => e.1 == key) entries).map Prod.snd

/-- Puts a node under a key, in its old place when there was one. -/
def put (key : String) (node : Node) : Entries → Entries
  | [] => [(key, node)]
  | (k, old) :: rest => if k == key then (k, node) :: rest else (k, old) :: put key node rest

/-- Changes the table at the end of a path. Tables that are missing on the way are
made; of an array of tables the last one is meant. A dotted key does not pass through
a table that has a header of its own. -/
def changeAt (dotted : Bool) (change : Opening → Entries → Option (Opening × Entries)) :
    List String → Opening → Entries → Option (Opening × Entries)
  | [], opening, entries => change opening entries
  | key :: path, opening, entries =>
    match find? entries key with
    | none => do
      let made := if dotted then .byDots else .onTheWay
      let (inner, inside) ← changeAt dotted change path made []
      some (opening, put key (.table inner inside) entries)
    | some (.table inner inside) =>
      if dotted && inner == .byHeader then none
      else do
        let (inner, inside) ← changeAt dotted change path inner inside
        some (opening, put key (.table inner inside) entries)
    | some (.tables elements) =>
      match elements.getLast? with
      | none => none
      | some last => do
        let (_, last) ← changeAt dotted change path .byHeader last
        some (opening, put key (.tables (elements.dropLast ++ [last])) entries)
    | some (.closed _) => none

/-- Opens the table of a header, which may so far have been passed on the way only. -/
def openTable (key : String) (opening : Opening) (entries : Entries) :
    Option (Opening × Entries) :=
  match find? entries key with
  | none => some (opening, put key (.table .byHeader []) entries)
  | some (.table .onTheWay inside) => some (opening, put key (.table .byHeader inside) entries)
  | some _ => none

/-- Adds an element to an array of tables. -/
def openElement (key : String) (opening : Opening) (entries : Entries) :
    Option (Opening × Entries) :=
  match find? entries key with
  | none => some (opening, put key (.tables [[]]) entries)
  | some (.tables elements) => some (opening, put key (.tables (elements ++ [[]])) entries)
  | some _ => none

/-- Gives a new key its value. The last table of a dotted key is one that only dotted
keys have opened. -/
def assignIn (dotted : Bool) (key : String) (value : Toml) (opening : Opening)
    (entries : Entries) : Option (Opening × Entries) :=
  if dotted != (opening == .byDots) || (find? entries key).isSome then none
  else some (opening, put key (.closed value) entries)

def assign (path : List String) (value : Toml) (opening : Opening) (entries : Entries) :
    Option (Opening × Entries) :=
  match path.getLast? with
  | none => none
  | some key =>
    let way := path.dropLast
    changeAt true (assignIn (!way.isEmpty) key value) way opening entries

mutual
/-- The value that a place holds when the document is complete. -/
def close : Node → Toml
  | .closed value => value
  | .table _ entries => .table (closeEntries entries)
  | .tables elements => .array (closeTables elements)
def closeTables : List (List (String × Node)) → List Toml
  | [] => []
  | entries :: rest => .table (closeEntries entries) :: closeTables rest
def closeEntries : List (String × Node) → List (String × Toml)
  | [] => []
  | e :: rest => closeEntry e :: closeEntries rest
def closeEntry : String × Node → String × Toml
  | (key, node) => (key, close node)
end

end Node

def buildFrom (current : List String) (entries : Node.Entries) :
    List Statement → Option Node.Entries
  | [] => some entries
  | .header path :: rest => do
    let key ← path.getLast?
    let (_, entries) ← Node.changeAt false (Node.openTable key) path.dropLast .byHeader entries
    buildFrom path entries rest
  | .arrayHeader path :: rest => do
    let key ← path.getLast?
    let (_, entries) ← Node.changeAt false (Node.openElement key) path.dropLast .byHeader entries
    buildFrom path entries rest
  | .assign path value :: rest => do
    let (_, entries) ← Node.changeAt false (Node.assign path value) current .byHeader entries
    buildFrom current entries rest

def build? (statements : List Statement) : Option Toml :=
  (buildFrom [] [] statements).map fun entries => .table (Node.closeEntries entries)

def inline? (pairs : List (List String × Toml)) : Option Toml :=
  build? (pairs.map fun (path, value) => .assign path value)

end Lineage.Toml
