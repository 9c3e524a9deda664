import Lineage.Failure

/-! Paths by their components. A slash that is doubled or ends a path does not count, and
a single dot counts only where it begins one. Paths are ordered component by component. -/

namespace Lineage.Path

inductive Component where
  | root
  | here
  | up
  | name (s : String)
deriving DecidableEq, Repr

namespace Component

def text : Component → String
  | root => ""
  | here => "."
  | up => ".."
  | name s => s

def rank : Component → Nat
  | root => 0
  | here => 1
  | up => 2
  | name _ => 3

/-- Roots come first, then dots, then names in the order of their characters. -/
def order (a b : Component) : Ordering :=
  (compare a.rank b.rank).then (compare a.text b.text)

end Component

def segments (text : String) : List String :=
  (text.toList.splitOn '/').map String.ofList

/-- The component that a segment inside of a path is. -/
def inner? (segment : String) : Option Component :=
  if segment.isEmpty || segment == "." then none
  else if segment == ".." then some .up
  else some (.name segment)

def components (text : String) : List Component :=
  match segments text with
  | [] => []
  | [""] => []
  | "" :: rest => .root :: rest.filterMap inner?
  | "." :: rest => .here :: rest.filterMap inner?
  | first :: rest => (first :: rest).filterMap inner?

/-- The order of paths that are given by their components. -/
def order : List Component → List Component → Ordering
  | [], [] => .eq
  | [], _ :: _ => .lt
  | _ :: _, [] => .gt
  | a :: as, b :: bs => (a.order b).then (order as bs)

def same (a b : String) : Bool := components a == components b

def fileName? (text : String) : Option String :=
  match (components text).getLast? with
  | some (.name s) => some s
  | _ => none

/-- What follows the last dot of a name, unless nothing stands before it. -/
def extensionOf? (name : String) : Option String :=
  match (name.toList.splitOn '.').reverse with
  | last :: before =>
    if before.all List.isEmpty && before.length ≤ 1 then none else some (String.ofList last)
  | [] => none

def extension? (text : String) : Option String := (fileName? text).bind extensionOf?

def below? : (folder path : List Component) → Option (List Component)
  | [], path => some path
  | a :: folder, b :: path => if a = b then below? folder path else none
  | _ :: _, [] => none

/-- The spelling of a path that goes on from somewhere. -/
def spell (path : List Component) : String :=
  "/".intercalate (path.map Component.text)

/-- The spelling of a whole path. The root alone is a slash. -/
def spellFrom (path : List Component) : String :=
  if path == [.root] then "/" else spell path

/-- The path of names that follow each other. -/
def spellNames (names : List String) : String := "/".intercalate names

end Lineage.Path

/-! ## Source paths

The names under which the content store knows export files. They are relative to the content
folder, with slashes between their parts and none before them, and without parts that are a
single dot. -/

namespace Lineage.SourcePath

/-- The parts of a path, whichever slash separates them. -/
def parts (text : String) : List String :=
  ((text.toList.map fun c => if c == '\\' then '/' else c).splitOn '/').map String.ofList

def isPart (part : String) : Bool := !part.isEmpty && part != "."

def normalize (text : String) : String :=
  "/".intercalate ((parts text).filter isPart)

/-- Exports are the files whose extension is `json`, in letters of any size. -/
def isExport (path : String) : Bool :=
  match Path.extension? path with
  | some ext => String.ofList (ext.toList.map Char.toLower) == "json"
  | none => false

/-- The source path of a file under `root`, by its spelling alone. -/
def below? (root path : String) : Option String :=
  (Path.below? (Path.components root) (Path.components path)).map fun rest =>
    normalize (Path.spell rest)

def relative (root path : String) : Except Failure String :=
  match below? root path with
  | some sourcePath => .ok sourcePath
  | none => .error (.invalidInput (path ++ " is outside the content folder " ++ root))

end Lineage.SourcePath
