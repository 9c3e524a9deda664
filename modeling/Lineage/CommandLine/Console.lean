import Lineage.CommandLine.Program

/-! A console: lines that write and remove files and run programs, all on surroundings
that live as long as the console does. -/

namespace Lineage

inductive Command where
  /-- `write PATH TEXT`: the rest of the line is what the file holds. -/
  | write (path text : String)
  /-- `remove PATH` -/
  | remove (path : String)
  /-- A program's name and its arguments. -/
  | run (program : Program) (args : List String)
deriving DecidableEq, Repr

namespace Command

def words (cs : List Char) : List String :=
  ((cs.splitOn ' ').filter (!·.isEmpty)).map String.ofList

/-- The command of a line; a line that names nothing known has none. -/
def read? (line : String) : Option Command :=
  match words line.toList with
  | "write" :: path :: _ =>
    let text := ((line.toList.drop "write ".length).dropWhile (· != ' ')).drop 1
    some (.write path (String.ofList text))
  | ["remove", path] => some (.remove path)
  | name :: args => (Program.ofName? name).map fun program => .run program args
  | [] => none

def ending (changed : Bool) : Program.Ending :=
  if changed then ⟨0, none, [], []⟩
  else ⟨1, some (Failure.file "the path does not allow that").message, [], []⟩

def change (around : Surroundings) (changed : FileTree × Bool) :
    Program.Ending × Surroundings :=
  (ending changed.2, { around with files := changed.1 })

def perform (c : Command) (around : Surroundings) : Program.Ending × Surroundings :=
  match c with
  | .write path text =>
    change around (around.files.write around.working path (Text.utf8 text))
  | .remove path =>
    change around ((around.files.remove around.working path).getD (around.files, false))
  | .run program args => program.run args around

end Command

namespace Surroundings

/-- No files but the migrations that make the standard tables. -/
def bare : Surroundings :=
  { files := FileTree.empty.installMigrations [], working := [], environment := [],
    portsInUse := [] }

end Surroundings

end Lineage
