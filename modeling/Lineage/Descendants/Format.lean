import Lineage.Failure

/-! The shapes in which descendants are given, and their names. -/

namespace Lineage

inductive DescendantFormat where
  /-- Every visit in order: a node that is reached along several paths occurs once for
  each of them. -/
  | flat
  /-- The visits without repetitions. -/
  | unique
  /-- A tree under the node that was asked about. -/
  | depth
deriving DecidableEq, Repr

namespace DescendantFormat

def name : DescendantFormat → String
  | flat => "flat"
  | unique => "unique"
  | depth => "depth"

/-- The format of a request, where anything that is not the name of another one means
`flat`. -/
def ofParameter (value : Option String) : DescendantFormat :=
  if value == some "depth" then depth
  else if value == some "unique" then unique
  else flat

def ofName? (s : String) : Option DescendantFormat :=
  [flat, unique, depth].find? fun format => format.name == s

def ofName (s : String) : Except Failure DescendantFormat :=
  match ofName? s with
  | some format => .ok format
  | none => .error (.invalidInput
      ("unknown descendant format '" ++ s ++ "' (expected flat, unique or depth)"))

end DescendantFormat

end Lineage
