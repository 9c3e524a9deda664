import Lineage.Database.ItemTable
import Lineage.Failure

/-! Selections of stored items. A selection has marks where values are to stand. The values
are given apart from it, in the order of the marks, and must be as many as these. -/

namespace Lineage

inductive BoundValue where
  | text (text : String)
  | integer (number : Int)
deriving DecidableEq, Repr

/-- That a column of a row is among the values at the marks of the condition. -/
inductive Condition where
  | typeAmong (marks : Nat)
  | publishedIs
deriving DecidableEq, Repr

namespace Condition

def marks : Condition → Nat
  | typeAmong marks => marks
  | publishedIs => 1

def column (row : ItemRow) : Condition → BoundValue
  | typeAmong _ => .text row.contentType
  | publishedIs => .integer row.published.toInt

/-- Whether a row meets all of some conditions. Each takes its values from the front of
those that the ones before it left. -/
def allHold (row : ItemRow) : List Condition → List BoundValue → Bool
  | [], _ => true
  | condition :: rest, values =>
    (values.take condition.marks).contains (condition.column row) &&
      allHold row rest (values.drop condition.marks)

@[simp] theorem allHold_nil (row : ItemRow) (values : List BoundValue) :
    allHold row [] values = true := rfl

theorem allHold_cons_append (row : ItemRow) {condition : Condition} (rest : List Condition)
    {own : List BoundValue} (h : own.length = condition.marks) (others : List BoundValue) :
    allHold row (condition :: rest) (own ++ others) =
      (own.contains (condition.column row) && allHold row rest others) := by
  rw [allHold, ← h, List.take_left, List.drop_left]

end Condition

/-- A window of the rows that meet all conditions, in the order of the table. Behind the marks
of the conditions come one for the size of the window and one for the place where it begins. -/
structure Selection where
  conditions : List Condition
deriving DecidableEq, Repr

namespace Selection

def conditionMarks (s : Selection) : Nat :=
  s.conditions.foldr (fun condition marks => condition.marks + marks) 0

def marks (s : Selection) : Nat := s.conditionMarks + 2

/-- At most `limit` rows from `offset` on; a limit below zero is none. -/
def window (limit offset : Int) (rows : List ItemRow) : List ItemRow :=
  let rest := rows.drop offset.toNat
  if limit < 0 then rest else rest.take limit.toNat

/-- The rows that are selected when the values stand at the marks. -/
def rows (s : Selection) (values : List BoundValue) (table : List ItemRow) :
    Except Failure (List ItemRow) :=
  if values.length = s.marks then
    match values.drop s.conditionMarks with
    | [.integer limit, .integer offset] =>
      .ok (window limit offset (table.filter fun row => Condition.allHold row s.conditions values))
    | _ => .error (.database "datatype mismatch")
  else
    .error (.database ("Wrong number of parameters passed to query. Got " ++
      toString values.length ++ ", needed " ++ toString s.marks))

end Selection

end Lineage
