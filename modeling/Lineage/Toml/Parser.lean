import Lineage.Toml.Text
import Lineage.Toml.Scalar
import Lineage.Toml.Document

/-! Reading TOML documents. Arrays and tables in braces may run over several lines, hold
comments and end with a comma; lines may end on either side of an equals sign in them. -/

namespace Lineage.Toml

mutual
/-- A value at the front. Each call spends fuel; `depth` is the nesting still allowed. -/
def value? : (fuel depth : Nat) → List Char → Option (Toml × List Char)
  | 0, _, _ => none
  | fuel + 1, depth, cs =>
    match cs with
    | '[' :: rest =>
      if depth == 0 then none
      else do
        let rest ← skipFiller false rest
        let (items, rest) ← items? fuel (depth - 1) rest
        some (.array items, rest)
    | '\x7b' :: rest =>
      if depth == 0 then none
      else do
        let rest ← skipFiller false rest
        let (pairs, rest) ← pairs? fuel (depth - 1) rest
        let table ← inline? pairs
        some (table, rest)
    | c :: _ =>
      if c == '"' || c == '\'' then
        (quoted? cs).map fun (s, rest) => (.string (String.ofList s), rest)
      else scalarAt? cs
    | [] => none
def items? : (fuel depth : Nat) → List Char → Option (List Toml × List Char)
  | 0, _, _ => none
  | _ + 1, _, ']' :: rest => some ([], rest)
  | fuel + 1, depth, cs => do
    let (v, rest) ← value? fuel depth cs
    match ← skipFiller false rest with
    | ',' :: rest =>
      let rest ← skipFiller false rest
      let (more, rest) ← items? fuel depth rest
      some (v :: more, rest)
    | ']' :: rest => some ([v], rest)
    | _ => none
def pairs? : (fuel depth : Nat) → List Char → Option (List (List String × Toml) × List Char)
  | 0, _, _ => none
  | _ + 1, _, '\x7d' :: rest => some ([], rest)
  | fuel + 1, depth, cs => do
    let (path, rest) ← key? cs
    let rest ← mark? '=' (← skipFiller false rest)
    let rest ← skipFiller false rest
    let (v, rest) ← value? fuel depth rest
    match ← skipFiller false rest with
    | ',' :: rest =>
      let rest ← skipFiller false rest
      let (more, rest) ← pairs? fuel depth rest
      some ((path, v) :: more, rest)
    | '\x7d' :: rest => some ([(path, v)], rest)
    | _ => none
end

/-- A statement after the blanks before it; a header is known by its bracket. -/
def statement? (cs : List Char) : Option (Statement × List Char) :=
  match cs with
  | '[' :: '[' :: rest => do
    let (path, rest) ← key? rest
    let rest ← mark? ']' rest
    let rest ← mark? ']' rest
    some (.arrayHeader path, rest)
  | '[' :: rest => do
    let (path, rest) ← key? rest
    let rest ← mark? ']' rest
    some (.header path, rest)
  | _ => do
    let (path, rest) ← key? cs
    let rest ← mark? '=' rest
    let (v, rest) ← value? (2 * rest.length + 2) nestingLimit (skipSpace rest)
    some (.assign path v, rest)

/-- The statements up to the end, with fuel for each of them. -/
def statementsWithin : Nat → List Char → Option (List Statement)
  | 0, _ => none
  | fuel + 1, cs => do
    let cs ← skipFiller false cs
    if cs.isEmpty then some []
    else
      let (statement, rest) ← statement? cs
      let rest ← endOfLine? rest
      let more ← statementsWithin fuel rest
      some (statement :: more)

def parse? (s : String) : Option Toml :=
  let cs := match s.toList with
    | c :: rest => if c.toNat == 0xFEFF then rest else c :: rest
    | [] => []
  (statementsWithin (cs.length + 1) cs).bind build?

end Lineage.Toml
