import Lineage.Text.Basic

/-! TOML values, and how records are taken out of them. Dates and floating-point
numbers are told apart but not kept: no record of this library has one. -/

namespace Lineage

/-- `malformed` is what looks like a number and cannot be read as one: it is too large, or
it has other characters in it. -/
inductive Toml where
  | string (s : String)
  | integer (n : Int)
  | float
  | boolean (b : Bool)
  | dateTime
  | malformed
  | array (items : List Toml)
  | table (entries : List (String × Toml))

namespace Toml

mutual
/-- Whether a value that nothing is read from may be passed over. -/
def isPassable : Toml → Bool
  | .malformed => false
  | .array items => itemsPassable items
  | .table entries => entriesPassable entries
  | _ => true
def itemsPassable : List Toml → Bool
  | [] => true
  | v :: rest => isPassable v && itemsPassable rest
def entriesPassable : List (String × Toml) → Bool
  | [] => true
  | e :: rest => entryPassable e && entriesPassable rest
def entryPassable : String × Toml → Bool
  | (_, v) => isPassable v
end

def string? : Toml → Option String
  | .string s => some s
  | _ => none

def boolean? : Toml → Option Bool
  | .boolean b => some b
  | _ => none

def countUpTo? (most : Nat) : Toml → Option Nat
  | .integer n => if 0 ≤ n && n ≤ (most : Int) then some n.toNat else none
  | _ => none

def list? {α : Type} (read : Toml → Option α) : Toml → Option (List α)
  | .array items => items.mapM read
  | _ => none

def required {α : Type} (read : Toml → Option α) : Option Toml → Option α
  | none => none
  | some v => read v

def optional {α : Type} (read : Toml → Option α) : Option Toml → Option (Option α)
  | none => some none
  | some v => (read v).map some

def withDefault {α : Type} (value : α) (read : Toml → Option α) : Option Toml → Option α
  | none => some value
  | some v => read v

def lookup (entries : List (String × Toml)) (name : String) : Option Toml :=
  (entries.find? fun e => e.1 == name).map Prod.snd

/-- A record's values in the order of its `names`. A table gives them by name and may
have other entries that can be passed over. An array gives them by position; what it
has too many is not looked at. A date is a table without any of the names. -/
def record? (names : List String) : Toml → Option (List (Option Toml))
  | .table entries =>
    if entries.all fun e => names.contains e.1 || e.2.isPassable then
      some (names.map (lookup entries))
    else none
  | .array items => some ((List.range names.length).map fun i => items[i]?)
  | .dateTime => some (names.map fun _ => none)
  | _ => none

end Toml

end Lineage
