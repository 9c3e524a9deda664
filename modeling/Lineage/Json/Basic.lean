import Lineage.Text.Basic

/-! JSON values, the compact text that a value is written as, and the few ways in
which a record's values are taken out of one. Numbers are integers: no record of
this library has a fraction in it. -/

namespace Lineage

/-- `unreadable` is a well-formed text that no value can be read from: a number
with a fraction, an exponent or a negative zero, a string that denotes no text,
an object with such a string among its keys. It may stand only where values are
passed over. -/
inductive Json where
  | null
  | bool (b : Bool)
  | int (n : Int)
  | str (s : String)
  | arr (items : List Json)
  | obj (entries : List (String × Json))
  | unreadable

namespace Json

/-- Quotation mark, backslash and control characters are escaped, five of the
latter by a letter; all else stands for itself. -/
def escaped (c : Char) : List Char :=
  if c == '"' then ['\\', '"']
  else if c == '\\' then ['\\', '\\']
  else if c.toNat == 8 then ['\\', 'b']
  else if c.toNat == 12 then ['\\', 'f']
  else if c == '\n' then ['\\', 'n']
  else if c == '\r' then ['\\', 'r']
  else if c == '\t' then ['\\', 't']
  else if c.toNat < 32 then
    ['\\', 'u', '0', '0', Nat.digitChar (c.toNat / 16), Nat.digitChar (c.toNat % 16)]
  else [c]

def stringChars (s : String) : List Char :=
  '"' :: s.toList.flatMap escaped ++ ['"']

def intChars (n : Int) : List Char :=
  if n < 0 then '-' :: Nat.toDigits 10 n.natAbs else Nat.toDigits 10 n.natAbs

mutual
/-- Elements and entries are written each with the mark before it: the opening
bracket or a comma. -/
def chars : Json → List Char
  | .null => ['n', 'u', 'l', 'l']
  | .bool true => ['t', 'r', 'u', 'e']
  | .bool false => ['f', 'a', 'l', 's', 'e']
  | .int n => intChars n
  | .str s => stringChars s
  | .arr items => itemsChars '[' items
  | .obj entries => entriesChars '\x7b' entries
  | .unreadable => []
def itemsChars (mark : Char) : List Json → List Char
  | [] => if mark == '[' then ['[', ']'] else [']']
  | v :: rest => mark :: chars v ++ itemsChars ',' rest
def entriesChars (mark : Char) : List (String × Json) → List Char
  | [] => if mark == '\x7b' then ['\x7b', '\x7d'] else ['\x7d']
  | e :: rest => mark :: entryChars e ++ entriesChars ',' rest
def entryChars : String × Json → List Char
  | (key, v) => stringChars key ++ ':' :: chars v
end

/-- The compact text: no blanks, keys as they come. -/
def text (v : Json) : String := String.ofList v.chars

/-- An object in the order that keys have in sorted texts. -/
def sorted (entries : List (String × Json)) : Json :=
  .obj (entries.mergeSort fun a b => a.1 ≤ b.1)

def int64? : Json → Option Int
  | .int n => if Text.inSigned64 n then some n else none
  | _ => none

def string? : Json → Option String
  | .str s => some s
  | _ => none

def bool? : Json → Option Bool
  | .bool b => some b
  | _ => none

/-- A value that may be missing: absent and null are the same. -/
def optional {α : Type} (read : Json → Option α) : Option Json → Option (Option α)
  | none => some none
  | some .null => some none
  | some v => (read v).map some

def required {α : Type} (read : Json → Option α) : Option Json → Option α
  | none => none
  | some v => read v

/-- A value that is `value` when absent; null is no value. -/
def withDefault {α : Type} (value : α) (read : Json → Option α) : Option Json → Option α
  | none => some value
  | some v => read v

/-- The value of the only entry called `name`; two such entries are refused. -/
def only? (entries : List (String × Json)) (name : String) : Option (Option Json) :=
  match entries.filter fun e => e.1 == name with
  | [] => some none
  | [e] => some (some e.2)
  | _ => none

/-- A record's values in the order of its `names`. An object gives them by name and
may have other entries, an array gives them by position and may only be shorter. -/
def record? (names : List String) : Json → Option (List (Option Json))
  | .obj entries => names.mapM (only? entries)
  | .arr items =>
    if items.length ≤ names.length then
      some (items.map some ++ List.replicate (names.length - items.length) none)
    else none
  | _ => none

end Json

end Lineage
