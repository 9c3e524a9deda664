import Lineage.Json.Basic
import Lineage.Text.Bytes

/-! Reading JSON. The input is a list of symbols, so that a file may hold bytes that
are not UTF-8: they are refused outside strings and make a string unreadable.
Reading never stops for depth; how deep a record may nest is the record's affair. -/

namespace Lineage.Json
open Lineage.Text (Symbol)

abbrev Input := List Symbol

def isSpace (c : Char) : Bool := c == ' ' || c == '\n' || c == '\t' || c == '\r'

def skipSpace : Input → Input
  | some c :: rest => if isSpace c then skipSpace rest else some c :: rest
  | rest => rest

def after? : List Char → Input → Option Input
  | [], rest => some rest
  | c :: cs, some d :: rest => if c == d then after? cs rest else none
  | _ :: _, _ => none

/-- What a string is made of: symbols, and numbers of UTF-16 units from escapes. -/
inductive Piece where
  | symbol (s : Symbol)
  | unit (n : Nat)

/-- The character that a letter after a backslash stands for. -/
def shortEscape? (c : Char) : Option Char :=
  if c == '"' || c == '\\' || c == '/' then some c
  else if c == 'b' then some (Char.ofNat 8)
  else if c == 'f' then some (Char.ofNat 12)
  else if c == 'n' then some '\n'
  else if c == 'r' then some '\r'
  else if c == 't' then some '\t'
  else none

def unit? (digits : List Symbol) : Option Nat :=
  (digits.mapM id).bind Text.hexNumber?

/-- The pieces up to the closing quotation mark, and what follows it. -/
def pieces? : Input → Option (List Piece × Input)
  | some '"' :: rest => some ([], rest)
  | some '\\' :: some 'u' :: a :: b :: c :: d :: rest => do
    let n ← unit? [a, b, c, d]
    let (more, rest) ← pieces? rest
    some (.unit n :: more, rest)
  | some '\\' :: some e :: rest => do
    let c ← shortEscape? e
    let (more, rest) ← pieces? rest
    some (.symbol (some c) :: more, rest)
  | some '\\' :: _ => none
  | some c :: rest =>
    if c.toNat < 32 then none
    else (pieces? rest).map fun (more, rest) => (.symbol (some c) :: more, rest)
  | none :: rest => (pieces? rest).map fun (more, rest) => (.symbol none :: more, rest)
  | [] => none

def isHighSurrogate (n : Nat) : Bool := 0xD800 ≤ n && n ≤ 0xDBFF
def isLowSurrogate (n : Nat) : Bool := 0xDC00 ≤ n && n ≤ 0xDFFF

/-- Two surrogates in a row are one character; a single one is none. -/
def joinPieces : List Piece → List Symbol
  | [] => []
  | .symbol s :: rest => s :: joinPieces rest
  | .unit high :: .unit low :: rest =>
    if isHighSurrogate high && isLowSurrogate low then
      some (Char.ofNat (0x10000 + 0x400 * (high - 0xD800) + (low - 0xDC00))) :: joinPieces rest
    else if isHighSurrogate high || isLowSurrogate high then
      none :: joinPieces (.unit low :: rest)
    else some (Char.ofNat high) :: joinPieces (.unit low :: rest)
  | .unit n :: rest =>
    (if isHighSurrogate n || isLowSurrogate n then none else some (Char.ofNat n)) ::
      joinPieces rest

/-- The text of a string after its opening quotation mark, or `none` in its place
when it denotes no text. -/
def stringBody? (input : Input) : Option (Option String × Input) :=
  (pieces? input).map fun (pieces, rest) =>
    (((joinPieces pieces).mapM id).map String.ofList, rest)

def spanDigits : Input → List Char × Input
  | some c :: rest =>
    if c.isDigit then
      let (digits, rest) := spanDigits rest
      (c :: digits, rest)
    else ([], some c :: rest)
  | rest => ([], rest)

def digits? (input : Input) : Option (List Char × Input) :=
  match spanDigits input with
  | ([], _) => none
  | found => some found

/-- The input after a fraction, and whether there was one. -/
def fraction? : Input → Option (Bool × Input)
  | some '.' :: rest => (digits? rest).map fun (_, rest) => (true, rest)
  | rest => some (false, rest)

def skipSign : Input → Input
  | some '+' :: rest => rest
  | some '-' :: rest => rest
  | rest => rest

def exponent? : Input → Option (Bool × Input)
  | some c :: rest =>
    if c == 'e' || c == 'E' then
      (digits? (skipSign rest)).map fun (_, rest) => (true, rest)
    else some (false, some c :: rest)
  | rest => some (false, rest)

/-- A number after its sign. Zero is the only whole part that starts with a zero. -/
def number? (negative : Bool) (input : Input) : Option (Json × Input) := do
  let (whole, rest) ← digits? input
  if whole.head? == some '0' && whole.length != 1 then none
  else
    let (fraction, rest) ← fraction? rest
    let (exponent, rest) ← exponent? rest
    let n := Nat.ofDigitChars 10 whole 0
    if fraction || exponent || (negative && n == 0) then some (.unreadable, rest)
    else some (.int (if negative then -(n : Int) else n), rest)

/-- An object whose keys all denote texts. -/
def object (entries : List (Option String × Json)) : Json :=
  match entries.mapM fun (key, v) => key.map (·, v) with
  | some entries => .obj entries
  | none => .unreadable

mutual
/-- A value and what follows it. Each step down spends fuel. -/
def value? : Nat → Input → Option (Json × Input)
  | 0, _ => none
  | fuel + 1, input =>
    match skipSpace input with
    | some '"' :: rest =>
      (stringBody? rest).map fun (s, rest) => ((s.map Json.str).getD .unreadable, rest)
    | some '[' :: rest =>
      match skipSpace rest with
      | some ']' :: rest => some (.arr [], rest)
      | rest => (items? fuel rest).map fun (items, rest) => (.arr items, rest)
    | some '\x7b' :: rest =>
      match skipSpace rest with
      | some '\x7d' :: rest => some (.obj [], rest)
      | rest => (entries? fuel rest).map fun (entries, rest) => (object entries, rest)
    | some 'n' :: rest => (after? ['u', 'l', 'l'] rest).map (Json.null, ·)
    | some 't' :: rest => (after? ['r', 'u', 'e'] rest).map (Json.bool true, ·)
    | some 'f' :: rest => (after? ['a', 'l', 's', 'e'] rest).map (Json.bool false, ·)
    | some '-' :: rest => number? true rest
    | rest => number? false rest
def items? : Nat → Input → Option (List Json × Input)
  | 0, _ => none
  | fuel + 1, input => do
    let (v, rest) ← value? fuel input
    match skipSpace rest with
    | some ',' :: rest => (items? fuel rest).map fun (more, rest) => (v :: more, rest)
    | some ']' :: rest => some ([v], rest)
    | _ => none
/-- One entry or more, up to the closing brace. -/
def entries? : Nat → Input → Option (List (Option String × Json) × Input)
  | 0, _ => none
  | fuel + 1, input => do
    let rest ← after? ['"'] (skipSpace input)
    let (key, rest) ← stringBody? rest
    let rest ← after? [':'] (skipSpace rest)
    let (v, rest) ← value? fuel rest
    match skipSpace rest with
    | some ',' :: rest => (entries? fuel rest).map fun (more, rest) => ((key, v) :: more, rest)
    | some '\x7d' :: rest => some ([(key, v)], rest)
    | _ => none
end

/-- The one value that the input holds. A step down reads a symbol at least every
second time, so the fuel suffices. -/
def parse? (input : Input) : Option Json := do
  let (v, rest) ← value? (2 * input.length + 2) input
  if (skipSpace rest).isEmpty then some v else none

def ofString? (s : String) : Option Json := parse? (s.toList.map some)

def ofBytes? (bytes : List UInt8) : Option Json := parse? (Text.symbols bytes)

end Lineage.Json
