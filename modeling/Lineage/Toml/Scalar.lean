import Lineage.Toml.Basic
import Lineage.Text.Bytes

/-! Values written without marks: booleans, integers in four bases, floating-point
numbers, and dates and times. A word that begins like a number can be a value of the
document and yet be none: it is kept as malformed, and only who looks at it fails. -/

namespace Lineage.Toml
open Lineage.Text (hexValue?)

def valueIn (base : Nat) (digits : List Char) : Nat :=
  digits.foldl (fun n c => base * n + (hexValue? c).getD 0) 0

def isHex (c : Char) : Bool := (hexValue? c).isSome
def isOctal (c : Char) : Bool := '0' ≤ c && c ≤ '7'
def isBinary (c : Char) : Bool := c == '0' || c == '1'

def isUnderscore (c : Char) : Bool := c == '_'

def dropUnderscores (cs : List Char) : List Char := cs.filter (!isUnderscore ·)

/-- Whether each underscore has characters on both sides, and digits next to it. Before the
first one a lone character may stand that is no digit: the sign. -/
def underscoresFit (isDigit : Char → Bool) (cs : List Char) : Bool :=
  let parts := cs.splitOn '_'
  parts.all (!·.isEmpty) &&
    (parts.drop 1).all (fun part => part.head?.any isDigit) &&
    parts.dropLast.all fun part => part.length ≤ 1 || part.getLast?.any isDigit

def dropSign : List Char → Bool × List Char
  | '+' :: rest => (false, rest)
  | '-' :: rest => (true, rest)
  | rest => (false, rest)

/-- Whether a double is near `digits · 10 ^ exponent`: from the middle between the
largest double and 2 ^ 1024 on, numbers are rounded to infinity. -/
def isNearDouble (digits : List Char) (exponent : Int) : Bool :=
  let n := valueIn 10 digits
  let magnitude := ((Nat.toDigits 10 n).length : Int) + exponent
  if n == 0 || magnitude < 300 then true
  else if 320 < magnitude then false
  else
    let bound := Nat.pow 2 1024 - Nat.pow 2 970
    if 0 ≤ exponent then n * Nat.pow 10 exponent.toNat < bound
    else n < bound * Nat.pow 10 exponent.natAbs

/-- The integers that a document may hold: those of 128 bits, with or without a sign. -/
def inRange128 (n : Int) : Bool := -Int.pow 2 127 ≤ n && n < Int.pow 2 128

def ofInt (n : Int) : Toml := if inRange128 n then .integer n else .malformed

/-- Digits in a base. None at all are malformed. -/
def based? (base : Nat) (isDigit : Char → Bool) (cs : List Char) : Option Toml :=
  if cs.isEmpty then some .malformed
  else if cs.all (fun c => isDigit c || isUnderscore c) && underscoresFit isDigit cs then
    some (ofInt (valueIn base (dropUnderscores cs)))
  else none

/-- An integer in base ten with its sign. The first underscore makes one of a word, so
that other characters may stand behind it. -/
def decimal? (cs : List Char) : Option Toml :=
  if !underscoresFit isHex cs then none
  else
    let (negative, digits) := dropSign (dropUnderscores cs)
    if digits.isEmpty || !digits.all Char.isDigit then some .malformed
    else
      let n : Int := valueIn 10 digits
      some (ofInt (if negative then -n else n))

/-- Digits and underscores at the front, at least one digit among them. -/
def digits? (cs : List Char) : Option (List Char × List Char) :=
  let run := cs.takeWhile fun c => c.isDigit || isUnderscore c
  if run.any Char.isDigit then some (dropUnderscores run, cs.drop run.length) else none

def fraction? : List Char → Option (List Char × List Char)
  | '.' :: rest => digits? rest
  | rest => some ([], rest)

def exponent? : List Char → Option (Int × List Char)
  | [] => some (0, [])
  | c :: rest =>
    if c == 'e' || c == 'E' then do
      let (negative, rest) := dropSign rest
      let (digits, rest) ← digits? rest
      let n : Int := valueIn 10 digits
      some (if negative then -n else n, rest)
    else some (0, c :: rest)

/-- An unsigned number with a fraction, an exponent or both. -/
def float? (cs : List Char) : Option Toml := do
  let (whole, rest) ← digits? cs
  if 1 < whole.length && cs.head? == some '0' then none
  let (fraction, rest) ← fraction? rest
  let (power, rest) ← exponent? rest
  if !rest.isEmpty then none
  some (if isNearDouble (whole ++ fraction) (power - fraction.length) then .float else .malformed)

/-- Exactly `width` digits with a value between `low` and `high`. -/
def field? (width low high : Nat) (cs : List Char) : Option (Nat × List Char) :=
  let digits := cs.take width
  if digits.length == width && digits.all Char.isDigit then
    let n := valueIn 10 digits
    if low ≤ n && n ≤ high then some (n, cs.drop width) else none
  else none

def mark? (c : Char) : List Char → Option (List Char)
  | d :: rest => if c == d then some rest else none
  | [] => none

def daysIn (year month : Nat) : Nat :=
  if month == 2 then
    (if year % 4 == 0 && (year % 100 != 0 || year % 400 == 0) then 29 else 28)
  else if month == 4 || month == 6 || month == 9 || month == 11 then 30
  else 31

def date? (cs : List Char) : Option (List Char) := do
  let (year, cs) ← field? 4 0 9999 cs
  let cs ← mark? '-' cs
  let (month, cs) ← field? 2 1 12 cs
  let cs ← mark? '-' cs
  let (_, cs) ← field? 2 1 (daysIn year month) cs
  some cs

/-- A time of day; seconds may be left out, and a fraction may follow them. -/
def time? (cs : List Char) : Option (List Char) := do
  let (_, cs) ← field? 2 0 23 cs
  let cs ← mark? ':' cs
  let (_, cs) ← field? 2 0 59 cs
  match cs with
  | ':' :: cs => do
    let (_, cs) ← field? 2 0 60 cs
    match cs with
    | '.' :: cs =>
      if (cs.takeWhile Char.isDigit).isEmpty then none else some (cs.dropWhile Char.isDigit)
    | _ => some cs
  | _ => some cs

def offset? : List Char → Option (List Char)
  | [] => some []
  | c :: rest =>
    if c == 'Z' || c == 'z' then some rest
    else if c == '+' || c == '-' then do
      let (_, rest) ← field? 2 0 23 rest
      let rest ← mark? ':' rest
      let (_, rest) ← field? 2 0 59 rest
      some rest
    else none

/-- A date, a time, or both with an offset if there is one. -/
def isDateTime (cs : List Char) : Bool :=
  match date? cs with
  | some [] => true
  | some (c :: rest) =>
    (c == 'T' || c == 't' || c == ' ') && ((time? rest).bind offset?) == some []
  | none => time? cs == some []

def isExponentOrPoint (c : Char) : Bool := c == '.' || c == 'e' || c == 'E'

/-- A word that begins with a digit or an underscore behind its sign. What follows the
first digits tells an integer, a date and a floating-point number apart. -/
def number? (word unsigned : List Char) : Option Toml :=
  let rest := unsigned.dropWhile Char.isDigit
  let asInteger := if unsigned.head? == some '0' then none else decimal? word
  match rest with
  | [] => asInteger
  | c :: _ =>
    if c == '-' || c == ':' then (if isDateTime word then some .dateTime else none)
    else if rest.contains ' ' then none
    else if rest.any isExponentOrPoint then
      (if underscoresFit Char.isDigit word then float? unsigned else none)
    else if isUnderscore c then asInteger
    else none

def isName (cs : List Char) : Bool := cs == "inf".toList || cs == "nan".toList

def signed? (word unsigned : List Char) : Option Toml :=
  if isName unsigned then some .float
  else match unsigned with
    | ['0'] => decimal? word
    | c :: _ => if c.isDigit || isUnderscore c then number? word unsigned else none
    | [] => none

def scalar? (word : List Char) : Option Toml :=
  match word with
  | '+' :: rest => signed? word rest
  | '-' :: rest => signed? word rest
  | '0' :: 'x' :: rest => based? 16 isHex rest
  | '0' :: 'o' :: rest => based? 8 isOctal rest
  | '0' :: 'b' :: rest => based? 2 isBinary rest
  | ['0'] => some (.integer 0)
  | _ =>
    if word == "true".toList then some (.boolean true)
    else if word == "false".toList then some (.boolean false)
    else if isName word then some .float
    else if word.head?.any Char.isDigit then number? word word
    else none

/-- The characters that end a word. -/
def endsWord (c : Char) : Bool := "=,[]\x7b\x7d# \t\r\n".toList.contains c

/-- A scalar at the front. A blank between a date and a time belongs to it. -/
def scalarAt? (cs : List Char) : Option (Toml × List Char) :=
  let word := cs.takeWhile (!endsWord ·)
  let rest := cs.dropWhile (!endsWord ·)
  match date? word, rest with
  | some [], ' ' :: c :: more =>
    if c.isDigit then
      let time := (c :: more).takeWhile (!endsWord ·)
      (scalar? (word ++ ' ' :: time)).map (·, (c :: more).dropWhile (!endsWord ·))
    else (scalar? word).map (·, rest)
  | _, _ => (scalar? word).map (·, rest)

end Lineage.Toml
