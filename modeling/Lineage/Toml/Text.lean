import Lineage.Text.Bytes

/-! The characters of TOML documents: blanks, comments, line ends, keys and strings.
Every function takes the characters that are left and gives back the rest. -/

namespace Lineage.Toml
open Lineage.Text (hexNumber?)

/-- The characters that may stand in comments and strings as they are. -/
def isPlain (c : Char) : Bool := c == '\t' || (32 ≤ c.toNat && c.toNat != 127)

def isSpace (c : Char) : Bool := c == ' ' || c == '\t'

def skipSpace (cs : List Char) : List Char := cs.dropWhile isSpace

def newline? : List Char → Option (List Char)
  | '\n' :: rest => some rest
  | '\r' :: '\n' :: rest => some rest
  | _ => none

/-- The rest of a line on which nothing more may stand than a comment. -/
def endOfLine? (cs : List Char) : Option (List Char) :=
  let cs := match skipSpace cs with
    | '#' :: rest => rest.dropWhile isPlain
    | rest => rest
  if cs.isEmpty then some [] else newline? cs

/-- Skips blanks, line ends and comments. -/
def skipFiller (inComment : Bool) : List Char → Option (List Char)
  | [] => some []
  | '\n' :: rest => skipFiller false rest
  | '\r' :: '\n' :: rest => skipFiller false rest
  | c :: rest =>
    if inComment then (if isPlain c then skipFiller true rest else none)
    else if isSpace c then skipFiller false rest
    else if c == '#' then skipFiller true rest
    else some (c :: rest)

/-- The character that a letter after a backslash stands for. -/
def shortEscape? (c : Char) : Option Char :=
  if c == '"' || c == '\\' then some c
  else if c == 'b' then some (Char.ofNat 8)
  else if c == 't' then some '\t'
  else if c == 'n' then some '\n'
  else if c == 'f' then some (Char.ofNat 12)
  else if c == 'r' then some '\r'
  else if c == 'e' then some (Char.ofNat 27)
  else none

/-- The character with a hexadecimal number; surrogates have none. -/
def numbered? (digits : List Char) : Option Char :=
  (hexNumber? digits).bind fun n => if n.isValidChar then some (Char.ofNat n) else none

/-- The character of an escape after its backslash. -/
def escape? : List Char → Option (Char × List Char)
  | 'x' :: a :: b :: rest => (numbered? [a, b]).map (·, rest)
  | 'u' :: a :: b :: c :: d :: rest => (numbered? [a, b, c, d]).map (·, rest)
  | 'U' :: a :: b :: c :: d :: e :: f :: g :: h :: rest =>
    (numbered? [a, b, c, d, e, f, g, h]).map (·, rest)
  | c :: rest => (shortEscape? c).map (·, rest)
  | [] => none

/-- A string on one line after its opening mark, with fuel for each character. -/
def basicWithin : Nat → List Char → Option (List Char × List Char)
  | 0, _ => none
  | _ + 1, '"' :: rest => some ([], rest)
  | fuel + 1, '\\' :: rest => do
    let (c, rest) ← escape? rest
    let (more, rest) ← basicWithin fuel rest
    some (c :: more, rest)
  | fuel + 1, c :: rest =>
    if isPlain c then (basicWithin fuel rest).map fun (more, rest) => (c :: more, rest) else none
  | _ + 1, [] => none

/-- A string of several lines after its opening marks. A backslash at the end of a
line drops the blanks and line ends up to the next character; `skipping` says that
they are being dropped. Two marks may stand directly before the three that close. -/
def basicLinesWithin : Nat → (skipping : Bool) → List Char → Option (List Char × List Char)
  | 0, _, _ => none
  | _ + 1, _, '"' :: '"' :: '"' :: '"' :: '"' :: rest => some (['"', '"'], rest)
  | _ + 1, _, '"' :: '"' :: '"' :: '"' :: rest => some (['"'], rest)
  | _ + 1, _, '"' :: '"' :: '"' :: rest => some ([], rest)
  | fuel + 1, skipping, '\n' :: rest => do
    let (more, rest) ← basicLinesWithin fuel skipping rest
    some (if skipping then more else '\n' :: more, rest)
  | fuel + 1, skipping, '\r' :: '\n' :: rest => do
    let (more, rest) ← basicLinesWithin fuel skipping rest
    some (if skipping then more else '\r' :: '\n' :: more, rest)
  | fuel + 1, _, '\\' :: rest =>
    if (newline? (skipSpace rest)).isSome then basicLinesWithin fuel true rest
    else do
      let (c, rest) ← escape? rest
      let (more, rest) ← basicLinesWithin fuel false rest
      some (c :: more, rest)
  | fuel + 1, skipping, c :: rest =>
    if skipping && isSpace c then basicLinesWithin fuel true rest
    else if isPlain c then
      (basicLinesWithin fuel false rest).map fun (more, rest) => (c :: more, rest)
    else none
  | _ + 1, _, [] => none

def literal? : List Char → Option (List Char × List Char)
  | '\'' :: rest => some ([], rest)
  | c :: rest =>
    if isPlain c then (literal? rest).map fun (more, rest) => (c :: more, rest) else none
  | [] => none

def literalLines? : List Char → Option (List Char × List Char)
  | '\'' :: '\'' :: '\'' :: '\'' :: '\'' :: rest => some (['\'', '\''], rest)
  | '\'' :: '\'' :: '\'' :: '\'' :: rest => some (['\''], rest)
  | '\'' :: '\'' :: '\'' :: rest => some ([], rest)
  | '\n' :: rest => (literalLines? rest).map fun (more, rest) => ('\n' :: more, rest)
  | '\r' :: '\n' :: rest =>
    (literalLines? rest).map fun (more, rest) => ('\r' :: '\n' :: more, rest)
  | c :: rest =>
    if isPlain c then (literalLines? rest).map fun (more, rest) => (c :: more, rest) else none
  | [] => none

/-- A line end directly after the opening marks does not belong to the string. -/
def skipNewline (cs : List Char) : List Char := (newline? cs).getD cs

def quoted? : List Char → Option (List Char × List Char)
  | '"' :: '"' :: '"' :: rest => basicLinesWithin (rest.length + 1) false (skipNewline rest)
  | '"' :: rest => basicWithin (rest.length + 1) rest
  | '\'' :: '\'' :: '\'' :: rest => literalLines? (skipNewline rest)
  | '\'' :: rest => literal? rest
  | _ => none

def isBare (c : Char) : Bool := c.isAlphanum || c == '_' || c == '-'

/-- One part of a key: bare, or a string on one line. -/
def keyPart? (cs : List Char) : Option (String × List Char) :=
  match cs with
  | '"' :: rest => (basicWithin (rest.length + 1) rest).map fun (s, rest) => (String.ofList s, rest)
  | '\'' :: rest => (literal? rest).map fun (s, rest) => (String.ofList s, rest)
  | _ =>
    let bare := cs.takeWhile isBare
    if bare.isEmpty then none else some (String.ofList bare, cs.dropWhile isBare)

/-- How deep arrays, tables in braces and dotted keys may go. -/
def nestingLimit : Nat := 80

/-- The parts of a dotted key, with the blanks around them skipped. -/
def keyWithin : (parts : Nat) → List Char → Option (List String × List Char)
  | 0, _ => none
  | parts + 1, cs => do
    let (part, cs) ← keyPart? (skipSpace cs)
    match skipSpace cs with
    | '.' :: rest => (keyWithin parts rest).map fun (more, rest) => (part :: more, rest)
    | rest => some ([part], rest)

def key? (cs : List Char) : Option (List String × List Char) := keyWithin nestingLimit cs

end Lineage.Toml
