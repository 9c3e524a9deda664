/-! Bytes and what they spell: hexadecimal notation, UTF-8 read with the undecodable places
kept apart instead of refused, and bytes that are spelled with percent signs. -/

namespace Lineage.Text

def hexDigit (n : Nat) : Char := Nat.digitChar (n % 16)

/-- Two lower-case digits a byte. -/
def toHex (bytes : List UInt8) : String :=
  String.ofList (bytes.flatMap fun b => [hexDigit (b.toNat / 16), hexDigit b.toNat])

def hexValue? (c : Char) : Option Nat :=
  if '0' ≤ c && c ≤ '9' then some (c.toNat - '0'.toNat)
  else if 'a' ≤ c && c ≤ 'f' then some (c.toNat - 'a'.toNat + 10)
  else if 'A' ≤ c && c ≤ 'F' then some (c.toNat - 'A'.toNat + 10)
  else none

/-- The value of hexadecimal digits, most significant first. -/
def hexNumber? (cs : List Char) : Option Nat :=
  cs.foldl (fun n c => n.bind fun n => (hexValue? c).map (16 * n + ·)) (some 0)

/-- A character, or a place where the bytes are not UTF-8. -/
abbrev Symbol := Option Char

def continuation? (low high : Nat) (b : UInt8) : Option Nat :=
  if low ≤ b.toNat && b.toNat ≤ high then some (b.toNat % 64) else none

/-- How a character starts: how many bytes follow, the bits that the first byte
gives, and the range of the second byte. Ranges narrower than `80..BF` rule out
overlong forms, surrogates and numbers past the last character. -/
def leadByte? (b : UInt8) : Option (Nat × Nat × Nat × Nat) :=
  let n := b.toNat
  if n < 0x80 then some (0, n, 0x80, 0xBF)
  else if 0xC2 ≤ n && n ≤ 0xDF then some (1, n % 32, 0x80, 0xBF)
  else if n == 0xE0 then some (2, 0, 0xA0, 0xBF)
  else if n == 0xED then some (2, 13, 0x80, 0x9F)
  else if 0xE1 ≤ n && n ≤ 0xEF then some (2, n % 16, 0x80, 0xBF)
  else if n == 0xF0 then some (3, 0, 0x90, 0xBF)
  else if 0xF1 ≤ n && n ≤ 0xF3 then some (3, n % 8, 0x80, 0xBF)
  else if n == 0xF4 then some (3, 4, 0x80, 0x8F)
  else none

/-- The bytes after a first byte that called for `need` of them: the character,
or `none` for the longest start of one that is there, with the bytes left over. -/
def finishChar : (need bits low high : Nat) → List UInt8 → Symbol × List UInt8
  | 0, bits, _, _, rest => (some (Char.ofNat bits), rest)
  | _ + 1, _, _, _, [] => (none, [])
  | need + 1, bits, low, high, b :: rest =>
    match continuation? low high b with
    | some six => finishChar need (64 * bits + six) 0x80 0xBF rest
    | none => (none, b :: rest)

/-- Decoding with as much fuel as there are bytes: each symbol takes at least one. -/
def symbolsWithin : Nat → List UInt8 → List Symbol
  | _, [] => []
  | 0, _ => []
  | fuel + 1, b :: rest =>
    match leadByte? b with
    | none => none :: symbolsWithin fuel rest
    | some (need, bits, low, high) =>
      let (symbol, rest) := finishChar need bits low high rest
      symbol :: symbolsWithin fuel rest

def symbols (bytes : List UInt8) : List Symbol := symbolsWithin bytes.length bytes

/-- The text that the bytes spell, if they are UTF-8 throughout. -/
def text? (bytes : List UInt8) : Option String :=
  ((symbols bytes).mapM id).map String.ofList

/-- The text with a replacement character for each undecodable place. -/
def lossyText (bytes : List UInt8) : String :=
  String.ofList ((symbols bytes).map fun s => s.getD (Char.ofNat 0xFFFD))

def utf8 (s : String) : List UInt8 := s.toList.flatMap String.utf8EncodeChar

/-! ## Percent escapes

They stand in paths and in form data. A percent sign that two hexadecimal digits do not follow
stands for itself. -/

/-- The byte that a percent sign and two digits stand for. -/
def escape? (sign high low : UInt8) : Option UInt8 :=
  if sign == 0x25 then do
    let h ← hexValue? (Char.ofNat high.toNat)
    let l ← hexValue? (Char.ofNat low.toNat)
    some (UInt8.ofNat (16 * h + l))
  else none

def percentDecode : List UInt8 → List UInt8
  | sign :: high :: low :: rest =>
    match escape? sign high low with
    | some b => b :: percentDecode rest
    | none => sign :: percentDecode (high :: low :: rest)
  | short => short

/-- In form data a plus sign is a space; what is not UTF-8 after decoding is replaced. -/
def formValue (cs : List Char) : String :=
  lossyText (percentDecode (utf8 (String.ofList (cs.map fun c => if c == '+' then ' ' else c))))

/-- The pairs of form data in order: parts between ampersands, empty ones left
out, split at their first equals sign. -/
def formPairs (s : String) : List (String × String) :=
  ((s.toList.splitOn '&').filter (!·.isEmpty)).map fun part =>
    let key := part.takeWhile (· != '=')
    (formValue key, formValue ((part.drop key.length).drop 1))

end Lineage.Text
