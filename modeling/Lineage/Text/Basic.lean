/-! White space and decimal digits as Unicode defines them. Everything that a person may have
typed (query values, dates, path segments) is trimmed of white space. Numbers are read from
ASCII digits; those of other scripts only a search for digits needs to recognise. -/

namespace Lineage.Text

/-- The characters that have the White_Space property. -/
def isBlank (c : Char) : Bool :=
  let n := c.toNat
  (9 ≤ n && n ≤ 13) || n == 0x20 || n == 0x85 || n == 0xA0 || n == 0x1680 ||
  (0x2000 ≤ n && n ≤ 0x200A) || n == 0x2028 || n == 0x2029 || n == 0x202F ||
  n == 0x205F || n == 0x3000

def skipBlank (cs : List Char) : List Char := cs.dropWhile isBlank

/-- Both ends lose their blanks; blanks inside stay. -/
def trimChars (cs : List Char) : List Char :=
  (skipBlank (skipBlank cs).reverse).reverse

def trim (s : String) : String := String.ofList (trimChars s.toList)

/-- The zero of each run of ten decimal digits in Unicode. The mathematical
digits are five such runs. -/
def decimalZeros : List Nat := [
  0x30, 0x660, 0x6F0, 0x7C0, 0x966, 0x9E6, 0xA66, 0xAE6, 0xB66, 0xBE6, 0xC66,
  0xCE6, 0xD66, 0xDE6, 0xE50, 0xED0, 0xF20, 0x1040, 0x1090, 0x17E0, 0x1810,
  0x1946, 0x19D0, 0x1A80, 0x1A90, 0x1B50, 0x1BB0, 0x1C40, 0x1C50, 0xA620,
  0xA8D0, 0xA900, 0xA9D0, 0xA9F0, 0xAA50, 0xABF0, 0xFF10, 0x104A0, 0x10D30,
  0x10D40, 0x11066, 0x110F0, 0x11136, 0x111D0, 0x112F0, 0x11450, 0x114D0,
  0x11650, 0x116C0, 0x116D0, 0x116DA, 0x11730, 0x118E0, 0x11950, 0x11BF0,
  0x11C50, 0x11D50, 0x11DA0, 0x11F50, 0x16130, 0x16A60, 0x16AC0, 0x16B50,
  0x16D70, 0x1CCF0, 0x1D7CE, 0x1D7D8, 0x1D7E2, 0x1D7EC, 0x1D7F6, 0x1E140, 0x1E2F0,
  0x1E4F0, 0x1E5F1, 0x1E950, 0x1FBF0]

def isDecimal (c : Char) : Bool :=
  c.isDigit || decimalZeros.any fun z => z ≤ c.toNat && c.toNat < z + 10

/-- One or more ASCII digits, read in base ten. -/
def natural? (cs : List Char) : Option Nat :=
  if cs.isEmpty || !cs.all Char.isDigit then none else some (Nat.ofDigitChars 10 cs 0)

/-- A count: one plus sign may stand in front, and the value is at most `most`. -/
def countUpTo? (most : Nat) (cs : List Char) : Option Nat :=
  let digits := match cs with
    | '+' :: rest => rest
    | _ => cs
  (natural? digits).filter (· ≤ most)

/-- The range of the 64-bit signed numbers, which ids are. -/
def inSigned64 (n : Int) : Bool := -9223372036854775808 ≤ n && n ≤ 9223372036854775807

def maxSigned64 : Nat := 9223372036854775807
def maxUnsigned32 : Nat := 4294967295
def maxUnsigned64 : Nat := 18446744073709551615

/-- A 64-bit signed number with at most one sign in front. -/
def signed64? (cs : List Char) : Option Int :=
  let value := match cs with
    | '-' :: rest => (natural? rest).map fun n => -(n : Int)
    | '+' :: rest => (natural? rest).map fun n => (n : Int)
    | _ => (natural? cs).map fun n => (n : Int)
  value.filter inSigned64

end Lineage.Text
