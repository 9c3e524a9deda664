import Lineage.Text.Basic

/-! Instants as content items carry them: a date and a time of day in UTC, to the
nanosecond. They are read from a lenient form of RFC 3339 with any offset and
written in one form. -/

namespace Lineage

/-- A leap second is second 60 of its minute. -/
structure Instant where
  year : Int
  month : Nat
  day : Nat
  hour : Nat
  minute : Nat
  second : Nat
  nano : Nat
deriving DecidableEq, Repr

namespace Instant

def isLeap (year : Int) : Bool :=
  year % 4 == 0 && (year % 100 != 0 || year % 400 == 0)

def daysInMonth (year : Int) (month : Nat) : Nat :=
  if month == 2 then (if isLeap year then 29 else 28)
  else if month == 4 || month == 6 || month == 9 || month == 11 then 30
  else 31

/-- The years that can be represented, before and after the offset is taken off. -/
def yearInRange (year : Int) : Bool := -262143 ≤ year && year ≤ 262142

def isDate (year : Int) (month day : Nat) : Bool :=
  yearInRange year && 1 ≤ month && month ≤ 12 && 1 ≤ day && day ≤ daysInMonth year month

/-- The days of the year before `month` begins. -/
def daysBeforeMonth (year : Int) (month : Nat) : Nat :=
  (List.range (month - 1)).foldl (fun days m => days + daysInMonth year (m + 1)) 0

def dayNumber (year : Int) (month day : Nat) : Int :=
  let past := year - 1
  365 * past + past / 4 - past / 100 + past / 400 + daysBeforeMonth year month + day - 719163

/-- Unix seconds; a leap second counts as the second before it. -/
def unixSeconds (t : Instant) : Int :=
  86400 * dayNumber t.year t.month t.day + 3600 * t.hour + 60 * t.minute + min t.second 59

def nextDate (year : Int) (month day : Nat) : Int × Nat × Nat :=
  if day < daysInMonth year month then (year, month, day + 1)
  else if month < 12 then (year, month + 1, 1)
  else (year + 1, 1, 1)

def previousDate (year : Int) (month day : Nat) : Int × Nat × Nat :=
  if 1 < day then (year, month, day - 1)
  else if 1 < month then (year, month - 1, daysInMonth year (month - 1))
  else (year - 1, 12, 31)

/-- The instant whose local time, `offset` minutes ahead of UTC, reads `t`. An
offset is less than a day, so the date moves by at most one. -/
def fromLocal? (t : Instant) (offset : Int) : Option Instant :=
  let minutes := (60 * t.hour + t.minute : Int) - offset
  let (year, month, day) :=
    if minutes < 0 then previousDate t.year t.month t.day
    else if 1440 ≤ minutes then nextDate t.year t.month t.day
    else (t.year, t.month, t.day)
  let ofDay := (minutes % 1440).toNat
  if yearInRange year then
    some { t with year, month, day, hour := ofDay / 60, minute := ofDay % 60 }
  else none

def takeDigits : (most : Nat) → List Char → List Char × List Char
  | 0, cs => ([], cs)
  | _ + 1, [] => ([], [])
  | most + 1, c :: cs =>
    if c.isDigit then
      let (digits, rest) := takeDigits most cs
      (c :: digits, rest)
    else ([], c :: cs)

def readNumber (most : Nat) (cs : List Char) : Option (Nat × List Char) :=
  let (digits, rest) := takeDigits most (Text.skipBlank cs)
  (Text.natural? digits).map (·, rest)

/-- A year has at most four digits, unless a sign announces more. -/
def readYear (cs : List Char) : Option (Int × List Char) :=
  match Text.skipBlank cs with
  | '-' :: rest => (readSigned rest).map fun (n, rest) => (-(n : Int), rest)
  | '+' :: rest => (readSigned rest).map fun (n, rest) => ((n : Int), rest)
  | rest => (readNumber 4 rest).map fun (n, rest) => ((n : Int), rest)
where
  readSigned (cs : List Char) : Option (Nat × List Char) :=
    let digits := cs.takeWhile Char.isDigit
    (Text.natural? digits).map (·, cs.dropWhile Char.isDigit)

def readSeparator (c : Char) (cs : List Char) : Option (List Char) :=
  match Text.skipBlank cs with
  | d :: rest => if d == c then some rest else none
  | [] => none

/-- Nanoseconds after a point, when there is one; digits past the ninth are dropped. -/
def readFraction (cs : List Char) : Option (Nat × List Char) :=
  match cs with
  | '.' :: rest =>
    let (digits, rest) := takeDigits 9 rest
    (Text.natural? digits).map fun n =>
      (n * Nat.pow 10 (9 - digits.length), rest.dropWhile Char.isDigit)
  | _ => some (0, cs)

def isUtcName (cs : List Char) : Bool := cs.map Char.toUpper == ['U', 'T', 'C']

/-- Hours and minutes after the sign of an offset, in minutes. Colons and blanks
may stand between them in any number. -/
def readOffset (cs : List Char) : Option (Nat × List Char) :=
  match cs with
  | h1 :: h2 :: rest =>
    match rest.dropWhile fun c => c == ':' || Text.isBlank c with
    | m1 :: m2 :: rest => do
      let hours ← Text.natural? [h1, h2]
      let minutes ← Text.natural? [m1, m2]
      if minutes < 60 then some (60 * hours + minutes, rest) else none
    | _ => none
  | _ => none

/-- The offset in minutes: `UTC` or `Z` in either case, or a sign with hours and
minutes; the sign may be the minus sign U+2212. -/
def readZone (cs : List Char) : Option (Int × List Char) :=
  let cs := Text.skipBlank cs
  if isUtcName (cs.take 3) then some (0, cs.drop 3)
  else match cs with
    | 'Z' :: rest => some (0, rest)
    | 'z' :: rest => some (0, rest)
    | '+' :: rest => (readOffset rest).map fun (n, rest) => ((n : Int), rest)
    | c :: rest =>
      if c == '-' || c == Char.ofNat 0x2212 then
        (readOffset rest).map fun (n, rest) => (-(n : Int), rest)
      else none
    | [] => none

def readChars (cs : List Char) : Option Instant := do
  let (year, cs) ← readYear cs
  let cs ← readSeparator '-' cs
  let (month, cs) ← readNumber 2 cs
  let cs ← readSeparator '-' cs
  let (day, cs) ← readNumber 2 cs
  let cs ← match cs with
    | c :: rest => if c == 'T' || c == 't' || c == ' ' then some rest else none
    | [] => none
  let (hour, cs) ← readNumber 2 cs
  let cs ← readSeparator ':' cs
  let (minute, cs) ← readNumber 2 cs
  let cs ← readSeparator ':' cs
  let (second, cs) ← readNumber 2 cs
  let (nano, cs) ← readFraction cs
  let (offset, cs) ← readZone cs
  if isDate year month day && hour < 24 && minute < 60 && second ≤ 60
      && -1440 < offset && offset < 1440 && (Text.skipBlank cs).isEmpty then
    fromLocal? ⟨year, month, day, hour, minute, second, nano⟩ offset
  else none

def read (s : String) : Option Instant := readChars s.toList

def padded (width n : Nat) : List Char :=
  let digits := Nat.toDigits 10 n
  List.replicate (width - digits.length) '0' ++ digits

/-- Years of four digits stand alone, all others with their sign. -/
def yearChars (year : Int) : List Char :=
  if 0 ≤ year && year ≤ 9999 then padded 4 year.toNat
  else (if year < 0 then '-' else '+') :: padded 4 year.natAbs

/-- No decimals, or as many groups of three as are needed. -/
def fractionChars (nano : Nat) : List Char :=
  if nano == 0 then []
  else if nano % 1000000 == 0 then '.' :: padded 3 (nano / 1000000)
  else if nano % 1000 == 0 then '.' :: padded 6 (nano / 1000)
  else '.' :: padded 9 nano

def toChars (t : Instant) : List Char :=
  yearChars t.year ++ '-' :: padded 2 t.month ++ '-' :: padded 2 t.day ++
  'T' :: padded 2 t.hour ++ ':' :: padded 2 t.minute ++ ':' :: padded 2 t.second ++
  fractionChars t.nano ++ ['Z']

def toString (t : Instant) : String := String.ofList (toChars t)

end Instant

end Lineage
