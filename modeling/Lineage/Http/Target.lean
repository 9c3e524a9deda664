import Lineage.Text.Bytes

/-! The targets of requests: a path with a query, alone or after a scheme and an
authority, or an authority alone. -/

namespace Lineage.Http

/-- A target, as far as routing looks at it. Escapes in it are not resolved. -/
structure Target where
  path : String
  query : String
deriving DecidableEq, Repr

namespace Target

def maxBytes : Nat := 65534
def maxScheme : Nat := 64

/-- The characters that may stand in a path as they are. Delete is a control character
and may stand neither in a path nor in a query. -/
def isPathChar (c : Char) : Bool :=
  let n := c.toNat
  n == 0x21 || (0x24 ≤ n && n ≤ 0x3B) || n == 0x3D || (0x40 ≤ n && n ≤ 0x5F) ||
    (0x61 ≤ n && n ≤ 0x7A) || n == 0x7C || n == 0x7E || 0x80 ≤ n ||
    c == '"' || c == '\x7b' || c == '\x7d'

def isQueryChar (c : Char) : Bool :=
  let n := c.toNat
  n == 0x21 || (0x24 ≤ n && n ≤ 0x3B) || n == 0x3D || (0x3F ≤ n && n ≤ 0x7E) || 0x80 ≤ n

/-- A path and its query; a number sign ends either. -/
def pathAndQuery? (cs : List Char) : Option Target :=
  let cs := cs.takeWhile (· != '#')
  let path := cs.takeWhile (· != '?')
  let query := (cs.drop path.length).drop 1
  if path.all isPathChar && query.all isQueryChar then
    some ⟨if path.isEmpty then "/" else String.ofList path, String.ofList query⟩
  else none

def isSchemeChar (c : Char) : Bool :=
  c.isAlphanum || c == '+' || c == '-' || c == '.' || c == '~'

def isAuthorityChar (c : Char) : Bool :=
  c.isAlphanum || "!$&'()*+,-.:;=@[]_~".toList.contains c

/-- What has been seen of an authority. Colons and percent signs are forgotten where
they turn out to belong to a user or to a bracketed address. -/
structure Seen where
  colons : Nat
  opened : Bool
  closed : Bool
  percent : Bool
  last : Char

def Seen.step? (s : Seen) (c : Char) : Option Seen :=
  let s := { s with last := c }
  if c == ':' then (if 8 ≤ s.colons then none else some { s with colons := s.colons + 1 })
  else if c == '[' then (if s.percent || s.opened then none else some { s with opened := true })
  else if c == ']' then
    (if !s.opened || s.closed then none
     else some { s with closed := true, colons := 0, percent := false })
  else if c == '@' then some { s with colons := 0, percent := false }
  else if c == '%' then some { s with percent := true }
  else if isAuthorityChar c then some s
  else none

def isAuthority (cs : List Char) : Bool :=
  match cs.foldlM Seen.step? ⟨0, false, false, false, ' '⟩ with
  | some s => s.opened == s.closed && s.colons ≤ 1 && s.last != '@' && !s.percent
  | none => false

def endsAuthority (c : Char) : Bool := c == '/' || c == '?' || c == '#'

/-- The length of the scheme in front of `://`, when there is one. -/
def schemeLength? (cs : List Char) : Option Nat :=
  let scheme := cs.takeWhile isSchemeChar
  if [':', '/', '/'].isPrefixOf (cs.drop scheme.length) && 3 < cs.length then
    some scheme.length
  else none

/-- A target that does not begin with a slash. Behind a scheme stands an authority that
is not empty; without a scheme the authority is all, and there is no path. -/
def full? (cs : List Char) : Option Target :=
  match schemeLength? cs with
  | some n =>
    if maxScheme < n then none
    else
      let rest := cs.drop (n + 3)
      let authority := rest.takeWhile (!endsAuthority ·)
      if authority.isEmpty || !isAuthority authority then none
      else pathAndQuery? (rest.drop authority.length)
  | none =>
    if !cs.any endsAuthority && isAuthority cs then some ⟨"", ""⟩ else none

def read? (text : String) : Option Target :=
  if text.isEmpty || maxBytes < text.utf8ByteSize then none
  else match text.toList with
    | ['*'] => some ⟨"*", ""⟩
    | '/' :: rest => pathAndQuery? ('/' :: rest)
    | cs => full? cs

end Target

end Lineage.Http
