import Lineage.Text.Bytes

/-! Addresses of databases: a path, or a `file:` address with options behind it. No path,
and the name `:memory:`, stand for a database that ends with the connection to it. -/

namespace Lineage

/-- What a connection may do. One that may create makes the file when there is none. -/
inductive Access where
  | read
  | write
  | create
deriving DecidableEq, Repr

structure DatabaseAddress where
  /-- Without a path the database is a transient one. -/
  path : Option String
  access : Access
  /-- Whether several connections can work on the database, which a log needs. -/
  shared : Bool
  /-- Whether the file is taken for one that never changes. -/
  frozen : Bool
deriving DecidableEq, Repr

namespace DatabaseAddress

def ofPath (path : String) : DatabaseAddress :=
  { path := if path.isEmpty || path == ":memory:" then none else some path
    access := .create, shared := true, frozen := false }

/-- The modes by name; the last one keeps the database out of files. -/
inductive Mode where
  | of (access : Access)
  | memory
deriving DecidableEq, Repr

namespace Mode

def ofName? (name : String) : Option Mode :=
  match name with
  | "ro" => some (.of .read)
  | "rw" => some (.of .write)
  | "rwc" => some (.of .create)
  | "memory" => some .memory
  | _ => none

def rank : Mode → Nat
  | .of .read => 0
  | .of .write => 1
  | .of .create => 2
  | .memory => 3

/-- The mode that one option gives where another mode held. An option cannot allow more
than was allowed, except to keep the database out of files. -/
def change? (old new : Mode) : Option Mode :=
  if new == .memory || new.rank ≤ old.rank then some new else none

end Mode

abbrev Options := List (String × String)

namespace Options

def values (name : String) (options : Options) : List String :=
  (options.filter fun o => o.1 == name).map Prod.snd

def mode? (options : Options) : Option Mode :=
  (options.values "mode").foldlM (fun old name => (Mode.ofName? name).bind old.change?)
    (.of .create)

def hasCaches (options : Options) : Bool :=
  (options.values "cache").all fun name => name == "shared" || name == "private"

/-- Whether a value says yes: by a number other than zero at its front, or by a word. -/
def isYes (value : String) : Bool :=
  let digits := value.toList.takeWhile Char.isDigit
  if digits.isEmpty then
    ["on", "yes", "true"].contains (String.ofList (value.toList.map Char.toLower))
  else
    let n := Nat.ofDigitChars 10 digits 0
    n < Nat.pow 2 31 && n % 256 != 0

/-- The first option of a name decides. -/
def isSet (name : String) (options : Options) : Bool := (options.values name).head?.any isYes

/-- A way to work with files, by the name of the option that chooses it. -/
inductive System where
  | shared
  | unshared
  | memory

def System.ofName? (name : String) : Option System :=
  match name with
  | "unix" | "unix-excl" => some .shared
  | "unix-none" | "unix-dotfile" => some .unshared
  | "memdb" => some .memory
  | _ => none

/-- The last option that names a system decides. -/
def system? (options : Options) : Option System :=
  match (options.values "vfs").getLast? with
  | none => some .shared
  | some name => System.ofName? name

end Options

/-- A part of an address without its escapes. What follows an escaped NUL is lost. -/
def decode (cs : List Char) : String :=
  Text.lossyText ((Text.percentDecode (Text.utf8 (String.ofList cs))).takeWhile (· != 0))

def options (cs : List Char) : Options :=
  ((cs.splitOn '&').map fun part =>
    let name := part.takeWhile (· != '=')
    (decode name, decode ((part.drop name.length).drop 1))).filter fun o => !o.1.isEmpty

/-- What follows the authority, which is nobody or this machine. -/
def afterAuthority? : List Char → Option (List Char)
  | '/' :: '/' :: rest =>
    let authority := String.ofList (rest.takeWhile (· != '/'))
    if authority.isEmpty || authority == "localhost" then some (rest.dropWhile (· != '/'))
    else none
  | rest => some rest

/-- The address that stands behind `file:`. A number sign ends it. -/
def ofUri? (cs : List Char) : Option DatabaseAddress := do
  let rest := (← afterAuthority? cs).takeWhile (· != '#')
  let path := rest.takeWhile (· != '?')
  let options := options ((rest.drop path.length).drop 1)
  let mode ← options.mode?
  let system ← options.system?
  if !options.hasCaches then none
  let address :=
    { ofPath (decode path) with
      shared := system matches .shared && !options.isSet "nolock"
      frozen := options.isSet "immutable" }
  match mode, system with
  | .of access, .memory => some { address with path := none, access }
  | .of access, _ => some { address with access }
  | .memory, _ => some { address with path := none }

/-- The address that a text is; a text with a NUL is none. -/
def ofText? (text : String) : Option DatabaseAddress :=
  if text.toList.any fun c => c.toNat == 0 then none
  else match text.toList with
    | 'f' :: 'i' :: 'l' :: 'e' :: ':' :: rest => ofUri? rest
    | _ => some (ofPath text)

end DatabaseAddress

end Lineage
