import Lineage.Dictionary
import Lineage.Text.Alphanumeric
import Lineage.Text.Basic
import Lineage.Text.Bytes

/-! Environment variables, and the files that set more of them. Each line of such a file
gives a variable its value; the first line that cannot be read ends the file, and a
variable that is set already keeps its value. -/

namespace Lineage

abbrev Environment := Dictionary String

namespace Environment

inductive Quote where
  | none
  | single
  | double
deriving DecidableEq, Repr

inductive Mode where
  | plain
  /-- After a backslash. -/
  | escape
  /-- In the name of a variable whose value is put there. -/
  | name (s : List Char)
  /-- In such a name between braces. -/
  | braced (s : List Char)
  /-- After the blank that ends a value. -/
  | ended
  | comment
deriving DecidableEq, Repr

structure Reading where
  text : List Char
  quote : Quote
  mode : Mode

namespace Reading

def start : Reading := ⟨[], .none, .plain⟩

def push (r : Reading) (c : Char) : Reading := { r with text := r.text ++ [c], mode := .plain }

def substitute (look : String → String) (r : Reading) (name : List Char) : Reading :=
  { r with text := r.text ++ (look (String.ofList name)).toList, mode := .plain }

def isEscapable (c : Char) : Bool := "\\'\"$ ".toList.contains c

def plainStep (r : Reading) (c : Char) : Reading :=
  match r.quote with
  | .single => if c == '\'' then { r with quote := .none } else r.push c
  | .double =>
    if c == '$' then { r with mode := .name [] }
    else if c == '"' then { r with quote := .none }
    else if c == '\\' then { r with mode := .escape }
    else r.push c
  | .none =>
    if c == '$' then { r with mode := .name [] }
    else if c == '\'' then { r with quote := .single }
    else if c == '"' then { r with quote := .double }
    else if c == '\\' then { r with mode := .escape }
    else if c == ' ' || c == '\t' then { r with mode := .ended }
    else r.push c

/-- The character that ends a name without braces stands for itself, a dollar sign
excepted. -/
def step? (look : String → String) (r : Reading) (c : Char) : Option Reading :=
  match r.mode with
  | .comment => some r
  | .ended =>
    if c == ' ' || c == '\t' then some r
    else if c == '#' then some { r with mode := .comment }
    else none
  | .escape =>
    if isEscapable c then some (r.push c)
    else if c == 'n' then some (r.push '\n')
    else none
  | .name s =>
    if Text.isAlphanumeric c then some { r with mode := .name (s ++ [c]) }
    else if c == '\x7b' && s.isEmpty then some { r with mode := .braced [] }
    else if c == '$' then some { r.substitute look s with mode := .name [] }
    else some ((r.substitute look s).push c)
  | .braced s =>
    if c == '\x7d' then some (r.substitute look s)
    else some { r with mode := .braced (s ++ [c]) }
  | .plain => some (r.plainStep c)

/-- The value at the end of the line. Quotes and braces have to be closed by then. -/
def finish? (look : String → String) (r : Reading) : Option String :=
  if r.quote != .none then none
  else match r.mode with
    | .braced _ => none
    | .name s => some (String.ofList (r.substitute look s).text)
    | _ => some (String.ofList r.text)

end Reading

def value? (look : String → String) (cs : List Char) : Option String :=
  (cs.foldlM (Reading.step? look) Reading.start).bind (Reading.finish? look)

def isKeyStart (c : Char) : Bool := c.isAlpha || c == '_'
def isKeyChar (c : Char) : Bool := c.isAlphanum || c == '_' || c == '.'

/-- A name and what follows it. -/
def key? (cs : List Char) : Option (String × List Char) :=
  match cs with
  | c :: _ =>
    if isKeyStart c then
      some (String.ofList (cs.takeWhile isKeyChar), Text.skipBlank (cs.dropWhile isKeyChar))
    else none
  | [] => none

def afterEquals? : List Char → Option (List Char)
  | '=' :: rest => some (Text.skipBlank rest)
  | _ => none

/-- A name and what follows the equals sign; `export` may stand before the name. -/
def assignment? (cs : List Char) : Option (String × List Char) := do
  let (key, rest) ← key? cs
  match afterEquals? rest with
  | some value => some (key, value)
  | none =>
    if key == "export" then do
      let (key, rest) ← key? rest
      (afterEquals? rest).map (key, ·)
    else none

def isNothing (cs : List Char) : Bool :=
  match cs with
  | [] => true
  | c :: _ => c == '#'

/-- What a line sets, which may be nothing; `none` is a line that cannot be read. -/
def line? (look : String → String) (cs : List Char) : Option (Option (String × String)) :=
  let cs := Text.trimChars cs
  if isNothing cs then some none
  else do
    let (key, rest) ← assignment? cs
    if isNothing rest then some (some (key, ""))
    else (value? look rest).map fun value => some (key, value)

/-- Whether a variable can have a value; the character NUL would end it. -/
def isSettable (value : String) : Bool := value.toList.all fun c => c.toNat != 0

def setNew? (env : Environment) (key value : String) : Option Environment :=
  if (env.find? key).isSome then some env
  else if isSettable value then some (Dictionary.insert key value env)
  else none

/-- Sets what the lines say, in turn; `none` when a variable cannot have its value. Lines
see the values of variables that are set, and else those that earlier lines gave. -/
def setLines? : (given : Environment) → Environment → List (List UInt8) → Option Environment
  | _, env, [] => some env
  | given, env, line :: rest =>
    let look := fun name =>
      ((env.find? name).orElse fun _ => given.find? name).getD ""
    match (Text.text? line).bind fun text => line? look text.toList with
    | none => some env
    | some none => setLines? given env rest
    | some (some (key, value)) => do
      let env ← setNew? env key value
      setLines? (Dictionary.insert key value given) env rest

def load? (env : Environment) (file : List UInt8) : Option Environment :=
  setLines? [] env (file.splitOn 0x0A)

end Environment

end Lineage
