import Lineage.Http.Target
import Lineage.Json.Basic
import Lineage.Failure

/-! Requests and responses. -/

namespace Lineage.Http

/-- The characters of methods and of header names. -/
def isTokenChar (c : Char) : Bool := c.isAlphanum || "!#$%&'*+-.^_`|~".toList.contains c

def isToken (s : String) : Bool := !s.isEmpty && s.toList.all isTokenChar

/-- Control characters cannot stand in a header, tabs excepted. -/
def isHeaderValue (s : String) : Bool :=
  s.toList.all fun c => c == '\t' || (32 ≤ c.toNat && c.toNat != 127)

/-- Whether a header's value can be looked at as text. -/
def isVisible (s : String) : Bool :=
  s.toList.all fun c => c == '\t' || (32 ≤ c.toNat && c.toNat < 127)

def lower (s : String) : String := String.ofList (s.toList.map Char.toLower)

structure Request where
  method : String
  target : Target
  headers : List (String × String)
deriving Repr

namespace Request

/-- A request, unless one of its parts is not well formed. -/
def make? (method uri : String) (headers : List (String × String)) : Option Request :=
  if isToken method && headers.all fun h => isToken h.1 && isHeaderValue h.2 then
    (Target.read? uri).map fun target => ⟨method, target, headers⟩
  else none

/-- The first value of a header; names are alike whatever the size of their letters. -/
def header? (r : Request) (name : String) : Option String :=
  (r.headers.find? fun h => lower h.1 == name).map Prod.snd

/-- The first value of a header, if it is visible text. -/
def visible? (r : Request) (name : String) : Option String :=
  (r.header? name).filter isVisible

end Request

inductive Body where
  | json (v : Json)
  | text (s : String)

structure Response where
  status : Nat
  contentType : Option String
  /-- The methods of the route, where the request's is none of them. -/
  allow : Option String
  /-- The origin to whose pages browsers may show the response. -/
  allowOrigin : Option String
  body : Body

namespace Response

def json (status : Nat) (v : Json) : Response :=
  ⟨status, some "application/json", none, none, .json v⟩

def empty (status : Nat) : Response := ⟨status, none, none, none, .text ""⟩

def plain (status : Nat) (s : String) : Response :=
  ⟨status, some "text/plain; charset=utf-8", none, none, .text s⟩

/-- Bad input is explained; of other failures only that there was one is told. -/
def ofFailure (failure : Failure) : Response :=
  match failure with
  | .invalidInput _ => json 400 (.obj [("error", .str failure.message)])
  | _ => json 500 (.obj [("error", .str "Internal server error")])

def withoutBody (r : Response) : Response := { r with body := .text "" }

end Response

end Lineage.Http
