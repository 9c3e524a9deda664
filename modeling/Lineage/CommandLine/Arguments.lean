import Lineage.Dictionary

/-! Command line arguments: options by their long names, each at most once, and
positional arguments. Two dashes alone end the options. -/

namespace Lineage

/-- An option, with or without a value, and the letter that stands for it. -/
structure OptionSpec where
  name : String
  letter : Option Char
  takesValue : Bool
deriving DecidableEq, Repr

/-- Options that take no value have an empty one. -/
structure Arguments where
  options : List (String × String)
  positionals : List String
deriving DecidableEq, Repr

namespace Arguments

def none : Arguments := ⟨[], []⟩

def value? (a : Arguments) (name : String) : Option String :=
  (a.options.find? fun o => o.1 == name).map Prod.snd

def has (a : Arguments) (name : String) : Bool := (a.value? name).isSome

def note? (a : Arguments) (spec : OptionSpec) (value : String) : Option Arguments :=
  if a.has spec.name then Option.none
  else some { a with options := a.options ++ [(spec.name, value)] }

/-- Whether an argument is an option, or the dashes that end them. A single dash is
neither. -/
def isOption (arg : String) : Bool :=
  match arg.toList with
  | ['-'] => false
  | '-' :: _ => true
  | _ => false

/-- What reading an argument led to: it stands for itself, or the next argument is the
value of an option. -/
inductive Progress where
  | done (a : Arguments)
  | wantsValue (a : Arguments) (spec : OptionSpec)

def long? (specs : List OptionSpec) (a : Arguments) (text : List Char) : Option Progress :=
  let name := text.takeWhile (· != '=')
  let attached := text.drop name.length
  match specs.find? fun spec => spec.name == String.ofList name with
  | .none => Option.none
  | some spec =>
    match spec.takesValue, attached with
    | true, [] => some (.wantsValue a spec)
    | true, _ :: value => (a.note? spec (String.ofList value)).map .done
    | false, [] => (a.note? spec "").map .done
    | false, _ :: _ => Option.none

/-- Letters in a row. What follows a letter whose option takes a value is the value. -/
def letters? (specs : List OptionSpec) (a : Arguments) : List Char → Option Progress
  | [] => some (.done a)
  | c :: rest =>
    match specs.find? fun spec => spec.letter == some c with
    | .none => Option.none
    | some spec =>
      if spec.takesValue then
        match rest with
        | [] => some (.wantsValue a spec)
        | '=' :: value => (a.note? spec (String.ofList value)).map .done
        | value => (a.note? spec (String.ofList value)).map .done
      else (a.note? spec "").bind fun a => letters? specs a rest

def option? (specs : List OptionSpec) (a : Arguments) (arg : String) : Option Progress :=
  match arg.toList with
  | '-' :: '-' :: text => long? specs a text
  | '-' :: letters => letters? specs a letters
  | _ => Option.none

/-- Reads arguments of which at most `most` are positional. -/
def read? (specs : List OptionSpec) (most : Nat) (a : Arguments) :
    List String → Option Arguments
  | [] => if a.positionals.length ≤ most then some a else Option.none
  | arg :: rest =>
    if arg == "--" then
      let a := { a with positionals := a.positionals ++ rest }
      if a.positionals.length ≤ most then some a else Option.none
    else if isOption arg then
      match option? specs a arg, rest with
      | some (.done a), rest => read? specs most a rest
      | some (.wantsValue a spec), value :: rest =>
        if isOption value then Option.none
        else (a.note? spec value).bind fun a => read? specs most a rest
      | _, _ => Option.none
    else read? specs most { a with positionals := a.positionals ++ [arg] } rest

end Arguments

end Lineage
