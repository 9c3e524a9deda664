import Lineage.Config.Basic
import Lineage.Text.Basic

/-! What requests ask for, read from their parameters. A number may stand between
blanks, and one of nothing but blanks is as good as absent. -/

namespace Lineage

abbrev Parameters := Dictionary String

namespace Parameters

def number? (params : Parameters) (key : String) : Except Failure (Option Nat) :=
  match (params.find? key).map Text.trim with
  | none => .ok none
  | some text =>
    if text.isEmpty then .ok none
    else match Text.countUpTo? Text.maxUnsigned64 text.toList with
      | some n => .ok (some n)
      | none => .error (.invalidInput
          (key ++ " must be a non-negative integer, got '" ++ text ++ "'"))

end Parameters

/-- The node that a path segment names: a positive number. -/
def NodeId.read (segment : String) : Except Failure NodeId :=
  match (Text.signed64? (Text.trim segment).toList).filter (0 < ·) with
  | some id => .ok id
  | none => .error (.invalidInput ("invalid node id '" ++ segment ++ "'"))

/-- The limit that a walk has: the one that is asked for, if it may be asked for. -/
def TraversalConfig.resolve (t : TraversalConfig) (requested : Option Nat) :
    Except Failure Nat :=
  match requested with
  | none => .ok t.defaultLimit
  | some limit =>
    if limit == 0 then .error (.invalidInput "depth_limit must be at least 1")
    else if t.maxLimit < limit then
      .error (.invalidInput ("depth_limit " ++ toString limit ++ " exceeds the maximum of " ++
        toString t.maxLimit))
    else .ok limit

structure DescendantQuery where
  format : DescendantFormat
  depthLimit : Nat
deriving DecidableEq, Repr

def DescendantQuery.read (t : TraversalConfig) (params : Parameters) :
    Except Failure DescendantQuery := do
  let limit ← t.resolve (← params.number? "depth_limit")
  pure ⟨.ofParameter (params.find? "format"), limit⟩

/-- A page of the published items of one type. -/
structure TypeQuery where
  contentType : String
  descendants : DescendantQuery
  limit : Nat
  offset : Nat
deriving DecidableEq, Repr

namespace TypeQuery

def defaultPageSize : Nat := 20

def read (t : TraversalConfig) (api : ApiConfig) (params : Parameters) :
    Except Failure TypeQuery := do
  let contentType := ((params.find? "content_type").map Text.trim).getD ""
  if contentType.isEmpty then throw (.invalidInput "content_type is required")
  let limit := (← params.number? "limit").getD defaultPageSize
  let descendants ← DescendantQuery.read t params
  let offset := (← params.number? "offset").getD 0
  pure ⟨contentType, descendants, min limit api.maxPageSize, offset⟩

end TypeQuery

/-- A page of the items of several types, or of all types. -/
structure MetadataQuery where
  contentTypes : List String
  published : Option Bool
  format : DescendantFormat
  limit : Nat
  offset : Nat
deriving DecidableEq, Repr

namespace MetadataQuery

/-- The names between commas, without blanks around them and without empty ones. -/
def names (text : String) : List String :=
  ((text.toList.splitOn ',').map fun part => String.ofList (Text.trimChars part)).filter
    (!·.isEmpty)

/-- The parameter `published` selects by being there, whatever its value. -/
def read (api : ApiConfig) (params : Parameters) : Except Failure MetadataQuery := do
  let limit := (← params.number? "limit").getD api.maxPageSize
  let offset := (← params.number? "offset").getD 0
  pure
    { contentTypes := ((params.find? "content_types").map names).getD []
      published := (params.find? "published").map fun _ => true
      format := .ofParameter (params.find? "descendant_format")
      limit := min limit api.maxPageSize
      offset }

end MetadataQuery

end Lineage
