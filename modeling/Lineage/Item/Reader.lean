import Lineage.Item.Writer
import Lineage.Json.Parser

/-! Reading items from JSON. Records may be objects or arrays, unknown keys are passed
over, and a field that occurs twice keeps its last values. Each object or array that
is read as part of the item uses up one level of nesting. -/

namespace Lineage

/-- How many objects and arrays may stand inside each other in what is read. -/
def nestingLimit : Nat := 127

mutual
def FieldValue.ofJson? : Nat → Json → Option FieldValue
  | 0, _ => none
  | depth + 1, v =>
    match v.record? ["target_id", "uri", "entity"] with
    | some [target, uri, paragraph] => do
      let target ← Json.optional Json.int64? target
      let uri ← Json.optional Json.string? uri
      let paragraph ← Json.optional (Paragraph.ofJson? depth) paragraph
      some ⟨target, uri, paragraph⟩
    | _ => none
def Paragraph.ofJson? : Nat → Json → Option Paragraph
  | 0, _ => none
  | depth + 1, v =>
    match v.record? ["id", "type", "fields"] with
    | some [id, kind, fields] => do
      let id ← Json.optional Json.int64? id
      let kind ← Json.optional Json.string? kind
      let fields ← Json.withDefault [] (fieldsOfJson? depth) fields
      some ⟨id, kind, fields⟩
    | _ => none
def fieldsOfJson? : Nat → Json → Option Fields
  | 0, _ => none
  | depth + 1, .obj entries =>
    (entries.mapM fun e => (valuesOfJson? depth e.2).map (e.1, ·)).map Dictionary.ofPairs
  | _ + 1, _ => none
def valuesOfJson? : Nat → Json → Option (List FieldValue)
  | 0, _ => none
  | depth + 1, .arr items => items.mapM fun v => FieldValue.ofJson? depth v
  | _ + 1, _ => none
end

def Instant.ofJson? (v : Json) : Option Instant := v.string?.bind Instant.read

namespace Item

def fieldNames : List String :=
  ["id", "type", "title", "published", "path", "moderation_state", "created", "changed", "fields"]

def ofJson? (v : Json) : Option Item :=
  match v.record? fieldNames with
  | some [id, contentType, title, published, path, state, created, changed, fields] => do
    let id ← Json.required Json.int64? id
    let contentType ← Json.required Json.string? contentType
    let title ← Json.withDefault "" Json.string? title
    let published ← Json.withDefault true Json.bool? published
    let path ← Json.optional Json.string? path
    let moderationState ← Json.optional Json.string? state
    let created ← Json.optional Instant.ofJson? created
    let changed ← Json.optional Instant.ofJson? changed
    let fields ← Json.withDefault [] (fieldsOfJson? (nestingLimit - 1)) fields
    some { id, contentType, title, published, path, moderationState, created, changed, fields }
  | _ => none

def ofText? (s : String) : Option Item := (Json.ofString? s).bind ofJson?

def ofBytes? (bytes : List UInt8) : Option Item := (Json.ofBytes? bytes).bind ofJson?

end Item

end Lineage
