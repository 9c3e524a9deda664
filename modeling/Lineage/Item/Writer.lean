import Lineage.Item.Basic
import Lineage.Json.Basic

/-! The JSON form of items: their keys in a fixed order, without the optional ones
that have no value. The fields are always written, even when there are none. -/

namespace Lineage

/-- An entry for a value that is there. -/
def Json.entry? {α : Type} (key : String) (write : α → Json) : Option α → List (String × Json)
  | none => []
  | some v => [(key, write v)]

mutual
def FieldValue.toJson : FieldValue → Json
  | ⟨target, uri, paragraph⟩ => .obj
      (Json.entry? "target_id" .int target ++ Json.entry? "uri" .str uri ++
        entityEntry paragraph)
def entityEntry : Option Paragraph → List (String × Json)
  | none => []
  | some p => [("entity", p.toJson)]
def Paragraph.toJson : Paragraph → Json
  | ⟨id, kind, fields⟩ => .obj
      (Json.entry? "id" .int id ++ Json.entry? "type" .str kind ++
        [("fields", .obj (fieldEntries fields))])
def fieldEntries : List (String × List FieldValue) → List (String × Json)
  | [] => []
  | field :: rest => fieldEntry field :: fieldEntries rest
def fieldEntry : String × List FieldValue → String × Json
  | (name, values) => (name, .arr (valuesJson values))
def valuesJson : List FieldValue → List Json
  | [] => []
  | v :: rest => v.toJson :: valuesJson rest
end

def Instant.toJson (t : Instant) : Json := .str t.toString

namespace Item

def toJson (item : Item) : Json := .obj
  ([("id", .int item.id), ("type", .str item.contentType), ("title", .str item.title),
    ("published", .bool item.published)] ++
   Json.entry? "path" .str item.path ++
   Json.entry? "moderation_state" .str item.moderationState ++
   Json.entry? "created" Instant.toJson item.created ++
   Json.entry? "changed" Instant.toJson item.changed ++
   [("fields", .obj (fieldEntries item.fields))])

/-- The text that the content store keeps. -/
def text (item : Item) : String := item.toJson.text

end Item

end Lineage
