import Lineage.Api.Query
import Lineage.Descendants.Json
import Lineage.Edges

/-! What requests are answered with: the descendants of a node, and pages of items each
with its descendants. -/

namespace Lineage

/-- A part of a longer list. -/
structure Page (α : Type) where
  data : List α
  limit : Nat
  offset : Nat

def Page.toJson {α : Type} (write : α → Json) (page : Page α) : Json :=
  .obj [("data", .arr (page.data.map write)),
    ("metadata", .obj [("resultset", .obj
      [("count", .int page.data.length), ("limit", .int page.limit),
       ("offset", .int page.offset)])])]

structure NodeDescendants where
  id : NodeId
  query : DescendantQuery
  descendants : Descendants

namespace NodeDescendants

def find (id : NodeId) (query : DescendantQuery) : Action NodeDescendants := do
  let answer ← Edges.descendants id query.format query.depthLimit
  pure ⟨id, query, answer.descendants⟩

def toJson (n : NodeDescendants) : Json :=
  .obj [("id", .int n.id), ("format", .str n.query.format.name),
    ("depth_limit", .int n.query.depthLimit), ("descendants", n.descendants.toJson)]

end NodeDescendants

structure ItemDescendants where
  item : Item
  descendants : Descendants

namespace ItemDescendants

def find (filter : ContentFilter) (format : DescendantFormat) (limit : Nat) :
    Action (List ItemDescendants) := do
  (← Content.findItems filter).mapM fun item => do
    let answer ← Edges.descendants item.id format limit
    pure ⟨item, answer.descendants⟩

def toJson (r : ItemDescendants) : Json :=
  .obj [("id", .int r.item.id), ("title", .str r.item.title),
    ("content_type", .str r.item.contentType), ("descendants", r.descendants.toJson)]

def secondsJson (t : Option Instant) : Json :=
  match t with
  | some t => .int t.unixSeconds
  | none => .null

def metadataJson (r : ItemDescendants) : Json :=
  .obj [("id", .int r.item.id), ("node_path", .str r.item.nodePath),
    ("title", .str r.item.title),
    ("date_created", secondsJson r.item.created),
    ("date_changed", secondsJson r.item.changed),
    ("content_type", .str r.item.contentType), ("published", .bool r.item.published),
    ("moderation_state", .arr (r.item.moderationState.toList.map .str)),
    ("descendants", r.descendants.toJson)]

end ItemDescendants

/-- The published items of one type. -/
def TypeQuery.list (query : TypeQuery) : Action (Page ItemDescendants) := do
  let filter := (ContentFilter.publishedOf [query.contentType]).page query.offset query.limit
  let rows ← ItemDescendants.find filter query.descendants.format query.descendants.depthLimit
  pure ⟨rows, query.limit, query.offset⟩

/-- The items that a metadata query selects, with walks of the default limit. -/
def MetadataQuery.list (t : TraversalConfig) (query : MetadataQuery) :
    Action (Page ItemDescendants) := do
  let filter : ContentFilter :=
    ⟨query.contentTypes, query.published, query.offset, some query.limit⟩
  let rows ← ItemDescendants.find filter query.format t.defaultLimit
  pure ⟨rows, query.limit, query.offset⟩

end Lineage
