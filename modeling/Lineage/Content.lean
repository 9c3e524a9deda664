import Lineage.Database.Basic
import Lineage.Database.Selection
import Lineage.Item.Reader

/-! The content store: items by id, each with the export file that it came from, if any.
No two items come from one file. -/

namespace Lineage

/-- The file an item was read from and the hash of what it held then. -/
structure ItemSource where
  path : String
  hash : String
deriving DecidableEq, Repr

/-- A selection of items. Without types it takes all of them. -/
structure ContentFilter where
  types : List String
  published : Option Bool
  offset : Nat
  limit : Option Nat
deriving DecidableEq, Repr

namespace ContentFilter

def publishedOf (types : List String) : ContentFilter := ⟨types, some true, 0, none⟩

def page (filter : ContentFilter) (offset limit : Nat) : ContentFilter :=
  { filter with offset, limit := some limit }

/-- How many values a selection can be given. -/
def boundValues : Nat := 32766

/-- The conditions of the filter; none on the type if all types are taken. -/
def selection (filter : ContentFilter) : Selection where
  conditions :=
    (if filter.types.isEmpty then [] else [.typeAmong filter.types.length]) ++
      filter.published.toList.map fun _ => .publishedIs

def conditionValues (filter : ContentFilter) : List BoundValue :=
  filter.types.map .text ++
    filter.published.toList.map fun published => .integer published.toInt

/-- The values at all marks. A number beyond `most` becomes `most`, and the limit that is
none is `-1`. -/
def values (most : Nat) (filter : ContentFilter) : List BoundValue :=
  filter.conditionValues ++
    [.integer (filter.limit.elim (-1) fun limit => Int.ofNat (min limit most)),
      .integer (Int.ofNat (min filter.offset most))]

end ContentFilter

namespace ItemRow

def item (row : ItemRow) : Except Failure Item :=
  match Item.ofText? row.text with
  | some item => .ok item
  | none => .error (.content "the stored text is not a content item")

theorem item_eq_ok_iff {row : ItemRow} {item : Item} :
    row.item = .ok item ↔ Item.ofText? row.text = some item := by
  unfold ItemRow.item
  cases Item.ofText? row.text <;> simp

theorem item_eq_error_iff {row : ItemRow} {e : Failure} :
    row.item = .error e ↔ Item.ofText? row.text = none ∧
      e = .content "the stored text is not a content item" := by
  unfold ItemRow.item
  cases Item.ofText? row.text <;> simp [eq_comm]

/-- The row of an item that was not stored before. -/
def ofItem (item : Item) (source : Option ItemSource) : ItemRow :=
  { id := item.id
    contentType := item.contentType
    title := item.title
    published := item.published
    text := item.text
    sourcePath := source.map (·.path)
    fileHash := source.map (·.hash) }

end ItemRow

namespace Content

def load? (id : NodeId) : Action (Option Item) := do
  match (← Action.items).find? id with
  | none => pure none
  | some row => some <$> MonadExcept.ofExcept row.item

/-- The stored ones among several items, in the order of the ids. -/
def loadAll (ids : List NodeId) : Action (List Item) := do
  pure ((← ids.mapM load?).filterMap id)

/-- The largest number that can stand in a selection from a table. It is the largest integer of 64
bits in every table that can be stored. That a table has no more rows than that is a bound on
storage, which is left out here as a full disk is: for such a table the number is that of its rows. -/
def largestNumber (table : ItemTable) : Nat := max Text.maxSigned64 table.rows.length

theorem largestNumber_of_storable {table : ItemTable}
    (h : table.rows.length ≤ Text.maxSigned64) : largestNumber table = Text.maxSigned64 :=
  Nat.max_eq_left h

def find (filter : ContentFilter) : Action (List ItemRow) :=
  if filter.selection.marks ≤ ContentFilter.boundValues then do
    let table ← Action.items
    MonadExcept.ofExcept
      (filter.selection.rows (filter.values (largestNumber table)) table.rows)
  else throw (.database "too many SQL variables")

def findIds (filter : ContentFilter) : Action (List NodeId) := do
  pure ((← find filter).map ItemRow.id)

def findItems (filter : ContentFilter) : Action (List Item) := do
  (← find filter).mapM fun row => MonadExcept.ofExcept row.item

/-- Inserts or replaces a row; a path that another row has is refused. -/
def upsert (row : ItemRow) : Action Unit := do
  let table ← Action.items
  if row.sourcePath.any fun path => !(table.othersFrom path row.id).isEmpty then
    throw (.database "UNIQUE constraint failed: content_items.source_path")
  else Action.setItems (table.put row)

/-- Stores an item. What else came from its file is removed, and the ids of that are
given back. -/
def save (item : Item) (source : Option ItemSource) : Action (List NodeId) := do
  let table ← Action.items
  let displaced := match source with
    | some source => table.othersFrom source.path item.id
    | none => []
  Action.setItems (table.erase displaced)
  upsert (.ofItem item source)
  pure displaced

/-- Deletes an item, and says whether it was there. -/
def delete (id : NodeId) : Action Bool := do
  let table ← Action.items
  Action.setItems (table.erase [id])
  pure (table.find? id).isSome

/-- Stores a row of a new id with an unchecked text. -/
def insertText (id : NodeId) (contentType text : String) : Action Unit := do
  let table ← Action.items
  if (table.find? id).isSome then
    throw (.database "UNIQUE constraint failed: content_items.id")
  else Action.setItems (table.put
    { id, contentType, title := "", published := true, text, sourcePath := none,
      fileHash := none })

def replaceText (id : NodeId) (text : String) : Action Bool := do
  let table ← Action.items
  Action.setItems (table.setText id text)
  pure (table.find? id).isSome

end Content

end Lineage
