import Lineage.Edges
import Lineage.Proofs.Actions
import Lineage.Proofs.Numbering

/-! # What a database shows

The queries of the library as readings of a database: the item under an id, the
edges of a reporter, the children of a node and the number of edges. None of them
changes anything, and each looks at one table only, so that an action on another
table cannot be seen through it. -/

namespace Lineage

namespace Database

/-- What is stored under an id: an item, nothing, or a text that holds no item. -/
def stored (db : Database) (id : NodeId) : Except Failure (Option Item) :=
  (db.perform (Content.load? id)).1

/-- The edges that a reporter asserts, in the order of their insertion. -/
def edgesOf (db : Database) (reporter : NodeId) : Except Failure (List Edge) :=
  (db.perform (Edges.ofReporter reporter)).1

/-- The children of a node, in the order of their insertion. -/
def childrenOf (db : Database) (parent : NodeId) : Except Failure (List NodeId) :=
  (db.perform (Edges.children parent)).1

def edgeCount (db : Database) : Except Failure Nat := (db.perform Edges.count).1

theorem perform_load_table {db : Database} {table : ItemTable} (h : db.items = some table)
    (id : NodeId) : db.perform (Content.load? id) =
      (match table.find? id with
        | none => .ok none
        | some row => some <$> row.item, db) := by
  unfold Content.load?
  rw [perform_bind_ok (perform_items h)]
  cases table.find? id with
  | none => rfl
  | some row =>
    show db.perform (some <$> MonadExcept.ofExcept row.item) = (some <$> row.item, db)
    rw [perform_map, perform_ofExcept]
    cases row.item <;> rfl

theorem perform_load_missing {db : Database} (h : db.items = none) (id : NodeId) :
    db.perform (Content.load? id) = (.error (.database "no such table: content_items"), db) := by
  unfold Content.load?
  exact perform_bind_error (perform_items_missing h) _

theorem perform_load (db : Database) (id : NodeId) :
    db.perform (Content.load? id) = (db.stored id, db) := by
  unfold stored
  cases h : db.items with
  | none => rw [perform_load_missing h]
  | some table => rw [perform_load_table h]

theorem stored_of_items {db : Database} {table : ItemTable} (h : db.items = some table)
    (id : NodeId) : db.stored id = match table.find? id with
      | none => .ok none
      | some row => some <$> row.item := by
  unfold stored
  rw [perform_load_table h]

theorem stored_row {db : Database} {table : ItemTable} (h : db.items = some table)
    {id : NodeId} {row : ItemRow} (hrow : table.find? id = some row) {item : Item}
    (hitem : Item.ofText? row.text = some item) : db.stored id = .ok (some item) := by
  simp only [stored_of_items h, hrow, ItemRow.item_eq_ok_iff.2 hitem]
  rfl

theorem stored_congr {db db' : Database} (h : db'.items = db.items) (id : NodeId) :
    db'.stored id = db.stored id := by
  cases hi : db.items with
  | none =>
    unfold stored
    rw [perform_load_missing hi, perform_load_missing (h.trans hi)]
  | some table => rw [stored_of_items hi, stored_of_items (h.trans hi)]

section
variable {db : Database} {table : Numbered Edge} (h : db.edges = some table)
include h

theorem edgesOf_table (reporter : NodeId) :
    db.edgesOf reporter = .ok (Edges.assertedBy reporter table.values) := by
  unfold edgesOf Edges.ofReporter
  rw [perform_bind_ok (perform_edges h)]
  rfl

theorem childrenOf_table (parent : NodeId) :
    db.childrenOf parent = .ok (Edges.childrenOf table.values parent) := by
  unfold childrenOf Edges.children
  rw [perform_bind_ok (perform_edges h)]
  rfl

theorem edgeCount_table : db.edgeCount = .ok table.values.length := by
  unfold edgeCount Edges.count Numbered.values
  rw [perform_bind_ok (perform_edges h), List.length_map]
  rfl

end

theorem edgesOf_congr {db db' : Database} (h : db'.edges = db.edges) (reporter : NodeId) :
    db'.edgesOf reporter = db.edgesOf reporter := by
  cases he : db.edges with
  | some table => rw [edgesOf_table he, edgesOf_table (h.trans he)]
  | none =>
    unfold edgesOf Edges.ofReporter
    rw [perform_bind_error (perform_edges_missing he),
      perform_bind_error (perform_edges_missing (h.trans he))]

end Database

end Lineage
