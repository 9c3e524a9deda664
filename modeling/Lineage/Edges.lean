import Lineage.Database.Basic
import Lineage.Content
import Lineage.Descendants.Basic

/-! The stored edges, grouped by the item that asserts them. Reindexing an item replaces
its edges as a set by those that its fields assert now. -/

namespace Lineage

structure ReindexOutcome where
  item : NodeId
  removed : Nat
  inserted : Nat
  /-- Whether the item is stored; the edges of one that is not are only removed. -/
  found : Bool
deriving DecidableEq, Repr

namespace Edges

/-- The edges that an item asserts, in the order of their insertion. -/
def assertedBy (reporter : NodeId) (edges : List Edge) : List Edge :=
  edges.filter fun e => e.reporter == reporter

/-- The children of a node in the order of their insertion, repetitions included. -/
def childrenOf (edges : List Edge) (parent : NodeId) : List NodeId :=
  (edges.filter fun e => e.parent == parent).map Edge.child

/-- The table without an item's edges and with others at its end. -/
def replace (reporter : NodeId) (asserted : List Edge) (table : Numbered Edge) :
    Numbered Edge :=
  (table.keep fun row => row.value.reporter != reporter).addAll asserted

def ofReporter (reporter : NodeId) : Action (List Edge) := do
  pure (assertedBy reporter (← Action.edges).values)

def children (parent : NodeId) : Action (List NodeId) := do
  pure (childrenOf (← Action.edges).values parent)

def count : Action Nat := do
  pure (← Action.edges).rows.length

def addAll (edges : List Edge) : Action Unit := do
  Action.setEdges ((← Action.edges).addAll edges)

/-- Replaces an item's edges by those that the stored item asserts. -/
def reindex (rules : RuleTable) (id : NodeId) : Action ReindexOutcome :=
  Action.transaction do
    let table ← Action.edges
    let item ← Content.load? id
    let asserted := match item with
      | some item => (item.relationships rules).edges
      | none => []
    Action.setEdges (replace id asserted table)
    pure
      { item := id
        removed := (assertedBy id table.values).length
        inserted := asserted.length
        found := item.isSome }

/-- The descendants of a node. A limit that allows no lookup needs no table. -/
def descendants (start : NodeId) (format : DescendantFormat) (limit : Nat) :
    Action Descendants.Answer := do
  if Descendants.allowedLookups limit == 0 then
    pure (Descendants.query (fun _ => []) start format limit)
  else
    pure (Descendants.query (childrenOf (← Action.edges).values) start format limit)

end Edges

end Lineage
