import Lineage.Item.Basic
import Lineage.Rules.Basic
import Lineage.Text.Basic

/-! The edges that an item asserts: its parents and its children, as the rules for its
content type find them in its fields. Some fields hold internal links, which are addresses
in which a node is named by its number. -/

namespace Lineage.NodeLink

def mark : List Char := "entity:node/".toList

/-- The digits that directly follow the mark, if the text begins with it. -/
def digitsAfterMark (cs : List Char) : List Char :=
  if mark.isPrefixOf cs then (cs.drop mark.length).takeWhile Text.isDecimal else []

/-- The digits at the first place where any follow the mark. -/
def digits : List Char → List Char
  | [] => []
  | c :: cs =>
    let here := digitsAfterMark (c :: cs)
    if here.isEmpty then digits cs else here

/-- The node that an address names. Digits of other scripts name none, and neither do
numbers that are too large. -/
def target? (uri : String) : Option NodeId :=
  ((Text.natural? (digits uri.toList)).filter (· ≤ Text.maxSigned64)).map Int.ofNat

end Lineage.NodeLink

namespace Lineage

/-- A directed relationship, asserted by the fields of `reporter`. -/
structure Edge where
  reporter : NodeId
  parent : NodeId
  child : NodeId
deriving DecidableEq, Repr

/-- The children that one rule finds, in the order of the field's values. -/
def ChildRule.children (rule : ChildRule) (item : Item) : List NodeId :=
  match rule with
  | .reference field => (item.values field).filterMap (·.target)
  | .nestedReference field nested =>
    (item.values field).filterMap fun value =>
      value.paragraph.bind fun p => (p.values nested).head?.bind (·.target)
  | .link field => (item.values field).filterMap fun value => value.uri.bind NodeLink.target?
  | .nestedLinks field nested =>
    ((item.values field).filterMap (·.paragraph)).flatMap fun p =>
      (p.values nested).filterMap fun value => value.uri.bind NodeLink.target?

structure Relationships where
  parentEdges : List Edge
  childEdges : List Edge
deriving DecidableEq, Repr

namespace Relationships

def none : Relationships := ⟨[], []⟩

/-- Parents first, then children, in the order in which they were found. -/
def edges (r : Relationships) : List Edge := r.parentEdges ++ r.childEdges

end Relationships

def TypeRules.parents (rules : TypeRules) (item : Item) : List NodeId :=
  match rules.parent with
  | some field => (item.values field).filterMap (·.target)
  | none => []

/-- What the item asserts under the table; without rules for its type, nothing. -/
def Item.relationships (item : Item) (table : RuleTable) : Relationships :=
  match table.find? item.contentType with
  | none => .none
  | some rules =>
    { parentEdges := (rules.parents item).map fun parent => ⟨item.id, parent, item.id⟩
      childEdges := (rules.children.flatMap fun rule => rule.children item).map fun child =>
        ⟨item.id, item.id, child⟩ }

end Lineage
