import Lineage.Descendants.Format
import Lineage.Item.Basic

/-! Descendants of a node, found depth first under a limit that is shared by the whole
walk. Visits are numbered in the order in which they happen, the start being the first;
a visit looks up children only while its number is below the limit, and those that it
finds are visited before all that wait. A cycle therefore uses up the limit, and
branches that come late are cut short. -/

namespace Lineage

inductive DescendantTree where
  | node (id : NodeId) (branches : List DescendantTree)
deriving Repr

namespace DescendantTree

def id : DescendantTree → NodeId
  | node id _ => id

def branches : DescendantTree → List DescendantTree
  | node _ branches => branches

def leaf (id : NodeId) : DescendantTree := node id []

mutual
/-- The ids from the root on, each before those below it. -/
def ids : DescendantTree → List NodeId
  | node id branches => id :: forestIds branches
def forestIds : List DescendantTree → List NodeId
  | [] => []
  | tree :: rest => tree.ids ++ forestIds rest
end

end DescendantTree

inductive Descendants where
  | listed (ids : List NodeId)
  | nested (trees : List DescendantTree)
deriving Repr

namespace Descendants

/-- All ids in the order of the walk, repetitions included. -/
def ids : Descendants → List NodeId
  | listed ids => ids
  | nested trees => DescendantTree.forestIds trees

def isEmpty : Descendants → Bool
  | listed ids => ids.isEmpty
  | nested trees => trees.isEmpty

variable (children : NodeId → List NodeId)

/-- Visits the waiting nodes and all that they lead to with this many lookups: the
visits in order, and the lookups that are left. -/
def walk : (lookups : Nat) → (waiting : List NodeId) → List NodeId × Nat
  | lookups, [] => ([], lookups)
  | 0, waiting => (waiting, 0)
  | lookups + 1, node :: waiting =>
    let (visits, left) := walk lookups (children node ++ waiting)
    (node :: visits, left)

/-- The same walk, which gives the trees under the waiting nodes. No walk has more
lookups left than it began with, so the minimum only serves to show that it ends. -/
def grow (lookups : Nat) (waiting : List NodeId) : List DescendantTree × Nat :=
  match lookups, waiting with
  | lookups, [] => ([], lookups)
  | 0, waiting => (waiting.map .leaf, 0)
  | lookups + 1, node :: waiting =>
    let (below, left) := grow lookups (children node)
    let (others, left) := grow (min left lookups) waiting
    (.node node below :: others, left)
termination_by lookups

/-- What a query gives, and how often it looked up children. -/
structure Answer where
  descendants : Descendants
  lookups : Nat
deriving Repr

/-- The lookups that a limit allows: the visit whose number is the limit has none. -/
def allowedLookups (limit : Nat) : Nat := limit - 1

def listAnswer (shape : List NodeId → List NodeId) (start : NodeId) (limit : Nat) : Answer :=
  let (visits, left) := walk children (allowedLookups limit) [start]
  ⟨.listed (shape visits.tail), allowedLookups limit - left⟩

def treeAnswer (start : NodeId) (limit : Nat) : Answer :=
  let (trees, left) := grow children (allowedLookups limit) [start]
  ⟨.nested (trees.flatMap DescendantTree.branches), allowedLookups limit - left⟩

def query (start : NodeId) (format : DescendantFormat) (limit : Nat) : Answer :=
  match format with
  | .flat => listAnswer children id start limit
  | .unique => listAnswer children List.eraseDups start limit
  | .depth => treeAnswer children start limit

end Descendants

end Lineage
