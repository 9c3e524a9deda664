import Lineage.Descendants.Basic
import Lineage.Item.Reader

/-! Descendants as JSON: a list of ids, or a list of trees, each an object with an id
and the trees below it. The keys are written in ascending order. -/

namespace Lineage

namespace DescendantTree

mutual
def toJson : DescendantTree → Json
  | node id branches => .obj [("children", .arr (forestJson branches)), ("id", .int id)]
def forestJson : List DescendantTree → List Json
  | [] => []
  | tree :: rest => tree.toJson :: forestJson rest
end

/-- Reads a tree with `depth` levels of nesting still allowed. -/
def ofJson? : Nat → Json → Option DescendantTree
  | 0, _ => none
  | 1, _ => none
  | depth + 2, v =>
    match v.record? ["id", "children"] with
    | some [id, some (.arr branches)] => do
      let id ← Json.required Json.int64? id
      let branches ← branches.mapM (ofJson? depth)
      some (.node id branches)
    | _ => none

def listOfText? (text : String) : Option (List DescendantTree) :=
  match Json.ofString? text with
  | some (.arr trees) => trees.mapM (ofJson? (nestingLimit - 1))
  | _ => none

end DescendantTree

namespace Descendants

def toJson : Descendants → Json
  | listed ids => .arr (ids.map .int)
  | nested trees => .arr (DescendantTree.forestJson trees)

end Descendants

end Lineage
