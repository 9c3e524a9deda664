/-! Finite maps with text keys, kept as their pairs in ascending key order with each
key once. That order is the order of code points, in which they are also written. -/

namespace Lineage

abbrev Dictionary (α : Type) := List (String × α)

namespace Dictionary
variable {α : Type}

/-- The new value takes the place of an old one under the same key. -/
def insert (key : String) (value : α) : Dictionary α → Dictionary α
  | [] => [(key, value)]
  | (k, v) :: rest =>
    if key < k then (key, value) :: (k, v) :: rest
    else if key == k then (key, value) :: rest
    else (k, v) :: insert key value rest

/-- Of several pairs with one key the last counts. -/
def ofPairs (pairs : List (String × α)) : Dictionary α :=
  pairs.foldl (fun d pair => insert pair.1 pair.2 d) []

def find? (d : Dictionary α) (key : String) : Option α :=
  (List.find? (fun pair => pair.1 == key) d).map Prod.snd

def keys (d : Dictionary α) : List String := d.map Prod.fst

end Dictionary

end Lineage
