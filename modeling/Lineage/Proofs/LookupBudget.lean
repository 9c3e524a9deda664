import Lineage.Proofs.Readings

/-! # What a limit shows of a graph

All visits of a walk share one budget of lookups, so what stands below a node depends
on all that was visited before it in other branches. The meaning of the limit can be
read off the tree alone: when its subtrees are numbered from the root on, each before
those below it, the first ones show all children of their nodes and the others none.
No other tree has that property, whatever cycles the graph has. -/

namespace Lineage

namespace DescendantTree

mutual
/-- A tree and the trees in it, each before those below it. They are the visits of a
walk in the order in which they happen. -/
def subtrees : DescendantTree → List DescendantTree
  | node id branches => node id branches :: forestSubtrees branches
def forestSubtrees : List DescendantTree → List DescendantTree
  | [] => []
  | tree :: rest => tree.subtrees ++ forestSubtrees rest
end

mutual
theorem ids_eq_map : ∀ tree : DescendantTree, tree.ids = tree.subtrees.map id
  | node n branches => by
    rw [ids, subtrees, List.map_cons, forestIds_eq_map branches]
    rfl
theorem forestIds_eq_map : ∀ trees : List DescendantTree,
    forestIds trees = (forestSubtrees trees).map id
  | [] => rfl
  | tree :: rest => by
    rw [forestIds, forestSubtrees, List.map_append, ids_eq_map tree, forestIds_eq_map rest]
end

theorem forestSubtrees_leaves (nodes : List NodeId) :
    forestSubtrees (nodes.map leaf) = nodes.map leaf := by
  induction nodes with
  | nil => rfl
  | cons n rest ih =>
    rw [List.map_cons, forestSubtrees, ih]
    rfl

/-- The first visits show all children of their nodes, the others show none. -/
def Expanded (children : NodeId → List NodeId) (lookups : Nat)
    (visits : List DescendantTree) : Prop :=
  ∀ k tree, visits[k]? = some tree →
    tree.branches.map id = if k < lookups then children tree.id else []

section
variable {children : NodeId → List NodeId} {lookups : Nat} {tree : DescendantTree}
variable {visits before later : List DescendantTree}

theorem expanded_nil : Expanded children lookups [] := by
  intro k tree h
  simp at h

theorem expanded_cons : Expanded children lookups (tree :: visits) ↔
    (tree.branches.map id = if 0 < lookups then children tree.id else []) ∧
      Expanded children (lookups - 1) visits := by
  have hshift : ∀ k, k + 1 < lookups ↔ k < lookups - 1 := fun k => by omega
  constructor
  · intro h
    refine ⟨h 0 tree rfl, fun k t ht => ?_⟩
    simpa only [hshift] using h (k + 1) t ht
  · rintro ⟨hfirst, hrest⟩ k t ht
    cases k with
    | zero =>
      obtain rfl : tree = t := by simpa using ht
      exact hfirst
    | succ k =>
      simpa only [hshift] using hrest k t ht

/-- What a list of visits uses up is not there for the visits behind it. -/
theorem expanded_append : Expanded children lookups (before ++ later) ↔
    Expanded children lookups before ∧ Expanded children (lookups - before.length) later := by
  induction before generalizing lookups with
  | nil => simp [expanded_nil]
  | cons t rest ih =>
    rw [List.cons_append, expanded_cons, expanded_cons, ih, and_assoc, List.length_cons,
      Nat.sub_sub, Nat.add_comm 1]

theorem expanded_leaves (nodes : List NodeId) : Expanded children 0 (nodes.map leaf) := by
  intro k tree h
  rw [List.getElem?_map] at h
  obtain ⟨n, -, rfl⟩ := Option.map_eq_some_iff.1 h
  rfl

end

/-- Given its roots, a forest in which the first visits show all children and the others
none is determined. -/
theorem eq_of_expanded {children : NodeId → List NodeId} :
    ∀ {ts us : List DescendantTree} {lookups : Nat},
      Expanded children lookups (forestSubtrees ts) →
      Expanded children lookups (forestSubtrees us) → ts.map id = us.map id → ts = us
  | [], [], _, _, _, _ => rfl
  | [], _ :: _, _, _, _, h => by simp at h
  | _ :: _, [], _, _, _, h => by simp at h
  | node m as :: ts, node n bs :: us, lookups, ht, hu, h => by
    obtain ⟨rfl, hroots⟩ : m = n ∧ ts.map id = us.map id := by simpa [id] using h
    rw [forestSubtrees, subtrees, List.cons_append, expanded_cons, expanded_append] at ht hu
    obtain ⟨has, hbelow, hbehind⟩ := ht
    obtain ⟨hbs, hbelow', hbehind'⟩ := hu
    obtain rfl : as = bs := eq_of_expanded hbelow hbelow' (has.trans hbs.symm)
    rw [eq_of_expanded hbehind hbehind' hroots]

end DescendantTree

namespace Descendants
open DescendantTree (Expanded expanded_nil expanded_cons expanded_append expanded_leaves
  subtrees forestSubtrees forestSubtrees_leaves)

/-- What growing trees under waiting nodes with some lookups has to give: a tree for each
node, which shows children where a lookup was spent, and the lookups that no visit took. -/
structure Grown (children : NodeId → List NodeId) (lookups : Nat) (waiting : List NodeId)
    (trees : List DescendantTree) (left : Nat) : Prop where
  roots : trees.map DescendantTree.id = waiting
  left : left = lookups - (forestSubtrees trees).length
  expanded : Expanded children lookups (forestSubtrees trees)

section
variable {children : NodeId → List NodeId} {lookups left remaining : Nat}
variable {node : NodeId} {waiting : List NodeId} {below others : List DescendantTree}

theorem grown_nil : Grown children lookups [] [] lookups :=
  ⟨rfl, rfl, expanded_nil⟩

theorem grown_leaves : Grown children 0 waiting (waiting.map .leaf) 0 where
  roots := by
    rw [List.map_map]
    exact List.map_id waiting
  left := by omega
  expanded := by
    rw [forestSubtrees_leaves]
    exact expanded_leaves waiting

theorem grown_cons (hbelow : Grown children lookups (children node) below left)
    (hothers : Grown children left waiting others remaining) :
    Grown children (lookups + 1) (node :: waiting) (.node node below :: others) remaining where
  roots := by
    rw [List.map_cons, hothers.roots]
    rfl
  left := by
    have hleft := hbelow.left
    have hremaining := hothers.left
    simp only [forestSubtrees, subtrees, List.length_append, List.length_cons]
    omega
  expanded := by
    simp only [forestSubtrees, subtrees, List.cons_append]
    rw [expanded_cons, expanded_append, Nat.add_sub_cancel]
    refine ⟨?_, hbelow.expanded, ?_⟩
    · rw [if_pos (Nat.succ_pos lookups)]
      exact hbelow.roots
    · rw [← hbelow.left]
      exact hothers.expanded

end

theorem grow_zero (children : NodeId → List NodeId) (waiting : List NodeId) :
    grow children 0 waiting = (waiting.map .leaf, 0) := by
  cases waiting <;> rw [grow] <;> simp

theorem grown_grow (children : NodeId → List NodeId) (lookups : Nat) (waiting : List NodeId) :
    Grown children lookups waiting (grow children lookups waiting).1
      (grow children lookups waiting).2 := by
  induction lookups, waiting using grow.induct children with
  | case1 lookups =>
    rw [grow]
    exact grown_nil
  | case2 waiting =>
    rw [grow_zero]
    exact grown_leaves
  | case3 lookups node waiting below left hbelow others remaining hothers ihbelow ihothers =>
    rw [hbelow] at ihbelow
    -- the first tree cannot leave more lookups than it was given
    have hmin : min left lookups = left := by
      have := ihbelow.left
      omega
    rw [hmin] at hothers ihothers
    rw [hothers] at ihothers
    rw [grow, hbelow]
    simp only [hmin, hothers]
    exact grown_cons ihbelow ihothers

/-- The answer to a query for trees: the visits from the start on are numbered, and the
lookups are as many as there are visits, up to those that the limit allows. -/
theorem treeAnswer_expanded (children : NodeId → List NodeId) (start : NodeId) (limit : Nat) :
    ∃ trees, treeAnswer children start limit =
        ⟨.nested trees, min (1 + (nested trees).ids.length) (limit - 1)⟩ ∧
      Expanded children (limit - 1) (DescendantTree.node start trees).subtrees := by
  have hgrown := grown_grow children (allowedLookups limit) [start]
  unfold treeAnswer
  cases hgrow : grow children (allowedLookups limit) [start] with
  | mk forest left =>
    rw [hgrow] at hgrown
    obtain ⟨trees, rfl⟩ : ∃ trees, forest = [.node start trees] := by
      match forest, hgrown.roots with
      | [.node n trees], h =>
        obtain rfl : n = start := by simpa [DescendantTree.id] using h
        exact ⟨trees, rfl⟩
    have hleft := hgrown.left
    have hexpanded := hgrown.expanded
    simp only [forestSubtrees, List.append_nil] at hleft hexpanded
    refine ⟨trees, ?_, hexpanded⟩
    have hvisits : (DescendantTree.node start trees).subtrees.length =
        1 + (nested trees).ids.length := by
      show _ = 1 + (DescendantTree.forestIds trees).length
      rw [DescendantTree.forestIds_eq_map, List.length_map, subtrees, List.length_cons,
        Nat.add_comm]
    have hspent : allowedLookups limit - left =
        min (1 + (nested trees).ids.length) (limit - 1) := by
      rw [hvisits] at hleft
      unfold allowedLookups at *
      omega
    simp [hspent, DescendantTree.branches]

/-- Of two chains below one start, the first uses up what the second would need. -/
example : (treeAnswer (Edges.childrenOf
    [⟨1, 1, 10⟩, ⟨1, 10, 11⟩, ⟨1, 11, 12⟩, ⟨1, 12, 13⟩, ⟨1, 1, 20⟩, ⟨1, 20, 21⟩])
    1 4).descendants.ids = [10, 11, 12, 20] := by
  decide +kernel

end Descendants

namespace Database
open DescendantTree (Expanded)

/-- The meaning of a limit for a query from `start` that shows `trees`. Its visits are
numbered from one: a visit with a number below the limit shows the children of its node
as they are stored, and any other shows none. -/
def ShowsWithin (db : Database) (limit : Nat) (start : NodeId)
    (trees : List DescendantTree) : Prop :=
  ∀ k tree, (DescendantTree.node start trees).subtrees[k]? = some tree →
    if k + 1 < limit then db.childrenOf tree.id = .ok (tree.branches.map DescendantTree.id)
    else tree.branches = []

theorem showsWithin_iff {db : Database} {table : Numbered Edge} (h : db.edges = some table)
    {limit : Nat} {start : NodeId} {trees : List DescendantTree} :
    db.ShowsWithin limit start trees ↔
      Expanded (Edges.childrenOf table.values) (limit - 1)
        (DescendantTree.node start trees).subtrees := by
  unfold ShowsWithin Expanded
  refine forall_congr' fun k => forall_congr' fun tree => imp_congr_right fun _ => ?_
  by_cases hk : k + 1 < limit
  · rw [if_pos hk, if_pos (by omega), childrenOf_table h, Except.ok.injEq, eq_comm]
  · rw [if_neg hk, if_neg (by omega), List.map_eq_nil_iff]

/-- On every edge table and from every start, a query for trees ends, changes nothing and
gives the one forest that the limit allows. It looks children up once for every visit, up
to one time less than the limit, and with a limit of zero or one it gives nothing. -/
theorem depth_query_within_limit (db : Database) (table : Numbered Edge) (start : NodeId)
    (limit : Nat) :
    let db := { db with edges := some table }
    ∃ trees lookups,
      db.perform (Edges.descendants start .depth limit) = (.ok ⟨.nested trees, lookups⟩, db) ∧
      db.ShowsWithin limit start trees ∧
      (∀ others, db.ShowsWithin limit start others → others = trees) ∧
      lookups = min (1 + (Descendants.nested trees).ids.length) (limit - 1) ∧
      (limit ≤ 1 → trees = []) := by
  intro db
  have htable : db.edges = some table := rfl
  obtain ⟨trees, hperform, hshown⟩ : ∃ trees,
      db.perform (Edges.descendants start .depth limit) = (.ok ⟨.nested trees,
        min (1 + (Descendants.nested trees).ids.length) (limit - 1)⟩, db) ∧
      Expanded (Edges.childrenOf table.values) (limit - 1)
        (DescendantTree.node start trees).subtrees := by
    unfold Edges.descendants
    by_cases hnone : Descendants.allowedLookups limit = 0
    · -- no lookup is allowed, so that it does not matter what the table holds
      obtain ⟨trees, hanswer, hshown⟩ :=
        Descendants.treeAnswer_expanded (fun _ => []) start limit
      refine ⟨trees, ?_, ?_⟩
      · rw [if_pos (by simpa using hnone), Descendants.query, hanswer]
        rfl
      · have hlimit : limit - 1 = 0 := hnone
        rw [hlimit] at hshown ⊢
        exact fun k tree h => hshown k tree h
    · obtain ⟨trees, hanswer, hshown⟩ :=
        Descendants.treeAnswer_expanded (Edges.childrenOf table.values) start limit
      refine ⟨trees, ?_, hshown⟩
      rw [if_neg (by simpa using hnone), perform_bind_ok (perform_edges htable),
        Descendants.query, hanswer]
      rfl
  refine ⟨trees, _, hperform, (showsWithin_iff htable).2 hshown, ?_, rfl, ?_⟩
  · intro others hothers
    have hforest : [DescendantTree.node start others] = [DescendantTree.node start trees] :=
      DescendantTree.eq_of_expanded
        (by simpa [DescendantTree.forestSubtrees] using (showsWithin_iff htable).1 hothers)
        (by simpa [DescendantTree.forestSubtrees] using hshown) rfl
    simpa using hforest
  · intro hlimit
    have hroot := (showsWithin_iff htable).2 hshown 0 _ rfl
    rwa [if_neg (by omega)] at hroot

end Database

end Lineage
