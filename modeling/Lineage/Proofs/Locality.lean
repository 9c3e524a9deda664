import Lineage.Proofs.LargerLimits
import Lineage.Proofs.Reindex

/-! # What an answer depends on

A query asks for the children of some nodes only, and which ones these are depends on what it
was told about those before. A second table that gives the same children for the nodes of the
first visits leads the walk along the same way. That needs no second walk to be followed: the
forest of the first one shows what the limit allows of the second table too, and there is only
one forest that does. -/

namespace Lineage

/-- Visits that show the children of their nodes in one graph show them in every other one
where the nodes with a lookup have the same children. -/
theorem DescendantTree.expanded_congr {children others : NodeId → List NodeId} {lookups : Nat}
    {visits : List DescendantTree} (h : Expanded children lookups visits)
    (hsame : ∀ node ∈ (visits.map id).take lookups, children node = others node) :
    Expanded others lookups visits := by
  intro k tree htree
  rw [h k tree htree]
  by_cases hk : k < lookups
  · have hmem : tree.id ∈ (visits.map id).take lookups := by
      refine List.mem_of_getElem? (i := k) ?_
      rw [List.getElem?_take_of_lt hk, List.getElem?_map, htree]
      rfl
    rw [if_pos hk, if_pos hk, hsame tree.id hmem]
  · rw [if_neg hk, if_neg hk]

namespace Descendants
open DescendantTree (expanded_congr eq_of_expanded forestIds_eq_map)
variable {children others : NodeId → List NodeId} {lookups : Nat} {waiting : List NodeId}

theorem grow_congr (hsame : ∀ node ∈ (walk children lookups waiting).1.take lookups,
    children node = others node) : grow others lookups waiting = grow children lookups waiting := by
  have hgrown := grown_grow children lookups waiting
  have hothers := grown_grow others lookups waiting
  rw [walk_eq_grow, forestIds_eq_map] at hsame
  have htrees : (grow others lookups waiting).1 = (grow children lookups waiting).1 :=
    eq_of_expanded hothers.expanded (expanded_congr hgrown.expanded hsame)
      (hothers.roots.trans hgrown.roots.symm)
  refine Prod.ext htrees ?_
  rw [hothers.left, hgrown.left, htrees]

theorem walk_congr (hsame : ∀ node ∈ (walk children lookups waiting).1.take lookups,
    children node = others node) : walk others lookups waiting = walk children lookups waiting := by
  rw [walk_eq_grow, walk_eq_grow, grow_congr hsame]

theorem walk_start (children : NodeId → List NodeId) (start : NodeId) (limit : Nat) :
    (walk children (allowedLookups limit) [start]).1 =
      start :: (query children start .flat limit).descendants.ids := by
  have hfirst := take_one_walk children (allowedLookups limit) [start]
  show _ = start :: (walk children (allowedLookups limit) [start]).1.tail
  cases hvisits : (walk children (allowedLookups limit) [start]).1 with
  | nil =>
    rw [hvisits] at hfirst
    cases hfirst
  | cons first rest =>
    rw [hvisits] at hfirst
    obtain ⟨rfl, -⟩ := List.cons.inj hfirst
    rfl

/-- In whatever format, an answer depends on the children of the nodes of the first visits. -/
theorem query_congr {start : NodeId} {limit : Nat}
    (hsame : ∀ node ∈ (start :: (query children start .flat limit).descendants.ids).take
      (allowedLookups limit), children node = others node) (format : DescendantFormat) :
    query others start format limit = query children start format limit := by
  rw [← walk_start] at hsame
  have hwalk := walk_congr hsame
  have hgrow := grow_congr hsame
  cases format with
  | flat => rw [query, query, listAnswer, listAnswer, hwalk]
  | unique => rw [query, query, listAnswer, listAnswer, hwalk]
  | depth => rw [query, query, treeAnswer, treeAnswer, hgrow]

end Descendants

/-- An item's edges can be replaced without any change for a node that is the parent of none of
the old ones and of none of the new. -/
theorem Edges.childrenOf_replace {id node : NodeId} {old new : List Edge}
    (hold : ∀ e ∈ assertedBy id old, e.parent ≠ node) (hnew : ∀ e ∈ new, e.parent ≠ node) :
    childrenOf ((old.filter fun e => e.reporter != id) ++ new) node = childrenOf old node := by
  have hnone : childrenOf new node = [] := by
    unfold childrenOf
    rw [List.map_eq_nil_iff, List.filter_eq_nil_iff]
    intro e he
    simpa using hnew e he
  rw [childrenOf_append, hnone, List.append_nil]
  unfold childrenOf
  rw [List.filter_filter]
  congr 1
  refine List.filter_congr fun e he => ?_
  by_cases hreporter : e.reporter = id
  · have hparent := hold e (List.mem_filter.2 ⟨he, by simpa using hreporter⟩)
    simp [hparent]
  · simp [hreporter]

namespace Database

/-- The nodes of the visits that have a lookup. The flat answer shows all visits but that of
the start, which is the first. -/
def consulted (db : Database) (start : NodeId) (limit : Nat) : Except Failure (List NodeId) :=
  (db.descendantsOf start .flat limit).map fun flat => (start :: flat).take (limit - 1)

/-- Whatever item is stored under an id, the edges that its reindex removes and those that it
inserts have other parents than these nodes. -/
def ReindexSpares (db : Database) (rules : RuleTable) (id : NodeId) (nodes : List NodeId) : Prop :=
  ∀ old stored, db.edgesOf id = .ok old → db.stored id = .ok stored →
    ∀ e ∈ old ++ Edges.asserted rules stored, e.parent ∉ nodes

/-- Two databases give the same answer to a query, and neither is changed by it. -/
def AnswersAlike (db other : Database) (start : NodeId) (format : DescendantFormat)
    (limit : Nat) : Prop :=
  ∃ answer, db.perform (Edges.descendants start format limit) = (.ok answer, db) ∧
    other.perform (Edges.descendants start format limit) = (.ok answer, other)

variable {db other : Database} {table changed : Numbered Edge} {start : NodeId} {limit : Nat}

theorem consulted_table (h : db.edges = some table) (start : NodeId) (limit : Nat) :
    db.consulted start limit = .ok ((start ::
      (Descendants.query (Edges.childrenOf table.values) start .flat limit).descendants.ids).take
        (Descendants.allowedLookups limit)) := by
  unfold consulted
  rw [descendantsOf_table h]
  rfl

theorem answersAlike_of_children (hdb : db.edges = some table) (hother : other.edges = some changed)
    {nodes : List NodeId} (hnodes : db.consulted start limit = .ok nodes)
    (hsame : ∀ node ∈ nodes, db.childrenOf node = other.childrenOf node)
    (format : DescendantFormat) : db.AnswersAlike other start format limit := by
  rw [consulted_table hdb] at hnodes
  obtain rfl := Except.ok.inj hnodes
  refine ⟨_, perform_descendants hdb start format limit, ?_⟩
  rw [perform_descendants hother, Descendants.query_congr fun node hnode => ?_]
  have hchildren := hsame node hnode
  rw [childrenOf_table hdb, childrenOf_table hother] at hchildren
  exact Except.ok.inj hchildren

theorem childrenOf_afterReindex (hdb : db.edges = some table) {rules : RuleTable} {id node : NodeId}
    {nodes : List NodeId} (hspares : db.ReindexSpares rules id nodes) (hnode : node ∈ nodes) :
    db.childrenOf node = (db.afterReindex rules id).childrenOf node := by
  cases hstored : db.stored id with
  | error e =>
    have hkept : (db.afterReindex rules id).edges = some table := by
      rw [afterReindex_edges, hstored]
      exact hdb
    rw [childrenOf_table hdb, childrenOf_table hkept]
  | ok stored =>
    have hafter : (db.afterReindex rules id).edges =
        some (Edges.replace id (Edges.asserted rules stored) table) := by
      rw [afterReindex_edges, hstored, hdb]
      rfl
    have hparents := hspares _ stored (edgesOf_table hdb id) hstored
    rw [childrenOf_table hdb, childrenOf_table hafter, Edges.values_replace,
      Edges.childrenOf_replace]
    · exact fun e he heq => hparents e (List.mem_append_left _ he) (heq ▸ hnode)
    · exact fun e he heq => hparents e (List.mem_append_right _ he) (heq ▸ hnode)

/-- An answer depends on the children of the nodes that the query consults, and on nothing else
in the table. Two databases that show the same children of these nodes give the same answers in
every format, and a reindex of an item whose old and new edges have other parents changes no
answer. -/
theorem answer_rests_on_consulted (db other : Database) (table changed : Numbered Edge)
    (start : NodeId) (limit : Nat) :
    let db := { db with edges := some table }
    let other := { other with edges := some changed }
    ∃ nodes, db.consulted start limit = .ok nodes ∧
      ((∀ node ∈ nodes, db.childrenOf node = other.childrenOf node) →
        ∀ format, db.AnswersAlike other start format limit) ∧
      ∀ rules id, db.ReindexSpares rules id nodes →
        ∀ format, db.AnswersAlike (db.afterReindex rules id) start format limit := by
  intro db other
  refine ⟨_, consulted_table rfl start limit,
    answersAlike_of_children rfl rfl (consulted_table rfl start limit),
    fun rules id hspares => ?_⟩
  obtain ⟨after, hafter⟩ : ∃ after, (db.afterReindex rules id).edges = some after :=
    Option.isSome_iff_exists.1 (by rw [afterReindex_edges_isSome]; rfl)
  exact answersAlike_of_children rfl hafter (consulted_table rfl start limit)
    fun node hnode => childrenOf_afterReindex rfl hspares hnode

/-- A chain of two edges, and between them one that item 2 has reported. -/
def chainAround : Database :=
  { holding 2 with edges := some (Numbered.empty.addAll [⟨1, 1, 7⟩, ⟨2, 9, 2⟩, ⟨1, 7, 8⟩]) }

/-- The same chain in other rows, behind an edge into its start. -/
def chainElsewhere : Database :=
  { holding 2 with edges := some (Numbered.empty.addAll [⟨4, 6, 1⟩, ⟨4, 1, 7⟩, ⟨3, 7, 8⟩]) }

/-- A query that goes down the chain consults two nodes. It finds the same in the other table, and
after a reindex that moves item 2 from one parent to another. -/
theorem far_edges_do_not_matter :
    chainAround.consulted 1 3 = .ok [1, 7] ∧
    (∀ node ∈ [1, 7], chainAround.childrenOf node = chainElsewhere.childrenOf node) ∧
    chainAround.ReindexSpares RuleTable.builtin 2 [1, 7] ∧
    (chainAround.afterReindex RuleTable.builtin 2).edgesOf 2 ≠ chainAround.edgesOf 2 ∧
    ∀ format, chainAround.AnswersAlike chainElsewhere 1 format 3 ∧
      chainAround.AnswersAlike (chainAround.afterReindex RuleTable.builtin 2) 1 format 3 := by
  have hconsulted : chainAround.consulted 1 3 = .ok [1, 7] := by
    rw [consulted_table rfl]
    decide
  have hsame : ∀ node ∈ [1, 7], chainAround.childrenOf node = chainElsewhere.childrenOf node := by
    intro node hnode
    rcases List.mem_pair.1 hnode with rfl | rfl <;> rfl
  have hitems : chainAround.items = (holding 2).items := rfl
  have hstored : chainAround.stored 2 = .ok (some straying) :=
    (stored_congr hitems 2).trans (stored_holding 2)
  have hspares : chainAround.ReindexSpares RuleTable.builtin 2 [1, 7] := by
    intro old stored hold hfound
    rw [edgesOf_table rfl] at hold
    obtain rfl := Except.ok.inj hold
    obtain rfl := Except.ok.inj (hstored.symm.trans hfound)
    rw [asserted_straying]
    decide
  have hmoved : (chainAround.afterReindex RuleTable.builtin 2).edgesOf 2 ≠
      chainAround.edgesOf 2 := by
    have hafter := afterReindex_edges chainAround RuleTable.builtin 2
    rw [hstored] at hafter
    dsimp only at hafter
    rw [asserted_straying] at hafter
    rw [edgesOf_table hafter, edgesOf_table rfl]
    decide
  obtain ⟨nodes, hnodes, hother, hreindex⟩ := answer_rests_on_consulted (holding 2) (holding 2)
    (Numbered.empty.addAll [⟨1, 1, 7⟩, ⟨2, 9, 2⟩, ⟨1, 7, 8⟩])
    (Numbered.empty.addAll [⟨4, 6, 1⟩, ⟨4, 1, 7⟩, ⟨3, 7, 8⟩]) 1 3
  obtain rfl := Except.ok.inj (hconsulted.symm.trans hnodes)
  exact ⟨hconsulted, hsame, hspares, hmoved, fun format =>
    ⟨hother hsame format, hreindex RuleTable.builtin 2 hspares format⟩⟩

end Database

end Lineage
