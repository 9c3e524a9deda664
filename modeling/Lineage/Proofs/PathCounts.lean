import Lineage.Proofs.Reachability
import Mathlib.Data.Set.Card
import Mathlib.Data.Set.Finite.Lemmas

/-! # How often an answer shows a node

The stored edges are a graph in which two nodes may be joined more than once, and a walk
follows each of these edges by itself. A visit thus stands for a path, that is for the edges
along which the walk came: no two visits stand for the same one, and a walk that had a lookup
for each visit has followed every path there is. Where a cycle can be reached there are more
paths than any limit allows lookups. -/

namespace Lineage

namespace Edges
variable {table : Numbered Edge} {node start id : NodeId}

/-- The edges follow each other from a node on. Edges that join the same nodes are different
rows, so that paths along them are different paths. -/
def IsPath (table : Numbered Edge) : NodeId → List (Row Edge) → Prop
  | _, [] => True
  | node, row :: rest =>
    row ∈ table.rows ∧ row.value.parent = node ∧ IsPath table row.value.child rest

def finish : NodeId → List (Row Edge) → NodeId
  | node, [] => node
  | _, row :: rest => finish row.value.child rest

/-- The paths from a node that have an edge. -/
def pathsFrom (table : Numbered Edge) (start : NodeId) : Set (List (Row Edge)) :=
  {path | path ≠ [] ∧ IsPath table start path}

def pathsTo (table : Numbered Edge) (start id : NodeId) : Set (List (Row Edge)) :=
  {path ∈ pathsFrom table start | finish start path = id}

theorem isPath_append {path more : List (Row Edge)} (h : IsPath table node path)
    (hmore : IsPath table (finish node path) more) : IsPath table node (path ++ more) := by
  induction path generalizing node with
  | nil => exact hmore
  | cons row rest ih =>
    obtain ⟨hrow, hparent, hrest⟩ := h
    exact ⟨hrow, hparent, ih hrest hmore⟩

theorem finish_append (node : NodeId) (path more : List (Row Edge)) :
    finish node (path ++ more) = finish (finish node path) more := by
  induction path generalizing node with
  | nil => rfl
  | cons row rest ih => exact ih row.value.child

/-- A cycle can be gone round once more at the end of a path, so that no path is the longest. -/
theorem infinite_pathsFrom (hreached : id = start ∨ (pathsTo table start id).Nonempty)
    (hcycle : (pathsTo table id id).Nonempty) : (pathsFrom table start).Infinite := by
  obtain ⟨cycle, ⟨hedge, hcycle⟩, hback⟩ := hcycle
  have hsome : (pathsTo table start id).Nonempty := by
    rcases hreached with rfl | hreached
    · exact ⟨cycle, ⟨hedge, hcycle⟩, hback⟩
    · exact hreached
  have hsubset : pathsTo table start id ⊆ pathsFrom table start := fun path h => h.1
  refine Set.Infinite.mono hsubset fun hfinite => ?_
  obtain ⟨path, ⟨⟨hpathEdge, hpath⟩, hfinish⟩, hlongest⟩ :=
    Set.exists_max_image _ List.length hfinite hsome
  have hmore : path ++ cycle ∈ pathsTo table start id := by
    refine ⟨⟨by simp [hedge], isPath_append hpath (hfinish ▸ hcycle)⟩, ?_⟩
    rw [finish_append, hfinish, hback]
  have hlength := hlongest _ hmore
  have hpos := List.length_pos_iff.2 hedge
  rw [List.length_append] at hlength
  omega

/-- The paths from a node, the one without an edge included, whose last node is accepted. -/
def pathsInto (table : Numbered Edge) (accept : NodeId → Bool) (node : NodeId) :
    Set (List (Row Edge)) :=
  {path | IsPath table node path ∧ accept (finish node path) = true}

/-- All of them that begin at waiting nodes, as often as a node waits. -/
noncomputable def pathCount (table : Numbered Edge) (accept : NodeId → Bool)
    (waiting : List NodeId) : ℕ∞ :=
  (waiting.map fun node => (pathsInto table accept node).encard).sum

theorem encard_cons_image {rows : List (Row Edge)} (hrows : rows.Nodup)
    (rests : Row Edge → Set (List (Row Edge))) :
    {path | ∃ row ∈ rows, ∃ rest ∈ rests row, row :: rest = path}.encard =
      (rows.map fun row => (rests row).encard).sum := by
  induction rows with
  | nil => simp
  | cons row rows ih =>
    obtain ⟨hrow, hrows⟩ := List.nodup_cons.1 hrows
    have hsplit : {path | ∃ r ∈ row :: rows, ∃ rest ∈ rests r, r :: rest = path} =
        (row :: ·) '' rests row ∪ {path | ∃ r ∈ rows, ∃ rest ∈ rests r, r :: rest = path} := by
      ext path
      simp
    have hdisjoint : Disjoint ((row :: ·) '' rests row)
        {path | ∃ r ∈ rows, ∃ rest ∈ rests r, r :: rest = path} := by
      rw [Set.disjoint_left]
      rintro path ⟨rest, -, rfl⟩ ⟨r, hr, other, -, hpath⟩
      exact hrow ((List.cons.inj hpath).1 ▸ hr)
    rw [hsplit, Set.encard_union_eq hdisjoint, ih hrows, List.map_cons, List.sum_cons,
      (List.cons_injective).encard_image]

/-- The paths with an edge go on from the children, each as often as it is one. -/
theorem encard_onward (table : Numbered Edge) (accept : NodeId → Bool) (node : NodeId) :
    {path ∈ pathsFrom table node | accept (finish node path) = true}.encard =
      pathCount table accept (childrenOf table.values node) := by
  have honward : {path ∈ pathsFrom table node | accept (finish node path) = true} =
      {path | ∃ row ∈ table.rows.filter (fun row => row.value.parent == node),
        ∃ rest ∈ pathsInto table accept row.value.child, row :: rest = path} := by
    ext path
    cases path with
    | nil => simp [pathsFrom]
    | cons row rest => simp [pathsFrom, pathsInto, IsPath, finish, and_assoc]
  have hrows : table.rows.Nodup :=
    table.ascending.imp fun hlt heq => Int.ne_of_lt hlt (congrArg Row.id heq)
  rw [honward, encard_cons_image (hrows.filter _)]
  simp [pathCount, childrenOf, Numbered.values, List.filter_map, Function.comp_def]

/-- A path from a node has no edge, or goes on from a child. -/
theorem encard_pathsInto (table : Numbered Edge) (accept : NodeId → Bool) (node : NodeId) :
    (pathsInto table accept node).encard =
      (if accept node then 1 else 0) +
        pathCount table accept (childrenOf table.values node) := by
  have hsplit : pathsInto table accept node = {path | path = [] ∧ accept node = true} ∪
      {path ∈ pathsFrom table node | accept (finish node path) = true} := by
    ext path
    cases path with
    | nil => simp [pathsInto, pathsFrom, IsPath, finish]
    | cons row rest => simp [pathsInto, pathsFrom]
  have hdisjoint : Disjoint {path : List (Row Edge) | path = [] ∧ accept node = true}
      {path ∈ pathsFrom table node | accept (finish node path) = true} := by
    rw [Set.disjoint_left]
    rintro path ⟨hempty, -⟩ ⟨⟨hedge, -⟩, -⟩
    exact hedge hempty
  have hempty : {path : List (Row Edge) | path = [] ∧ accept node = true}.encard =
      if accept node then 1 else 0 := by
    by_cases haccept : accept node = true
    · simp [haccept]
    · simp [haccept]
  rw [hsplit, Set.encard_union_eq hdisjoint, hempty, encard_onward]

theorem pathCount_cons (table : Numbered Edge) (accept : NodeId → Bool) (node : NodeId)
    (waiting : List NodeId) :
    pathCount table accept (node :: waiting) =
      (if accept node then 1 else 0) +
        pathCount table accept (childrenOf table.values node ++ waiting) := by
  have happend : pathCount table accept (childrenOf table.values node ++ waiting) =
      pathCount table accept (childrenOf table.values node) + pathCount table accept waiting := by
    simp [pathCount]
  rw [happend, ← add_assoc, ← encard_pathsInto]
  simp [pathCount]

end Edges

/-! ## Visits -/

namespace Descendants
open Edges (childrenOf pathsInto pathCount pathCount_cons encard_pathsInto)
variable {table : Numbered Edge} {lookups : Nat} {waiting : List NodeId}

/-- A node that waits is the end of a path without an edge. -/
theorem countP_le_pathCount (table : Numbered Edge) (accept : NodeId → Bool)
    (waiting : List NodeId) : (waiting.countP accept : ℕ∞) ≤ pathCount table accept waiting := by
  induction waiting with
  | nil => simp
  | cons node waiting ih =>
    have hnode : (if accept node then 1 else 0) ≤ (pathsInto table accept node).encard := by
      rw [encard_pathsInto]
      exact le_self_add
    rw [List.countP_cons, add_comm]
    push_cast
    simp only [pathCount, List.map_cons, List.sum_cons] at ih ⊢
    exact add_le_add hnode ih

/-- No two visits stand for the same path. -/
theorem countP_walk_le (table : Numbered Edge) (accept : NodeId → Bool) (lookups : Nat)
    (waiting : List NodeId) :
    ((walk (childrenOf table.values) lookups waiting).1.countP accept : ℕ∞) ≤
      pathCount table accept waiting := by
  induction lookups generalizing waiting with
  | zero =>
    rw [walk_zero]
    exact countP_le_pathCount table accept waiting
  | succ lookups ih =>
    cases waiting with
    | nil => simp [walk]
    | cons node waiting =>
      rw [pathCount_cons, walk, List.countP_cons, add_comm]
      push_cast
      exact add_le_add_right (ih _) _

/-- A walk with a lookup for each visit has followed every path. -/
theorem countP_walk (accept : NodeId → Bool)
    (h : (walk (childrenOf table.values) lookups waiting).1.length ≤ lookups) :
    ((walk (childrenOf table.values) lookups waiting).1.countP accept : ℕ∞) =
      pathCount table accept waiting := by
  induction lookups generalizing waiting with
  | zero =>
    rw [walk_zero] at h ⊢
    obtain rfl : waiting = [] := List.length_eq_zero_iff.1 (Nat.le_zero.1 h)
    simp [pathCount]
  | succ lookups ih =>
    cases waiting with
    | nil => simp [walk, pathCount]
    | cons node waiting =>
      rw [walk] at h
      have hrest := ih (Nat.le_of_succ_le_succ h)
      rw [pathCount_cons, ← hrest, walk, List.countP_cons, add_comm]
      push_cast
      rfl

/-- The visits behind that of the start, where it has a lookup. -/
theorem ids_flat (children : NodeId → List NodeId) (start : NodeId) (lookups : Nat) :
    (query children start .flat (lookups + 2)).descendants.ids =
      (walk children lookups (children start)).1 := by
  simp [query, listAnswer, allowedLookups, walk, ids]

theorem ids_flat_of_le (children : NodeId → List NodeId) (start : NodeId) {limit : Nat}
    (h : limit ≤ 1) : (query children start .flat limit).descendants.ids = [] := by
  have hnone : allowedLookups limit = 0 := Nat.sub_eq_zero_of_le h
  simp [query, listAnswer, hnone, walk_zero, ids]

theorem mem_ids_iff (children : NodeId → List NodeId) (start : NodeId)
    (format : DescendantFormat) (limit : Nat) (id : NodeId) :
    id ∈ (query children start format limit).descendants.ids ↔
      id ∈ (query children start .flat limit).descendants.ids := by
  obtain ⟨trees, lookups, hdepth, hflat, hunique⟩ := query_formats children start limit
  cases format with
  | flat => rfl
  | depth => rw [hdepth, hflat]; rfl
  | unique =>
    rw [hunique, hflat]
    exact (firstOccurrences_eraseDups _).mem_iff id

end Descendants

namespace Descendants
open Edges (childrenOf pathsFrom pathsTo finish encard_onward)
variable {table : Numbered Edge} {start : NodeId} {limit : Nat}

theorem countP_flat_le (table : Numbered Edge) (start : NodeId) (limit : Nat)
    (accept : NodeId → Bool) :
    ((query (childrenOf table.values) start .flat limit).descendants.ids.countP accept : ℕ∞) ≤
      {path ∈ pathsFrom table start | accept (finish start path) = true}.encard := by
  by_cases hlimit : limit ≤ 1
  · simp [ids_flat_of_le _ _ hlimit]
  · obtain ⟨lookups, rfl⟩ : ∃ n, limit = n + 2 := ⟨limit - 2, by omega⟩
    rw [ids_flat, encard_onward]
    exact countP_walk_le table accept lookups _

theorem countP_flat
    (h : 1 + (query (childrenOf table.values) start .flat limit).descendants.ids.length < limit)
    (accept : NodeId → Bool) :
    ((query (childrenOf table.values) start .flat limit).descendants.ids.countP accept : ℕ∞) =
      {path ∈ pathsFrom table start | accept (finish start path) = true}.encard := by
  obtain ⟨lookups, rfl⟩ : ∃ n, limit = n + 2 := ⟨limit - 2, by omega⟩
  rw [ids_flat] at h ⊢
  rw [encard_onward]
  exact countP_walk accept (by omega)

theorem all_paths : {path ∈ pathsFrom table start | (fun _ => true) (finish start path) = true} =
    pathsFrom table start := by
  simp

theorem paths_to (id : NodeId) :
    {path ∈ pathsFrom table start | (fun n => n == id) (finish start path) = true} =
      pathsTo table start id := by
  simp [pathsTo]

/-- A list has room for one visit more just when it shows all paths, and these are so few. -/
theorem flat_short_iff :
    1 + (query (childrenOf table.values) start .flat limit).descendants.ids.length < limit ↔
      (pathsFrom table start).Finite ∧ (pathsFrom table start).ncard + 1 < limit := by
  constructor
  · intro h
    have hall := countP_flat h fun _ => true
    rw [all_paths, List.countP_true] at hall
    have hfinite := Set.finite_of_encard_eq_coe hall.symm
    refine ⟨hfinite, ?_⟩
    rw [← hfinite.cast_ncard_eq, Nat.cast_inj] at hall
    omega
  · rintro ⟨hfinite, hfew⟩
    have hall := countP_flat_le table start limit fun _ => true
    rw [all_paths, List.countP_true, ← hfinite.cast_ncard_eq, Nat.cast_le] at hall
    omega

theorem pathsTo_nonempty_of_mem {id : NodeId}
    (h : id ∈ (query (childrenOf table.values) start .flat limit).descendants.ids) :
    (pathsTo table start id).Nonempty := by
  have hcount := countP_flat_le table start limit fun n => n == id
  rw [paths_to] at hcount
  rw [← Set.encard_pos]
  refine lt_of_lt_of_le ?_ hcount
  simpa [List.countP_pos_iff] using h

end Descendants

namespace Database
open Edges (pathsFrom pathsTo infinite_pathsFrom)

/-- On every edge table, from every start and under every limit: the flat list has room for one
visit more just when the paths with an edge from the start are finitely many and as few. Then it
shows every node as often as paths lead to it, and so all that can be reached. Cut short or
not, no format shows a node to which no path leads; and where a cycle can be reached the list is
no shorter than the limit allows lookups. -/
theorem flat_answer_counts_paths (db : Database) (table : Numbered Edge) (start : NodeId)
    (limit : Nat) :
    let db := { db with edges := some table }
    ∃ flat, db.descendantsOf start .flat limit = .ok flat ∧
      (1 + flat.length < limit ↔
        (pathsFrom table start).Finite ∧ (pathsFrom table start).ncard + 1 < limit) ∧
      (1 + flat.length < limit → ∀ id,
        (pathsTo table start id).encard = flat.count id ∧
        (id ∈ flat ↔ (pathsTo table start id).Nonempty)) ∧
      (∀ format, ∃ ids, db.descendantsOf start format limit = .ok ids ∧
        ∀ id ∈ ids, (pathsTo table start id).Nonempty) ∧
      ((∃ id, (id = start ∨ (pathsTo table start id).Nonempty) ∧
        (pathsTo table id id).Nonempty) → limit - 1 ≤ flat.length) := by
  intro db
  refine ⟨_, descendantsOf_table rfl start .flat limit, Descendants.flat_short_iff, ?_, ?_, ?_⟩
  · intro hshort id
    have hcount := Descendants.countP_flat hshort fun n => n == id
    rw [Descendants.paths_to] at hcount
    refine ⟨hcount.symm, Descendants.pathsTo_nonempty_of_mem, fun hpath => ?_⟩
    rw [← Set.encard_pos, ← hcount] at hpath
    simpa [List.countP_pos_iff] using hpath
  · intro format
    refine ⟨_, descendantsOf_table rfl start format limit, fun id hid => ?_⟩
    exact Descendants.pathsTo_nonempty_of_mem ((Descendants.mem_ids_iff _ _ _ _ _).1 hid)
  · rintro ⟨id, hreached, hcycle⟩
    refine Nat.le_of_not_lt fun hshort => ?_
    have hroom := Nat.add_lt_of_lt_sub hshort
    rw [Nat.add_comm] at hroom
    exact infinite_pathsFrom hreached hcycle (Descendants.flat_short_iff.1 hroom).1

/-- Two paths lead to the far corner of a diamond, and the list shows it twice. -/
example : (Descendants.query (Edges.childrenOf [⟨1, 1, 2⟩, ⟨1, 1, 3⟩, ⟨2, 2, 4⟩, ⟨3, 3, 4⟩])
    1 .flat 20).descendants.ids = [2, 4, 3, 4] := by
  decide

end Database

end Lineage
