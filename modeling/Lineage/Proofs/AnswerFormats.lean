import Lineage.Proofs.LookupBudget
import Mathlib.Data.List.Basic

/-! # One walk behind three answers

A list of descendants and a tree of them come from two recursions, which keep what they
found in different ways. Both spend the same budget at the same visits, so the tree read
from the root on is the list, however early the budget ends. The list without repetitions
keeps of every node its first visit. -/

namespace Lineage

namespace Descendants
open DescendantTree (forestIds forestIds_eq_map)

section
variable (children : NodeId → List NodeId)

theorem walk_zero (waiting : List NodeId) : walk children 0 waiting = (waiting, 0) := by
  cases waiting <;> rfl

/-- Nodes that wait behind others are visited with the lookups that those have left. -/
theorem walk_append (lookups : Nat) (first others : List NodeId) :
    walk children lookups (first ++ others) =
      ((walk children lookups first).1 ++
          (walk children (walk children lookups first).2 others).1,
        (walk children (walk children lookups first).2 others).2) := by
  induction lookups generalizing first with
  | zero => rw [walk_zero, walk_zero, walk_zero]
  | succ lookups ih =>
    cases first with
    | nil => rfl
    | cons node first =>
      rw [List.cons_append, walk, walk, ← List.append_assoc, ih]
      rfl

theorem grow_left_le (lookups : Nat) (waiting : List NodeId) :
    (grow children lookups waiting).2 ≤ lookups := by
  rw [(grown_grow children lookups waiting).left]
  exact Nat.sub_le _ _

/-- The list of visits is the forest read from its roots on, and the same lookups are left. -/
theorem walk_eq_grow (lookups : Nat) (waiting : List NodeId) :
    walk children lookups waiting =
      (forestIds (grow children lookups waiting).1, (grow children lookups waiting).2) := by
  induction lookups, waiting using grow.induct children with
  | case1 lookups =>
    rw [grow]
    cases lookups <;> rfl
  | case2 waiting =>
    rw [walk_zero, grow_zero, forestIds_eq_map, DescendantTree.forestSubtrees_leaves,
      List.map_map]
    exact congrArg (·, 0) (List.map_id waiting).symm
  | case3 lookups node waiting below left hbelow others remaining hothers ihbelow ihothers =>
    -- the tree cannot have been grown with more lookups than there were
    have hleft := grow_left_le children lookups (children node)
    rw [hbelow] at hleft ihbelow
    have hmin : min left lookups = left := Nat.min_eq_left hleft
    rw [hmin] at hothers ihothers
    rw [hothers] at ihothers
    rw [walk, walk_append, ihbelow, ihothers, grow, hbelow]
    simp only [hmin, hothers]
    rfl

theorem grow_start (lookups : Nat) (start : NodeId) : ∃ trees left,
    grow children lookups [start] = ([.node start trees], left) := by
  have hroots := (grown_grow children lookups [start]).roots
  obtain ⟨forest, left, hgrow⟩ : ∃ forest left, grow children lookups [start] = (forest, left) :=
    ⟨_, _, rfl⟩
  rw [hgrow] at hroots
  match forest, hroots with
  | [.node n trees], h =>
    obtain rfl : n = start := by simpa [DescendantTree.id] using h
    exact ⟨trees, left, hgrow⟩

/-- What every format is made of: the trees under the start, their ids in order, and the
lookups that were spent. -/
theorem query_formats (start : NodeId) (limit : Nat) : ∃ trees lookups,
    query children start .depth limit = ⟨.nested trees, lookups⟩ ∧
      query children start .flat limit = ⟨.listed (forestIds trees), lookups⟩ ∧
      query children start .unique limit =
        ⟨.listed (forestIds trees).eraseDups, lookups⟩ := by
  obtain ⟨trees, left, hgrow⟩ := grow_start children (allowedLookups limit) start
  have hwalk := walk_eq_grow children (allowedLookups limit) [start]
  rw [hgrow] at hwalk
  have hvisits : forestIds [.node start trees] = start :: forestIds trees := by
    rw [forestIds, DescendantTree.ids, forestIds, List.append_nil]
  rw [hvisits] at hwalk
  refine ⟨trees, allowedLookups limit - left, ?_, ?_, ?_⟩
  · rw [query, treeAnswer, hgrow]
    simp [DescendantTree.branches]
  · rw [query, listAnswer, hwalk]
    rfl
  · rw [query, listAnswer, hwalk]
    rfl

end

theorem query_unlimited_by (children others : NodeId → List NodeId) (start : NodeId)
    (format : DescendantFormat) {limit : Nat} (h : allowedLookups limit = 0) :
    query children start format limit = query others start format limit := by
  cases format <;> simp only [query, listAnswer, treeAnswer, h, walk_zero, grow_zero]

/-- A list that shows every element of another one once, in the order in which they come
there first. -/
structure FirstOccurrences (once all : List NodeId) : Prop where
  nodup : once.Nodup
  mem_iff : ∀ id, id ∈ once ↔ id ∈ all
  sublist : once.Sublist all
  order : ∀ a b, once.idxOf a < once.idxOf b ↔ all.idxOf a < all.idxOf b

theorem idxOf_cons_lt {id a b : NodeId} {xs ys : List NodeId}
    (h : id ≠ a → id ≠ b → (xs.idxOf a < xs.idxOf b ↔ ys.idxOf a < ys.idxOf b)) :
    (id :: xs).idxOf a < (id :: xs).idxOf b ↔ (id :: ys).idxOf a < (id :: ys).idxOf b := by
  by_cases ha : id = a
  · subst ha
    by_cases hb : id = b
    · subst hb
      simp
    · simp [List.idxOf_cons_ne _ hb]
  · by_cases hb : id = b
    · subst hb
      simp
    · simp [List.idxOf_cons_ne _ ha, List.idxOf_cons_ne _ hb, h ha hb]

/-- Leaving out elements keeps the order in which the others come first. -/
theorem idxOf_filter_lt (p : NodeId → Bool) {a b : NodeId} (ha : p a = true) (hb : p b = true)
    (ids : List NodeId) :
    (ids.filter p).idxOf a < (ids.filter p).idxOf b ↔ ids.idxOf a < ids.idxOf b := by
  induction ids with
  | nil => rfl
  | cons id rest ih =>
    by_cases hid : p id = true
    · rw [List.filter_cons_of_pos hid]
      exact idxOf_cons_lt fun _ _ => ih
    · have hida : id ≠ a := fun h => hid (h ▸ ha)
      have hidb : id ≠ b := fun h => hid (h ▸ hb)
      rw [List.filter_cons_of_neg hid, ih, List.idxOf_cons_ne _ hida, List.idxOf_cons_ne _ hidb]
      omega

theorem firstOccurrences_eraseDups : ∀ ids : List NodeId, FirstOccurrences ids.eraseDups ids
  | [] => ⟨.nil, fun _ => Iff.rfl, .slnil, fun _ _ => Iff.rfl⟩
  | id :: rest => by
    have hfirst := firstOccurrences_eraseDups (rest.filter fun b => !b == id)
    rw [List.eraseDups_cons]
    refine ⟨?_, fun a => ?_, ?_, fun a b => ?_⟩
    · refine List.nodup_cons.2 ⟨fun hmem => ?_, hfirst.nodup⟩
      have hkept := (List.mem_filter.1 ((hfirst.mem_iff id).1 hmem)).2
      simp at hkept
    · rw [List.mem_cons, List.mem_cons, hfirst.mem_iff, List.mem_filter]
      by_cases ha : a = id <;> simp [ha]
    · exact (hfirst.sublist.trans List.filter_sublist).cons_cons id
    · refine idxOf_cons_lt fun ha hb => (hfirst.order a b).trans (idxOf_filter_lt _ ?_ ?_ rest)
      · simpa using Ne.symm ha
      · simpa using Ne.symm hb
termination_by ids => ids.length
decreasing_by exact Nat.lt_succ_of_le (List.length_filter_le _ _)

end Descendants

namespace Database
open Descendants (FirstOccurrences)
variable {db : Database} {table : Numbered Edge}

/-- A query reads the edges and nothing else; whether it has to is of no matter. -/
theorem perform_descendants (h : db.edges = some table) (start : NodeId)
    (format : DescendantFormat) (limit : Nat) :
    db.perform (Edges.descendants start format limit) =
      (.ok (Descendants.query (Edges.childrenOf table.values) start format limit), db) := by
  unfold Edges.descendants
  by_cases hnone : Descendants.allowedLookups limit = 0
  · rw [if_pos (by simpa using hnone), Descendants.query_unlimited_by _
      (Edges.childrenOf table.values) start format hnone]
    rfl
  · rw [if_neg (by simpa using hnone), perform_bind_ok (perform_edges h)]
    rfl

/-- On every edge table, from every start and under every limit the three formats show one
walk. The ids of the trees from the root on are the flat list, the list without repetitions
shows every id of the flat list once where it came first, and the lookups are as many. -/
theorem formats_show_one_walk (db : Database) (table : Numbered Edge) (start : NodeId)
    (limit : Nat) :
    let db := { db with edges := some table }
    ∃ trees flat unique lookups,
      db.perform (Edges.descendants start .depth limit) = (.ok ⟨.nested trees, lookups⟩, db) ∧
      db.perform (Edges.descendants start .flat limit) = (.ok ⟨.listed flat, lookups⟩, db) ∧
      db.perform (Edges.descendants start .unique limit) =
        (.ok ⟨.listed unique, lookups⟩, db) ∧
      (Descendants.nested trees).ids = flat ∧
      unique = flat.eraseDups ∧ FirstOccurrences unique flat := by
  intro db
  obtain ⟨trees, lookups, hdepth, hflat, hunique⟩ :=
    Descendants.query_formats (Edges.childrenOf table.values) start limit
  refine ⟨trees, _, _, lookups, ?_, ?_, ?_, rfl, rfl,
    Descendants.firstOccurrences_eraseDups _⟩
  · rw [perform_descendants rfl, hdepth]
  · rw [perform_descendants rfl, hflat]
    rfl
  · rw [perform_descendants rfl, hunique]
    rfl

end Database

end Lineage
