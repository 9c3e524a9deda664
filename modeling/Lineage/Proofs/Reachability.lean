import Lineage.Proofs.AnswerFormats
import Mathlib.Logic.Relation

/-! # What an answer reaches

A walk that had a lookup for each of its visits was nowhere cut short. It has then been at
every node to which a path leads from where it began, and at no other. Of such a walk the
set of its visits does not depend on the order in which children are stored. -/

namespace Lineage

namespace Descendants
open Relation (ReflTransGen TransGen)

/-- One step of a path: from a node to one of its children. -/
def Step (children : NodeId → List NodeId) (parent child : NodeId) : Prop :=
  child ∈ children parent

variable {children : NodeId → List NodeId} {id : NodeId}

/-- Where paths from a node and from others lead: to the node itself, or from one of its
children on. -/
theorem reached_cons_iff (node : NodeId) (waiting : List NodeId) :
    (∃ first ∈ node :: waiting, ReflTransGen (Step children) first id) ↔
      id = node ∨ ∃ first ∈ children node ++ waiting, ReflTransGen (Step children) first id := by
  constructor
  · rintro ⟨first, hfirst, hpath⟩
    rcases List.mem_cons.1 hfirst with rfl | hwaiting
    · rcases ReflTransGen.cases_head_iff.1 hpath with rfl | ⟨child, hchild, hbelow⟩
      · exact Or.inl rfl
      · exact Or.inr ⟨child, List.mem_append_left _ hchild, hbelow⟩
    · exact Or.inr ⟨first, List.mem_append_right _ hwaiting, hpath⟩
  · rintro (rfl | ⟨first, hfirst, hpath⟩)
    · exact ⟨id, List.mem_cons_self, .refl⟩
    · rcases List.mem_append.1 hfirst with hchild | hwaiting
      · exact ⟨node, List.mem_cons_self, .head hchild hpath⟩
      · exact ⟨first, List.mem_cons_of_mem _ hwaiting, hpath⟩

theorem mem_walk_iff {lookups : Nat} {waiting : List NodeId}
    (h : (walk children lookups waiting).1.length ≤ lookups) :
    id ∈ (walk children lookups waiting).1 ↔
      ∃ first ∈ waiting, ReflTransGen (Step children) first id := by
  induction lookups generalizing waiting with
  | zero =>
    rw [walk_zero] at h ⊢
    obtain rfl : waiting = [] := List.length_eq_zero_iff.1 (Nat.le_zero.1 h)
    simp
  | succ lookups ih =>
    cases waiting with
    | nil => simp [walk]
    | cons node waiting =>
      rw [walk] at h ⊢
      have hrest := ih (Nat.le_of_succ_le_succ h)
      rw [List.mem_cons, hrest, reached_cons_iff]

/-- A flat answer that is not cut short holds what lies at least one step behind the start. -/
theorem mem_flat_iff {start : NodeId} {limit : Nat}
    (h : 1 + (query children start .flat limit).descendants.ids.length < limit) :
    id ∈ (query children start .flat limit).descendants.ids ↔
      TransGen (Step children) start id := by
  obtain ⟨lookups, hlookups⟩ : ∃ lookups, allowedLookups limit = lookups + 1 :=
    ⟨limit - 2, by unfold allowedLookups; omega⟩
  have hids : (query children start .flat limit).descendants.ids =
      (walk children lookups (children start)).1 := by
    rw [query, listAnswer, hlookups, walk, List.append_nil]
    rfl
  rw [hids] at h ⊢
  have hvisits : (walk children lookups (children start)).1.length ≤ lookups := by
    unfold allowedLookups at hlookups
    omega
  rw [mem_walk_iff hvisits, TransGen.head'_iff]
  rfl

end Descendants

namespace Database
open Descendants (Step)
open Relation (TransGen)

/-- The ids in the answer to a query, in the order in which it shows them. -/
def descendantsOf (db : Database) (start : NodeId) (format : DescendantFormat) (limit : Nat) :
    Except Failure (List NodeId) :=
  (db.perform (Edges.descendants start format limit)).1.map fun answer => answer.descendants.ids

variable {db : Database} {table : Numbered Edge}

theorem descendantsOf_table (h : db.edges = some table) (start : NodeId)
    (format : DescendantFormat) (limit : Nat) : db.descendantsOf start format limit =
      .ok (Descendants.query (Edges.childrenOf table.values) start format limit).descendants.ids := by
  unfold descendantsOf
  rw [perform_descendants h]
  rfl

theorem descendantsOf_missing (h : db.edges = none) {limit : Nat} (hlimit : 1 < limit)
    (start : NodeId) (format : DescendantFormat) : db.descendantsOf start format limit =
      .error (.database "no such table: descendant_relations") := by
  have hlookups : Descendants.allowedLookups limit ≠ 0 := by
    unfold Descendants.allowedLookups
    omega
  unfold descendantsOf Edges.descendants
  rw [if_neg (by simpa using hlookups), perform_bind_error (perform_edges_missing h)]
  rfl

theorem mem_unique_iff (h : db.edges = some table) {start : NodeId} {limit : Nat}
    {flat : List NodeId} (hflat : db.descendantsOf start .flat limit = .ok flat)
    (hwhole : 1 + flat.length < limit) : ∃ unique,
      db.descendantsOf start .unique limit = .ok unique ∧
        ∀ id, id ∈ unique ↔ TransGen (Step (Edges.childrenOf table.values)) start id := by
  rw [descendantsOf_table h] at hflat
  obtain rfl := Except.ok.inj hflat
  obtain ⟨trees, lookups, -, hflat, hunique⟩ :=
    Descendants.query_formats (Edges.childrenOf table.values) start limit
  refine ⟨_, descendantsOf_table h start .unique limit, fun id => ?_⟩
  rw [← Descendants.mem_flat_iff hwhole, hflat, hunique]
  exact (Descendants.firstOccurrences_eraseDups _).mem_iff id

end Database

end Lineage
