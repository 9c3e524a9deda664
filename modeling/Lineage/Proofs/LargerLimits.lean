import Lineage.Proofs.Reachability

/-! # What a larger limit adds

Two walks from the same nodes go the same way until the one with fewer lookups has spent them.
From there on they drift apart: the other one still opens nodes, and whatever it finds comes
before the nodes that wait. It leaves out none of these and keeps their order, so that all it
does is to put further visits between those of the first. -/

namespace Lineage

namespace Descendants
variable {lookups more : Nat} {waiting : List NodeId}

section
variable (children : NodeId → List NodeId)

/-- Every node that waits gets its visit, in its turn. -/
theorem waiting_sublist_walk (lookups : Nat) (waiting : List NodeId) :
    waiting.Sublist (walk children lookups waiting).1 := by
  induction lookups generalizing waiting with
  | zero => simp [walk_zero]
  | succ lookups ih =>
    cases waiting with
    | nil => simp
    | cons node waiting =>
      have hbehind : waiting.Sublist (children node ++ waiting) :=
        List.sublist_append_right _ _
      exact (hbehind.trans (ih _)).cons_cons node

theorem walk_sublist_walk (h : lookups ≤ more) (waiting : List NodeId) :
    (walk children lookups waiting).1.Sublist (walk children more waiting).1 := by
  induction lookups generalizing more waiting with
  | zero =>
    rw [walk_zero]
    exact waiting_sublist_walk children more waiting
  | succ lookups ih =>
    obtain ⟨more, rfl⟩ : ∃ n, more = n + 1 := ⟨more - 1, by omega⟩
    cases waiting with
    | nil => simp [walk]
    | cons node waiting =>
      simp only [walk]
      exact (ih (Nat.le_of_succ_le_succ h) _).cons_cons node

theorem take_one_walk (lookups : Nat) (waiting : List NodeId) :
    (walk children lookups waiting).1.take 1 = waiting.take 1 := by
  cases waiting with
  | nil => cases lookups <;> rfl
  | cons node waiting => cases lookups <;> simp [walk]

/-- The visits that have a lookup are those of the other walk too, and so is the one after
them: where the last lookup was spent, the next node was waiting already. -/
theorem take_walk (h : lookups ≤ more) (waiting : List NodeId) :
    (walk children lookups waiting).1.take (lookups + 1) =
      (walk children more waiting).1.take (lookups + 1) := by
  induction lookups generalizing more waiting with
  | zero => rw [take_one_walk, take_one_walk]
  | succ lookups ih =>
    obtain ⟨more, rfl⟩ : ∃ n, more = n + 1 := ⟨more - 1, by omega⟩
    cases waiting with
    | nil => simp [walk]
    | cons node waiting =>
      simp only [walk, List.take_succ_cons]
      rw [ih (Nat.le_of_succ_le_succ h)]

end

theorem eq_of_take_eq {shown others : List NodeId} {n : Nat} (h : shown.take n = others.take n)
    (hshort : shown.length < n) : shown = others := by
  have hlength := congrArg List.length h
  simp only [List.length_take] at hlength
  rwa [List.take_of_length_le (by omega), List.take_of_length_le (by omega)] at h

theorem allowedLookups_mono {limit larger : Nat} (h : limit ≤ larger) :
    allowedLookups limit ≤ allowedLookups larger :=
  Nat.sub_le_sub_right h 1

end Descendants

namespace Database
open Descendants (allowedLookups_mono eq_of_take_eq)

/-- On every edge table and from every start, a larger limit adds to the answer and takes
nothing away. The flat list under the smaller limit is a part of the one under the larger, in
the same order. As many ids as the smaller limit allows lookups are the same in both lists,
which are equal if it shows fewer; and every id that it shows without repetitions is shown
under the larger one. -/
theorem larger_limit_only_adds (db : Database) (table : Numbered Edge) (start : NodeId)
    (limit added : Nat) :
    let db := { db with edges := some table }
    ∃ flat wider unique widerUnique,
      db.descendantsOf start .flat limit = .ok flat ∧
      db.descendantsOf start .flat (limit + added) = .ok wider ∧
      db.descendantsOf start .unique limit = .ok unique ∧
      db.descendantsOf start .unique (limit + added) = .ok widerUnique ∧
      flat.Sublist wider ∧
      flat.take (limit - 1) = wider.take (limit - 1) ∧
      (flat.length < limit - 1 → flat = wider) ∧
      ∀ id ∈ unique, id ∈ widerUnique := by
  intro db
  have hlookups := allowedLookups_mono (Nat.le_add_right limit added)
  have hsublist := (Descendants.walk_sublist_walk (Edges.childrenOf table.values) hlookups
    [start]).tail
  -- the start is the first visit of both walks, and neither answer shows it
  have htake := congrArg (List.drop 1)
    (Descendants.take_walk (Edges.childrenOf table.values) hlookups [start])
  simp only [List.drop_take, List.drop_one, Nat.add_sub_cancel] at htake
  refine ⟨_, _, _, _, descendantsOf_table rfl start .flat limit,
    descendantsOf_table rfl start .flat (limit + added),
    descendantsOf_table rfl start .unique limit,
    descendantsOf_table rfl start .unique (limit + added), hsublist, htake, ?_, ?_⟩
  · intro hshort
    exact eq_of_take_eq htake hshort
  · intro id hid
    have hflat := (Descendants.firstOccurrences_eraseDups _).mem_iff id |>.1 hid
    exact (Descendants.firstOccurrences_eraseDups _).mem_iff id |>.2 (hsublist.subset hflat)

end Database

end Lineage
