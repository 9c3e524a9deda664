import Lineage.Proofs.Actions
import Lineage.Proofs.Numbering
import Lineage.Queue.Basic

/-! # What the operations on the queue do

One equation for each operation, for a database that has a queue. None of them looks
at another table or changes one. -/

namespace Lineage

@[simp] theorem Queue.item_changed_failed (id : Int) (error : String) (row : Row QueueEntry) :
    (Numbered.changed id (failed error) row).value.item = row.value.item := by
  unfold Numbered.changed
  split <;> rfl

theorem Queue.rows_requests (ids : List NodeId) (table : Numbered QueueEntry) :
    (table.addAll (ids.map request)).rows =
      table.rows ++ ids.mapIdx fun i id => ⟨table.lastId + 1 + i, request id⟩ := by
  rw [Numbered.rows_addAll, List.mapIdx_eq_zipIdx_map, List.zipIdx_map, List.map_map,
    List.mapIdx_eq_zipIdx_map]
  rfl

namespace Database
variable {db : Database} {table : Numbered QueueEntry} (h : db.queue = some table)
include h

theorem perform_enqueue (id : NodeId) : db.perform (Queue.enqueue id) =
    (.ok (table.lastId + 1), { db with queue := some (table.add (Queue.request id)) }) := by
  unfold Queue.enqueue
  rw [perform_bind_ok (perform_queue h), perform_bind_ok (perform_setQueue _ _)]
  rfl

theorem perform_enqueueAll (ids : List NodeId) : db.perform (Queue.enqueueAll ids) =
    (.ok ids.length, { db with queue := some (table.addAll (ids.map Queue.request)) }) := by
  unfold Queue.enqueueAll
  cases ids with
  | nil =>
    show (Except.ok 0, db) = (Except.ok 0, { db with queue := some table })
    rw [← h]
  | cons id rest =>
    rw [if_neg (by simp)]
    apply perform_transaction_ok
    rw [perform_bind_ok (perform_queue h), perform_bind_ok (perform_setQueue _ _)]
    rfl

theorem perform_batch {size : Nat} (hsize : size ≤ Text.maxSigned64) (after : Int) :
    db.perform (Queue.batch size after) =
      (.ok ((table.rows.filter fun row => after < row.id).take size), db) := by
  unfold Queue.batch
  rw [if_neg (Nat.not_lt.2 hsize), perform_bind_ok (perform_queue h)]
  rfl

/-- A batch behind a cursor is the first of the rows that come there. -/
theorem perform_batch_cut {size : Nat} (hsize : size ≤ Text.maxSigned64) {cursor : Int}
    {seen rest : List (Row QueueEntry)} (hcut : table.CutAt cursor seen rest) :
    db.perform (Queue.batch size cursor) = (.ok (rest.take size), db) := by
  rw [perform_batch h hsize, hcut.filter_eq]

/-- Reading a batch changes nothing, and the rows that it gives are in the queue. -/
theorem batch_cases (size : Nat) (after : Int) :
    (∃ rows, db.perform (Queue.batch size after) = (.ok rows, db) ∧ ∀ row ∈ rows, row ∈ table.rows) ∨
      ∃ e, db.perform (Queue.batch size after) = (.error e, db) := by
  by_cases hsize : size ≤ Text.maxSigned64
  · refine Or.inl ⟨_, perform_batch h hsize after, fun row hrow => ?_⟩
    exact (List.mem_filter.1 (List.mem_of_mem_take hrow)).1
  · unfold Queue.batch
    rw [if_pos (Nat.not_le.1 hsize)]
    exact Or.inr ⟨_, rfl⟩

theorem perform_complete (id : Int) : db.perform (Queue.complete id) =
    (.ok (table.find? id).isSome, { db with queue := some (table.erase id) }) := by
  unfold Queue.complete
  rw [perform_bind_ok (perform_queue h), perform_bind_ok (perform_setQueue _ _)]
  rfl

theorem perform_recordFailure_missing {id : Int} (hid : table.find? id = none)
    (error : String) (maxFailures : Nat) :
    db.perform (Queue.recordFailure id error maxFailures) =
      (.error (.queue ("queue entry " ++ toString id ++ " not found")), db) := by
  unfold Queue.recordFailure
  rw [perform_bind_ok (perform_queue h), hid]
  rfl

theorem perform_recordFailure {id : Int} {entry : QueueEntry}
    (hid : table.find? id = some entry) (error : String) (maxFailures : Nat) :
    db.perform (Queue.recordFailure id error maxFailures) =
      if maxFailures ≤ entry.failures + 1 then
        (.ok true, { db with queue := some (table.erase id) })
      else (.ok false, { db with queue := some (table.modify id (Queue.failed error)) }) := by
  unfold Queue.recordFailure
  rw [perform_bind_ok (perform_queue h), hid]
  by_cases hlast : maxFailures ≤ entry.failures + 1
  · simp only [if_pos hlast]
    rfl
  · simp only [if_neg hlast]
    rfl

end Database

end Lineage
