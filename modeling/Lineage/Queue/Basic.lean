import Lineage.Database.Basic
import Lineage.Text.Basic

/-! The queue of requested reindexes. A request is removed only when it was carried out
or has failed too often, and one item may be requested several times. -/

namespace Lineage.Queue

structure Stats where
  pending : Nat
  retrying : Nat
deriving DecidableEq, Repr

def request (id : NodeId) : QueueEntry := ⟨id, 0, none, false⟩

def enqueue (id : NodeId) : Action Int := do
  let table := (← Action.queue).add (request id)
  Action.setQueue table
  pure table.lastId

/-- Requests several items, all of them or none, and says how many. -/
def enqueueAll (ids : List NodeId) : Action Nat := do
  if ids.isEmpty then pure 0
  else Action.transaction do
    Action.setQueue ((← Action.queue).addAll (ids.map request))
    pure ids.length

/-- The first requests with a number above `after`, at most `size` of them. Nothing is
taken away. -/
def batch (size : Nat) (after : Int) : Action (List (Row QueueEntry)) := do
  if Text.maxSigned64 < size then
    throw (.invalidInput ("batch size too large: " ++ toString size))
  else
    let table ← Action.queue
    pure ((table.rows.filter fun row => after < row.id).take size)

/-- Removes a request, and says whether it was there. -/
def complete (id : Int) : Action Bool := do
  let table ← Action.queue
  Action.setQueue (table.erase id)
  pure (table.find? id).isSome

/-- The entry after one more failure. -/
def failed (error : String) (entry : QueueEntry) : QueueEntry :=
  { entry with failures := entry.failures + 1, error := some error, hasErrorTime := true }

/-- Notes a failure of a request. When that makes `maxFailures` of them, the request is
dropped, and the answer is yes. -/
def recordFailure (id : Int) (error : String) (maxFailures : Nat) : Action Bool := do
  let table ← Action.queue
  match table.find? id with
  | none => throw (.queue ("queue entry " ++ toString id ++ " not found"))
  | some entry =>
    if maxFailures ≤ entry.failures + 1 then
      Action.setQueue (table.erase id)
      pure true
    else
      Action.setQueue (table.modify id (failed error))
      pure false

def stats : Action Stats := do
  let entries := (← Action.queue).values
  pure ⟨entries.length, (entries.filter fun entry => 0 < entry.failures).length⟩

end Lineage.Queue
