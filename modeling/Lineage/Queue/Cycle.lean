import Lineage.Edges
import Lineage.Queue.Basic

/-! Working through the queue. A cycle visits the requests in ascending order, each at
most once: a request that fails stays for the next cycle, and the numbers of those that
come later are larger. -/

namespace Lineage.Queue

/-- How a cycle works. The slice is the number of requests for which there is time;
without one, time does not run out. -/
structure CycleSettings where
  slice : Option Nat
  batchSize : Nat
  maxFailures : Nat
deriving DecidableEq, Repr

structure CycleReport where
  /-- Requests that were carried out and removed. -/
  processed : Nat
  /-- Those among them whose item is not stored any more. -/
  tombstoned : Nat
  failed : Nat
  /-- Failed requests that had failed too often. -/
  dropped : Nat
  timedOut : Bool
deriving DecidableEq, Repr

namespace CycleReport

def start : CycleReport := ⟨0, 0, 0, 0, false⟩

/-- What the log says of a cycle, unless it had nothing to do. -/
def summary? (r : CycleReport) : Option String :=
  if r.processed == 0 && r.failed == 0 then none
  else some ("Queue cycle: " ++ toString r.processed ++ " reindexed (" ++
    toString r.tombstoned ++ " tombstoned), " ++ toString r.failed ++ " failed, " ++
    toString r.dropped ++ " dropped" ++ (if r.timedOut then ", time slice exhausted" else ""))

end CycleReport

/-- How far a cycle has come: the number of the last request and what time is left. -/
structure CycleState where
  report : CycleReport
  cursor : Int
  slice : Option Nat

/-- Carries out a request and removes it. -/
def carryOut (rules : RuleTable) (row : Row QueueEntry) : Action ReindexOutcome := do
  let outcome ← Edges.reindex rules row.value.item
  let _ ← complete row.id
  pure outcome

/-- One request: it is carried out or its failure is noted. -/
def visit (rules : RuleTable) (maxFailures : Nat) (row : Row QueueEntry)
    (report : CycleReport) : Action CycleReport := do
  match ← Action.attempt (carryOut rules row) with
  | .ok outcome =>
    pure { report with
      processed := report.processed + 1
      tombstoned := report.tombstoned + (if outcome.found then 0 else 1) }
  | .error failure =>
    let dropped ← recordFailure row.id failure.message maxFailures
    pure { report with
      failed := report.failed + 1
      dropped := report.dropped + (if dropped then 1 else 0) }

/-- The requests of a batch in turn, while there is time. -/
def visitBatch (rules : RuleTable) (maxFailures : Nat) :
    List (Row QueueEntry) → CycleState → Action CycleState
  | [], state => pure state
  | row :: rest, state =>
    if state.slice == some 0 then
      pure { state with report := { state.report with timedOut := true } }
    else do
      let report ← visit rules maxFailures row state.report
      visitBatch rules maxFailures rest
        ⟨report, row.id, state.slice.map (· - 1)⟩

/-- Batch after batch until none is left or time runs out. -/
def cycleWithin (rules : RuleTable) (settings : CycleSettings) :
    Nat → CycleState → Action CycleReport
  | 0, state => pure state.report
  | fuel + 1, state => do
    let rows ← batch settings.batchSize state.cursor
    if rows.isEmpty then pure state.report
    else
      let state ← visitBatch rules settings.maxFailures rows state
      if state.report.timedOut then pure state.report
      else cycleWithin rules settings fuel state

/-- One pass over the queue. Every batch but the last has a request of the queue in it,
so there are no more batches than requests and one. -/
def cycle (rules : RuleTable) (settings : CycleSettings) : Action CycleReport := do
  let requests := ((← getThe Database).queue.map fun table => table.rows.length).getD 0
  cycleWithin rules settings (requests + 1) ⟨.start, 0, settings.slice⟩

/-- Requests every published item whose type has rules, and says how many. -/
def backfill (rules : RuleTable) : Action Nat := do
  if rules.isEmpty then pure 0
  else enqueueAll (← Content.findIds (.publishedOf rules.keys))

end Lineage.Queue
