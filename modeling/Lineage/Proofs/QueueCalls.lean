import Lineage.Proofs.RequestNumbers
import Lineage.Proofs.TimeSlices

/-! # Calls on the queue as transactions

A run of calls is a run of transactions, each of which is one of the calls or belongs to a cycle. A
cycle has two for each request that it visits, and which these are was certain before the first: the
reindex of the item, as far as it succeeds, and then the end of the visit, which removes the request
or notes its failure. -/

namespace Lineage

def Queue.Transaction.isFailure : Transaction → Bool
  | recordFailure _ _ _ => true
  | _ => false

namespace Database
open Queue (Transaction visitEach CycleReport)
variable {db : Database} {table : Numbered QueueEntry} {rules : RuleTable} {maxFailures : Nat}

/-- The transaction that ends the visit to a request. -/
def verdict (db : Database) (rules : RuleTable) (maxFailures : Nat) (row : Row QueueEntry) :
    Transaction :=
  match db.finding rules row.value.item with
  | .ok _ => .complete row.id
  | .error e => .recordFailure row.id e.message maxFailures

/-- The transactions of visits in turn: each item is reindexed, as far as that succeeds, and then
the visit is ended. -/
def visits (rules : RuleTable) (maxFailures : Nat) :
    Database → List (Row QueueEntry) → List Transaction
  | _, [] => []
  | db, row :: rest =>
    .elsewhere db.items (db.afterReindex rules row.value.item).edges ::
      db.verdict rules maxFailures row ::
        visits rules maxFailures (db.afterReindex rules row.value.item) rest

theorem finding_afterReindex (db : Database) (rules : RuleTable) (id : NodeId) :
    (db.afterReindex rules id).finding rules = db.finding rules :=
  funext (finding_congr (afterReindex_items db rules id) (afterReindex_edges_isSome db rules id)
    rules)

theorem visits_setQueue (queue : Option (Numbered QueueEntry)) (rows : List (Row QueueEntry)) :
    { db with queue }.visits rules maxFailures rows = db.visits rules maxFailures rows := by
  induction rows generalizing db with
  | nil => rfl
  | cons row rest ih =>
    have hfinding := finding_congr (show { db with queue }.items = db.items from rfl)
      (show { db with queue }.edges.isSome = db.edges.isSome from rfl) rules row.value.item
    unfold visits verdict
    rw [afterReindex_setQueue, ih, hfinding]

theorem visits_afterVisit (db : Database) (rules : RuleTable) (maxFailures : Nat)
    (row : Row QueueEntry) (table : Numbered QueueEntry) (rows : List (Row QueueEntry)) :
    (db.afterVisit rules maxFailures row table).visits rules maxFailures rows =
      (db.afterReindex rules row.value.item).visits rules maxFailures rows :=
  visits_setQueue _ rows

/-- A visit is a reindex and its verdict. -/
theorem run_verdict (h : db.queue = some table) {row : Row QueueEntry} (hrow : row ∈ table.rows) :
    (db.verdict rules maxFailures row).run (db.afterReindex rules row.value.item) =
      db.afterVisit rules maxFailures row table := by
  have hqueue := (afterReindex_queue db rules row.value.item).trans h
  unfold verdict afterVisit
  cases db.finding rules row.value.item with
  | ok found => exact congrArg Prod.snd (perform_complete hqueue row.id)
  | error e => exact congrArg Prod.snd (perform_recordFailure_row hqueue hrow e maxFailures)

theorem runAll_visits (rules : RuleTable) (maxFailures : Nat) (h : db.queue = some table)
    {before rows later : List (Row QueueEntry)} (hrows : table.rows = before ++ rows ++ later)
    (report : CycleReport) : db.runAll (db.visits rules maxFailures rows) =
      (db.perform (visitEach rules maxFailures rows report)).2 := by
  induction rows generalizing db table before report with
  | nil => rfl
  | cons row rest ih =>
    have hrow : row ∈ table.rows := by simp [hrows]
    have hreindex : (Transaction.elsewhere db.items
        (db.afterReindex rules row.value.item).edges).run db = db.afterReindex rules row.value.item :=
      (afterReindex_eq db rules row.value.item).symm
    have hrun : db.runAll (db.visits rules maxFailures (row :: rest)) =
        (db.afterVisit rules maxFailures row table).runAll
          ((db.afterVisit rules maxFailures row table).visits rules maxFailures rest) := by
      show ((db.verdict rules maxFailures row).run (Transaction.run db _)).runAll _ = _
      rw [hreindex, run_verdict h hrow, visits_afterVisit]
    have hstep : visitEach rules maxFailures (row :: rest) report =
        Queue.visit rules maxFailures row report >>= visitEach rules maxFailures rest := rfl
    rw [hrun, hstep, perform_bind_ok (perform_visit h hrow report)]
    exact ih (show (db.afterVisit rules maxFailures row table).queue = some _ from rfl)
      (db.rows_settle_first rules maxFailures hrows) _

theorem countP_visits (rules : RuleTable) (maxFailures : Nat) (rows : List (Row QueueEntry)) :
    (db.visits rules maxFailures rows).countP Transaction.isFailure =
      rows.countP fun row => !(db.finding rules row.value.item).isOk := by
  induction rows generalizing db with
  | nil => rfl
  | cons row rest ih =>
    have hverdict : (db.verdict rules maxFailures row).isFailure =
        !(db.finding rules row.value.item).isOk := by
      unfold verdict
      cases db.finding rules row.value.item <;> rfl
    rw [visits, List.countP_cons, List.countP_cons, List.countP_cons, ih, finding_afterReindex,
      hverdict]
    rfl

end Database

namespace Queue

/-- The requests that a cycle visits: as many as there is time for, and none if no batch shows any. -/
def CycleSettings.visited (settings : CycleSettings) (rows : List (Row QueueEntry)) :
    List (Row QueueEntry) :=
  if 1 ≤ settings.batchSize ∧ settings.batchSize ≤ Text.maxSigned64 then
    rows.take (settings.slice.getD rows.length)
  else []

/-- The requests that a cycle visits are the first ones. -/
theorem CycleSettings.exists_later (settings : CycleSettings) (rows : List (Row QueueEntry)) :
    ∃ later, rows = [] ++ settings.visited rows ++ later := by
  unfold visited
  split
  · exact ⟨_, (List.take_append_drop _ _).symm⟩
  · exact ⟨_, rfl⟩

end Queue

namespace Database
open Queue (visitEach CycleSettings)
variable {db : Database} {table : Numbered QueueEntry}

theorem perform_cycle_refused (db : Database) (rules : RuleTable) {settings : CycleSettings}
    (hlarge : Text.maxSigned64 < settings.batchSize) :
    ∃ e, db.perform (Queue.cycle rules settings) = (.error e, db) := by
  unfold Queue.cycle Queue.cycleWithin
  rw [perform_bind_ok (perform_getThe db)]
  exact ⟨_, perform_bind_error (perform_batch_refused db hlarge 0) _⟩

/-- A cycle does what visits to the requests do that it visits, and reports as many failures. -/
theorem cycle_is_visits (h : db.queue = some table) (rules : RuleTable) (settings : CycleSettings) :
    ∃ report, db.perform (visitEach rules settings.maxFailures (settings.visited table.rows) .start) =
        (.ok report, (db.perform (Queue.cycle rules settings)).2) ∧
      ∀ ended, (db.perform (Queue.cycle rules settings)).1 = .ok ended →
        ended.failed = report.failed := by
  unfold CycleSettings.visited
  by_cases hsize : 1 ≤ settings.batchSize ∧ settings.batchSize ≤ Text.maxSigned64
  · obtain ⟨report, after, late, hvisits, -, hcycle⟩ := cycle_visits h rules hsize.1 hsize.2
    rw [if_pos hsize, hcycle]
    exact ⟨report, hvisits, fun ended hended => by rw [← Except.ok.inj hended]⟩
  · have hbatches : settings.batchSize = 0 ∨ Text.maxSigned64 < settings.batchSize := by omega
    rw [if_neg hsize]
    rcases hbatches with hempty | hlarge
    · obtain ⟨slice, batchSize, maxFailures⟩ := settings
      obtain rfl : batchSize = 0 := hempty
      rw [cycle_of_empty_batches h]
      exact ⟨.start, rfl, fun ended hended => by rw [← Except.ok.inj hended]⟩
    · obtain ⟨e, hrefused⟩ := perform_cycle_refused db rules hlarge
      rw [hrefused]
      exact ⟨.start, rfl, fun ended hended => by cases hended⟩

end Database

namespace Queue

/-- What a queue is used by. Limits are numbers of 32 bits, and each call has its own. A cycle that
others come between is not a call here, but each of its transactions is. -/
inductive Call where
  | enqueue (id : NodeId)
  | enqueueAll (ids : List NodeId)
  | complete (number : Int)
  | recordFailure (number : Int) (error : String) (limit : UInt32)
  | batch (size : Nat) (after : Int)
  | cycle (rules : RuleTable) (slice : Option Nat) (batchSize : Nat) (limit : UInt32)
  /-- Something that leaves the queue alone, and what the other tables hold after it. -/
  | elsewhere (items : Option ItemTable) (edges : Option (Numbered Edge))

namespace Call

def run (db : Database) : Call → Database
  | enqueue id => (db.perform (Queue.enqueue id)).2
  | enqueueAll ids => (db.perform (Queue.enqueueAll ids)).2
  | complete number => (db.perform (Queue.complete number)).2
  | recordFailure number error limit =>
    (db.perform (Queue.recordFailure number error limit.toNat)).2
  | batch size after => (db.perform (Queue.batch size after)).2
  | cycle rules slice batchSize limit =>
    (db.perform (Queue.cycle rules ⟨slice, batchSize, limit.toNat⟩)).2
  | elsewhere items edges => { db with items, edges }

/-- The transactions of a call. Reading is none, and a cycle has two for each request that it
visits. -/
def transactions (db : Database) : Call → List Transaction
  | enqueue id => [.enqueue id]
  | enqueueAll ids => [.enqueueAll ids]
  | complete number => [.complete number]
  | recordFailure number error limit => [.recordFailure number error limit.toNat]
  | batch _ _ => []
  | cycle rules slice batchSize limit =>
    match db.queue with
    | none => []
    | some table => db.visits rules limit.toNat
        (CycleSettings.visited ⟨slice, batchSize, limit.toNat⟩ table.rows)
  | elsewhere items edges => [.elsewhere items edges]

end Call

end Queue

namespace Database
open Queue (Call Transaction CycleSettings)
variable {db : Database} {table : Numbered QueueEntry}

/-- The database after calls, the first of which comes first. -/
def afterCalls (db : Database) (calls : List Call) : Database :=
  calls.foldl (fun db call => call.run db) db

def transactions : Database → List Call → List Transaction
  | _, [] => []
  | db, call :: rest => call.transactions db ++ transactions (call.run db) rest

theorem runAll_call (h : db.queue = some table) (call : Call) :
    db.runAll (call.transactions db) = call.run db := by
  cases call with
  | batch size after => exact (Queue.readsOnly_batch size after db).symm
  | cycle rules slice batchSize limit =>
    obtain ⟨report, hvisits, -⟩ := cycle_is_visits h rules ⟨slice, batchSize, limit.toNat⟩
    obtain ⟨later, hlater⟩ := CycleSettings.exists_later ⟨slice, batchSize, limit.toNat⟩ table.rows
    simp only [Call.transactions, h]
    rw [runAll_visits rules limit.toNat h hlater .start, hvisits]
    rfl
  | _ => rfl

theorem failed_cycle (h : db.queue = some table) (rules : RuleTable) (slice : Option Nat)
    (batchSize : Nat) (limit : UInt32) {report : Queue.CycleReport}
    (hreport : (db.perform (Queue.cycle rules ⟨slice, batchSize, limit.toNat⟩)).1 = .ok report) :
    report.failed =
      ((Call.cycle rules slice batchSize limit).transactions db).countP Transaction.isFailure := by
  obtain ⟨visited, hvisits, hfailed⟩ := cycle_is_visits h rules ⟨slice, batchSize, limit.toNat⟩
  obtain ⟨later, hlater⟩ := CycleSettings.exists_later ⟨slice, batchSize, limit.toNat⟩ table.rows
  obtain ⟨left, -, -, hall⟩ := perform_visitEach rules limit.toNat h hlater .start
  obtain ⟨hvisited, -⟩ := Prod.mk.inj (hvisits.symm.trans hall)
  rw [hfailed report hreport, Except.ok.inj hvisited, failed_counted]
  simp only [Call.transactions, h, countP_visits]
  exact Nat.zero_add _

theorem runAll_transactions (h : db.queue = some table) (calls : List Call) :
    db.runAll (db.transactions calls) = db.afterCalls calls := by
  induction calls generalizing db table with
  | nil => rfl
  | cons call rest ih =>
    have hcall := runAll_call h call
    obtain ⟨left, hruns⟩ := exists_runsTo h (call.transactions db)
    have hqueue := hruns.queue
    rw [hcall] at hqueue
    rw [transactions, runAll_append, hcall]
    exact ih hqueue

end Database

end Lineage
