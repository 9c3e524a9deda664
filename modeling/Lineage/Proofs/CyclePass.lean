import Lineage.Proofs.Reindex
import Lineage.Proofs.Requests
import Lineage.Queue.Cycle

/-! # A cycle is one pass over the queue

A cycle reads the queue in batches behind a cursor and changes the queue while it
reads. It nevertheless does the same as visiting the requests that stood in the queue
at its beginning, one by one and each once: a visit changes the row it is about and
no other, and the cursor is always between the rows that were visited and the rest.
So the size of the batches cannot be seen in the result, and what a cycle leaves and
reports can be read off the database in which it began. -/

namespace Lineage

namespace Queue
variable {rules : RuleTable} {maxFailures : Nat}

/-- What is left of a request whose reindex ended like that: nothing if it was carried out
or has failed too often, and the entry with its failure noted otherwise. -/
def remains? (maxFailures : Nat) (finding : Except Failure Bool) (entry : QueueEntry) :
    Option QueueEntry :=
  match finding with
  | .ok _ => none
  | .error e => if maxFailures ≤ entry.failures + 1 then none else some (failed e.message entry)

/-- The row as a visit leaves it, if it does. -/
def rowLeft? (maxFailures : Nat) (finding : Except Failure Bool) (row : Row QueueEntry) :
    Option (Row QueueEntry) :=
  (remains? maxFailures finding row.value).map fun entry => ⟨row.id, entry⟩

theorem id_of_rowLeft? {finding : Except Failure Bool} {row left : Row QueueEntry}
    (h : rowLeft? maxFailures finding row = some left) : left.id = row.id := by
  obtain ⟨entry, -, rfl⟩ := Option.map_eq_some_iff.1 h
  rfl

namespace CycleReport

/-- The report with one more request in it, whose reindex ended like that. -/
def counting (maxFailures : Nat) (finding : Except Failure Bool) (entry : QueueEntry)
    (r : CycleReport) : CycleReport :=
  match finding with
  | .ok found =>
    { r with
      processed := r.processed + 1
      tombstoned := r.tombstoned + (if found then 0 else 1) }
  | .error _ =>
    { r with
      failed := r.failed + 1
      dropped := r.dropped + (if maxFailures ≤ entry.failures + 1 then 1 else 0) }

section
variable (maxFailures) (finding : Except Failure Bool) (entry : QueueEntry) (r : CycleReport)

@[simp] theorem timedOut_counting :
    (r.counting maxFailures finding entry).timedOut = r.timedOut := by
  cases finding <;> rfl

theorem processed_add_failed_counting : (r.counting maxFailures finding entry).processed +
    (r.counting maxFailures finding entry).failed = r.processed + r.failed + 1 := by
  cases finding with
  | ok found => exact Nat.add_right_comm _ _ _
  | error e => rfl

theorem processed_counting : (r.counting maxFailures finding entry).processed =
    r.processed + if finding.isOk then 1 else 0 := by
  cases finding <;> rfl

theorem failed_counting : (r.counting maxFailures finding entry).failed =
    r.failed + if !finding.isOk then 1 else 0 := by
  cases finding <;> rfl

theorem remains_add_counting : (remains? maxFailures finding entry).toList.length +
    (r.counting maxFailures finding entry).processed +
    (r.counting maxFailures finding entry).dropped = r.processed + r.dropped + 1 := by
  unfold remains? counting
  cases finding with
  | ok found =>
    simp only [Option.toList_none, List.length_nil]
    omega
  | error e =>
    by_cases hlast : maxFailures ≤ entry.failures + 1
    · simp only [if_pos hlast, Option.toList_none, List.length_nil]
      omega
    · simp only [if_neg hlast, Option.toList_some, List.length_singleton]
      omega

end

end CycleReport

/-- The queue after a visit to one of its rows. -/
def settle (maxFailures : Nat) (finding : Except Failure Bool) (row : Row QueueEntry)
    (table : Numbered QueueEntry) : Numbered QueueEntry :=
  match remains? maxFailures finding row.value with
  | none => table.erase row.id
  | some entry => table.modify row.id fun _ => entry

@[simp] theorem lastId_settle (finding : Except Failure Bool) (row : Row QueueEntry)
    (table : Numbered QueueEntry) :
    (settle maxFailures finding row table).lastId = table.lastId := by
  unfold settle
  cases remains? maxFailures finding row.value <;> rfl

/-- A visit replaces its row by what is left of it and touches no other row. -/
theorem rows_settle (finding : Except Failure Bool) {row : Row QueueEntry}
    {table : Numbered QueueEntry} {before later : List (Row QueueEntry)}
    (h : table.rows = before ++ row :: later) :
    (settle maxFailures finding row table).rows =
      before ++ (rowLeft? maxFailures finding row).toList ++ later := by
  unfold settle rowLeft?
  cases remains? maxFailures finding row.value with
  | none =>
    rw [Option.map_none, Option.toList_none, List.append_nil]
    exact Numbered.rows_erase_split h
  | some entry =>
    rw [Option.map_some, Option.toList_some, List.append_assoc]
    exact Numbered.rows_modify_split h _

/-- Whether there is time for a number of requests in a slice, if there is one. -/
def HasTime (slice : Option Nat) (requests : Nat) : Prop :=
  ∀ n, slice = some n → requests ≤ n

theorem HasTime.mono {slice : Option Nat} {few many : Nat} (h : HasTime slice many)
    (hle : few ≤ many) : HasTime slice few :=
  fun n hn => Nat.le_trans hle (h n hn)

theorem HasTime.later {slice : Option Nat} {first others : Nat}
    (h : HasTime slice (first + others)) : HasTime (slice.map (· - first)) others := by
  intro n hn
  obtain ⟨all, hall, rfl⟩ := Option.map_eq_some_iff.1 hn
  have := h all hall
  omega

def visitEach (rules : RuleTable) (maxFailures : Nat) (rows : List (Row QueueEntry))
    (report : CycleReport) : Action CycleReport :=
  rows.foldlM (fun report row => visit rules maxFailures row report) report

end Queue

namespace Database
open Queue (visit visitEach visitBatch carryOut settle rowLeft? remains? rows_settle lastId_settle
  CycleReport HasTime)
variable {db : Database} {rules : RuleTable} {maxFailures : Nat}

theorem perform_carryOut {after : Database} {table : Numbered QueueEntry}
    {row : Row QueueEntry} {outcome : ReindexOutcome}
    (h : db.perform (Edges.reindex rules row.value.item) = (.ok outcome, after))
    (hqueue : after.queue = some table) : db.perform (carryOut rules row) =
      (.ok outcome, { after with queue := some (table.erase row.id) }) := by
  unfold carryOut
  rw [perform_bind_ok h, perform_bind_ok (perform_complete hqueue row.id)]
  rfl

/-- Noting the failure of a row settles it, and says whether that was one too many. -/
theorem perform_recordFailure_row {table : Numbered QueueEntry} {row : Row QueueEntry}
    (hqueue : db.queue = some table) (hrow : row ∈ table.rows) (e : Failure) (maxFailures : Nat) :
    db.perform (Queue.recordFailure row.id e.message maxFailures) =
      (.ok (decide (maxFailures ≤ row.value.failures + 1)),
        { db with queue := some (settle maxFailures (.error e) row table) }) := by
  rw [perform_recordFailure hqueue (Numbered.find?_eq_some hrow)]
  unfold settle remains?
  by_cases hlast : maxFailures ≤ row.value.failures + 1
  · rw [if_pos hlast, decide_eq_true hlast]
    simp only [if_pos hlast]
  · have hnoted : table.modify row.id (Queue.failed e.message) =
        table.modify row.id fun _ => Queue.failed e.message row.value :=
      Numbered.modify_congr hrow rfl
    rw [if_neg hlast, decide_eq_false hlast, hnoted]
    simp only [if_neg hlast]

/-- What a visit leaves: the item is reindexed, as far as that succeeds, and the row is settled. -/
def afterVisit (db : Database) (rules : RuleTable) (maxFailures : Nat) (row : Row QueueEntry)
    (table : Numbered QueueEntry) : Database :=
  { db.afterReindex rules row.value.item with
    queue := some (settle maxFailures (db.finding rules row.value.item) row table) }

/-- A visit never fails: it tries the reindex, counts how that ended and settles the row. -/
theorem perform_visit {table : Numbered QueueEntry} {row : Row QueueEntry}
    (hqueue : db.queue = some table) (hrow : row ∈ table.rows) (report : CycleReport) :
    db.perform (visit rules maxFailures row report) =
      (.ok (report.counting maxFailures (db.finding rules row.value.item) row.value),
        db.afterVisit rules maxFailures row table) := by
  have hafter := afterReindex_queue db rules row.value.item
  unfold visit afterVisit finding afterReindex
  unfold afterReindex at hafter
  rcases perform_cases db (Edges.reindex rules row.value.item) with ⟨outcome, after, h⟩ | ⟨e, after, h⟩
  · rw [h] at hafter ⊢
    rw [perform_bind_ok (perform_attempt (perform_carryOut h (hafter.trans hqueue)))]
    rfl
  · rw [h] at hafter ⊢
    have hcarry : db.perform (carryOut rules row) = (.error e, after) := perform_bind_error h _
    have hrecord := perform_recordFailure_row (hafter.trans hqueue) hrow e maxFailures
    rw [perform_bind_ok (perform_attempt hcarry), perform_bind_ok hrecord]
    simp only [Except.map, CycleReport.counting, decide_eq_true_eq]
    rfl

theorem finding_afterVisit (db : Database) (rules : RuleTable) (maxFailures : Nat)
    (row : Row QueueEntry) (table : Numbered QueueEntry) :
    (db.afterVisit rules maxFailures row table).finding rules = db.finding rules := by
  have hitems : (db.afterVisit rules maxFailures row table).items = db.items :=
    afterReindex_items db rules row.value.item
  have hedges : (db.afterVisit rules maxFailures row table).edges.isSome = db.edges.isSome :=
    afterReindex_edges_isSome db rules row.value.item
  exact funext (finding_congr hitems hedges rules)

/-! ## Visits in turn -/

/-- What visits in turn leave of a row. -/
def left? (db : Database) (rules : RuleTable) (maxFailures : Nat) (row : Row QueueEntry) :
    Option (Row QueueEntry) :=
  rowLeft? maxFailures (db.finding rules row.value.item) row

theorem exists_of_mem_left {rows : List (Row QueueEntry)} {row : Row QueueEntry}
    (h : row ∈ rows.filterMap (db.left? rules maxFailures)) : ∃ old ∈ rows, old.id = row.id := by
  obtain ⟨old, hold, hleft⟩ := List.mem_filterMap.1 h
  exact ⟨old, hold, (Queue.id_of_rowLeft? hleft).symm⟩

def counted (db : Database) (rules : RuleTable) (maxFailures : Nat)
    (rows : List (Row QueueEntry)) (report : CycleReport) : CycleReport :=
  rows.foldl (fun report row =>
    report.counting maxFailures (db.finding rules row.value.item) row.value) report

theorem counted_cons (row : Row QueueEntry) (rest : List (Row QueueEntry))
    (report : CycleReport) : db.counted rules maxFailures (row :: rest) report =
      db.counted rules maxFailures rest
        (report.counting maxFailures (db.finding rules row.value.item) row.value) := rfl

section
variable {db' : Database} (h : ∀ id, db'.finding rules id = db.finding rules id)
include h

theorem left?_congr : db'.left? rules maxFailures = db.left? rules maxFailures := by
  funext row
  unfold left?
  rw [h]

theorem counted_congr (rows : List (Row QueueEntry)) (report : CycleReport) :
    db'.counted rules maxFailures rows report = db.counted rules maxFailures rows report := by
  unfold counted
  simp only [h]

end

theorem rows_settle_first (db : Database) (rules : RuleTable) (maxFailures : Nat)
    {table : Numbered QueueEntry} {row : Row QueueEntry} {before rest later : List (Row QueueEntry)}
    (h : table.rows = before ++ row :: rest ++ later) :
    (settle maxFailures (db.finding rules row.value.item) row table).rows =
      before ++ (db.left? rules maxFailures row).toList ++ rest ++ later := by
  have hsplit : table.rows = before ++ row :: (rest ++ later) := by
    rw [h, List.append_assoc, List.cons_append]
  rw [rows_settle _ hsplit, ← List.append_assoc]
  rfl

/-- Visits to neighbouring rows replace these rows by what is left of each and touch no
other. How each reindex ends was certain before the first. -/
theorem perform_visitEach (rules : RuleTable) (maxFailures : Nat) {table : Numbered QueueEntry}
    {before rows later : List (Row QueueEntry)} (hqueue : db.queue = some table)
    (hrows : table.rows = before ++ rows ++ later) (report : CycleReport) :
    ∃ left : Numbered QueueEntry, left.lastId = table.lastId ∧
      left.rows = before ++ rows.filterMap (db.left? rules maxFailures) ++ later ∧
      db.perform (visitEach rules maxFailures rows report) =
        (.ok (db.counted rules maxFailures rows report),
          { db.afterReindexes rules (rows.map (·.value.item)) with queue := some left }) := by
  induction rows generalizing db table before report with
  | nil =>
    refine ⟨table, rfl, hrows, ?_⟩
    show (Except.ok report, db) = (Except.ok report, { db with queue := some table })
    rw [← hqueue]
  | cons row rest ih =>
    have hrow : row ∈ table.rows := by simp [hrows]
    have hfinding := congrFun (db.finding_afterVisit rules maxFailures row table)
    obtain ⟨left, hlast, hleft, hvisits⟩ :=
      ih (show (db.afterVisit rules maxFailures row table).queue = some _ from rfl)
        (db.rows_settle_first rules maxFailures hrows)
        (report.counting maxFailures (db.finding rules row.value.item) row.value)
    rw [left?_congr hfinding] at hleft
    rw [counted_congr hfinding] at hvisits
    refine ⟨left, hlast.trans (lastId_settle _ _ _), ?_, ?_⟩
    · rw [hleft, List.append_assoc before, List.filterMap_cons]
      cases db.left? rules maxFailures row <;> rfl
    · have hstep : visitEach rules maxFailures (row :: rest) report =
          visit rules maxFailures row report >>= visitEach rules maxFailures rest := rfl
      rw [hstep, perform_bind_ok (perform_visit hqueue hrow report), hvisits, afterVisit,
        afterReindexes_setQueue]
      rfl

/-! ## Batches -/

theorem perform_visitBatch {rows : List (Row QueueEntry)} {state : Queue.CycleState}
    (htime : HasTime state.slice rows.length)
    {report : CycleReport} {after : Database}
    (h : db.perform (visitEach rules maxFailures rows state.report) = (.ok report, after)) :
    db.perform (visitBatch rules maxFailures rows state) =
      (.ok ⟨report, (rows.getLast?.map Row.id).getD state.cursor,
        state.slice.map (· - rows.length)⟩, after) := by
  induction rows generalizing db state with
  | nil =>
    have hsame : state.slice.map (· - 0) = state.slice := by simp
    obtain ⟨hreport, rfl⟩ := Prod.mk.inj h
    cases hreport
    show (Except.ok state, db) = _
    rw [List.length_nil, hsame]
    rfl
  | cons row rest ih =>
    obtain ⟨mid, db', hvisit, hrest⟩ : ∃ mid db',
        db.perform (visit rules maxFailures row state.report) = (.ok mid, db') ∧
          db'.perform (visitEach rules maxFailures rest mid) = (.ok report, after) :=
      of_perform_bind_ok h
    have hgoing : ¬ (state.slice == some 0) = true := by
      intro hzero
      have := htime 0 (by simpa using hzero)
      simp at this
    rw [List.length_cons, Nat.add_comm] at htime
    have hlast : ((row :: rest).getLast?.map Row.id).getD state.cursor =
        (rest.getLast?.map Row.id).getD row.id := by
      cases rest with
      | nil => rfl
      | cons next rest => rw [List.getLast?_cons_cons]; rfl
    have hslice : (state.slice.map (· - 1)).map (· - rest.length) =
        state.slice.map (· - (row :: rest).length) := by
      rw [Option.map_map, List.length_cons]
      congr 1
      funext n
      show n - 1 - rest.length = n - (rest.length + 1)
      omega
    unfold visitBatch
    rw [if_neg hgoing, perform_bind_ok hvisit, ih htime.later hrest, hlast, hslice]

theorem visitEach_append (rows later : List (Row QueueEntry)) (report : CycleReport) :
    visitEach rules maxFailures (rows ++ later) report =
      visitEach rules maxFailures rows report >>= visitEach rules maxFailures later :=
  List.foldlM_append

theorem timedOut_counted (rows : List (Row QueueEntry)) (report : CycleReport) :
    (db.counted rules maxFailures rows report).timedOut = report.timedOut := by
  induction rows generalizing report with
  | nil => rfl
  | cons row rest ih => exact (ih _).trans (CycleReport.timedOut_counting _ _ _ _)

/-- A batch for which there is time is visited, and the cycle goes on behind it with the time
that is left. -/
theorem perform_cycleWithin_batch {settings : Queue.CycleSettings}
    (hsize : settings.batchSize ≤ Text.maxSigned64) {fuel : Nat} {table : Numbered QueueEntry}
    {seen rows later : List (Row QueueEntry)} {state : Queue.CycleState}
    (hqueue : db.queue = some table) (hcut : table.CutAt state.cursor seen (rows ++ later))
    (hrows : (rows ++ later).take settings.batchSize = rows) (hnonempty : rows ≠ [])
    (htime : HasTime state.slice rows.length) (hgoing : state.report.timedOut = false) :
    ∃ (next : Queue.CycleState) (mid : Database) (left : Numbered QueueEntry)
        (visited : List (Row QueueEntry)),
      db.perform (visitEach rules settings.maxFailures rows state.report) =
          (.ok next.report, mid) ∧
        mid.queue = some left ∧ left.CutAt next.cursor visited later ∧
        next.slice = state.slice.map (· - rows.length) ∧ next.report.timedOut = false ∧
        db.perform (Queue.cycleWithin rules settings (fuel + 1) state) =
          mid.perform (Queue.cycleWithin rules settings fuel next) := by
  have hbatch := perform_batch_cut hqueue hsize hcut
  rw [hrows] at hbatch
  obtain ⟨last, hlast⟩ : ∃ last, rows.getLast? = some last :=
    Option.isSome_iff_exists.1 (by simpa using hnonempty)
  obtain ⟨left, -, hleft, hvisits⟩ := perform_visitEach rules settings.maxFailures hqueue
    (hcut.rows.trans (List.append_assoc _ _ _).symm) state.report
  have hcutLeft := hcut.advance hlast hleft fun _ => exists_of_mem_left
  have hrun := perform_visitBatch htime hvisits
  rw [hlast] at hrun
  have hgoingNext : (db.counted rules settings.maxFailures rows state.report).timedOut = false :=
    (timedOut_counted rows state.report).trans hgoing
  refine ⟨⟨_, last.id, _⟩, _, left, _, hvisits, rfl, hcutLeft, rfl, hgoingNext, ?_⟩
  rw [Queue.cycleWithin, perform_bind_ok hbatch, if_neg (by simpa using hnonempty),
    perform_bind_ok hrun, if_neg (by simpa using hgoingNext)]
  rfl

/-- Batch after batch is the same as one visit after another, as long as the cursor stands
between the rows that were visited and those that were not. -/
theorem perform_cycleWithin {settings : Queue.CycleSettings} (hsome : 1 ≤ settings.batchSize)
    (hsize : settings.batchSize ≤ Text.maxSigned64) {fuel : Nat} {table : Numbered QueueEntry}
    {seen rest : List (Row QueueEntry)} {state : Queue.CycleState}
    (hqueue : db.queue = some table) (hcut : table.CutAt state.cursor seen rest)
    (hfuel : rest.length < fuel)
    (htime : HasTime state.slice rest.length) (hgoing : state.report.timedOut = false) :
    db.perform (Queue.cycleWithin rules settings fuel state) =
      db.perform (visitEach rules settings.maxFailures rest state.report) := by
  induction fuel generalizing db table seen rest state with
  | zero => omega
  | succ fuel ih =>
    obtain ⟨rows, later, hrows, rfl⟩ : ∃ rows later,
        rest.take settings.batchSize = rows ∧ rest = rows ++ later :=
      ⟨_, _, rfl, (List.take_append_drop _ _).symm⟩
    by_cases hnone : rows = []
    · subst hnone
      have hempty : settings.batchSize = 0 ∨ later = [] := by simpa using hrows
      obtain rfl : later = [] := hempty.resolve_left (by omega)
      have hbatch := perform_batch_cut hqueue hsize hcut
      rw [hrows] at hbatch
      rw [Queue.cycleWithin, perform_bind_ok hbatch]
      rfl
    · have hlength : 0 < rows.length := List.length_pos_iff.2 hnone
      rw [List.length_append] at hfuel htime
      obtain ⟨next, mid, left, visited, hvisits, hleft, hcutLeft, hslice, hgoingNext, hrun⟩ :=
        perform_cycleWithin_batch hsize hqueue hcut hrows hnone
          (htime.mono (Nat.le_add_right _ _)) hgoing
      rw [hrun, visitEach_append, perform_bind_ok hvisits]
      exact ih hleft hcutLeft (by omega) (hslice ▸ htime.later) hgoingNext

theorem processed_add_failed_counted (rows : List (Row QueueEntry)) (report : CycleReport) :
    (db.counted rules maxFailures rows report).processed +
        (db.counted rules maxFailures rows report).failed =
      report.processed + report.failed + rows.length := by
  induction rows generalizing report with
  | nil => rfl
  | cons row rest ih =>
    have hrow := CycleReport.processed_add_failed_counting maxFailures
      (db.finding rules row.value.item) row.value report
    rw [counted_cons, ih, List.length_cons]
    omega

theorem processed_counted (rows : List (Row QueueEntry)) (report : CycleReport) :
    (db.counted rules maxFailures rows report).processed =
      report.processed + rows.countP fun row => (db.finding rules row.value.item).isOk := by
  induction rows generalizing report with
  | nil => rfl
  | cons row rest ih =>
    rw [counted_cons, ih, CycleReport.processed_counting, List.countP_cons]
    omega

theorem failed_counted (rows : List (Row QueueEntry)) (report : CycleReport) :
    (db.counted rules maxFailures rows report).failed =
      report.failed + rows.countP fun row => !(db.finding rules row.value.item).isOk := by
  induction rows generalizing report with
  | nil => rfl
  | cons row rest ih =>
    rw [counted_cons, ih, CycleReport.failed_counting, List.countP_cons]
    omega

theorem left_add_counted (db : Database) (rules : RuleTable) (maxFailures : Nat)
    (rows : List (Row QueueEntry)) (report : CycleReport) :
    (rows.filterMap (db.left? rules maxFailures)).length +
        (db.counted rules maxFailures rows report).processed +
        (db.counted rules maxFailures rows report).dropped =
      report.processed + report.dropped + rows.length := by
  induction rows generalizing report with
  | nil => simp [counted]
  | cons row rest ih =>
    have hrow := CycleReport.remains_add_counting maxFailures
      (db.finding rules row.value.item) row.value report
    have hrest := ih (report.counting maxFailures (db.finding rules row.value.item) row.value)
    have hleft : ((row :: rest).filterMap (db.left? rules maxFailures)).length =
        (remains? maxFailures (db.finding rules row.value.item) row.value).toList.length +
          (rest.filterMap (db.left? rules maxFailures)).length := by
      rw [List.filterMap_cons]
      unfold left? rowLeft?
      cases remains? maxFailures (db.finding rules row.value.item) row.value <;>
        simp [Nat.add_comm]
    rw [counted_cons, hleft, List.length_cons]
    omega

end Database

end Lineage
