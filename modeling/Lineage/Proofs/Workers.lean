import Lineage.Proofs.Actions
import Lineage.Queue.Cycle

/-! # A cycle in single steps

A cycle is no transaction: between the reading of a batch, the reindex of an item and
the removal of its request anything can happen. A worker is a cycle that goes on by one
such step at a time and can be left standing after any of them. A worker that nothing
comes between does exactly what a cycle does (`cycle_reached`). -/

namespace Lineage.Queue
open Database (perform_cases perform_bind_ok perform_bind_error perform_map perform_attempt)

/-- What a worker does next. -/
inductive Phase where
  /-- It reindexes the item of the first request, or reads the next batch if there is none. -/
  | visiting (rows : List (Row QueueEntry))
  /-- It removes a request whose item was reindexed. -/
  | completing (row : Row QueueEntry) (rest : List (Row QueueEntry))
  /-- It notes the failure of a request. -/
  | failing (row : Row QueueEntry) (failure : Failure) (rest : List (Row QueueEntry))
  /-- Nothing: its cycle is over, or it was broken off. -/
  | stopped

/-- The requests of its last batch with which a worker is not done. -/
def Phase.rows : Phase → List (Row QueueEntry)
  | visiting rows => rows
  | completing row rest | failing row _ rest => row :: rest
  | stopped => []

structure Worker where
  batchSize : Nat
  maxFailures : Nat
  cursor : Int
  phase : Phase

namespace Worker

def hired (batchSize maxFailures : Nat) : Worker := ⟨batchSize, maxFailures, 0, .visiting []⟩

def stop (worker : Worker) : Worker := { worker with phase := .stopped }

/-- One step of a worker, which is one transaction. -/
def step (rules : RuleTable) (db : Database) (worker : Worker) : Database × Worker :=
  match worker.phase with
  | .visiting [] =>
    match db.perform (batch worker.batchSize worker.cursor) with
    | (.ok (row :: rest), after) => (after, { worker with phase := .visiting (row :: rest) })
    | (_, after) => (after, worker.stop)
  | .visiting (row :: rest) =>
    match db.perform (Edges.reindex rules row.value.item) with
    | (.ok _, after) => (after, { worker with cursor := row.id, phase := .completing row rest })
    | (.error failure, after) =>
      (after, { worker with cursor := row.id, phase := .failing row failure rest })
  | .completing row rest =>
    match db.perform (complete row.id) with
    | (.ok _, after) => (after, { worker with phase := .visiting rest })
    | (.error failure, after) => (after, { worker with phase := .failing row failure rest })
  | .failing row failure rest =>
    match db.perform (recordFailure row.id failure.message worker.maxFailures) with
    | (.ok _, after) => (after, { worker with phase := .visiting rest })
    | (.error _, after) => (after, worker.stop)
  | .stopped => (db, worker)

section
variable {rules : RuleTable} {db after : Database} {worker : Worker} {row : Row QueueEntry}
variable {rows rest : List (Row QueueEntry)} {failure e : Failure}

theorem step_read (hphase : worker.phase = .visiting [])
    (h : db.perform (batch worker.batchSize worker.cursor) = (.ok (row :: rest), after)) :
    worker.step rules db = (after, { worker with phase := .visiting (row :: rest) }) := by
  simp only [step, hphase, h]

theorem step_read_nothing (hphase : worker.phase = .visiting [])
    (h : db.perform (batch worker.batchSize worker.cursor) = (.ok [], after)) :
    worker.step rules db = (after, worker.stop) := by
  simp only [step, hphase, h]

theorem step_read_error (hphase : worker.phase = .visiting [])
    (h : db.perform (batch worker.batchSize worker.cursor) = (.error e, after)) :
    worker.step rules db = (after, worker.stop) := by
  simp only [step, hphase, h]

theorem step_visit {outcome : ReindexOutcome} (hphase : worker.phase = .visiting (row :: rest))
    (h : db.perform (Edges.reindex rules row.value.item) = (.ok outcome, after)) :
    worker.step rules db =
      (after, { worker with cursor := row.id, phase := .completing row rest }) := by
  simp only [step, hphase, h]

theorem step_visit_error (hphase : worker.phase = .visiting (row :: rest))
    (h : db.perform (Edges.reindex rules row.value.item) = (.error e, after)) :
    worker.step rules db =
      (after, { worker with cursor := row.id, phase := .failing row e rest }) := by
  simp only [step, hphase, h]

theorem step_complete {found : Bool} (hphase : worker.phase = .completing row rest)
    (h : db.perform (complete row.id) = (.ok found, after)) :
    worker.step rules db = (after, { worker with phase := .visiting rest }) := by
  simp only [step, hphase, h]

theorem step_complete_error (hphase : worker.phase = .completing row rest)
    (h : db.perform (complete row.id) = (.error e, after)) :
    worker.step rules db = (after, { worker with phase := .failing row e rest }) := by
  simp only [step, hphase, h]

theorem step_fail {dropped : Bool} (hphase : worker.phase = .failing row failure rest)
    (h : db.perform (recordFailure row.id failure.message worker.maxFailures) =
      (.ok dropped, after)) :
    worker.step rules db = (after, { worker with phase := .visiting rest }) := by
  simp only [step, hphase, h]

theorem step_fail_error (hphase : worker.phase = .failing row failure rest)
    (h : db.perform (recordFailure row.id failure.message worker.maxFailures) =
      (.error e, after)) :
    worker.step rules db = (after, worker.stop) := by
  simp only [step, hphase, h]

end

/-- What steps of one worker and nothing else can lead to. -/
inductive Reaches (rules : RuleTable) : Database → Worker → Database → Worker → Prop where
  | here (db : Database) (worker : Worker) : Reaches rules db worker db worker
  | step {db after : Database} {worker last : Worker} :
    Reaches rules (worker.step rules db).1 (worker.step rules db).2 after last →
      Reaches rules db worker after last

namespace Reaches
variable {rules : RuleTable} {db mid after : Database} {worker next last : Worker}

theorem of_step (h : worker.step rules db = (mid, next)) (hnext : Reaches rules mid next after last) :
    Reaches rules db worker after last := by
  apply step
  rw [h]
  exact hnext

theorem trans (h : Reaches rules db worker mid next) (hnext : Reaches rules mid next after last) :
    Reaches rules db worker after last := by
  induction h with
  | here => exact hnext
  | step _ ih => exact step (ih hnext)

end Reaches

variable {rules : RuleTable} {db : Database}

/-- Noting a failure is one step, after which the worker goes on or, when there was nothing
to note it on, has stopped. -/
theorem reaches_failing (db : Database) (rules : RuleTable) (worker : Worker)
    (row : Row QueueEntry) (failure : Failure) (rest : List (Row QueueEntry))
    (count : Bool → CycleReport) : ∃ last,
      Reaches rules db { worker with phase := .failing row failure rest }
        (db.perform (count <$> recordFailure row.id failure.message worker.maxFailures)).2 last ∧
      ∀ report, (db.perform (count <$>
          recordFailure row.id failure.message worker.maxFailures)).1 = .ok report →
        last = { worker with phase := .visiting rest } := by
  rw [perform_map]
  rcases perform_cases db (recordFailure row.id failure.message worker.maxFailures) with
    ⟨dropped, after, h⟩ | ⟨e, after, h⟩
  · rw [h]
    exact ⟨_, .of_step (step_fail rfl h) (.here after _), fun _ _ => rfl⟩
  · rw [h]
    exact ⟨_, .of_step (step_fail_error rfl h) (.here after _), fun report hreport => by cases hreport⟩

/-- A visit is two steps, or three when the reindex succeeds and its request cannot be
removed. -/
theorem reaches_visit (db : Database) (rules : RuleTable) (worker : Worker)
    (row : Row QueueEntry) (rest : List (Row QueueEntry)) (report : CycleReport) : ∃ last,
      Reaches rules db { worker with phase := .visiting (row :: rest) }
        (db.perform (visit rules worker.maxFailures row report)).2 last ∧
      ∀ counted, (db.perform (visit rules worker.maxFailures row report)).1 = .ok counted →
        last = { worker with cursor := row.id, phase := .visiting rest } := by
  unfold visit
  rcases perform_cases db (Edges.reindex rules row.value.item) with
    ⟨outcome, mid, hreindex⟩ | ⟨e, mid, hreindex⟩
  · rcases perform_cases mid (complete row.id) with ⟨found, after, hcomplete⟩ | ⟨e, after, hcomplete⟩
    · have hcarry : db.perform (carryOut rules row) = (.ok outcome, after) :=
        (perform_bind_ok hreindex _).trans (perform_bind_ok hcomplete _)
      rw [perform_bind_ok (perform_attempt hcarry)]
      exact ⟨_, .of_step (step_visit rfl hreindex)
        (.of_step (step_complete rfl hcomplete) (.here after _)), fun _ _ => rfl⟩
    · have hcarry : db.perform (carryOut rules row) = (.error e, after) :=
        (perform_bind_ok hreindex _).trans (perform_bind_error hcomplete _)
      rw [perform_bind_ok (perform_attempt hcarry)]
      obtain ⟨last, hlast, hgone⟩ := reaches_failing after rules
        { worker with cursor := row.id } row e rest fun dropped => { report with
          failed := report.failed + 1
          dropped := report.dropped + (if dropped then 1 else 0) }
      exact ⟨last, .of_step (step_visit rfl hreindex)
        (.of_step (step_complete_error rfl hcomplete) hlast), hgone⟩
  · have hcarry : db.perform (carryOut rules row) = (.error e, mid) := perform_bind_error hreindex _
    rw [perform_bind_ok (perform_attempt hcarry)]
    obtain ⟨last, hlast, hgone⟩ := reaches_failing mid rules
      { worker with cursor := row.id } row e rest fun dropped => { report with
        failed := report.failed + 1
        dropped := report.dropped + (if dropped then 1 else 0) }
    exact ⟨last, .of_step (step_visit_error rfl hreindex) hlast, hgone⟩

/-- A batch is gone through visit by visit. When it was not cut short for want of time, the
worker is about to read the next one. -/
theorem reaches_visitBatch (db : Database) (rules : RuleTable) (worker : Worker)
    (rows : List (Row QueueEntry)) (state : CycleState) (hcursor : worker.cursor = state.cursor) :
    ∃ last, Reaches rules db { worker with phase := .visiting rows }
        (db.perform (visitBatch rules worker.maxFailures rows state)).2 last ∧
      ∀ ended, (db.perform (visitBatch rules worker.maxFailures rows state)).1 = .ok ended →
        ended.report.timedOut = false →
        last = { worker with cursor := ended.cursor, phase := .visiting [] } := by
  induction rows generalizing db worker state with
  | nil =>
    refine ⟨_, .here db _, fun ended hended _ => ?_⟩
    obtain rfl : state = ended := Except.ok.inj hended
    rw [← hcursor]
  | cons row rest ih =>
    unfold visitBatch
    by_cases hlate : (state.slice == some 0) = true
    · rw [if_pos hlate]
      refine ⟨_, .here db _, fun ended hended htime => ?_⟩
      obtain rfl := Except.ok.inj hended
      cases htime
    · rw [if_neg hlate]
      obtain ⟨next, hvisit, hnext⟩ := reaches_visit db rules worker row rest state.report
      rcases perform_cases db (visit rules worker.maxFailures row state.report) with
        ⟨report, after, h⟩ | ⟨e, after, h⟩
      · rw [h] at hvisit hnext
        obtain rfl := hnext report rfl
        rw [perform_bind_ok h]
        obtain ⟨last, hrest, hlast⟩ := ih after { worker with cursor := row.id }
          ⟨report, row.id, state.slice.map (· - 1)⟩ rfl
        exact ⟨last, hvisit.trans hrest, hlast⟩
      · rw [h] at hvisit
        rw [perform_bind_error h]
        exact ⟨next, hvisit, fun ended hended => by cases hended⟩

theorem reaches_cycleWithin (db : Database) (rules : RuleTable) (settings : CycleSettings)
    (fuel : Nat) (state : CycleState) : ∃ last,
      Reaches rules db ⟨settings.batchSize, settings.maxFailures, state.cursor, .visiting []⟩
        (db.perform (cycleWithin rules settings fuel state)).2 last := by
  induction fuel generalizing db state with
  | zero => exact ⟨_, .here db _⟩
  | succ fuel ih =>
    unfold cycleWithin
    rcases perform_cases db (batch settings.batchSize state.cursor) with
      ⟨rows, mid, hbatch⟩ | ⟨e, after, hbatch⟩
    · rw [perform_bind_ok hbatch]
      cases rows with
      | nil => exact ⟨_, .of_step (step_read_nothing rfl hbatch) (.here mid _)⟩
      | cons row rest =>
        obtain ⟨next, hrows, hnext⟩ := reaches_visitBatch mid rules
          ⟨settings.batchSize, settings.maxFailures, state.cursor, .visiting []⟩ (row :: rest)
          state rfl
        rw [if_neg (by simp)]
        rcases perform_cases mid (visitBatch rules settings.maxFailures (row :: rest) state) with
          ⟨ended, after, h⟩ | ⟨e, after, h⟩
        · rw [h] at hrows hnext
          rw [perform_bind_ok h]
          by_cases hlate : ended.report.timedOut = true
          · rw [if_pos hlate]
            exact ⟨next, .of_step (step_read rfl hbatch) hrows⟩
          · obtain rfl := hnext ended rfl (Bool.eq_false_iff.2 hlate)
            obtain ⟨last, hlast⟩ := ih after ended
            rw [if_neg hlate]
            exact ⟨last, .of_step (step_read rfl hbatch) (hrows.trans hlast)⟩
        · rw [h] at hrows
          rw [perform_bind_error h]
          exact ⟨next, .of_step (step_read rfl hbatch) hrows⟩
    · rw [perform_bind_error hbatch]
      exact ⟨_, .of_step (step_read_error rfl hbatch) (.here after _)⟩

/-- A worker that nothing comes between does what a cycle does, also to a database in which
tables are missing and when time runs out. -/
theorem cycle_reached (db : Database) (rules : RuleTable) (settings : CycleSettings) :
    ∃ last, Reaches rules db (hired settings.batchSize settings.maxFailures)
      (db.perform (cycle rules settings)).2 last :=
  reaches_cycleWithin db rules settings _ ⟨.start, 0, settings.slice⟩

end Worker

end Lineage.Queue
