import Lineage.Proofs.CyclePass

/-! # Cycles and their time

A cycle that has time for all requests visits them one after another. One that has time for
fewer visits as many as there is time for and then says that time ran out, whatever the size
of the batches. So a cycle always ends with a report, and the report tells whether every
request was visited. -/

namespace Lineage

theorem Queue.HasTime.take_eq {slice : Option Nat} {rows : List (Row QueueEntry)}
    (h : HasTime slice rows.length) : rows.take (slice.getD rows.length) = rows := by
  refine List.take_of_length_le ?_
  cases slice with
  | none => exact Nat.le_refl _
  | some n => exact h n rfl

namespace Database
open Queue (visit visitEach visitBatch HasTime)
variable {db after : Database} {rules : RuleTable} {maxFailures n : Nat}
variable {report : Queue.CycleReport} {table : Numbered QueueEntry}

/-- A batch that is too long is left where time runs out. -/
theorem perform_visitBatch_late {rows : List (Row QueueEntry)} {state : Queue.CycleState}
    (hslice : state.slice = some n) (hlate : n < rows.length)
    (h : db.perform (visitEach rules maxFailures (rows.take n) state.report) =
      (.ok report, after)) : ∃ ended : Queue.CycleState,
        db.perform (visitBatch rules maxFailures rows state) = (.ok ended, after) ∧
          ended.report = { report with timedOut := true } := by
  induction rows generalizing db state n with
  | nil => exact absurd hlate (Nat.not_lt_zero n)
  | cons row rest ih =>
    unfold visitBatch
    cases n with
    | zero =>
      rw [if_pos (by simp [hslice])]
      obtain ⟨hreport, rfl⟩ := Prod.mk.inj h
      obtain rfl : state.report = report := Except.ok.inj hreport
      exact ⟨_, rfl, rfl⟩
    | succ n =>
      obtain ⟨mid, db', hvisit, hrest⟩ : ∃ mid db',
          db.perform (visit rules maxFailures row state.report) = (.ok mid, db') ∧
            db'.perform (visitEach rules maxFailures (rest.take n) mid) = (.ok report, after) :=
        of_perform_bind_ok h
      rw [if_neg (by simp [hslice]), perform_bind_ok hvisit]
      exact ih (show state.slice.map (· - 1) = some n by rw [hslice]; rfl)
        (Nat.lt_of_succ_lt_succ hlate) hrest

/-- Batch after batch, up to the request for which there is no time any more. -/
theorem perform_cycleWithin_late {settings : Queue.CycleSettings} (hsome : 1 ≤ settings.batchSize)
    (hsize : settings.batchSize ≤ Text.maxSigned64) {fuel : Nat}
    {seen rest : List (Row QueueEntry)} {state : Queue.CycleState}
    (hqueue : db.queue = some table) (hcut : table.CutAt state.cursor seen rest)
    (hfuel : rest.length < fuel) (hslice : state.slice = some n) (hlate : n < rest.length)
    (hgoing : state.report.timedOut = false) : ∃ report after,
      db.perform (visitEach rules settings.maxFailures (rest.take n) state.report) =
          (.ok report, after) ∧
        db.perform (Queue.cycleWithin rules settings fuel state) =
          (.ok { report with timedOut := true }, after) := by
  induction fuel generalizing db table seen rest state n with
  | zero => omega
  | succ fuel ih =>
    obtain ⟨rows, later, hrows, rfl⟩ : ∃ rows later,
        rest.take settings.batchSize = rows ∧ rest = rows ++ later :=
      ⟨_, _, rfl, (List.take_append_drop _ _).symm⟩
    have hnonempty : rows ≠ [] := by
      rintro rfl
      have hlength := congrArg List.length hrows
      rw [List.length_take, List.length_nil] at hlength
      omega
    by_cases hbatchLate : n < rows.length
    · -- time runs out within this batch
      have hcutRows : table.rows = seen ++ rows.take n ++ (rows.drop n ++ later) := by
        rw [hcut.rows, List.append_assoc seen (rows.take n), ← List.append_assoc (rows.take n),
          List.take_append_drop]
      obtain ⟨left, -, -, hvisits⟩ := perform_visitEach rules settings.maxFailures hqueue
        hcutRows state.report
      obtain ⟨ended, hrun, hended⟩ := perform_visitBatch_late hslice hbatchLate hvisits
      have hbatch := perform_batch_cut hqueue hsize hcut
      rw [hrows] at hbatch
      rw [List.take_append_of_le_length (Nat.le_of_lt hbatchLate)]
      refine ⟨_, _, hvisits, ?_⟩
      rw [Queue.cycleWithin, perform_bind_ok hbatch, if_neg (by simpa using hnonempty),
        perform_bind_ok hrun, hended]
      rfl
    · -- there is time for all of this batch, and too little for the rest
      have htime : HasTime state.slice rows.length := by
        intro m hm
        obtain rfl : n = m := Option.some.inj (hslice.symm.trans hm)
        exact Nat.not_lt.1 hbatchLate
      obtain ⟨next, mid, left, visited, hvisits, hleft, hcutLeft, hsliceNext, hgoingNext, hrun⟩ :=
        perform_cycleWithin_batch hsize hqueue hcut hrows hnonempty htime hgoing
      have hrest : (rows ++ later).take n = rows ++ later.take (n - rows.length) := by
        rw [List.take_append, List.take_of_length_le (Nat.not_lt.1 hbatchLate)]
      have hlength : 0 < rows.length := List.length_pos_iff.2 hnonempty
      rw [List.length_append] at hfuel hlate
      rw [hrest, visitEach_append, perform_bind_ok hvisits, hrun]
      exact ih hleft hcutLeft (by omega) (by rw [hsliceNext, hslice]; rfl) (by omega) hgoingNext

/-- A cycle visits as many requests as there is time for. It ends with a report, which says whether
time ran out before the last of them. -/
theorem cycle_visits (hqueue : db.queue = some table) (rules : RuleTable)
    {settings : Queue.CycleSettings} (hsome : 1 ≤ settings.batchSize)
    (hsize : settings.batchSize ≤ Text.maxSigned64) : ∃ report after late,
      db.perform (visitEach rules settings.maxFailures
          (table.rows.take (settings.slice.getD table.rows.length)) .start) = (.ok report, after) ∧
        (late = false ↔ HasTime settings.slice table.rows.length) ∧
        db.perform (Queue.cycle rules settings) = (.ok { report with timedOut := late }, after) := by
  have hrequests : ((db.queue.map fun table => table.rows.length).getD 0) = table.rows.length := by
    rw [hqueue]
    rfl
  have hall : table.rows = [] ++ table.rows ++ [] := by simp
  unfold Queue.cycle
  rw [perform_bind_ok (perform_getThe db), hrequests]
  by_cases htime : HasTime settings.slice table.rows.length
  · obtain ⟨left, -, -, hvisits⟩ := perform_visitEach rules settings.maxFailures hqueue hall .start
    have hrun : db.perform (Queue.cycleWithin rules settings (table.rows.length + 1)
        ⟨.start, 0, settings.slice⟩) = _ := (perform_cycleWithin hsome hsize hqueue (.start table)
      (Nat.lt_succ_self _) htime rfl).trans hvisits
    have hgoing : (db.counted rules settings.maxFailures table.rows .start).timedOut = false :=
      timedOut_counted table.rows .start
    rw [htime.take_eq]
    refine ⟨_, _, false, hvisits, iff_of_true rfl htime, ?_⟩
    rw [hrun, ← hgoing]
  · obtain ⟨n, hslice, hlate⟩ : ∃ n, settings.slice = some n ∧ n < table.rows.length := by
      simpa [HasTime] using htime
    obtain ⟨report, after, hvisits, hrun⟩ : ∃ (report : Queue.CycleReport) (after : Database), _ ∧
        db.perform (Queue.cycleWithin rules settings (table.rows.length + 1)
          ⟨.start, 0, settings.slice⟩) = (.ok { report with timedOut := true }, after) :=
      perform_cycleWithin_late hsome hsize hqueue (.start table) (Nat.lt_succ_self _) hslice hlate rfl
    have hmany : settings.slice.getD table.rows.length = n := by
      rw [hslice]
      rfl
    rw [hmany]
    exact ⟨report, after, true, hvisits, iff_of_false nofun htime, hrun⟩

/-- A cycle ends with a report, which says that time ran out if there was too little of it.
Where it was enough, the cycle has visited each request. -/
theorem cycle_ends (hqueue : db.queue = some table) (rules : RuleTable)
    {settings : Queue.CycleSettings} (hsome : 1 ≤ settings.batchSize)
    (hsize : settings.batchSize ≤ Text.maxSigned64) : ∃ report after,
      db.perform (Queue.cycle rules settings) = (.ok report, after) ∧
        (report.timedOut = false ↔ HasTime settings.slice table.rows.length) ∧
        (report.timedOut = false →
          db.perform (visitEach rules settings.maxFailures table.rows .start) =
            (.ok report, after)) := by
  obtain ⟨report, after, late, hvisits, hlate, hrun⟩ := cycle_visits hqueue rules hsome hsize
  refine ⟨_, after, hrun, hlate, fun hdone => ?_⟩
  rw [(hlate.1 hdone).take_eq] at hvisits
  obtain ⟨left, -, -, hall⟩ := perform_visitEach rules settings.maxFailures hqueue
    (show table.rows = [] ++ table.rows ++ [] by simp) .start
  -- visits alone never let time run out
  have hgoing : report.timedOut = false := by
    obtain ⟨hreport, -⟩ := Prod.mk.inj (hvisits.symm.trans hall)
    rw [Except.ok.inj hreport]
    exact timedOut_counted table.rows .start
  rw [hvisits, show late = report.timedOut from hdone.trans hgoing.symm]

/-- A cycle whose batches are empty has nothing to do, and says so. -/
theorem cycle_of_empty_batches (hqueue : db.queue = some table) (rules : RuleTable)
    (slice : Option Nat) (maxFailures : Nat) :
    db.perform (Queue.cycle rules ⟨slice, 0, maxFailures⟩) = (.ok .start, db) := by
  have hbatch := perform_batch hqueue (Nat.zero_le Text.maxSigned64) 0
  rw [List.take_zero] at hbatch
  unfold Queue.cycle Queue.cycleWithin
  rw [perform_bind_ok (perform_getThe db), perform_bind_ok hbatch]
  rfl

end Database

end Lineage
