import Lineage.Proofs.ReindexRuns
import Lineage.Proofs.TimeSlices

/-! # Requests that fail in every cycle

The text of a stored item may be that of no item. A request for it fails in each cycle until it
has failed too often, and it is one row among others that are carried out. Cycle after cycle is
followed here for a whole queue: a row is either gone after the first cycle or is tried once in
each until its tries are used up, and no row changes what becomes of another. -/

namespace Lineage

namespace Queue

/-- How often a request that always fails is tried, when it has failed before. Failures are
compared with the limit after a try, so that there is one in any case. -/
def triesLeft (maxFailures failures : Nat) : Nat := max (maxFailures - failures) 1

theorem triesLeft_le (maxFailures failures : Nat) :
    triesLeft maxFailures failures ≤ max maxFailures 1 := by
  unfold triesLeft
  omega

theorem item_of_rowLeft? {maxFailures : Nat} {finding : Except Failure Bool}
    {row left : Row QueueEntry} (h : rowLeft? maxFailures finding row = some left) :
    left.value.item = row.value.item := by
  obtain ⟨entry, hremains, rfl⟩ := Option.map_eq_some_iff.1 h
  cases finding with
  | ok found => cases hremains
  | error e =>
    simp only [remains?] at hremains
    split at hremains
    · cases hremains
    · cases hremains
      rfl

end Queue

namespace Database
open Queue (visitEach HasTime CycleSettings CycleReport triesLeft)
variable {db mid after : Database} {rules : RuleTable} {maxFailures k n : Nat}
variable {row left : Row QueueEntry} {reporter : NodeId} {report : CycleReport}

/-- Whether what is stored for the item of a request can be read; nothing can. -/
def reads (db : Database) (row : Row QueueEntry) : Bool := (db.stored row.value.item).isOk

theorem reads_eq_false_iff :
    db.reads row = false ↔ ∃ e, db.stored row.value.item = .error e := by
  unfold reads
  cases db.stored row.value.item with
  | ok stored => exact iff_of_false nofun nofun
  | error e => exact iff_of_true rfl ⟨e, rfl⟩

/-- The row as several cycles leave it, if they do. -/
def leftAfter (db : Database) (rules : RuleTable) (maxFailures : Nat) :
    Nat → Row QueueEntry → Option (Row QueueEntry)
  | 0, row => some row
  | k + 1, row => (db.leftAfter rules maxFailures k row).bind (db.left? rules maxFailures)

theorem isOk_finding (hedges : db.edges.isSome) (rules : RuleTable) (row : Row QueueEntry) :
    (db.finding rules row.value.item).isOk = db.reads row := by
  rw [finding_eq, if_pos hedges, reads]
  cases db.stored row.value.item <;> rfl

theorem leftAfter_same (h : db.leftAfter rules maxFailures k row = some left) :
    left.id = row.id ∧ left.value.item = row.value.item := by
  induction k generalizing left with
  | zero =>
    cases h
    exact ⟨rfl, rfl⟩
  | succ k ih =>
    obtain ⟨mid, hmid, hleft⟩ := Option.bind_eq_some_iff.1 h
    obtain ⟨hid, hitem⟩ := ih hmid
    exact ⟨(Queue.id_of_rowLeft? hleft).trans hid, (Queue.item_of_rowLeft? hleft).trans hitem⟩

theorem leftAfter_of_reads (hedges : db.edges.isSome) (hreads : db.reads row = true)
    (hlater : 0 < k) : db.leftAfter rules maxFailures k row = none := by
  obtain ⟨k, rfl⟩ := Nat.exists_eq_succ_of_ne_zero (Nat.ne_of_gt hlater)
  refine Option.bind_eq_none_iff.2 fun last hlast => ?_
  have hfinding := isOk_finding hedges rules last
  have hsame : db.reads last = db.reads row := by
    unfold reads
    rw [(leftAfter_same hlast).2]
  rw [hsame, hreads] at hfinding
  unfold left? Queue.rowLeft?
  cases hended : db.finding rules last.value.item with
  | ok found => rfl
  | error e =>
    rw [hended] at hfinding
    cases hfinding

/-- A request that cannot be carried out is left with one failure more after each cycle, as
long as it has tries left. -/
theorem leftAfter_of_not_reads (hedges : db.edges.isSome) (rules : RuleTable)
    (maxFailures k : Nat) (hreads : db.reads row = false) :
    (k < triesLeft maxFailures row.value.failures →
      ∃ entry, db.leftAfter rules maxFailures k row = some ⟨row.id, entry⟩ ∧
        entry.item = row.value.item ∧ entry.failures = row.value.failures + k) ∧
    (triesLeft maxFailures row.value.failures ≤ k →
      db.leftAfter rules maxFailures k row = none) := by
  induction k with
  | zero =>
    refine ⟨fun _ => ⟨row.value, rfl, rfl, rfl⟩, fun hnone => ?_⟩
    unfold triesLeft at hnone
    omega
  | succ k ih =>
    by_cases htries : k < triesLeft maxFailures row.value.failures
    · obtain ⟨entry, hentry, hitem, hfailures⟩ := ih.1 htries
      obtain ⟨e, hended⟩ : ∃ e, db.finding rules entry.item = .error e := by
        have hfinding := isOk_finding hedges rules row
        rw [hreads, ← hitem] at hfinding
        cases hended : db.finding rules entry.item with
        | ok found =>
          rw [hended] at hfinding
          cases hfinding
        | error e => exact ⟨e, rfl⟩
      have hstep : db.leftAfter rules maxFailures (k + 1) row =
          (if maxFailures ≤ entry.failures + 1 then none
            else some (Queue.failed e.message entry)).map fun entry => ⟨row.id, entry⟩ := by
        rw [leftAfter, hentry, Option.bind_some]
        unfold left? Queue.rowLeft?
        rw [hended]
        rfl
      unfold triesLeft at htries ⊢
      constructor
      · intro hmore
        rw [hstep, if_neg (by omega)]
        exact ⟨_, rfl, hitem, by show entry.failures + 1 = _; omega⟩
      · intro hnone
        rw [hstep, if_pos (by omega)]
        rfl
    · have hgone := ih.2 (Nat.not_lt.1 htries)
      refine ⟨fun hmore => by omega, fun _ => ?_⟩
      rw [leftAfter, hgone]
      rfl

theorem isSome_leftAfter (hedges : db.edges.isSome) (row : Row QueueEntry) :
    (db.leftAfter rules maxFailures k row).isSome =
      if db.reads row then k == 0 else decide (k < triesLeft maxFailures row.value.failures) := by
  cases hreads : db.reads row with
  | true =>
    cases k with
    | zero => rfl
    | succ k => rw [leftAfter_of_reads hedges hreads (Nat.succ_pos k)]; rfl
  | false =>
    obtain ⟨hmore, hnone⟩ := leftAfter_of_not_reads hedges rules maxFailures k hreads
    by_cases htries : k < triesLeft maxFailures row.value.failures
    · obtain ⟨entry, hentry, -⟩ := hmore htries
      simp [hentry, htries]
    · simp [hnone (Nat.not_lt.1 htries), htries]

/-- The edges that a reporter had are there, in their order and before any others of it. There
are others only if some stored text under another id is that of an item with the reporter's. -/
def StillAsserts (before : Database) (reporter : NodeId) (after : Database) : Prop :=
  ∃ old added, before.edgesOf reporter = .ok old ∧ after.edgesOf reporter = .ok (old ++ added) ∧
    ((∀ id item, before.stored id = .ok (some item) → item.id ≠ reporter) → added = [])

theorem StillAsserts.of_edges {table : Numbered Edge} (htable : db.edges = some table)
    (h : after.edges = db.edges) : db.StillAsserts reporter after :=
  ⟨_, [], edgesOf_table htable reporter, by
    rw [edgesOf_table (h.trans htable), List.append_nil], fun _ => rfl⟩

theorem StillAsserts.trans (h : db.StillAsserts reporter mid) (hitems : mid.items = db.items)
    (hnext : mid.StillAsserts reporter after) : db.StillAsserts reporter after := by
  obtain ⟨old, added, hold, hmid, hnone⟩ := h
  obtain ⟨old', added', hold', hafter, hnone'⟩ := hnext
  obtain rfl : old ++ added = old' := Except.ok.inj (hmid.symm.trans hold')
  refine ⟨old, added ++ added', hold, by rw [hafter, List.append_assoc], fun hown => ?_⟩
  have hownMid : ∀ id item, mid.stored id = .ok (some item) → item.id ≠ reporter := by
    intro id item hstored
    exact hown id item ((stored_congr hitems id).symm.trans hstored)
  rw [hnone hown, hnone' hownMid, List.append_nil]

/-- A reindex of one item adds at most edges to the list of another one. -/
theorem stillAsserts_afterReindex (hedges : db.edges.isSome) {e : Failure}
    (hbad : db.stored reporter = .error e) (rules : RuleTable) (id : NodeId) :
    db.StillAsserts reporter (db.afterReindex rules id) := by
  obtain ⟨table, htable⟩ := Option.isSome_iff_exists.1 hedges
  have hafter := afterReindex_edges db rules id
  cases hstored : db.stored id with
  | error e => exact .of_edges htable (by rw [hafter, hstored])
  | ok stored =>
    have hne : reporter ≠ id := by
      rintro rfl
      cases hbad.symm.trans hstored
    rw [hstored, htable] at hafter
    refine ⟨_, Edges.assertedBy reporter (Edges.asserted rules stored),
      edgesOf_table htable reporter, ?_, fun hown => ?_⟩
    · have hkept : (table.values.filter fun e => e.reporter != id).filter
          (fun e => e.reporter == reporter) =
            table.values.filter fun e => e.reporter == reporter := by
        rw [List.filter_filter]
        refine List.filter_congr fun e _ => ?_
        by_cases he : e.reporter = reporter
        · simp [he, hne]
        · simp [he]
      rw [edgesOf_table (by exact hafter), Edges.values_replace]
      unfold Edges.assertedBy
      rw [List.filter_append, hkept]
    · cases stored with
      | none => rfl
      | some item =>
        refine List.filter_eq_nil_iff.2 fun e he => ?_
        rw [Edges.reporter_of_mem he]
        simpa using hown id item hstored

theorem stillAsserts_afterReindexes (hedges : db.edges.isSome) {e : Failure}
    (hbad : db.stored reporter = .error e) (rules : RuleTable) (ids : List NodeId) :
    db.StillAsserts reporter (db.afterReindexes rules ids) := by
  induction ids generalizing db with
  | nil =>
    obtain ⟨table, htable⟩ := Option.isSome_iff_exists.1 hedges
    exact .of_edges htable rfl
  | cons id rest ih =>
    have hitems := afterReindex_items db rules id
    exact (stillAsserts_afterReindex hedges hbad rules id).trans hitems
      (ih (by simpa using hedges) ((stored_congr hitems reporter).trans hbad))

/-! ## Cycle after cycle -/

/-- The database after several cycles, each with its own settings. -/
def afterCycles (db : Database) (rules : RuleTable) (settings : Nat → CycleSettings) :
    Nat → Database
  | 0 => db
  | k + 1 => ((db.afterCycles rules settings k).perform (Queue.cycle rules (settings k))).2

/-- None of the first cycles runs out of time. -/
def InTime (db : Database) (rules : RuleTable) (settings : Nat → CycleSettings) (n : Nat) : Prop :=
  ∀ k < n, ∀ report after,
    (db.afterCycles rules settings k).perform (Queue.cycle rules (settings k)) =
      (.ok report, after) → report.timedOut = false

/-- What is the same after some cycles, and what they leave of the requests that waited. -/
structure Cycled (rules : RuleTable) (maxFailures : Nat) (db : Database)
    (waiting : Numbered QueueEntry) (k : Nat) (after : Database) : Prop where
  items : after.items = db.items
  edges : after.edges.isSome = db.edges.isSome
  left : ∃ left, after.queue = some left ∧
    left.rows = waiting.rows.filterMap (db.leftAfter rules maxFailures k)
  asserts : ∀ reporter e, db.stored reporter = .error e → db.StillAsserts reporter after

variable {waiting table : Numbered QueueEntry} {settings : CycleSettings}

theorem cycled_zero (hedges : db.edges.isSome) (hwaiting : db.queue = some waiting) :
    Cycled rules maxFailures db waiting 0 db where
  items := rfl
  edges := rfl
  left := ⟨waiting, hwaiting, by simp [leftAfter]⟩
  asserts := by
    intro reporter e _
    obtain ⟨table, htable⟩ := Option.isSome_iff_exists.1 hedges
    exact .of_edges htable rfl

/-- A cycle that is in time visits every request that is left once and counts it. -/
theorem Cycled.next (h : Cycled rules maxFailures db waiting k mid) (hedges : db.edges.isSome)
    (hsome : 1 ≤ settings.batchSize) (hsize : settings.batchSize ≤ Text.maxSigned64)
    (hlimit : settings.maxFailures = maxFailures)
    (hintime : ∀ report after, mid.perform (Queue.cycle rules settings) = (.ok report, after) →
      report.timedOut = false) :
    ∃ left report after, mid.queue = some left ∧
      left.rows = waiting.rows.filterMap (db.leftAfter rules maxFailures k) ∧
      mid.perform (Queue.cycle rules settings) = (.ok report, after) ∧
      mid.perform (visitEach rules maxFailures left.rows .start) = (.ok report, after) ∧
      report = db.counted rules maxFailures left.rows .start ∧
      Cycled rules maxFailures db waiting (k + 1) after := by
  obtain ⟨left, hleft, hrows⟩ := h.left
  obtain ⟨report, after, hrun, -, hvisits⟩ := cycle_ends hleft rules hsome hsize
  have hdone := hintime report after hrun
  rw [hlimit] at hvisits
  obtain ⟨next, -, hnext, hvisit⟩ := perform_visitEach rules maxFailures hleft
    (show left.rows = [] ++ left.rows ++ [] by simp) .start
  have hfinding := finding_congr h.items h.edges rules
  rw [List.nil_append, List.append_nil, left?_congr hfinding, hrows, List.filterMap_filterMap]
    at hnext
  rw [counted_congr hfinding] at hvisit
  obtain ⟨hreport, hafter⟩ := Prod.mk.inj ((hvisits hdone).symm.trans hvisit)
  rw [afterReindexes_eq] at hafter
  subst hafter
  refine ⟨left, report, _, hleft, hrows, hrun, hvisits hdone, Except.ok.inj hreport,
    ⟨h.items, ?_, ⟨next, rfl, hnext⟩, fun reporter e hbad => ?_⟩⟩
  · rw [← h.edges]
    exact afterReindexes_edges_isSome _
  · have hbadMid := (stored_congr h.items reporter).trans hbad
    obtain ⟨old, added, hold, hadded, hnone⟩ := stillAsserts_afterReindexes
      (by rwa [h.edges]) hbadMid rules (left.rows.map (·.value.item))
    refine (h.asserts reporter e hbad).trans h.items ⟨old, added, hold, ?_, hnone⟩
    rw [← hadded]
    exact edgesOf_congr (by exact rfl) reporter

/-! ## Counting -/

theorem countP_of_add {α : Type} {p q r : α → Bool}
    (h : ∀ a, (if p a then 1 else 0) = (if q a then 1 else 0) + (if r a then 1 else 0))
    (l : List α) : l.countP p = l.countP q + l.countP r := by
  induction l with
  | nil => rfl
  | cons a rest ih =>
    have ha := h a
    rw [List.countP_cons, List.countP_cons, List.countP_cons, ih]
    omega

/-- What is left of the requests that waited at first, after `k` cycles. -/
structure Remaining (db : Database) (maxFailures : Nat) (waiting : Numbered QueueEntry) (k : Nat)
    (left : Numbered QueueEntry) : Prop where
  /-- A request that cannot be carried out stays as long as it has tries left. -/
  kept : ∀ row ∈ waiting.rows, db.reads row = false → k < triesLeft maxFailures row.value.failures →
    ∃ entry, left.find? row.id = some entry ∧ entry.item = row.value.item ∧
      entry.failures = row.value.failures + k
  dropped : ∀ row ∈ waiting.rows, db.reads row = false →
    triesLeft maxFailures row.value.failures ≤ k → left.find? row.id = none
  /-- All others are gone after the first cycle. -/
  processed : ∀ row ∈ waiting.rows, db.reads row = true → 0 < k → left.find? row.id = none
  none : max maxFailures 1 ≤ k → left.rows = []

/-- What the cycle after `k` others reports. -/
structure Counts (db : Database) (maxFailures : Nat) (rows : List (Row QueueEntry)) (k : Nat)
    (report : CycleReport) : Prop where
  /-- What can be carried out is processed in the first cycle. -/
  processed : report.processed = if k = 0 then rows.countP db.reads else 0
  /-- What cannot be carried out fails once in each cycle for which it has a try. -/
  failed : report.failed = rows.countP fun row =>
    !db.reads row && decide (k < triesLeft maxFailures row.value.failures)
  /-- And it is dropped in the cycle with its last try. -/
  dropped : report.dropped = rows.countP fun row =>
    !db.reads row && decide (triesLeft maxFailures row.value.failures = k + 1)

theorem remaining (hedges : db.edges.isSome) {left : Numbered QueueEntry}
    (hrows : left.rows = waiting.rows.filterMap (db.leftAfter rules maxFailures k)) :
    db.Remaining maxFailures waiting k left := by
  have hgone : ∀ row ∈ waiting.rows, db.leftAfter rules maxFailures k row = none →
      left.find? row.id = none := by
    intro row hrow hnone
    by_contra hfound
    obtain ⟨entry, hentry⟩ := Option.ne_none_iff_exists'.1 hfound
    have hmem := Numbered.mem_of_find?_eq_some hentry
    rw [hrows] at hmem
    obtain ⟨old, hold, hleft⟩ := List.mem_filterMap.1 hmem
    rw [Numbered.eq_of_id_eq hold hrow (leftAfter_same hleft).1.symm, hnone] at hleft
    cases hleft
  refine ⟨fun row hrow hreads hmore => ?_, fun row hrow hreads hlast => ?_,
    fun row hrow hreads hlater => ?_, fun hlast => ?_⟩
  · obtain ⟨entry, hentry, hitem, hfailures⟩ :=
      (leftAfter_of_not_reads hedges rules maxFailures k hreads).1 hmore
    have hmem : ⟨row.id, entry⟩ ∈ left.rows := by
      rw [hrows]
      exact List.mem_filterMap.2 ⟨row, hrow, hentry⟩
    exact ⟨entry, Numbered.find?_eq_some hmem, hitem, hfailures⟩
  · exact hgone row hrow ((leftAfter_of_not_reads hedges rules maxFailures k hreads).2 hlast)
  · exact hgone row hrow (leftAfter_of_reads hedges hreads hlater)
  · rw [hrows, List.filterMap_eq_nil_iff]
    intro row hrow
    cases hreads : db.reads row with
    | true => exact leftAfter_of_reads hedges hreads (by omega)
    | false =>
      have htries := Queue.triesLeft_le maxFailures row.value.failures
      exact (leftAfter_of_not_reads hedges rules maxFailures k hreads).2
        (Nat.le_trans htries hlast)

section
variable (hedges : db.edges.isSome) (rules : RuleTable) (maxFailures k : Nat)
variable (rows : List (Row QueueEntry))
include hedges

/-- What is left for a cycle is processed in it, if it is the first, or fails in it. -/
theorem length_left : (rows.filterMap (db.leftAfter rules maxFailures k)).length =
    (if k = 0 then rows.countP db.reads else 0) + rows.countP fun row =>
      !db.reads row && decide (k < triesLeft maxFailures row.value.failures) := by
  have hfirst : (rows.countP fun row => db.reads row && k == 0) =
      if k = 0 then rows.countP db.reads else 0 := by
    by_cases hk : k = 0 <;> simp [hk]
  rw [← hfirst, List.length_filterMap_eq_countP]
  refine countP_of_add (fun row => ?_) rows
  rw [isSome_leftAfter hedges]
  cases db.reads row <;> simp

theorem processed_left : ((rows.filterMap (db.leftAfter rules maxFailures k)).countP fun row =>
    (db.finding rules row.value.item).isOk) = if k = 0 then rows.countP db.reads else 0 := by
  have hlast : ∀ row, ((db.leftAfter rules maxFailures k row).map
      fun row => (db.finding rules row.value.item).isOk).getD false =
        ((db.leftAfter rules maxFailures k row).isSome && db.reads row) := by
    intro row
    cases hleft : db.leftAfter rules maxFailures k row with
    | none => rfl
    | some last =>
      rw [Option.map_some, Option.getD_some, isOk_finding hedges, reads, (leftAfter_same hleft).2]
      rfl
  rw [List.countP_filterMap]
  simp only [hlast, isSome_leftAfter hedges]
  by_cases hk : k = 0
  · rw [if_pos hk]
    refine List.countP_congr fun row _ => ?_
    cases db.reads row <;> simp [hk]
  · rw [if_neg hk, List.countP_eq_zero]
    intro row _
    cases db.reads row <;> simp [hk]

/-- A cycle counts what is processed and what fails in it, and of the latter what is not left
for the next. -/
theorem counts : db.Counts maxFailures rows k
    (db.counted rules maxFailures (rows.filterMap (db.leftAfter rules maxFailures k)) .start) := by
  obtain ⟨left, hleft⟩ : ∃ left, left = rows.filterMap (db.leftAfter rules maxFailures k) :=
    ⟨_, rfl⟩
  have hlength := length_left hedges rules maxFailures k rows
  have hprocessed : (db.counted rules maxFailures left .start).processed = _ :=
    processed_counted left .start
  have hfailed : (db.counted rules maxFailures left .start).processed +
      (db.counted rules maxFailures left .start).failed = _ :=
    processed_add_failed_counted left .start
  have hdropped := left_add_counted db rules maxFailures left .start
  have hnext : (left.filterMap (db.left? rules maxFailures)).length = rows.countP fun row =>
      !db.reads row && decide (k + 1 < triesLeft maxFailures row.value.failures) := by
    rw [hleft, List.filterMap_filterMap]
    exact (length_left hedges rules maxFailures (k + 1) rows).trans (Nat.zero_add _)
  have hlast : (rows.countP fun row =>
      !db.reads row && decide (k < triesLeft maxFailures row.value.failures)) =
      (rows.countP fun row =>
        !db.reads row && decide (k + 1 < triesLeft maxFailures row.value.failures)) +
      rows.countP fun row =>
        !db.reads row && decide (triesLeft maxFailures row.value.failures = k + 1) := by
    refine countP_of_add (fun row => ?_) rows
    rcases Nat.lt_trichotomy (triesLeft maxFailures row.value.failures) (k + 1) with h | h | h
    · simp [Nat.not_lt.2 (Nat.le_of_lt_succ h), Nat.ne_of_lt h, Nat.not_lt.2 (Nat.le_of_lt h)]
    · simp [h]
    · simp [h, Nat.lt_of_succ_lt h, Nat.ne_of_gt h]
  rw [← hleft] at hlength ⊢
  rw [hleft, processed_left hedges, ← hleft] at hprocessed
  simp only [CycleReport.start] at hprocessed hfailed hdropped ⊢
  exact ⟨by omega, by omega, by omega⟩

end

/-! ## The whole queue -/

section
variable {settings : Nat → CycleSettings}

theorem afterCycles_succ (hrun : (db.afterCycles rules settings k).perform
    (Queue.cycle rules (settings k)) = (.ok report, after)) :
    db.afterCycles rules settings (k + 1) = after :=
  congrArg Prod.snd hrun

/-- Cycles with the same limit of failures and batches of any size, all of them in time. -/
structure Steady (db : Database) (rules : RuleTable) (settings : Nat → CycleSettings)
    (maxFailures n : Nat) : Prop where
  batches : ∀ k, 1 ≤ (settings k).batchSize ∧ (settings k).batchSize ≤ Text.maxSigned64
  limit : ∀ k, (settings k).maxFailures = maxFailures
  inTime : db.InTime rules settings n

theorem Steady.cycled (h : db.Steady rules settings maxFailures n) (hedges : db.edges.isSome)
    (hwaiting : db.queue = some waiting) (hk : k ≤ n) :
    Cycled rules maxFailures db waiting k (db.afterCycles rules settings k) := by
  induction k with
  | zero => exact cycled_zero hedges hwaiting
  | succ k ih =>
    obtain ⟨left, report, after, -, -, hrun, -, -, hnext⟩ :=
      (ih (Nat.le_of_succ_le hk)).next hedges (h.batches k).1 (h.batches k).2 (h.limit k)
        (h.inTime k hk)
    rw [afterCycles_succ hrun]
    exact hnext

/-- A request that cannot be carried out, since the stored text is that of no item, is tried
once in each cycle and dropped with its last try, which a fresh one has in the cycle with the
number `max maxFailures 1`. All other requests are carried out in the first cycle, wherever they
stand, and after that many cycles none is left. The edges that the unreadable item had stay. -/
theorem unreadable_request_runs_out (hedges : db.edges.isSome) (hwaiting : db.queue = some waiting)
    (h : db.Steady rules settings maxFailures n) :
    (∀ k ≤ n, ∃ left, (db.afterCycles rules settings k).queue = some left ∧
      db.Remaining maxFailures waiting k left ∧
      ∀ reporter e, db.stored reporter = .error e →
        db.StillAsserts reporter (db.afterCycles rules settings k)) ∧
    ∀ k < n, ∃ left report, (db.afterCycles rules settings k).queue = some left ∧
      (db.afterCycles rules settings k).perform (Queue.cycle rules (settings k)) =
        (.ok report, db.afterCycles rules settings (k + 1)) ∧
      (db.afterCycles rules settings k).perform (visitEach rules maxFailures left.rows .start) =
        (.ok report, db.afterCycles rules settings (k + 1)) ∧
      db.Counts maxFailures waiting.rows k report := by
  constructor
  · intro k hk
    have hcycled := h.cycled hedges hwaiting hk
    obtain ⟨left, hleft, hrows⟩ := hcycled.left
    exact ⟨left, hleft, remaining hedges hrows, hcycled.asserts⟩
  · intro k hk
    obtain ⟨left, report, after, hleft, hrows, hrun, hvisits, rfl, -⟩ :=
      (h.cycled hedges hwaiting (Nat.le_of_lt hk)).next hedges (h.batches k).1 (h.batches k).2
        (h.limit k) (h.inTime k hk)
    rw [afterCycles_succ hrun]
    refine ⟨left, _, hleft, hrun, hvisits, ?_⟩
    rw [hrows]
    exact counts hedges rules maxFailures k waiting.rows

theorem inTime_of_unlimited (hsizes : ∀ k, 1 ≤ (settings k).batchSize ∧
    (settings k).batchSize ≤ Text.maxSigned64) (hslices : ∀ k, (settings k).slice = none) :
    db.InTime rules settings n := by
  intro k _ report after hrun
  cases hqueue : (db.afterCycles rules settings k).queue with
  | none =>
    obtain ⟨e, hbatch⟩ : ∃ e, (db.afterCycles rules settings k).perform
        (Queue.batch (settings k).batchSize 0) = (.error e, db.afterCycles rules settings k) := by
      unfold Queue.batch
      rw [if_neg (Nat.not_lt.2 (hsizes k).2)]
      exact ⟨_, perform_bind_error (perform_queue_missing hqueue) _⟩
    unfold Queue.cycle at hrun
    rw [perform_bind_ok (perform_getThe _), hqueue] at hrun
    cases hrun.symm.trans (perform_bind_error hbatch _)
  | some table =>
    obtain ⟨ended, last, hcycle, htime, -⟩ := cycle_ends hqueue rules (hsizes k).1 (hsizes k).2
    obtain ⟨hsame, -⟩ := Prod.mk.inj (hrun.symm.trans hcycle)
    rw [Except.ok.inj hsame]
    refine htime.2 fun slice hslice => ?_
    rw [hslices] at hslice
    cases hslice

end

def corruptRow : ItemRow := ⟨1, "advisory", "", true, "null", none, none⟩

/-- Item 1 is stored with a text that cannot be read and has an edge, item 2 is well, and
reindexes are requested of both and of item 7, which is not stored. -/
def corrupted : Database :=
  { holding 2 with
    items := some ((ItemTable.empty.put (.ofItem straying none)).put corruptRow)
    edges := some (Numbered.empty.addAll [⟨1, 9, 1⟩])
    queue := some (Numbered.empty.addAll ([1, 7, 2].map Queue.request)) }

def narrow : Nat → CycleSettings := fun _ => ⟨none, 1, 2⟩

theorem corrupt_request_runs_out :
    corrupted.Steady RuleTable.builtin narrow 2 2 ∧ ∃ one two,
      (corrupted.afterCycles RuleTable.builtin narrow 1).queue = some one ∧
        (∃ entry, one.find? 1 = some entry ∧ entry.failures = 1) ∧
        one.find? 2 = none ∧ one.find? 3 = none ∧
      (corrupted.afterCycles RuleTable.builtin narrow 2).queue = some two ∧ two.rows = [] ∧
      corrupted.StillAsserts 1 (corrupted.afterCycles RuleTable.builtin narrow 2) := by
  have hsizes : ∀ k, 1 ≤ (narrow k).batchSize ∧ (narrow k).batchSize ≤ Text.maxSigned64 :=
    fun _ => ⟨Nat.le_refl 1, show 1 ≤ Text.maxSigned64 by decide⟩
  have hsteady : corrupted.Steady RuleTable.builtin narrow 2 2 :=
    ⟨hsizes, fun _ => rfl, inTime_of_unlimited hsizes fun _ => rfl⟩
  have hcorrupt : corrupted.reads ⟨1, Queue.request 1⟩ = false := by decide +kernel
  have hgone : corrupted.reads ⟨2, Queue.request 7⟩ = true := by decide +kernel
  have hwell : corrupted.reads ⟨3, Queue.request 2⟩ = true := by decide +kernel
  obtain ⟨e, hbad⟩ := reads_eq_false_iff.1 hcorrupt
  obtain ⟨hstates, -⟩ := unreadable_request_runs_out rfl rfl hsteady
  obtain ⟨one, hone, hleftOne, -⟩ := hstates 1 (by decide)
  obtain ⟨two, htwo, hleftTwo, hasserts⟩ := hstates 2 (by decide)
  obtain ⟨entry, hentry, -, hfailures⟩ := hleftOne.kept ⟨1, Queue.request 1⟩
    List.mem_cons_self hcorrupt (by decide)
  refine ⟨hsteady, one, two, hone, ⟨entry, hentry, hfailures⟩, ?_, ?_, htwo,
    hleftTwo.none (by decide), hasserts 1 e hbad⟩
  · exact hleftOne.processed ⟨2, Queue.request 7⟩ (by decide) hgone Nat.one_pos
  · exact hleftOne.processed ⟨3, Queue.request 2⟩ (by decide) hwell Nat.one_pos

end Database
end Lineage
