import Lineage.Proofs.ReadOnly
import Lineage.Proofs.Reindex
import Lineage.Proofs.Requests
import Lineage.Proofs.Workers

/-! # The numbers of requests

Requests are made and removed in any order, also the newest ones and by cycles that go by what
they read some time ago. All of this is a run of transactions, and a transaction adds rows under
new numbers behind the others, or removes or changes the row under one number. So over a whole run
the numbers ascend, what waits stands in the order in which it was requested, and batches behind a
cursor show all of it once. -/

namespace Lineage

namespace Queue

/-- What a request is known by as long as it waits: its number and its item. -/
def label (row : Row QueueEntry) : Row NodeId := ⟨row.id, row.value.item⟩

/-- What a run of the queue is made of. A cycle is several transactions. -/
inductive Transaction where
  | enqueue (id : NodeId)
  | enqueueAll (ids : List NodeId)
  | complete (number : Int)
  | recordFailure (number : Int) (error : String) (maxFailures : Nat)
  /-- A transaction that leaves the queue alone, and what the other tables hold after it. -/
  | elsewhere (items : Option ItemTable) (edges : Option (Numbered Edge))

namespace Transaction

def run (db : Database) : Transaction → Database
  | enqueue id => (db.perform (Queue.enqueue id)).2
  | enqueueAll ids => (db.perform (Queue.enqueueAll ids)).2
  | complete number => (db.perform (Queue.complete number)).2
  | recordFailure number error maxFailures =>
    (db.perform (Queue.recordFailure number error maxFailures)).2
  | elsewhere items edges => { db with items, edges }

def requested : Transaction → List NodeId
  | enqueue id => [id]
  | enqueueAll ids => ids
  | _ => []

/-- The requests that a transaction adds to a queue, under the next numbers. -/
def made (t : Transaction) (table : Numbered QueueEntry) : List (Row NodeId) :=
  t.requested.mapIdx fun i id => ⟨table.lastId + 1 + i, id⟩

/-- Whether a transaction takes a row out of the queue: it completes the row, or notes the failure
that is one too many. -/
def Removes (row : Row QueueEntry) : Transaction → Prop
  | complete number => number = row.id
  | recordFailure number _ maxFailures =>
    number = row.id ∧ maxFailures ≤ row.value.failures + 1
  | _ => False

instance (row : Row QueueEntry) : (t : Transaction) → Decidable (t.Removes row)
  | complete number => inferInstanceAs (Decidable (number = row.id))
  | recordFailure number _ maxFailures =>
    inferInstanceAs (Decidable (number = row.id ∧ maxFailures ≤ row.value.failures + 1))
  | enqueue _ | enqueueAll _ | elsewhere _ _ => inferInstanceAs (Decidable False)

/-- The row as a transaction leaves it that does not remove it. -/
def noted (row : Row QueueEntry) : Transaction → Row QueueEntry
  | recordFailure number error _ => Numbered.changed number (failed error) row
  | _ => row

/-- Whether a transaction can be one of a cycle, which never makes requests. -/
def OfCycle (maxFailures : Nat) : Transaction → Prop
  | complete _ | elsewhere _ _ => True
  | recordFailure _ _ limit => limit = maxFailures
  | enqueue _ | enqueueAll _ => False

end Transaction

end Queue

namespace Database
open Queue (Transaction)

/-- The database after transactions, the first of which comes first. -/
def runAll (db : Database) (ts : List Transaction) : Database :=
  ts.foldl (fun db t => t.run db) db

theorem runAll_append (db : Database) (ts us : List Transaction) :
    db.runAll (ts ++ us) = (db.runAll ts).runAll us :=
  List.foldl_append

def requests (db : Database) : List (Row NodeId) :=
  match db.queue with
  | none => []
  | some table => table.rows.map Queue.label

/-- What a transaction put into the queue: the requests under numbers that none had before. -/
def issuedBy (db : Database) (t : Transaction) : List (Row NodeId) :=
  (t.run db).requests.filter fun r => r.id ∉ db.requests.map Row.id

/-- What the transactions of a run put into the queue, in the order in which they did. -/
def issued : Database → List Transaction → List (Row NodeId)
  | _, [] => []
  | db, t :: rest => db.issuedBy t ++ issued (t.run db) rest

variable {db : Database} {table : Numbered QueueEntry}

theorem requests_of_queue (h : db.queue = some table) :
    db.requests = table.rows.map Queue.label := by
  unfold requests
  rw [h]

end Database

namespace Queue.Transaction
variable {db : Database} {table : Numbered QueueEntry} {t : Transaction}

/-- A table as a transaction leaves it: the rows that are not removed, in their order, and behind
them the new requests. -/
structure Leaves (t : Transaction) (table left : Numbered QueueEntry) : Prop where
  rows : left.rows = ((table.rows.filter fun row => ¬ t.Removes row).map t.noted) ++
    t.requested.mapIdx fun i id => ⟨table.lastId + 1 + i, request id⟩
  lastId : left.lastId = table.lastId + t.requested.length

theorem leaves_of_kept (hkept : ∀ row ∈ table.rows, ¬ t.Removes row ∧ t.noted row = row) :
    t.Leaves table (table.addAll (t.requested.map request)) where
  rows := by
    have hrows : (table.rows.filter fun row => ¬ t.Removes row) = table.rows :=
      List.filter_eq_self.2 fun row hrow => decide_eq_true (hkept row hrow).1
    have hnoted : table.rows.map t.noted = table.rows :=
      (List.map_congr_left fun row hrow => (hkept row hrow).2).trans (List.map_id' table.rows)
    rw [hrows, hnoted, rows_requests]
  lastId := by
    rw [Numbered.lastId_addAll, List.length_map]

theorem leaves_of_erased {number : Int}
    (hremoves : ∀ row ∈ table.rows, t.Removes row ↔ row.id = number)
    (hnoted : ∀ row ∈ table.rows, row.id ≠ number → t.noted row = row) (hnone : t.requested = []) :
    t.Leaves table (table.erase number) where
  rows := by
    have hrows : (table.erase number).rows = table.rows.filter fun row => ¬ t.Removes row := by
      refine List.filter_congr fun row hrow => ?_
      rw [Bool.eq_iff_iff, decide_eq_true_iff, bne_iff_ne, hremoves row hrow]
    have hsame : (table.erase number).rows.map t.noted = (table.erase number).rows := by
      refine (List.map_congr_left fun row hrow => ?_).trans (List.map_id' _)
      obtain ⟨hmem, hid⟩ := Numbered.mem_erase.1 hrow
      exact hnoted row hmem hid
    rw [← hrows, hsame, hnone, List.mapIdx_nil, List.append_nil]
  lastId := by
    rw [hnone]
    exact (Int.add_zero _).symm

theorem leaves_of_failed {number : Int} {entry : QueueEntry} (error : String) {maxFailures : Nat}
    (hfind : table.find? number = some entry) (hmore : ¬ maxFailures ≤ entry.failures + 1) :
    (recordFailure number error maxFailures).Leaves table
      (table.modify number (failed error)) where
  rows := by
    have hrows : (table.rows.filter fun row =>
        ¬ (recordFailure number error maxFailures).Removes row) = table.rows := by
      refine List.filter_eq_self.2 fun row hrow => decide_eq_true ?_
      rintro ⟨rfl, hlast⟩
      rw [Numbered.value_eq_of_find?_eq_some hrow hfind] at hlast
      exact hmore hlast
    rw [hrows]
    exact (List.append_nil _).symm
  lastId := (Int.add_zero _).symm

/-- Every transaction leaves a queue that way. -/
theorem exists_leaves (h : db.queue = some table) (t : Transaction) :
    ∃ left, (t.run db).queue = some left ∧ t.Leaves table left := by
  cases t with
  | enqueue id =>
    have hqueue := congrArg (Database.queue ·.2) (Database.perform_enqueue h id)
    exact ⟨_, hqueue, leaves_of_kept fun row _ => ⟨not_false, rfl⟩⟩
  | enqueueAll ids =>
    have hqueue := congrArg (Database.queue ·.2) (Database.perform_enqueueAll h ids)
    exact ⟨_, hqueue, leaves_of_kept fun row _ => ⟨not_false, rfl⟩⟩
  | complete number =>
    have hqueue := congrArg (Database.queue ·.2) (Database.perform_complete h number)
    exact ⟨_, hqueue, leaves_of_erased (fun row _ => eq_comm) (fun row _ _ => rfl) rfl⟩
  | recordFailure number error maxFailures =>
    cases hfind : table.find? number with
    | none =>
      have hqueue := congrArg (Database.queue ·.2)
        (Database.perform_recordFailure_missing h hfind error maxFailures)
      refine ⟨table, hqueue.trans h, leaves_of_kept fun row hrow => ?_⟩
      have hid := Numbered.id_ne_of_find?_eq_none hrow hfind
      exact ⟨fun hremoves => hid hremoves.1.symm, Numbered.changed_of_ne hid _⟩
    | some entry =>
      have hqueue := congrArg (Database.queue ·.2)
        (Database.perform_recordFailure h hfind error maxFailures)
      by_cases hlast : maxFailures ≤ entry.failures + 1
      · rw [if_pos hlast] at hqueue
        refine ⟨_, hqueue, leaves_of_erased (fun row hrow => ⟨fun h => h.1.symm, ?_⟩)
          (fun row _ hid => Numbered.changed_of_ne hid _) rfl⟩
        rintro rfl
        rw [← Numbered.value_eq_of_find?_eq_some hrow hfind] at hlast
        exact ⟨rfl, hlast⟩
      · rw [if_neg hlast] at hqueue
        exact ⟨_, hqueue, leaves_of_failed error hfind hlast⟩
  | elsewhere items edges => exact ⟨table, h, leaves_of_kept fun row _ => ⟨not_false, rfl⟩⟩

/-- A request keeps its number and its item as long as it is not removed. -/
theorem label_noted (t : Transaction) (row : Row QueueEntry) :
    label (t.noted row) = label row := by
  cases t with
  | recordFailure number error maxFailures =>
    unfold label noted
    rw [Numbered.id_changed, item_changed_failed]
  | _ => rfl

theorem lt_of_mem_made {r : Row NodeId} (hr : r ∈ t.made table) :
    table.lastId < r.id ∧ r.id ≤ table.lastId + t.requested.length := by
  obtain ⟨i, hi, rfl⟩ := List.mem_mapIdx.1 hr
  show table.lastId < table.lastId + 1 + i ∧ table.lastId + 1 + i ≤ _
  omega

theorem ascending_made (t : Transaction) (table : Numbered QueueEntry) :
    (t.made table).Pairwise fun r s => r.id < s.id := by
  unfold made
  rw [List.pairwise_iff_getElem]
  intro i j hi hj hlt
  rw [List.getElem_mapIdx, List.getElem_mapIdx]
  show table.lastId + 1 + i < table.lastId + 1 + j
  omega

end Queue.Transaction

/-! ## Numbers along a run -/

namespace Database
open Queue (Transaction)
variable {db : Database} {table : Numbered QueueEntry}

/-- What waits after a transaction are the requests that it did not remove, in their order and
unchanged, and behind them those that it made. -/
theorem requests_run (h : db.queue = some table) (t : Transaction) :
    (t.run db).requests =
      ((table.rows.filter fun row => ¬ t.Removes row).map Queue.label) ++ t.made table := by
  obtain ⟨left, hleft, hleaves⟩ := t.exists_leaves h
  unfold Transaction.made
  rw [requests_of_queue hleft, hleaves.rows, List.map_append, List.map_map,
    List.mapIdx_eq_zipIdx_map, List.mapIdx_eq_zipIdx_map, List.map_map]
  exact congrArg (· ++ _) (List.map_congr_left fun row _ => t.label_noted row)

theorem issuedBy_run (h : db.queue = some table) (t : Transaction) :
    db.issuedBy t = t.made table := by
  have hids : db.requests.map Row.id = table.rows.map Row.id := by
    rw [requests_of_queue h, List.map_map]
    rfl
  have hold : ∀ r ∈ ((table.rows.filter fun row => ¬ t.Removes row).map Queue.label),
      ¬ decide (r.id ∉ table.rows.map Row.id) = true := by
    intro r hr hnew
    obtain ⟨row, hrow, rfl⟩ := List.mem_map.1 hr
    exact of_decide_eq_true hnew (List.mem_map_of_mem (List.mem_filter.1 hrow).1)
  have hnew : ∀ r ∈ t.made table, decide (r.id ∉ table.rows.map Row.id) = true := by
    intro r hr
    refine decide_eq_true fun hmem => ?_
    obtain ⟨row, hrow, hid⟩ := List.mem_map.1 hmem
    have hgiven := (table.inRange row hrow).2
    have hnext := (Transaction.lt_of_mem_made hr).1
    omega
  unfold issuedBy
  rw [requests_run h, hids, List.filter_append, List.filter_eq_nil_iff.2 hold,
    List.filter_eq_self.2 hnew, List.nil_append]

/-- What a run makes of a queue, and the requests that it put into it: their numbers ascend from
the last one that was given before, and what waits is some of them, behind some of the old ones. -/
structure RunsTo (db : Database) (table : Numbered QueueEntry) (ts : List Transaction)
    (left : Numbered QueueEntry) : Prop where
  queue : (db.runAll ts).queue = some left
  ascending : (db.issued ts).Pairwise fun r s => r.id < s.id
  given : ∀ r ∈ db.issued ts, table.lastId < r.id ∧ r.id ≤ left.lastId
  waiting : (db.runAll ts).requests.Sublist (db.requests ++ db.issued ts)
  lastId : table.lastId ≤ left.lastId

theorem runsTo_nil (h : db.queue = some table) : RunsTo db table [] table where
  queue := h
  ascending := .nil
  given := fun r hr => by cases hr
  waiting := List.sublist_append_left _ _
  lastId := Int.le_refl _

theorem RunsTo.cons {left mid : Numbered QueueEntry} {t : Transaction} {rest : List Transaction}
    (h : db.queue = some table) (hmid : t.Leaves table mid)
    (hrest : RunsTo (t.run db) mid rest left) : RunsTo db table (t :: rest) left := by
  have hissued : db.issued (t :: rest) = t.made table ++ (t.run db).issued rest := by
    rw [issued, issuedBy_run h]
  have hmade : ∀ r ∈ t.made table, table.lastId < r.id ∧ r.id ≤ mid.lastId := by
    intro r hr
    rw [hmid.lastId]
    exact Transaction.lt_of_mem_made hr
  have hgrows : table.lastId ≤ mid.lastId := by
    rw [hmid.lastId]
    omega
  refine ⟨hrest.queue, ?_, fun r hr => ?_, ?_, Int.le_trans hgrows hrest.lastId⟩
  · rw [hissued]
    exact List.pairwise_append.2 ⟨t.ascending_made table, hrest.ascending, fun r hr s hs =>
      Int.lt_of_le_of_lt (hmade r hr).2 (hrest.given s hs).1⟩
  · rw [hissued] at hr
    rcases List.mem_append.1 hr with hr | hr
    · exact ⟨(hmade r hr).1, Int.le_trans (hmade r hr).2 hrest.lastId⟩
    · exact ⟨Int.lt_of_le_of_lt hgrows (hrest.given r hr).1, (hrest.given r hr).2⟩
  · -- the old requests that wait are some of those that waited before the first transaction
    have hkept : ((table.rows.filter fun row => ¬ t.Removes row).map Queue.label).Sublist
        db.requests := by
      rw [requests_of_queue h]
      exact List.filter_sublist.map _
    have hwaiting := hrest.waiting
    rw [requests_run h, List.append_assoc, ← hissued] at hwaiting
    exact hwaiting.trans (hkept.append_right _)

theorem exists_runsTo (h : db.queue = some table) (ts : List Transaction) :
    ∃ left, RunsTo db table ts left := by
  induction ts generalizing db table with
  | nil => exact ⟨table, runsTo_nil h⟩
  | cons t rest ih =>
    obtain ⟨mid, hqueue, hmid⟩ := t.exists_leaves h
    obtain ⟨left, hrest⟩ := ih hqueue
    exact ⟨left, hrest.cons h hmid⟩

end Database

namespace Queue
variable {rules : RuleTable} {db after : Database}

theorem readsOnly_batch (size : Nat) (after : Int) : Action.ReadsOnly (batch size after) := by
  unfold batch
  split
  · exact Action.readsOnly_throw _
  · exact Action.readsOnly_bind (Action.readsOnly_table _ _) fun _ => Action.readsOnly_pure _

/-- A step of a worker is one transaction. Where it only reads, nothing changes elsewhere. -/
theorem Worker.step_is_run (rules : RuleTable) (db : Database) (worker : Worker) :
    ∃ t : Transaction, t.OfCycle worker.maxFailures ∧ t.run db = (worker.step rules db).1 ∧
      (worker.step rules db).2.maxFailures = worker.maxFailures := by
  obtain ⟨batchSize, maxFailures, cursor, phase⟩ := worker
  match phase with
  | .visiting [] =>
    have hkept := readsOnly_batch batchSize cursor db
    refine ⟨.elsewhere db.items db.edges, trivial, ?_⟩
    simp only [step]
    split <;> rename_i hbatch <;> rw [hbatch] at hkept <;> exact ⟨hkept.symm, rfl⟩
  | .visiting (row :: rest) =>
    have hafter := db.afterReindex_eq rules row.value.item
    unfold Database.afterReindex at hafter
    refine ⟨.elsewhere db.items (db.perform (Edges.reindex rules row.value.item)).2.edges,
      trivial, ?_⟩
    simp only [step]
    split <;> rename_i hreindex <;> rw [hreindex] at hafter ⊢ <;> exact ⟨hafter.symm, rfl⟩
  | .completing row rest =>
    refine ⟨.complete row.id, trivial, ?_⟩
    simp only [step, Transaction.run]
    split <;> rename_i hcomplete <;> rw [hcomplete] <;> exact ⟨rfl, rfl⟩
  | .failing row failure rest =>
    refine ⟨.recordFailure row.id failure.message maxFailures, rfl, ?_⟩
    simp only [step, Transaction.run]
    split <;> rename_i hrecord <;> rw [hrecord] <;> exact ⟨rfl, rfl⟩
  | .stopped => exact ⟨.elsewhere db.items db.edges, trivial, rfl, rfl⟩

theorem Worker.Reaches.is_run {worker last : Worker}
    (h : Worker.Reaches rules db worker after last) :
    ∃ ts : List Transaction, (∀ t ∈ ts, t.OfCycle worker.maxFailures) ∧ db.runAll ts = after := by
  induction h with
  | here => exact ⟨[], fun t ht => (by cases ht), rfl⟩
  | @step db after worker last _ ih =>
    obtain ⟨t, hof, hrun, hlimit⟩ := worker.step_is_run rules db
    obtain ⟨ts, hrest, hafter⟩ := ih
    rw [hlimit] at hrest
    rw [← hrun] at hafter
    exact ⟨t :: ts, List.forall_mem_cons.2 ⟨hof, hrest⟩, hafter⟩

theorem cycle_is_run (db : Database) (rules : RuleTable) (settings : CycleSettings) :
    ∃ ts : List Transaction, (∀ t ∈ ts, t.OfCycle settings.maxFailures) ∧
      db.runAll ts = (db.perform (cycle rules settings)).2 := by
  obtain ⟨last, hreaches⟩ := Worker.cycle_reached db rules settings
  exact hreaches.is_run

end Queue

/-! ## Batch after batch -/

namespace Database
open Queue (Transaction)
variable {db : Database} {table : Numbered QueueEntry} {size : Nat} {cursor : Int}

/-- Batches that are read one after the other, each behind the last row of the one before, until
one is empty. -/
inductive BatchesFrom (db : Database) (size : Nat) : Int → List (List (Row QueueEntry)) → Prop where
  | last {cursor : Int} (hbatch : db.perform (Queue.batch size cursor) = (.ok [], db)) :
      BatchesFrom db size cursor []
  | next {cursor : Int} {rows : List (Row QueueEntry)} {row : Row QueueEntry}
      {rest : List (List (Row QueueEntry))}
      (hbatch : db.perform (Queue.batch size cursor) = (.ok rows, db))
      (hlast : rows.getLast? = some row) (hrest : BatchesFrom db size row.id rest) :
      BatchesFrom db size cursor (rows :: rest)

theorem perform_batch_refused (db : Database) (hlarge : Text.maxSigned64 < size) (cursor : Int) :
    db.perform (Queue.batch size cursor) =
      (.error (.invalidInput ("batch size too large: " ++ toString size)), db) := by
  unfold Queue.batch
  rw [if_pos hlarge]
  rfl

theorem cutAt_batch {seen rest : List (Row QueueEntry)} (hcut : table.CutAt cursor seen rest)
    {row : Row QueueEntry} (hlast : (rest.take size).getLast? = some row) :
    table.CutAt row.id (seen ++ rest.take size) (rest.drop size) := by
  have hsplit : rest.take size ++ rest.drop size = rest := List.take_append_drop size rest
  refine Numbered.CutAt.advance (hsplit.symm ▸ hcut) hlast ?_ fun row hrow => ⟨row, hrow, rfl⟩
  rw [List.append_assoc, hsplit]
  exact hcut.rows

theorem BatchesFrom.flatten_eq {batches : List (List (Row QueueEntry))}
    (hbatches : BatchesFrom db size cursor batches) (h : db.queue = some table)
    (hsome : 1 ≤ size) (hsize : size ≤ Text.maxSigned64) {seen rest : List (Row QueueEntry)}
    (hcut : table.CutAt cursor seen rest) : batches.flatten = rest := by
  -- by induction on the readings: the rows are cut where the cursor stands
  induction hbatches generalizing seen rest with
  | last hbatch =>
    have hnone := (perform_batch_cut h hsize hcut).symm.trans hbatch
    have hempty : rest.take size = [] := Except.ok.inj (Prod.mk.inj hnone).1
    rcases List.take_eq_nil_iff.1 hempty with hzero | hrest
    · omega
    · exact hrest.symm
  | @next cursor rows row later hbatch hlast _ ih =>
    have hfirst := hbatch.symm.trans (perform_batch_cut h hsize hcut)
    obtain rfl : rows = rest.take size := Except.ok.inj (Prod.mk.inj hfirst).1
    rw [List.flatten_cons, ih (cutAt_batch hcut hlast), List.take_append_drop]

theorem exists_batchesFrom (h : db.queue = some table) (hsome : 1 ≤ size)
    (hsize : size ≤ Text.maxSigned64) {cursor : Int} {seen rest : List (Row QueueEntry)}
    (hcut : table.CutAt cursor seen rest) : ∃ batches, BatchesFrom db size cursor batches := by
  have hbatch := perform_batch_cut h hsize hcut
  cases hlast : (rest.take size).getLast? with
  | none =>
    rw [List.getLast?_eq_none_iff.1 hlast] at hbatch
    exact ⟨[], .last hbatch⟩
  | some row =>
    obtain ⟨batches, hbatches⟩ := exists_batchesFrom h hsome hsize (cutAt_batch hcut hlast)
    exact ⟨_, .next hbatch hlast hbatches⟩
termination_by rest.length
decreasing_by
  have hmem := List.mem_of_getLast? hlast
  have hpos : 0 < rest.length := List.length_pos_of_mem (List.mem_of_mem_take hmem)
  rw [List.length_drop]
  omega

/-! ## The whole run -/

/-- Several requests are made together or not at all. -/
theorem enqueueAll_cases (db : Database) (ids : List NodeId) :
    (∃ after, db.perform (Queue.enqueueAll ids) = (.ok ids.length, after)) ∨
      ∃ e, db.perform (Queue.enqueueAll ids) = (.error e, db) := by
  cases hqueue : db.queue with
  | some table => exact Or.inl ⟨_, perform_enqueueAll hqueue ids⟩
  | none =>
    cases ids with
    | nil => exact Or.inl ⟨db, rfl⟩
    | cons id rest =>
      unfold Queue.enqueueAll
      rw [if_neg (by simp)]
      exact Or.inr ⟨_, perform_transaction_error
        (perform_bind_error (perform_queue_missing hqueue) _)⟩

/-- What can be said at every moment of a run, where the queue is `left`. -/
structure Orderly (db : Database) (left : Numbered QueueEntry) : Prop where
  /-- The next transaction removes no row but those that it completes or that have failed too
  often, changes the number or item of none, and puts its requests behind the others, in their order
  and under consecutive numbers above all that were given. -/
  requests : ∀ t : Transaction, (t.run db).requests =
    ((left.rows.filter fun row => ¬ t.Removes row).map Queue.label) ++ t.made left
  issuedBy : ∀ t : Transaction, db.issuedBy t = t.made left
  number : ∀ id, (db.perform (Queue.enqueue id)).1 = .ok (left.lastId + 1)
  count : ∀ ids, (db.perform (Queue.enqueueAll ids)).1 = .ok ids.length
  /-- Batches show every row once and in order, whatever their size. -/
  batches : ∀ size, 1 ≤ size → size ≤ Text.maxSigned64 →
    (∃ batches, db.BatchesFrom size 0 batches) ∧
      ∀ batches, db.BatchesFrom size 0 batches → batches.flatten = left.rows
  refused : ∀ size, Text.maxSigned64 < size → ∀ cursor, ∃ message,
    db.perform (Queue.batch size cursor) = (.error (.invalidInput message), db)

theorem orderly (h : db.queue = some table) : db.Orderly table where
  requests := requests_run h
  issuedBy := issuedBy_run h
  number := fun id => by rw [perform_enqueue h]
  count := fun ids => by rw [perform_enqueueAll h]
  batches := fun size hsome hsize =>
    ⟨exists_batchesFrom h hsome hsize (.start table), fun _ hbatches =>
      hbatches.flatten_eq h hsome hsize (.start table)⟩
  refused := fun size hlarge cursor => ⟨_, perform_batch_refused db hlarge cursor⟩

theorem RunsTo.pairwise {ts : List Transaction} {left : Numbered QueueEntry}
    (hruns : RunsTo db table ts left) (h : db.queue = some table) :
    (db.requests ++ db.issued ts).Pairwise fun r s => r.id < s.id := by
  rw [requests_of_queue h]
  refine List.pairwise_append.2
    ⟨List.pairwise_map.2 table.ascending, hruns.ascending, fun r hr s hs => ?_⟩
  obtain ⟨row, hrow, rfl⟩ := List.mem_map.1 hr
  exact Int.lt_of_le_of_lt (table.inRange row hrow).2 (hruns.given s hs).1

/-- Several requests are made together or not at all. After every run the numbers that were ever
given ascend, and what waits is some of the requests in the order in which they were made. A request
leaves only when it is completed or has failed too often, and batches show all that wait, each once
and in order. A cycle goes on with the run by transactions that make no requests. -/
theorem requests_keep_their_numbers (h : db.queue = some table) :
    (∀ (other : Database) (ids : List NodeId),
      (∃ after, other.perform (Queue.enqueueAll ids) = (.ok ids.length, after)) ∨
        ∃ e, other.perform (Queue.enqueueAll ids) = (.error e, other)) ∧
    ∀ ts : List Transaction,
      (∃ left, RunsTo db table ts left ∧
        ((db.requests ++ db.issued ts).Pairwise fun r s => r.id < s.id) ∧
        (db.runAll ts).Orderly left) ∧
      ∀ (rules : RuleTable) (settings : Queue.CycleSettings), ∃ us : List Transaction,
        (∀ u ∈ us, u.OfCycle settings.maxFailures) ∧
        db.runAll (ts ++ us) = ((db.runAll ts).perform (Queue.cycle rules settings)).2 := by
  refine ⟨enqueueAll_cases, fun ts => ⟨?_, fun rules settings => ?_⟩⟩
  · obtain ⟨left, hruns⟩ := exists_runsTo h ts
    exact ⟨left, hruns, hruns.pairwise h, orderly hruns.queue⟩
  · obtain ⟨us, hof, hcycle⟩ := Queue.cycle_is_run (db.runAll ts) rules settings
    exact ⟨us, hof, (runAll_append db ts us).trans hcycle⟩

def queueOnly : Database := { fresh with queue := some .empty }

/-- Three requests, of which the newest is completed before another one is made. -/
def newestCompleted : List Transaction :=
  [.enqueue 5, .enqueueAll [7, 6], .complete 3, .enqueue 7]

/-- The number of the request that was completed is not given again, and batches of two show the
three requests that are left. -/
theorem completed_number_is_not_reused :
    queueOnly.queue = some .empty ∧
    (queueOnly.runAll newestCompleted).requests = [⟨1, 5⟩, ⟨2, 7⟩, ⟨4, 7⟩] ∧
    ∃ batches, (queueOnly.runAll newestCompleted).BatchesFrom 2 0 batches ∧
      batches.flatten.map Queue.label = [⟨1, 5⟩, ⟨2, 7⟩, ⟨4, 7⟩] := by
  have hrequests :
      (queueOnly.runAll newestCompleted).requests = [⟨1, 5⟩, ⟨2, 7⟩, ⟨4, 7⟩] := by
    decide +kernel
  obtain ⟨-, hafter⟩ := requests_keep_their_numbers (show queueOnly.queue = some _ from rfl)
  obtain ⟨⟨left, hruns, -, horderly⟩, -⟩ := hafter newestCompleted
  obtain ⟨⟨batches, hbatches⟩, hall⟩ := horderly.batches 2 (by decide) (by decide)
  refine ⟨rfl, hrequests, batches, hbatches, ?_⟩
  rw [hall batches hbatches, ← requests_of_queue hruns.queue]
  exact hrequests

/-- With a size that is no signed number of 64 bits no batches show the request that waits. -/
theorem huge_batches_show_nothing :
    (queueOnly.runAll [.enqueue 7]).requests = [⟨1, 7⟩] ∧
    (1 ≤ Text.maxSigned64 + 1 ∧ Text.maxSigned64 + 1 ≤ Text.maxUnsigned64) ∧
    ∀ batches, ¬ (queueOnly.runAll [.enqueue 7]).BatchesFrom (Text.maxSigned64 + 1) 0 batches := by
  refine ⟨by decide +kernel, by decide, fun batches hbatches => ?_⟩
  have hrefused := perform_batch_refused (queueOnly.runAll [.enqueue 7])
    (Nat.lt_succ_self Text.maxSigned64) 0
  cases hbatches with
  | last hbatch => cases hrefused.symm.trans hbatch
  | next hbatch _ _ => cases hrefused.symm.trans hbatch

end Database

end Lineage
