import Lineage.Proofs.QueueCalls
import Lineage.Proofs.Retries

/-! # Failures are counted, in 32 bits

The limit at which a request is dropped may be another one in each call, so that a count that was
kept under a large limit meets a small one later, and the other way round. But a failure is noted
only below the limit of its own call, and every limit is a number of 32 bits: so no count reaches
the last of them, whatever the limits were, and counting in 32 bits is counting without bound. A
cycle is taken apart into its transactions, so that this is true at every moment of its work. -/

namespace Lineage

def QueueEntry.count? (entry : QueueEntry) : Option UInt32 :=
  if entry.failures ≤ Text.maxUnsigned32 then some (.ofNat entry.failures) else none

namespace Queue

/-- The next count, unless this is the last one of 32 bits. -/
def next? (count : UInt32) : Option UInt32 :=
  if count.toNat < Text.maxUnsigned32 then some (count + 1) else none

/-- Noting a failure with a count of 32 bits. What happens if the count cannot be read, or if there
is no next one, is left open. -/
def recordFailureInWords (unreadable overflow : Action Bool) (id : Int) (error : String)
    (limit : UInt32) : Action Bool := do
  let table ← Action.queue
  match table.find? id with
  | none => throw (.queue ("queue entry " ++ toString id ++ " not found"))
  | some entry =>
    match entry.count? with
    | none => unreadable
    | some count =>
      match next? count with
      | none => overflow
      | some attempts =>
        if limit ≤ attempts then
          Action.setQueue (table.erase id)
          pure true
        else
          Action.setQueue (table.modify id fun entry =>
            { entry with failures := attempts.toNat, error := some error, hasErrorTime := true })
          pure false

/-- Reading a batch with counts of 32 bits, all of which have to be readable. -/
def batchInWords (unreadable : Action (List (Row QueueEntry))) (size : Nat) (after : Int) :
    Action (List (Row QueueEntry)) := do
  let rows ← batch size after
  if rows.all fun row => row.value.count?.isSome then pure rows else unreadable

theorem count_of_le {entry : QueueEntry} (h : entry.failures ≤ Text.maxUnsigned32) :
    ∃ count, entry.count? = some count ∧ count.toNat = entry.failures :=
  ⟨_, if_pos h, UInt32.toNat_ofNat_of_lt' (Nat.lt_succ_of_le h)⟩

theorem next_of_lt {count : UInt32} (h : count.toNat < Text.maxUnsigned32) :
    ∃ attempts, next? count = some attempts ∧ attempts.toNat = count.toNat + 1 := by
  refine ⟨_, if_pos h, ?_⟩
  have hfits : count.toNat + 1 < 2 ^ 32 := Nat.succ_lt_succ h
  rw [UInt32.toNat_add]
  exact Nat.mod_eq_of_lt hfits

theorem toNat_le_maxUnsigned32 (limit : UInt32) : limit.toNat ≤ Text.maxUnsigned32 :=
  Nat.le_of_lt_succ limit.toNat_lt

/-- Every count of a queue can be raised as a number of 32 bits. -/
def Raisable (table : Numbered QueueEntry) : Prop :=
  ∀ row ∈ table.rows, row.value.failures < Text.maxUnsigned32

end Queue

/-! ## What a run notes -/

namespace Queue.Transaction

/-- How many failures of the request under a number a transaction notes: one, if it finds the
request. -/
def failuresOf (db : Database) (number : Int) : Transaction → Nat
  | recordFailure id error maxFailures =>
    if id = number ∧ (db.perform (Queue.recordFailure id error maxFailures)).1.isOk then 1 else 0
  | _ => 0

def LimitFits : Transaction → Prop
  | recordFailure _ _ maxFailures => maxFailures ≤ Text.maxUnsigned32
  | _ => True

end Queue.Transaction

namespace Database
open Queue (Transaction)

def failuresOf : Database → Int → List Transaction → Nat
  | _, _, [] => 0
  | db, number, t :: rest => t.failuresOf db number + (t.run db).failuresOf number rest

end Database

/-- An entry after so many failures. One more of them is a number of 32 bits as well. -/
structure QueueEntry.Tallies (entry : QueueEntry) (failures : Nat) : Prop where
  count : entry.failures = failures
  below : failures < Text.maxUnsigned32
  error : entry.error.isSome ↔ 0 < failures
  time : entry.hasErrorTime ↔ 0 < failures

namespace Queue

theorem tallies_request (id : NodeId) : (request id).Tallies 0 where
  count := rfl
  below := by decide
  error := iff_of_false nofun (Nat.lt_irrefl 0)
  time := iff_of_false nofun (Nat.lt_irrefl 0)

/-- A failure is noted below a limit, and the limit is a number of 32 bits. -/
theorem tallies_failed {entry : QueueEntry} {failures limit : Nat} (h : entry.Tallies failures)
    (hretained : failures + 1 < limit) (hlimit : limit ≤ Text.maxUnsigned32) (error : String) :
    (failed error entry).Tallies (failures + 1) where
  count := congrArg (· + 1) h.count
  below := Nat.lt_of_lt_of_le hretained hlimit
  error := iff_of_true rfl (Nat.succ_pos failures)
  time := iff_of_true rfl (Nat.succ_pos failures)

/-- Every entry of a queue has as many failures as were noted under its number, and none was noted
under a number that was not given yet. -/
structure Tallied (table : Numbered QueueEntry) (failures : Int → Nat) : Prop where
  rows : ∀ row ∈ table.rows, row.value.Tallies (failures row.id)
  unused : ∀ number, table.lastId < number → failures number = 0

variable {db : Database} {table left : Numbered QueueEntry} {failures : Int → Nat}

theorem Tallied.raisable (h : Tallied table failures) : Raisable table := by
  intro row hrow
  rw [(h.rows row hrow).count]
  exact (h.rows row hrow).below

namespace Transaction
variable {t : Transaction}

theorem failuresOf_recordFailure (h : db.queue = some table) (number id : Int) (error : String)
    (maxFailures : Nat) : (recordFailure id error maxFailures).failuresOf db number =
      if id = number ∧ (table.find? number).isSome then 1 else 0 := by
  unfold failuresOf
  refine if_congr (and_congr_right fun hid => ?_) rfl rfl
  subst hid
  cases hfind : table.find? id with
  | none =>
    rw [Database.perform_recordFailure_missing h hfind]
    exact iff_of_false nofun nofun
  | some entry =>
    rw [Database.perform_recordFailure h hfind]
    split <;> exact iff_of_true rfl rfl

theorem failuresOf_unused (h : db.queue = some table) (t : Transaction) {number : Int}
    (hunused : table.lastId < number) : t.failuresOf db number = 0 := by
  cases t with
  | recordFailure id error maxFailures =>
    rw [failuresOf_recordFailure h]
    refine if_neg fun ⟨_, hsome⟩ => ?_
    obtain ⟨entry, hfind⟩ := Option.isSome_iff_exists.1 hsome
    have hgiven := (table.inRange _ (Numbered.mem_of_find?_eq_some hfind)).2
    exact absurd hunused (Int.not_lt.2 hgiven)
  | _ => rfl

theorem noted_own (row : Row QueueEntry) (error : String) (maxFailures : Nat) :
    (recordFailure row.id error maxFailures).noted row = ⟨row.id, failed error row.value⟩ :=
  if_pos (beq_self_eq_true row.id)

theorem noted_other {row : Row QueueEntry} {id : Int} (hid : row.id ≠ id) (error : String)
    (maxFailures : Nat) : (recordFailure id error maxFailures).noted row = row :=
  Numbered.changed_of_ne hid _

theorem failures_lt_of_kept {row : Row QueueEntry} {error : String} {maxFailures : Nat}
    (hkept : ¬ (recordFailure row.id error maxFailures).Removes row) :
    row.value.failures + 1 < maxFailures :=
  Nat.not_le.1 fun hlast => hkept ⟨rfl, hlast⟩

theorem failures_noted_lt {row : Row QueueEntry} (hkept : ¬ t.Removes row) (hfits : t.LimitFits)
    (h : row.value.failures < Text.maxUnsigned32) :
    (t.noted row).value.failures < Text.maxUnsigned32 := by
  cases t with
  | recordFailure id error maxFailures =>
    by_cases hid : row.id = id
    · subst hid
      rw [noted_own]
      exact Nat.lt_of_lt_of_le (failures_lt_of_kept hkept) hfits
    · rwa [noted_other hid]
  | _ => exact h

/-- A row that a transaction keeps has one failure more exactly if the transaction notes one. -/
theorem tallies_noted (h : db.queue = some table) {row : Row QueueEntry} (hrow : row ∈ table.rows)
    {count : Nat} (htallies : row.value.Tallies count) (hkept : ¬ t.Removes row)
    (hfits : t.LimitFits) : (t.noted row).value.Tallies (count + t.failuresOf db row.id) := by
  cases t with
  | recordFailure id error maxFailures =>
    rw [failuresOf_recordFailure h]
    by_cases hid : row.id = id
    · subst hid
      have hfound : (table.find? row.id).isSome := by rw [Numbered.find?_eq_some hrow]; rfl
      have hretained : count + 1 < maxFailures := htallies.count ▸ failures_lt_of_kept hkept
      rw [if_pos ⟨rfl, hfound⟩, noted_own]
      exact tallies_failed htallies hretained hfits error
    · rw [if_neg fun hnoted => hid hnoted.1.symm, noted_other hid]
      exact htallies
  | _ => exact htallies

end Transaction

theorem Tallied.step {t : Transaction} (h : db.queue = some table) (htallied : Tallied table failures)
    (hfits : t.LimitFits) (hleaves : t.Leaves table left) :
    Tallied left fun number => failures number + t.failuresOf db number where
  rows := by
    intro row hrow
    rw [hleaves.rows] at hrow
    rcases List.mem_append.1 hrow with hrow | hrow
    · obtain ⟨old, hold, rfl⟩ := List.mem_map.1 hrow
      obtain ⟨hmem, hkept⟩ := List.mem_filter.1 hold
      have hid : (t.noted old).id = old.id :=
        congrArg (fun request : Row NodeId => request.id) (t.label_noted old)
      rw [hid]
      exact t.tallies_noted h hmem (htallied.rows old hmem) (of_decide_eq_true hkept) hfits
    · -- the requests that the transaction makes stand under new numbers
      obtain ⟨i, hi, rfl⟩ := List.mem_mapIdx.1 hrow
      have hnew : table.lastId < table.lastId + 1 + i := by omega
      show (request _).Tallies (failures (table.lastId + 1 + i) + _)
      rw [htallied.unused _ hnew, t.failuresOf_unused h hnew]
      exact tallies_request _
  unused := by
    intro number hnumber
    rw [hleaves.lastId] at hnumber
    have hunused : table.lastId < number := by omega
    rw [htallied.unused number hunused, t.failuresOf_unused h hunused]

/-- Whatever a run does, the tally is that of the failures that it notes. -/
theorem Tallied.run (h : db.queue = some table) (htallied : Tallied table failures)
    {ts : List Transaction} (hfits : ∀ t ∈ ts, t.LimitFits) :
    ∃ left, (db.runAll ts).queue = some left ∧
      Tallied left fun number => failures number + db.failuresOf number ts := by
  induction ts generalizing db table failures with
  | nil => exact ⟨table, h, htallied⟩
  | cons t rest ih =>
    obtain ⟨ht, hrest⟩ := List.forall_mem_cons.1 hfits
    obtain ⟨mid, hmid, hleaves⟩ := t.exists_leaves h
    obtain ⟨left, hleft, hlast⟩ := ih hmid (htallied.step h ht hleaves) hrest
    refine ⟨left, hleft, ?_⟩
    simpa only [Database.failuresOf, Nat.add_assoc] using hlast

theorem Raisable.step {t : Transaction} (h : Raisable table) (hfits : t.LimitFits)
    (hleaves : t.Leaves table left) : Raisable left := by
  intro row hrow
  rw [hleaves.rows] at hrow
  rcases List.mem_append.1 hrow with hrow | hrow
  · obtain ⟨old, hold, rfl⟩ := List.mem_map.1 hrow
    obtain ⟨hmem, hkept⟩ := List.mem_filter.1 hold
    exact t.failures_noted_lt (of_decide_eq_true hkept) hfits (h old hmem)
  · obtain ⟨i, hi, rfl⟩ := List.mem_mapIdx.1 hrow
    exact show 0 < Text.maxUnsigned32 by decide

theorem Raisable.run (h : db.queue = some table) (hraisable : Raisable table)
    {ts : List Transaction} (hfits : ∀ t ∈ ts, t.LimitFits) :
    ∃ left, (db.runAll ts).queue = some left ∧ Raisable left := by
  induction ts generalizing db table with
  | nil => exact ⟨table, h, hraisable⟩
  | cons t rest ih =>
    obtain ⟨ht, hrest⟩ := List.forall_mem_cons.1 hfits
    obtain ⟨mid, hmid, hleaves⟩ := t.exists_leaves h
    exact ih hmid (hraisable.step ht hleaves) hrest

end Queue

/-! ## Counting in words -/

namespace Database
open Queue (Call Transaction Tallied Raisable CycleSettings)
variable {db : Database} {table : Numbered QueueEntry}

/-- As long as the next count exists, a failure is noted as with counts without bound. -/
theorem perform_recordFailureInWords (h : db.queue = some table)
    (hraisable : Raisable table)
    (unreadable overflow : Action Bool) (id : Int) (error : String) (limit : UInt32) :
    db.perform (Queue.recordFailureInWords unreadable overflow id error limit) =
      db.perform (Queue.recordFailure id error limit.toNat) := by
  unfold Queue.recordFailureInWords Queue.recordFailure
  rw [perform_bind_ok (perform_queue h), perform_bind_ok (perform_queue h)]
  cases hfind : table.find? id with
  | none => rfl
  | some entry =>
    have hrow := Numbered.mem_of_find?_eq_some hfind
    have hlow : entry.failures < Text.maxUnsigned32 := hraisable _ hrow
    obtain ⟨count, hcount, hread⟩ := Queue.count_of_le (Nat.le_of_lt hlow)
    obtain ⟨attempts, hnext, hattempts⟩ := Queue.next_of_lt (hread ▸ hlow)
    rw [hread] at hattempts
    have hlast : limit ≤ attempts ↔ limit.toNat ≤ entry.failures + 1 := by
      rw [UInt32.le_iff_toNat_le, hattempts]
    have hnoted : (table.modify id fun entry =>
        { entry with failures := attempts.toNat, error := some error, hasErrorTime := true }) =
          table.modify id (Queue.failed error) :=
      Numbered.modify_congr hrow (by rw [hattempts]; rfl)
    simp only [hcount, hnext, hlast, hnoted]

theorem perform_batchInWords (h : db.queue = some table)
    (hraisable : Raisable table)
    (unreadable : Action (List (Row QueueEntry))) (size : Nat) (after : Int) :
    db.perform (Queue.batchInWords unreadable size after) =
      db.perform (Queue.batch size after) := by
  unfold Queue.batchInWords
  rcases batch_cases h size after with ⟨rows, hbatch, hmem⟩ | ⟨e, hbatch⟩
  · have hread : (rows.all fun row => row.value.count?.isSome) = true := by
      refine List.all_eq_true.2 fun row hrow => ?_
      obtain ⟨count, hcount, -⟩ := Queue.count_of_le (Nat.le_of_lt (hraisable row (hmem row hrow)))
      rw [hcount]
      rfl
    rw [perform_bind_ok hbatch, if_pos hread, hbatch]
    rfl
  · rw [perform_bind_error hbatch, hbatch]

theorem limitFits_visits (rules : RuleTable) {maxFailures : Nat}
    (hlimit : maxFailures ≤ Text.maxUnsigned32) (rows : List (Row QueueEntry)) :
    ∀ t ∈ db.visits rules maxFailures rows, t.LimitFits := by
  induction rows generalizing db with
  | nil => exact fun t ht => by cases ht
  | cons row rest ih =>
    refine List.forall_mem_cons.2 ⟨trivial, List.forall_mem_cons.2 ⟨?_, ih⟩⟩
    unfold verdict
    cases db.finding rules row.value.item with
    | ok found => exact trivial
    | error e => exact hlimit

theorem limitFits_transactions (calls : List Call) : ∀ t ∈ db.transactions calls, t.LimitFits := by
  induction calls generalizing db with
  | nil => exact fun t ht => by cases ht
  | cons call rest ih =>
    intro t ht
    rcases List.mem_append.1 ht with ht | ht
    · cases call with
      | recordFailure number error limit =>
        obtain rfl := List.mem_singleton.1 ht
        exact Queue.toNat_le_maxUnsigned32 limit
      | batch size after => cases ht
      | cycle rules slice batchSize limit =>
        simp only [Call.transactions] at ht
        split at ht
        · cases ht
        · exact limitFits_visits rules (Queue.toNat_le_maxUnsigned32 limit) _ t ht
      | _ =>
        obtain rfl := List.mem_singleton.1 ht
        exact trivial
    · exact ih t ht

/-- A queue whose counts can be raised stays one, whatever is called and under whatever limits. -/
theorem raisable_afterCalls (h : db.queue = some table) (hraisable : Raisable table)
    (calls : List Call) : ∃ left, (db.afterCalls calls).queue = some left ∧ Raisable left := by
  rw [← runAll_transactions h calls]
  exact hraisable.run h (limitFits_transactions calls)

/-- So the cycles of a worker never come to a count that is no number of 32 bits. -/
theorem raisable_afterCycles (h : db.queue = some table) (hraisable : Raisable table)
    (rules : RuleTable) {settings : Nat → CycleSettings}
    (hlimits : ∀ k, (settings k).maxFailures ≤ Text.maxUnsigned32) (k : Nat) :
    ∃ left, (db.afterCycles rules settings k).queue = some left ∧ Raisable left := by
  induction k with
  | zero => exact ⟨table, h, hraisable⟩
  | succ k ih =>
    obtain ⟨mid, hmid, hmidRaisable⟩ := ih
    have hlimit : (UInt32.ofNat (settings k).maxFailures).toNat = (settings k).maxFailures :=
      UInt32.toNat_ofNat_of_lt' (Nat.lt_succ_of_le (hlimits k))
    have hcycle := raisable_afterCalls hmid hmidRaisable
      [.cycle rules (settings k).slice (settings k).batchSize (.ofNat (settings k).maxFailures)]
    simp only [afterCalls, List.foldl_cons, List.foldl_nil, Call.run, hlimit] at hcycle
    exact hcycle

/-- What can be said at a moment of a run that has noted so many failures of each request. -/
structure CountsFailures (db : Database) (left : Numbered QueueEntry) (failures : Int → Nat) :
    Prop where
  tallied : Tallied left failures
  /-- A request is retained by a failure exactly if with it there are fewer than the limit of the
  call. -/
  retained : ∀ row ∈ left.rows, ∀ error (limit : UInt32), ∃ next,
    db.perform (Queue.recordFailure row.id error limit.toNat) =
        (.ok (decide (limit.toNat ≤ failures row.id + 1)), { db with queue := some next }) ∧
      ((next.find? row.id).isSome ↔ failures row.id + 1 < limit.toNat)
  /-- It makes no difference that counts are numbers of 32 bits. -/
  notedInWords : ∀ unreadable overflow number error (limit : UInt32),
    db.perform (Queue.recordFailureInWords unreadable overflow number error limit) =
      db.perform (Queue.recordFailure number error limit.toNat)
  readInWords : ∀ unreadable size after,
    db.perform (Queue.batchInWords unreadable size after) = db.perform (Queue.batch size after)
  /-- A cycle reports the failures that it notes. -/
  reported : ∀ rules slice batchSize (limit : UInt32) report,
    (db.perform (Queue.cycle rules ⟨slice, batchSize, limit.toNat⟩)).1 = .ok report →
      report.failed =
        ((Call.cycle rules slice batchSize limit).transactions db).countP Transaction.isFailure

theorem countsFailures {failures : Int → Nat} (h : db.queue = some table)
    (htallied : Tallied table failures) : db.CountsFailures table failures where
  tallied := htallied
  retained := by
    intro row hrow error limit
    rw [← (htallied.rows row hrow).count, perform_recordFailure h (Numbered.find?_eq_some hrow)]
    by_cases hlast : limit.toNat ≤ row.value.failures + 1
    · rw [if_pos hlast, decide_eq_true hlast]
      refine ⟨_, rfl, iff_of_false ?_ (Nat.not_lt.2 hlast)⟩
      rw [Numbered.find?_erase_self]
      exact nofun
    · rw [if_neg hlast, decide_eq_false hlast]
      refine ⟨_, rfl, iff_of_true ?_ (Nat.not_le.1 hlast)⟩
      rw [Numbered.find?_modify_self hrow]
      rfl
  notedInWords := perform_recordFailureInWords h htallied.raisable
  readInWords := perform_batchInWords h htallied.raisable
  reported := fun rules slice batchSize limit _ => failed_cycle h rules slice batchSize limit

/-- A run that begins with an empty queue keeps count: at every moment, also within a cycle, what is
stored with a request is the number of failures that were noted of it, with an error exactly if
there were any, and it is below the last number of 32 bits. So counts can be read and raised as such
numbers, and whether a failure drops its request depends on the limit of that call alone. -/
theorem failures_are_counted (h : db.queue = some table) (hnone : table.rows = [])
    (calls : List Call) :
    db.runAll (db.transactions calls) = db.afterCalls calls ∧
    ∀ ts us, db.transactions calls = ts ++ us → ∃ left, (db.runAll ts).queue = some left ∧
      (db.runAll ts).CountsFailures left fun number => db.failuresOf number ts := by
  refine ⟨runAll_transactions h calls, fun ts us hsplit => ?_⟩
  have hstart : Tallied table fun _ => 0 := by
    refine ⟨fun row hrow => ?_, fun _ _ => rfl⟩
    rw [hnone] at hrow
    cases hrow
  have hfits : ∀ t ∈ ts, t.LimitFits := fun t ht =>
    limitFits_transactions calls t (hsplit ▸ List.mem_append_left us ht)
  obtain ⟨left, hleft, htallied⟩ := hstart.run h hfits
  simp only [Nat.zero_add] at htallied
  exact ⟨left, hleft, countsFailures hleft htallied⟩

/-- Item 1 is stored with a text that cannot be read, and nothing is requested yet. -/
def unreliable : Database := { corrupted with queue := some .empty }

/-- A request fails under the largest limit that there is, and then in a cycle with a limit of 3. -/
def twoFailures : List Call :=
  [.enqueue 1, .recordFailure 1 "database is locked" 4294967295, .cycle RuleTable.builtin none 1 3]

/-- The third failure of that request drops it under a limit of 3, and not under one of 4. -/
theorem third_failure_meets_limit :
    unreliable.queue = some .empty ∧ (Numbered.empty : Numbered QueueEntry).rows = [] ∧
    ∃ left entry, (unreliable.afterCalls twoFailures).queue = some left ∧
      left.find? 1 = some entry ∧ entry.failures = 2 ∧ entry.error.isSome ∧
      (∃ after, (unreliable.afterCalls twoFailures).perform (Queue.recordFailure 1 "" 3) =
        (.ok true, after)) ∧
      ∃ after, (unreliable.afterCalls twoFailures).perform (Queue.recordFailure 1 "" 4) =
        (.ok false, after) := by
  have hcount : unreliable.failuresOf 1 (unreliable.transactions twoFailures) = 2 := by
    decide +kernel
  have hwaits : ((unreliable.afterCalls twoFailures).queue.bind (·.find? 1)).isSome := by
    decide +kernel
  obtain ⟨hrun, hmoments⟩ := failures_are_counted (show unreliable.queue = some _ from rfl)
    (show (Numbered.empty : Numbered QueueEntry).rows = [] from rfl) twoFailures
  obtain ⟨left, hleft, hcounts⟩ := hmoments _ [] (List.append_nil _).symm
  rw [hrun] at hleft hcounts
  rw [hleft] at hwaits
  obtain ⟨entry, hentry⟩ := Option.isSome_iff_exists.1 hwaits
  have hrow := Numbered.mem_of_find?_eq_some hentry
  have htallies := hcounts.tallied.rows _ hrow
  obtain ⟨three, hthree, -⟩ := hcounts.retained _ hrow "" 3
  obtain ⟨four, hfour, -⟩ := hcounts.retained _ hrow "" 4
  rw [hcount] at htallies hthree hfour
  exact ⟨rfl, rfl, left, entry, hleft, hentry, htallies.count, htallies.error.2 Nat.two_pos,
    ⟨_, hthree⟩, _, hfour⟩

end Database

end Lineage
