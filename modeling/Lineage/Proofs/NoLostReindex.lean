import Lineage.Proofs.Announcements
import Lineage.Proofs.MigrationFiles
import Lineage.Proofs.Reindex
import Lineage.Proofs.Workers

/-! # No reindex is lost

Imports, deletions, requests and any number of workers change one database in any
order, a worker one step at a time, and a worker may be left standing at any point.
The edges of an item are then those that it asserts, unless a request for the item
waits or one was dropped. The invariant says which request: one that no worker is about
to remove. A worker that is about to remove a request has reindexed the item, and from
then on every change of the item comes with a request under a new number. -/

namespace Lineage

open Queue (Worker)

/-- A database, the workers at it, and the items of requests that have failed too often. -/
structure World where
  db : Database
  workers : List Worker
  dropped : List NodeId

/-- What can happen next. A fault is a failure from outside, such as a database in use. -/
inductive Event where
  | importFile (file : ExportFile)
  | deleteSources (paths : List String)
  | enqueue (id : NodeId)
  | enqueueAll (ids : List NodeId)
  | backfill
  | hire (batchSize maxFailures : Nat)
  | work (worker : Nat)
  | fault (worker : Nat) (failure : Failure)
  | stop (worker : Nat)

namespace Queue.Worker

/-- A worker whose transaction failed for a reason outside: the request it is at has failed. -/
def disturbed (failure : Failure) (worker : Worker) : Worker :=
  match worker.phase with
  | .visiting (row :: rest) =>
    { worker with cursor := row.id, phase := .failing row failure rest }
  | .completing row rest => { worker with phase := .failing row failure rest }
  | _ => worker

/-- The item of the request that the next step of a worker drops, if it drops one. -/
def drops (db : Database) (worker : Worker) : List NodeId :=
  match worker.phase with
  | .failing row failure _ =>
    match (db.perform (recordFailure row.id failure.message worker.maxFailures)).1 with
    | .ok true => ((db.queue.bind (·.find? row.id)).map QueueEntry.item).toList
    | _ => []
  | _ => []

end Queue.Worker

namespace World

def start : World := ⟨.migrated, [], []⟩

def replace (world : World) (i : Nat) (change : Worker → Worker) : World :=
  match world.workers[i]? with
  | none => world
  | some worker => { world with workers := world.workers.set i (change worker) }

def step (rules : RuleTable) (world : World) : Event → World
  | .importFile file => { world with db := (world.db.perform (Ingest.importFile file)).2 }
  | .deleteSources paths => { world with db := (world.db.perform (Ingest.deleteSources paths)).2 }
  | .enqueue id => { world with db := (world.db.perform (Queue.enqueue id)).2 }
  | .enqueueAll ids => { world with db := (world.db.perform (Queue.enqueueAll ids)).2 }
  | .backfill => { world with db := (world.db.perform (Queue.backfill rules)).2 }
  | .hire batchSize maxFailures =>
    { world with workers := world.workers ++ [.hired batchSize maxFailures] }
  | .work i =>
    match world.workers[i]? with
    | none => world
    | some worker =>
      { db := (worker.step rules world.db).1
        workers := world.workers.set i (worker.step rules world.db).2
        dropped := world.dropped ++ worker.drops world.db }
  | .fault i failure => world.replace i (·.disturbed failure)
  | .stop i => world.replace i (·.stop)

/-- The world after events, the first of which comes first. -/
def run (rules : RuleTable) (world : World) (events : List Event) : World :=
  events.foldl (step rules) world

end World

/-! ## The invariant -/

namespace Numbered

/-- A row that was read from a queue: its number was given, and if the queue still has a
row with that number, it is a request for the same item. -/
structure Knows (queue : Numbered QueueEntry) (row : Row QueueEntry) : Prop where
  given : row.id ≤ queue.lastId
  same : ∀ r ∈ queue.rows, r.id = row.id → r.value.item = row.value.item

variable {queue : Numbered QueueEntry} {row : Row QueueEntry}

theorem knows_of_mem (h : row ∈ queue.rows) : queue.Knows row where
  given := (queue.inRange row h).2
  same := by
    intro r hr hid
    rw [eq_of_id_eq hr h hid]

theorem Knows.addAll (h : queue.Knows row) (entries : List QueueEntry) :
    (queue.addAll entries).Knows row where
  given := by
    rw [lastId_addAll]
    have := h.given
    omega
  same := by
    intro r hr hid
    rcases mem_addAll hr with hr | ⟨hnew, -⟩
    · exact h.same r hr hid
    · have := h.given
      omega

theorem Knows.erase (h : queue.Knows row) (id : Int) : (queue.erase id).Knows row where
  given := h.given
  same := fun r hr hid => h.same r (mem_erase.1 hr).1 hid

theorem Knows.failed (h : queue.Knows row) (id : Int) (error : String) :
    (queue.modify id (Queue.failed error)).Knows row where
  given := h.given
  same := by
    intro r hr hid
    obtain ⟨old, hold, rfl⟩ := List.mem_map.1 hr
    rw [Queue.item_changed_failed]
    rw [id_changed] at hid
    exact h.same old hold hid

end Numbered

namespace Queue.Worker

/-- Whether the next step of a worker removes the request with a number. -/
def Completes (worker : Worker) (number : Int) : Prop :=
  match worker.phase with
  | .completing row _ => row.id = number
  | _ => False

theorem Completes.mem {worker : Worker} {number : Int} (h : worker.Completes number) :
    ∃ row ∈ worker.phase.rows, row.id = number := by
  unfold Completes at h
  cases hphase : worker.phase with
  | completing row rest =>
    rw [hphase] at h
    exact ⟨row, List.mem_cons_self, h⟩
  | _ =>
    rw [hphase] at h
    exact h.elim

/-- A worker that was disturbed has the same requests in its hands, and removes none. -/
theorem rows_disturbed (failure : Failure) (worker : Worker) :
    (worker.disturbed failure).phase.rows = worker.phase.rows := by
  obtain ⟨batchSize, maxFailures, cursor, phase⟩ := worker
  match phase with
  | .visiting [] => rfl
  | .visiting (row :: rest) => rfl
  | .completing row rest => rfl
  | .failing row error rest => rfl
  | .stopped => rfl

theorem not_completes_disturbed (worker : Worker) {failure : Failure} {number : Int} :
    ¬ (worker.disturbed failure).Completes number := by
  obtain ⟨batchSize, maxFailures, cursor, phase⟩ := worker
  match phase with
  | .visiting [] => exact fun h => h
  | .visiting (row :: rest) => exact fun h => h
  | .completing row rest => exact fun h => h
  | .failing row error rest => exact fun h => h
  | .stopped => exact fun h => h

end Queue.Worker

namespace Database

/-- The edges of an item are those that what is stored under its id asserts. -/
def Settled (rules : RuleTable) (db : Database) (id : NodeId) : Prop :=
  ∃ stored, db.stored id = .ok stored ∧ db.edgesOf id = .ok (Edges.asserted rules stored)

/-- A request for an item waits. -/
def Requested (db : Database) (id : NodeId) : Prop :=
  ∃ queue, db.queue = some queue ∧ ∃ row ∈ queue.rows, row.value.item = id

theorem Settled.congr {rules : RuleTable} {db after : Database} {id : NodeId}
    (h : db.Settled rules id) (hstored : after.stored id = db.stored id)
    (hedges : after.edgesOf id = db.edgesOf id) : after.Settled rules id := by
  obtain ⟨stored, hs, he⟩ := h
  exact ⟨stored, hstored.trans hs, hedges.trans he⟩

theorem Settled.setQueue {rules : RuleTable} {db : Database} {id : NodeId}
    (h : db.Settled rules id) (queue : Option (Numbered QueueEntry)) :
    { db with queue }.Settled rules id :=
  h.congr (stored_congr (show { db with queue }.items = db.items from rfl) id)
    (edgesOf_congr (show { db with queue }.edges = db.edges from rfl) id)

end Database

namespace World

/-- A request for an item waits that no worker is about to remove. -/
def Covered (workers : List Worker) (queue : Numbered QueueEntry) (id : NodeId) : Prop :=
  ∃ row ∈ queue.rows, row.value.item = id ∧ ∀ worker ∈ workers, ¬ worker.Completes row.id

/-- What holds of every world: the tables are there, no text stands under a foreign id,
the workers know the queue, and every item is settled, covered or dropped. -/
structure Sound (rules : RuleTable) (world : World) (items : ItemTable) (edges : Numbered Edge)
    (queue : Numbered QueueEntry) : Prop where
  hasItems : world.db.items = some items
  ownTexts : items.OwnTexts
  hasEdges : world.db.edges = some edges
  hasQueue : world.db.queue = some queue
  held : ∀ worker ∈ world.workers, ∀ row ∈ worker.phase.rows, queue.Knows row
  safe : ∀ id, world.db.Settled rules id ∨ Covered world.workers queue id ∨ id ∈ world.dropped

def Invariant (rules : RuleTable) (world : World) : Prop :=
  ∃ items edges queue, Sound rules world items edges queue

variable {rules : RuleTable} {world : World}

/-- Of a change that announces itself, every item that it touches is covered by a new
request, whose number no worker has seen. -/
theorem Invariant.announced (h : world.Invariant rules) {ids : List NodeId} {after : Database}
    (hannounced : Announced ids world.db after) : Invariant rules { world with db := after } := by
  obtain ⟨items, edges, queue, h⟩ := h
  obtain ⟨old, new, hold, hnew, hown, -⟩ := hannounced.items
  obtain ⟨queue', hqueue', hafter⟩ := hannounced.queue
  obtain rfl : items = old := Option.some.inj (h.hasItems.symm.trans hold)
  obtain rfl : queue = queue' := Option.some.inj (h.hasQueue.symm.trans hqueue')
  refine ⟨new, edges, _, hnew, hown h.ownTexts, hannounced.edges.trans h.hasEdges, hafter,
    fun worker hworker row hrow => (h.held worker hworker row hrow).addAll _, fun id => ?_⟩
  by_cases hid : id ∈ ids
  · obtain ⟨row, hrow, hfresh, hrequest⟩ :=
      Numbered.exists_mem_addAll queue (List.mem_map_of_mem (f := Queue.request) hid)
    refine Or.inr (Or.inl ⟨row, hrow, by rw [hrequest]; rfl, fun worker hworker hcompletes => ?_⟩)
    obtain ⟨seen, hseen, hnumber⟩ := hcompletes.mem
    have hgiven := (h.held worker hworker seen hseen).given
    omega
  · rcases h.safe id with hsettled | ⟨row, hrow, hitem, hfree⟩ | hdropped
    · exact Or.inl (hsettled.congr (hannounced.stored hid)
        (Database.edgesOf_congr hannounced.edges id))
    · exact Or.inr (Or.inl ⟨row, Numbered.mem_addAll_of_mem hrow, hitem, hfree⟩)
    · exact Or.inr (Or.inr hdropped)

/-! ## Steps of a worker -/

section
variable {items : ItemTable} {edges : Numbered Edge} {queue : Numbered QueueEntry}
variable {i : Nat} {worker next : Worker}

/-- A step that changes at most the queue, and after which the worker is about to remove
nothing. It keeps every request for its item, unless the worker was about to remove it or
it is dropped. -/
theorem Sound.queueStep (h : Sound rules world items edges queue)
    (hworker : world.workers[i]? = some worker) {after : Numbered QueueEntry}
    {dropped : List NodeId}
    (hknows : ∀ row, queue.Knows row → after.Knows row)
    (hnext : ∀ row ∈ next.phase.rows, queue.Knows row) (hdone : ∀ n, ¬ next.Completes n)
    (hkeeps : ∀ row ∈ queue.rows, ¬ worker.Completes row.id →
      (∃ row' ∈ after.rows, row'.id = row.id ∧ row'.value.item = row.value.item) ∨
        row.value.item ∈ dropped) :
    Invariant rules ⟨{ world.db with queue := some after }, world.workers.set i next,
      world.dropped ++ dropped⟩ := by
  refine ⟨items, edges, after, h.hasItems, h.ownTexts, h.hasEdges, rfl, ?_, fun id => ?_⟩
  · intro other hother row hrow
    rcases List.mem_or_eq_of_mem_set hother with hother | rfl
    · exact hknows row (h.held other hother row hrow)
    · exact hknows row (hnext row hrow)
  · rcases h.safe id with hsettled | ⟨row, hrow, hitem, hfree⟩ | hdropped
    · exact Or.inl (hsettled.setQueue (some after))
    · rcases hkeeps row hrow (hfree worker (List.mem_of_getElem? hworker)) with
        ⟨row', hrow', hid, hsame⟩ | hgone
      · refine Or.inr (Or.inl ⟨row', hrow', hsame.trans hitem, fun other hother => ?_⟩)
        rw [hid]
        rcases List.mem_or_eq_of_mem_set hother with hother | rfl
        · exact hfree other hother
        · exact hdone row.id
      · exact Or.inr (Or.inr (List.mem_append_right _ (hitem ▸ hgone)))
    · exact Or.inr (Or.inr (List.mem_append_left _ hdropped))

theorem Sound.quietStep (h : Sound rules world items edges queue)
    (hworker : world.workers[i]? = some worker)
    (hnext : ∀ row ∈ next.phase.rows, queue.Knows row) (hdone : ∀ n, ¬ next.Completes n) :
    Invariant rules { world with workers := world.workers.set i next } := by
  have hkeeps : ∀ row ∈ queue.rows, ¬ worker.Completes row.id →
      (∃ row' ∈ queue.rows, row'.id = row.id ∧ row'.value.item = row.value.item) ∨
        row.value.item ∈ ([] : List NodeId) :=
    fun row hrow _ => Or.inl ⟨row, hrow, rfl, rfl⟩
  have hsame := h.queueStep hworker (fun _ hrow => hrow) hnext hdone hkeeps
  rwa [List.append_nil, ← h.hasQueue] at hsame

/-- After a reindex the item is settled. The worker is now about to remove its request, on
which no other item relies. -/
theorem Sound.reindexStep (h : Sound rules world items edges queue)
    (hworker : world.workers[i]? = some worker) {row : Row QueueEntry}
    {rest : List (Row QueueEntry)} (hphase : worker.phase = .visiting (row :: rest))
    {stored : Option Item} (hstored : world.db.stored row.value.item = .ok stored) :
    Invariant rules
      ⟨{ world.db with
          edges := some (Edges.replace row.value.item (Edges.asserted rules stored) edges) },
        world.workers.set i { worker with cursor := row.id, phase := .completing row rest },
        world.dropped⟩ := by
  have hheld : ∀ r ∈ row :: rest, queue.Knows r := by
    have := h.held worker (List.mem_of_getElem? hworker)
    rwa [hphase] at this
  obtain ⟨after, hafter⟩ : ∃ after, after = { world.db with
      edges := some (Edges.replace row.value.item (Edges.asserted rules stored) edges) } :=
    ⟨_, rfl⟩
  have hitems : after.items = world.db.items := by rw [hafter]
  have hown : Database.ReportsOwn rules row.value.item stored world.db after := by
    refine Database.reportsOwn h.hasEdges hitems (by rw [hafter]) hstored fun item hitem => ?_
    subst hitem
    exact Database.id_of_stored h.hasItems h.ownTexts hstored
  rw [← hafter]
  refine ⟨items, _, queue, hitems.trans h.hasItems, h.ownTexts, by rw [hafter],
    by rw [hafter]; exact h.hasQueue, ?_, fun id => ?_⟩
  · intro other hother r hr
    rcases List.mem_or_eq_of_mem_set hother with hother | rfl
    · exact h.held other hother r hr
    · exact hheld r hr
  · by_cases hid : id = row.value.item
    · subst hid
      exact Or.inl ⟨stored, (Database.stored_congr hitems _).trans hstored, hown.own⟩
    · rcases h.safe id with hsettled | ⟨r, hr, hitem, hfree⟩ | hdropped
      · exact Or.inl (hsettled.congr (Database.stored_congr hitems id) (hown.others id hid))
      · refine Or.inr (Or.inl ⟨r, hr, hitem, fun other hother hcompletes => ?_⟩)
        rcases List.mem_or_eq_of_mem_set hother with hother | rfl
        · exact hfree other hother hcompletes
        · -- the removed request is for another item
          have hnumber : row.id = r.id := hcompletes
          have hsame := (hheld row List.mem_cons_self).same r hr hnumber.symm
          exact hid (hitem.symm.trans hsame)
      · exact Or.inr (Or.inr hdropped)

theorem step_work {after : Database} {dropped : List NodeId}
    (hworker : world.workers[i]? = some worker)
    (hstep : worker.step rules world.db = (after, next)) (hdrops : worker.drops world.db = dropped) :
    world.step rules (.work i) =
      ⟨after, world.workers.set i next, world.dropped ++ dropped⟩ := by
  simp only [step, hworker, hstep, hdrops]

theorem Sound.idleStep (h : Sound rules world items edges queue)
    (hworker : world.workers[i]? = some worker)
    (hstep : worker.step rules world.db = (world.db, next)) (hdrops : worker.drops world.db = [])
    (hnext : ∀ row ∈ next.phase.rows, queue.Knows row) (hdone : ∀ n, ¬ next.Completes n) :
    Invariant rules (world.step rules (.work i)) := by
  rw [step_work hworker hstep hdrops, List.append_nil]
  exact h.quietStep hworker hnext hdone

theorem Sound.readStep (h : Sound rules world items edges queue)
    (hworker : world.workers[i]? = some worker) (hphase : worker.phase = .visiting []) :
    Invariant rules (world.step rules (.work i)) := by
  have hdrops : worker.drops world.db = [] := by
    unfold Queue.Worker.drops
    rw [hphase]
  rcases Database.batch_cases h.hasQueue worker.batchSize worker.cursor with
    ⟨rows, hbatch, hrows⟩ | ⟨e, hbatch⟩
  · cases rows with
    | nil =>
      exact h.idleStep hworker (Queue.Worker.step_read_nothing hphase hbatch) hdrops
        (fun row hrow => by cases hrow) fun _ h => h
    | cons row rest =>
      exact h.idleStep hworker (Queue.Worker.step_read hphase hbatch) hdrops
        (fun r hr => Numbered.knows_of_mem (hrows r hr)) fun _ h => h
  · exact h.idleStep hworker (Queue.Worker.step_read_error hphase hbatch) hdrops
      (fun row hrow => by cases hrow) fun _ h => h

theorem Sound.visitStep (h : Sound rules world items edges queue)
    (hworker : world.workers[i]? = some worker) {row : Row QueueEntry}
    {rest : List (Row QueueEntry)} (hphase : worker.phase = .visiting (row :: rest)) :
    Invariant rules (world.step rules (.work i)) := by
  have hdrops : worker.drops world.db = [] := by
    unfold Queue.Worker.drops
    rw [hphase]
  cases hstored : world.db.stored row.value.item with
  | ok stored =>
    have hreindex := Database.perform_reindex h.hasEdges hstored rules
    rw [step_work hworker (Queue.Worker.step_visit hphase hreindex) hdrops, List.append_nil]
    exact h.reindexStep hworker hphase hstored
  | error e =>
    have hreindex := Database.perform_reindex_unreadable h.hasEdges hstored rules
    have hheld := h.held worker (List.mem_of_getElem? hworker)
    rw [hphase] at hheld
    exact h.idleStep hworker (Queue.Worker.step_visit_error hphase hreindex) hdrops hheld
      fun _ h => h

theorem Sound.completeStep (h : Sound rules world items edges queue)
    (hworker : world.workers[i]? = some worker) {row : Row QueueEntry}
    {rest : List (Row QueueEntry)} (hphase : worker.phase = .completing row rest) :
    Invariant rules (world.step rules (.work i)) := by
  have hdrops : worker.drops world.db = [] := by
    unfold Queue.Worker.drops
    rw [hphase]
  have hcomplete := Database.perform_complete h.hasQueue row.id
  have hheld := h.held worker (List.mem_of_getElem? hworker)
  rw [hphase] at hheld
  rw [step_work hworker (Queue.Worker.step_complete hphase hcomplete) hdrops]
  refine h.queueStep hworker (fun r hr => hr.erase row.id)
    (fun r hr => hheld r (List.mem_cons_of_mem _ hr)) (fun _ h => h) fun r hr hfree => ?_
  have hne : r.id ≠ row.id := by
    intro hid
    unfold Queue.Worker.Completes at hfree
    rw [hphase] at hfree
    exact hfree hid.symm
  exact Or.inl ⟨r, Numbered.mem_erase.2 ⟨hr, hne⟩, rfl, rfl⟩

/-- A failure that is noted keeps the request or drops it for all to see. -/
theorem Sound.failStep (h : Sound rules world items edges queue)
    (hworker : world.workers[i]? = some worker) {row : Row QueueEntry} {failure : Failure}
    {rest : List (Row QueueEntry)} (hphase : worker.phase = .failing row failure rest) :
    Invariant rules (world.step rules (.work i)) := by
  have hheld := h.held worker (List.mem_of_getElem? hworker)
  rw [hphase] at hheld
  have hrest : ∀ r ∈ rest, queue.Knows r := fun r hr => hheld r (List.mem_cons_of_mem _ hr)
  cases hfind : queue.find? row.id with
  | none =>
    have hrecord := Database.perform_recordFailure_missing h.hasQueue hfind failure.message
      worker.maxFailures
    have hdrops : worker.drops world.db = [] := by
      simp only [Queue.Worker.drops, hphase, hrecord]
    exact h.idleStep hworker (Queue.Worker.step_fail_error hphase hrecord) hdrops
      (fun row hrow => by cases hrow) fun _ h => h
  | some entry =>
    have hrecord := Database.perform_recordFailure h.hasQueue hfind failure.message
      worker.maxFailures
    by_cases hlast : worker.maxFailures ≤ entry.failures + 1
    · rw [if_pos hlast] at hrecord
      have hdrops : worker.drops world.db = [entry.item] := by
        simp only [Queue.Worker.drops, hphase, hrecord, h.hasQueue, Option.bind_some, hfind]
        rfl
      rw [step_work hworker (Queue.Worker.step_fail hphase hrecord) hdrops]
      refine h.queueStep hworker (fun r hr => hr.erase row.id) hrest (fun _ h => h)
        fun r hr _ => ?_
      by_cases hid : r.id = row.id
      · have hentry : r = ⟨row.id, entry⟩ :=
          Numbered.eq_of_id_eq hr (Numbered.mem_of_find?_eq_some hfind) hid
        exact Or.inr (by rw [hentry]; exact List.mem_cons_self)
      · exact Or.inl ⟨r, Numbered.mem_erase.2 ⟨hr, hid⟩, rfl, rfl⟩
    · rw [if_neg hlast] at hrecord
      have hdrops : worker.drops world.db = [] := by
        simp only [Queue.Worker.drops, hphase, hrecord]
      rw [step_work hworker (Queue.Worker.step_fail hphase hrecord) hdrops]
      refine h.queueStep hworker (fun r hr => hr.failed row.id failure.message) hrest
        (fun _ h => h) fun r hr _ => ?_
      exact Or.inl ⟨_, List.mem_map_of_mem hr, Numbered.id_changed _ _ r,
        Queue.item_changed_failed _ _ r⟩

end

theorem Invariant.work (h : world.Invariant rules) (i : Nat) :
    Invariant rules (world.step rules (.work i)) := by
  obtain ⟨items, edges, queue, h⟩ := h
  cases hworker : world.workers[i]? with
  | none =>
    simp only [step, hworker]
    exact ⟨items, edges, queue, h⟩
  | some worker =>
    cases hphase : worker.phase with
    | visiting rows =>
      cases rows with
      | nil => exact h.readStep hworker hphase
      | cons row rest => exact h.visitStep hworker hphase
    | completing row rest => exact h.completeStep hworker hphase
    | failing row failure rest => exact h.failStep hworker hphase
    | stopped =>
      have hstep : worker.step rules world.db = (world.db, worker) := by
        simp only [Queue.Worker.step, hphase]
      have hdrops : worker.drops world.db = [] := by
        simp only [Queue.Worker.drops, hphase]
      refine h.idleStep hworker hstep hdrops (h.held worker (List.mem_of_getElem? hworker))
        fun n hn => ?_
      unfold Queue.Worker.Completes at hn
      rwa [hphase] at hn

/-- What happens to a worker from outside, with the same requests in its hands, does not
make it remove one. -/
theorem Invariant.replace (h : world.Invariant rules) (i : Nat) {change : Worker → Worker}
    (hrows : ∀ worker, ∀ row ∈ (change worker).phase.rows, row ∈ worker.phase.rows)
    (hdone : ∀ worker n, ¬ (change worker).Completes n) :
    Invariant rules (world.replace i change) := by
  unfold World.replace
  cases hworker : world.workers[i]? with
  | none => exact h
  | some worker =>
    obtain ⟨items, edges, queue, h⟩ := h
    exact h.quietStep hworker
      (fun row hrow => h.held worker (List.mem_of_getElem? hworker) row (hrows worker row hrow))
      (hdone worker)

theorem Invariant.fault (h : world.Invariant rules) (i : Nat) (failure : Failure) :
    Invariant rules (world.replace i (·.disturbed failure)) := by
  refine h.replace i (fun worker row hrow => ?_) fun worker n => worker.not_completes_disturbed
  rwa [Queue.Worker.rows_disturbed] at hrow

theorem Invariant.stop (h : world.Invariant rules) (i : Nat) :
    Invariant rules (world.replace i (·.stop)) :=
  h.replace i (fun _ _ hrow => by cases hrow) fun _ _ h => h

theorem Invariant.hire (h : world.Invariant rules) (batchSize maxFailures : Nat) :
    Invariant rules (world.step rules (.hire batchSize maxFailures)) := by
  obtain ⟨items, edges, queue, h⟩ := h
  refine ⟨items, edges, queue, h.hasItems, h.ownTexts, h.hasEdges, h.hasQueue, ?_, fun id => ?_⟩
  · intro worker hworker row hrow
    rcases List.mem_append.1 hworker with hworker | hworker
    · exact h.held worker hworker row hrow
    · rw [List.mem_singleton.1 hworker] at hrow
      cases hrow
  · rcases h.safe id with hsettled | ⟨row, hrow, hitem, hfree⟩ | hdropped
    · exact Or.inl hsettled
    · refine Or.inr (Or.inl ⟨row, hrow, hitem, fun worker hworker => ?_⟩)
      rcases List.mem_append.1 hworker with hworker | hworker
      · exact hfree worker hworker
      · rw [List.mem_singleton.1 hworker]
        exact fun h => h
    · exact Or.inr (Or.inr hdropped)

/-! ## Runs -/

/-- Every event keeps the invariant. -/
theorem Invariant.step (h : world.Invariant rules) (event : Event) :
    Invariant rules (world.step rules event) := by
  have htables := h
  obtain ⟨items, edges, queue, hsound⟩ := htables
  cases event with
  | importFile file =>
    obtain ⟨ids, hids⟩ := Database.announced_importFile hsound.hasItems hsound.hasQueue file
    exact h.announced hids
  | deleteSources paths =>
    obtain ⟨ids, hids⟩ := Database.announced_deleteSources hsound.hasItems hsound.hasQueue paths
    exact h.announced hids
  | enqueue id =>
    exact h.announced (Database.announced_enqueue hsound.hasItems hsound.hasQueue id)
  | enqueueAll ids =>
    exact h.announced (Database.announced_enqueueAll hsound.hasItems hsound.hasQueue ids)
  | backfill =>
    obtain ⟨ids, hids⟩ := Database.announced_backfill hsound.hasItems hsound.hasQueue rules
    exact h.announced hids
  | hire batchSize maxFailures => exact h.hire batchSize maxFailures
  | work i => exact h.work i
  | fault i failure => exact h.fault i failure
  | stop i => exact h.stop i

/-- In a new database nothing is stored and no edge is asserted. -/
theorem invariant_start (rules : RuleTable) : Invariant rules start := by
  have hdb : start.db = Database.migrated := rfl
  rw [Database.migrated_eq] at hdb
  have hitems : start.db.items = some .empty := by rw [hdb]
  have hedges : start.db.edges = some .empty := by rw [hdb]
  refine ⟨.empty, .empty, .empty, hitems, ItemTable.ownTexts_empty, hedges, by rw [hdb],
    fun worker h => (by cases h), fun id => Or.inl ⟨none, ?_, ?_⟩⟩
  · rw [Database.stored_of_items hitems]
    rfl
  · rw [Database.edgesOf_table hedges]
    rfl

theorem Invariant.run (h : world.Invariant rules) (events : List Event) :
    Invariant rules (world.run rules events) := by
  induction events generalizing world with
  | nil => exact h
  | cons event rest ih => exact ih (h.step event)

/-- In every world that any events lead to from a new database, the edges of every item are
those that what is stored under its id asserts, or a request for it waits, or one was
dropped. So when no request waits and none was dropped, all edges are right. -/
theorem no_reindex_is_lost (rules : RuleTable) (events : List Event) :
    let world := start.run rules events
    (∀ id, world.db.Settled rules id ∨ world.db.Requested id ∨ id ∈ world.dropped) ∧
      ∀ queue, world.db.queue = some queue → queue.rows = [] → world.dropped = [] →
        ∀ id, world.db.Settled rules id := by
  intro world
  obtain ⟨items, edges, queue, h⟩ := (invariant_start rules).run events
  have hsafe : ∀ id, world.db.Settled rules id ∨ world.db.Requested id ∨ id ∈ world.dropped := by
    intro id
    rcases h.safe id with hsettled | ⟨row, hrow, hitem, -⟩ | hdropped
    · exact Or.inl hsettled
    · exact Or.inr (Or.inl ⟨queue, h.hasQueue, row, hrow, hitem⟩)
    · exact Or.inr (Or.inr hdropped)
  refine ⟨hsafe, fun queue hqueue hempty hnone id => ?_⟩
  rcases hsafe id with hsettled | ⟨queue', hqueue', row, hrow, -⟩ | hdropped
  · exact hsettled
  · obtain rfl : queue = queue' := Option.some.inj (hqueue.symm.trans hqueue')
    rw [hempty] at hrow
    cases hrow
  · rw [hnone] at hdropped
    cases hdropped

/-- What a worker reaches alone, it also reaches as one of the workers of a world. -/
theorem run_work {db after : Database} {worker last : Worker}
    (h : Queue.Worker.Reaches rules db worker after last) {world : World} {i : Nat}
    (hdb : world.db = db) (hworker : world.workers[i]? = some worker) :
    ∃ n, (world.run rules (List.replicate n (.work i))).db = after := by
  induction h generalizing world with
  | here db worker => exact ⟨0, hdb⟩
  | @step db after worker last _ ih =>
    subst hdb
    have hlt : i < world.workers.length := (List.getElem?_eq_some_iff.1 hworker).1
    have hstep : world.step rules (.work i) = ⟨(worker.step rules world.db).1,
        world.workers.set i (worker.step rules world.db).2,
        world.dropped ++ worker.drops world.db⟩ := step_work hworker rfl rfl
    have hdb : (world.step rules (.work i)).db = (worker.step rules world.db).1 := by rw [hstep]
    have hnext : (world.step rules (.work i)).workers[i]? =
        some (worker.step rules world.db).2 := by
      rw [hstep]
      exact List.getElem?_set_self hlt
    obtain ⟨n, hn⟩ := ih hdb hnext
    exact ⟨n + 1, hn⟩

/-- A cycle that nothing comes between is a run: a worker is hired and works. -/
theorem run_cycle (world : World) (rules : RuleTable) (settings : Queue.CycleSettings) :
    ∃ n, (world.run rules (.hire settings.batchSize settings.maxFailures ::
        List.replicate n (.work world.workers.length))).db =
      (world.db.perform (Queue.cycle rules settings)).2 := by
  obtain ⟨last, hreaches⟩ := Queue.Worker.cycle_reached world.db rules settings
  have hdb : (world.step rules (.hire settings.batchSize settings.maxFailures)).db = world.db := rfl
  have hhired : (world.step rules
      (.hire settings.batchSize settings.maxFailures)).workers[world.workers.length]? =
        some (.hired settings.batchSize settings.maxFailures) :=
    List.getElem?_concat_length
  exact run_work hreaches hdb hhired

end World

end Lineage
