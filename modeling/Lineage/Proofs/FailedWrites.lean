import Lineage.Proofs.Watching

/-! # Writes that fail

An operation that writes changes several rows, often of two tables: an import stores an item,
removes others and requests reindexes of all of them, and a deletion goes from path to path.
Any of these steps may fail. For each operation it is said here on which databases it fails,
whatever tables are missing and whatever texts are stored, and that it leaves the database as
it was on all of them. -/

namespace Lineage

namespace Database

/-- The action fails exactly when it is blocked, and then leaves the database as it is. -/
def FailsOn {α : Type} (db : Database) (act : Action α) (blocked : Prop) : Prop :=
  match db.perform act with
  | (.ok _, _) => ¬ blocked
  | (.error _, after) => blocked ∧ after = db

section
variable {α β : Type} {db after : Database} {act : Action α} {blocked : Prop}

theorem failsOn_ok {a : α} (h : db.perform act = (.ok a, after)) (hfree : ¬ blocked) :
    db.FailsOn act blocked := by
  unfold FailsOn
  rw [h]
  exact hfree

theorem failsOn_error {e : Failure} (h : db.perform act = (.error e, db)) (hblocked : blocked) :
    db.FailsOn act blocked := by
  unfold FailsOn
  rw [h]
  exact ⟨hblocked, rfl⟩

theorem FailsOn.map (h : db.FailsOn act blocked) (f : α → β) :
    db.FailsOn (f <$> act) blocked := by
  unfold FailsOn at h ⊢
  rw [perform_map]
  rcases perform_cases db act with ⟨a, after, hact⟩ | ⟨e, after, hact⟩
  · rw [hact] at h ⊢
    exact h
  · rw [hact] at h ⊢
    exact h

theorem FailsOn.congr {blocked' : Prop} (h : db.FailsOn act blocked) (hiff : blocked ↔ blocked') :
    db.FailsOn act blocked' :=
  propext hiff ▸ h

theorem failsOn_bind {a : α} {next : α → Action β} (h : db.perform act = (.ok a, db))
    (hnext : db.FailsOn (next a) blocked) : db.FailsOn (act >>= next) blocked := by
  unfold FailsOn at hnext ⊢
  rw [perform_bind_ok h]
  exact hnext

/-- A transaction fails when its body does, however far that came. -/
theorem failsOn_transaction_error {e : Failure} (h : db.perform act = (.error e, after))
    (hblocked : blocked) : db.FailsOn (Action.transaction act) blocked :=
  failsOn_error (perform_transaction_error h) hblocked

end

/-- A file cannot be imported if it holds no item or a table is missing. -/
def ImportBlocked (db : Database) (file : ExportFile) : Prop :=
  Item.ofBytes? file.bytes = none ∨ db.items = none ∨ db.queue = none

/-- Some item is stored that came from one of the files. -/
def HoldsFrom (db : Database) (paths : List String) : Prop :=
  ∃ items, db.items = some items ∧ ∃ path ∈ paths, items.idsFrom path ≠ []

/-- Without a queue items cannot be deleted, but there may be none to delete. -/
def DeletionBlocked (db : Database) (paths : List String) : Prop :=
  paths ≠ [] ∧ (db.items = none ∨ db.queue = none ∧ db.HoldsFrom paths)

def RequestsBlocked (db : Database) (ids : List NodeId) : Prop := ids ≠ [] ∧ db.queue = none

/-- An item cannot be reindexed if a table is missing or its text is that of no item. -/
def ReindexBlocked (db : Database) (id : NodeId) : Prop :=
  db.edges = none ∨ ∃ e, db.stored id = .error e

/-- A change of a file cannot be followed if what it asks for, a deletion or an import, is
blocked. A file that is known asks for nothing. -/
def ChangeBlocked (db : Database) (tree : FileTree) (working : Location) (root path : String) :
    Prop :=
  ∃ sourcePath, Watch.sourcePath? tree working root path = some sourcePath ∧
    match tree.read working path with
    | .error _ => db.DeletionBlocked [sourcePath]
    | .ok bytes =>
      (db.perform (Watch.storedHash sourcePath)).1 ≠
          .ok (some (ExportFile.hash ⟨sourcePath, bytes⟩)) ∧
        db.ImportBlocked ⟨sourcePath, bytes⟩

variable {db : Database} {items : ItemTable}

theorem perform_enqueueEach_missing (hqueue : db.queue = none) {ids : List NodeId}
    (hsome : ids ≠ []) : ∃ e, db.perform (Ingest.enqueueEach ids) = (.error e, db) := by
  obtain ⟨id, rest, rfl⟩ := List.exists_cons_of_ne_nil hsome
  have hfirst : db.perform (discard (Queue.enqueue id)) =
      (.error (.database "no such table: descendant_queue"), db) := by
    show db.perform ((fun _ => ()) <$> Queue.enqueue id) = _
    unfold Queue.enqueue
    rw [perform_map, perform_bind_error (perform_queue_missing hqueue)]
  exact ⟨_, perform_bind_error hfirst fun _ => Ingest.enqueueEach rest⟩

theorem failsOn_importFile (db : Database) (file : ExportFile) :
    db.FailsOn (Ingest.importFile file) (db.ImportBlocked file) := by
  cases hitem : Item.ofBytes? file.bytes with
  | none => exact failsOn_error (perform_importFile_none hitem) (Or.inl hitem)
  | some item =>
    cases hitems : db.items with
    | none =>
      have hsave : db.perform (Content.save item (some ⟨file.path, file.hash⟩)) =
          (.error (.database "no such table: content_items"), db) :=
        perform_bind_error (perform_items_missing hitems) _
      unfold Ingest.importFile
      rw [hitem]
      exact failsOn_transaction_error (perform_bind_error hsave _) (Or.inr (Or.inl hitems))
    | some items =>
      cases hqueue : db.queue with
      | none =>
        -- the item is stored already when the first request fails
        have hsave := perform_save hitems item (some ⟨file.path, file.hash⟩)
        obtain ⟨stored, hstored⟩ : ∃ stored, stored = { db with
            items := some (Content.stocked item (some ⟨file.path, file.hash⟩) items) } := ⟨_, rfl⟩
        rw [← hstored] at hsave
        obtain ⟨e, hrequest⟩ := perform_enqueueEach_missing
          (show stored.queue = none by rw [hstored]; exact hqueue) (List.cons_ne_nil item.id
            (Content.displaced item (some ⟨file.path, file.hash⟩) items))
        unfold Ingest.importFile
        rw [hitem]
        exact failsOn_transaction_error
          ((perform_bind_ok hsave _).trans (perform_bind_error hrequest _))
          (Or.inr (Or.inr hqueue))
      | some queue =>
        refine failsOn_ok (perform_importFile hitems hqueue hitem) ?_
        simp [ImportBlocked, hitem, hitems, hqueue]

theorem perform_deleteSource_unqueued (hitems : db.items = some items) (hqueue : db.queue = none)
    (path : String) : if items.idsFrom path = [] then
        db.perform (Ingest.deleteSource path) = (.ok [], db)
      else ∃ e after, db.perform (Ingest.deleteSource path) = (.error e, after) := by
  unfold Ingest.deleteSource
  rw [perform_bind_ok (perform_items hitems), perform_bind_ok (perform_setItems _ _)]
  by_cases hnone : items.idsFrom path = []
  · rw [if_pos hnone, hnone, ItemTable.erase_nil, ← hitems]
    rfl
  · rw [if_neg hnone]
    obtain ⟨e, hrequest⟩ := perform_enqueueEach_missing (show ({ db with
      items := some (items.erase (items.idsFrom path)) } : Database).queue = none from hqueue) hnone
    exact ⟨e, _, perform_bind_error hrequest _⟩

/-- Without a queue the first item that is to be deleted stops the deletion. -/
theorem perform_deleteEach_unqueued (hitems : db.items = some items) (hqueue : db.queue = none)
    (paths : List String) : if ∃ path ∈ paths, items.idsFrom path ≠ [] then
        ∃ e after, db.perform (paths.mapM Ingest.deleteSource) = (.error e, after)
      else ∃ lists, db.perform (paths.mapM Ingest.deleteSource) = (.ok lists, db) := by
  induction paths with
  | nil =>
    rw [if_neg (by simp)]
    exact ⟨[], rfl⟩
  | cons path rest ih =>
    have hpath := perform_deleteSource_unqueued hitems hqueue path
    rw [List.mapM_cons]
    by_cases hnone : items.idsFrom path = []
    · rw [if_pos hnone] at hpath
      rw [perform_bind_ok hpath]
      by_cases hlater : ∃ path ∈ rest, items.idsFrom path ≠ []
      · rw [if_pos hlater] at ih
        rw [if_pos (by simpa [hnone] using hlater)]
        obtain ⟨e, after, hrest⟩ := ih
        exact ⟨e, after, perform_bind_error hrest _⟩
      · rw [if_neg hlater] at ih
        rw [if_neg (by simpa [hnone] using hlater)]
        obtain ⟨lists, hrest⟩ := ih
        exact ⟨[] :: lists, perform_bind_ok hrest _⟩
    · rw [if_neg hnone] at hpath
      rw [if_pos ⟨path, List.mem_cons_self, hnone⟩]
      obtain ⟨e, after, hdelete⟩ := hpath
      exact ⟨e, after, perform_bind_error hdelete _⟩

theorem failsOn_deleteSources (db : Database) (paths : List String) :
    db.FailsOn (Ingest.deleteSources paths) (db.DeletionBlocked paths) := by
  unfold Ingest.deleteSources
  cases paths with
  | nil => exact failsOn_ok (show db.perform (pure []) = (.ok [], db) from rfl) fun h => h.1 rfl
  | cons path rest =>
    rw [if_neg (by simp)]
    have hsome : path :: rest ≠ [] := List.cons_ne_nil path rest
    cases hitems : db.items with
    | none =>
      have hfirst : db.perform (Ingest.deleteSource path) =
          (.error (.database "no such table: content_items"), db) :=
        perform_bind_error (perform_items_missing hitems) _
      have hdelete : db.perform (List.flatten <$> (path :: rest).mapM Ingest.deleteSource) =
          (.error (.database "no such table: content_items"), db) := by
        rw [perform_map, List.mapM_cons, perform_bind_error hfirst]
      exact failsOn_transaction_error hdelete ⟨hsome, Or.inl hitems⟩
    | some items =>
      cases hqueue : db.queue with
      | some queue =>
        obtain ⟨lists, after, -, hdelete, -⟩ := perform_deleteEach hitems hqueue (path :: rest)
        refine failsOn_ok (perform_transaction_ok (perform_map_ok hdelete _)) ?_
        simp [DeletionBlocked, hitems, hqueue]
      | none =>
        have hdelete := perform_deleteEach_unqueued hitems hqueue (path :: rest)
        by_cases hheld : ∃ path' ∈ path :: rest, items.idsFrom path' ≠ []
        · rw [if_pos hheld] at hdelete
          obtain ⟨e, after, hdelete⟩ := hdelete
          have hflat : db.perform (List.flatten <$> (path :: rest).mapM Ingest.deleteSource) =
              (.error e, after) := by
            rw [perform_map, hdelete]
          exact failsOn_transaction_error hflat ⟨hsome, Or.inr ⟨hqueue, items, hitems, hheld⟩⟩
        · rw [if_neg hheld] at hdelete
          obtain ⟨lists, hdelete⟩ := hdelete
          refine failsOn_ok (perform_transaction_ok (perform_map_ok hdelete _)) ?_
          rintro ⟨-, hmissing | ⟨-, items', hitems', hheld'⟩⟩
          · cases hitems.symm.trans hmissing
          · obtain rfl : items = items' := Option.some.inj (hitems.symm.trans hitems')
            exact hheld hheld'

theorem failsOn_enqueueAll (db : Database) (ids : List NodeId) :
    db.FailsOn (Queue.enqueueAll ids) (db.RequestsBlocked ids) := by
  cases hqueue : db.queue with
  | some queue =>
    refine failsOn_ok (perform_enqueueAll hqueue ids) ?_
    simp [RequestsBlocked, hqueue]
  | none =>
    unfold Queue.enqueueAll
    cases ids with
    | nil => exact failsOn_ok (show db.perform (pure 0) = (.ok 0, db) from rfl) fun h => h.1 rfl
    | cons id rest =>
      rw [if_neg (by simp)]
      exact failsOn_transaction_error (perform_bind_error (perform_queue_missing hqueue) _)
        ⟨List.cons_ne_nil id rest, hqueue⟩

theorem failsOn_reindex (db : Database) (rules : RuleTable) (id : NodeId) :
    db.FailsOn (Edges.reindex rules id) (db.ReindexBlocked id) := by
  rcases reindex_cases db rules id with ⟨table, stored, htable, hstored, h⟩ | ⟨hblocked, e, h⟩
  · refine failsOn_ok h ?_
    simp [ReindexBlocked, htable, hstored]
  · exact failsOn_error h hblocked

theorem failsOn_handleChange (db : Database) (tree : FileTree) (working : Location)
    (root path : String) : db.FailsOn (Watch.handleChange tree working root path)
      (db.ChangeBlocked tree working root path) := by
  unfold Watch.handleChange ChangeBlocked
  cases Watch.sourcePath? tree working root path with
  | none =>
    have hignored : db.perform (pure WatchAction.ignored) = (.ok .ignored, db) := rfl
    exact failsOn_ok hignored (by simp)
  | some sourcePath =>
    simp only [Option.some.injEq, exists_eq_left']
    cases tree.read working path with
    | error e => exact (failsOn_deleteSources db [sourcePath]).map _
    | ok bytes =>
      dsimp only
      cases hitems : db.items with
      | none =>
        have hlookup : db.perform (Watch.storedHash sourcePath) =
            (.error (.database "no such table: content_items"), db) :=
          perform_bind_error (perform_items_missing hitems) _
        refine failsOn_error (perform_bind_error hlookup _) ⟨?_, Or.inr (Or.inl hitems)⟩
        rw [hlookup]
        simp
      | some items =>
        have hlookup := perform_storedHash hitems sourcePath
        refine failsOn_bind hlookup ?_
        rw [hlookup]
        by_cases hknown : ((items.rows.find? fun row => row.sourcePath == some sourcePath).bind
            ItemRow.fileHash) = some (ExportFile.hash ⟨sourcePath, bytes⟩)
        · rw [if_pos (beq_iff_eq.2 hknown)]
          have hunchanged : db.perform (pure WatchAction.unchanged) = (.ok .unchanged, db) := rfl
          exact failsOn_ok hunchanged fun h => h.1 (congrArg Except.ok hknown)
        · rw [if_neg (by simpa using hknown)]
          have himport := (failsOn_importFile db ⟨sourcePath, bytes⟩).map WatchAction.imported
          exact himport.congr (iff_and_self.2 fun _ h => hknown (Except.ok.inj h))

/-- Whenever one of the writes fails, the whole database is as it was. Each fails exactly when
a table that it needs is missing or a text that it needs is that of no item. -/
theorem failed_write_changes_nothing (db : Database) :
    (∀ file, db.FailsOn (Ingest.importFile file) (db.ImportBlocked file)) ∧
    (∀ paths, db.FailsOn (Ingest.deleteSources paths) (db.DeletionBlocked paths)) ∧
    (∀ ids, db.FailsOn (Queue.enqueueAll ids) (db.RequestsBlocked ids)) ∧
    (∀ rules id, db.FailsOn (Edges.reindex rules id) (db.ReindexBlocked id)) ∧
    ∀ tree working root path, db.FailsOn (Watch.handleChange tree working root path)
      (db.ChangeBlocked tree working root path) :=
  ⟨db.failsOn_importFile, db.failsOn_deleteSources, db.failsOn_enqueueAll, db.failsOn_reindex,
    db.failsOn_handleChange⟩

end Database

end Lineage
