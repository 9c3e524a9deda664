import Lineage.Ingest.Import
import Lineage.Proofs.ItemRows
import Lineage.Proofs.ReadOnly
import Lineage.Proofs.Requests
import Lineage.Queue.Cycle

/-! # Changes announce themselves

Whatever stores or removes items also requests their reindexes, and does both or
neither. So an item about which nothing was announced is the one that was stored
before, and all requests stand behind those that were there. -/

namespace Lineage

/-- The second database came out of the first by changes to items of which each was
announced in the queue. Edges are as they were, and no text came under a foreign id. -/
structure Announced (ids : List NodeId) (before after : Database) : Prop where
  items : ∃ old new, before.items = some old ∧ after.items = some new ∧
    (old.OwnTexts → new.OwnTexts) ∧ ∀ id, id ∉ ids → new.find? id = old.find? id
  edges : after.edges = before.edges
  queue : ∃ queue, before.queue = some queue ∧
    after.queue = some (queue.addAll (ids.map Queue.request))

namespace Announced
variable {first second : List NodeId} {db mid after : Database}

theorem none {items : ItemTable} {queue : Numbered QueueEntry} (hitems : db.items = some items)
    (hqueue : db.queue = some queue) : Announced [] db db where
  items := ⟨items, items, hitems, hitems, fun h => h, fun _ _ => rfl⟩
  edges := rfl
  queue := ⟨queue, hqueue, hqueue⟩

theorem trans (h : Announced first db mid) (h' : Announced second mid after) :
    Announced (first ++ second) db after := by
  obtain ⟨old, new, hold, hnew, hown, hfind⟩ := h.items
  obtain ⟨old', new', hold', hnew', hown', hfind'⟩ := h'.items
  obtain ⟨queue, hqueue, hmid⟩ := h.queue
  obtain ⟨queue', hqueue', hafter⟩ := h'.queue
  obtain rfl : new = old' := Option.some.inj (hnew.symm.trans hold')
  obtain rfl : queue.addAll (first.map Queue.request) = queue' :=
    Option.some.inj (hmid.symm.trans hqueue')
  refine ⟨⟨old, new', hold, hnew', fun h => hown' (hown h), fun id hid => ?_⟩,
    h'.edges.trans h.edges, queue, hqueue, ?_⟩
  · rw [List.mem_append, not_or] at hid
    rw [hfind' id hid.2, hfind id hid.1]
  · rw [hafter, List.map_append, Numbered.addAll_append]

theorem stored (h : Announced first db after) {id : NodeId} (hid : id ∉ first) :
    after.stored id = db.stored id := by
  obtain ⟨old, new, hold, hnew, -, hfind⟩ := h.items
  rw [Database.stored_of_items hold, Database.stored_of_items hnew, hfind id hid]

end Announced

namespace Database
variable {db : Database}

section
variable {items : ItemTable} {queue : Numbered QueueEntry}
variable (hitems : db.items = some items) (hqueue : db.queue = some queue)
include hitems hqueue

theorem announced_requests (ids : List NodeId) :
    Announced ids db { db with queue := some (queue.addAll (ids.map Queue.request)) } where
  items := ⟨items, items, hitems, hitems, fun h => h, fun _ _ => rfl⟩
  edges := rfl
  queue := ⟨queue, hqueue, rfl⟩

theorem announced_enqueue (id : NodeId) :
    Announced [id] db (db.perform (Queue.enqueue id)).2 := by
  rw [perform_enqueue hqueue]
  exact announced_requests hitems hqueue [id]

theorem announced_enqueueAll (ids : List NodeId) :
    Announced ids db (db.perform (Queue.enqueueAll ids)).2 := by
  rw [perform_enqueueAll hqueue]
  exact announced_requests hitems hqueue ids

end

end Database

namespace Content

/-- The items that make way when an item is stored from a file. -/
def displaced (item : Item) (source : Option ItemSource) (table : ItemTable) : List NodeId :=
  match source with
  | some source => table.othersFrom source.path item.id
  | none => []

/-- The table after an item was stored. -/
def stocked (item : Item) (source : Option ItemSource) (table : ItemTable) : ItemTable :=
  (table.erase (displaced item source table)).put (.ofItem item source)

/-- When the displaced items are gone, no path is in the way. -/
theorem path_free (item : Item) (source : Option ItemSource) (table : ItemTable) :
    ((ItemRow.ofItem item source).sourcePath.any fun path =>
      !((table.erase (displaced item source table)).othersFrom path
        (ItemRow.ofItem item source).id).isEmpty) = false := by
  cases source with
  | none => rfl
  | some source =>
    show (!((table.erase (table.othersFrom source.path item.id)).othersFrom source.path
      item.id).isEmpty) = false
    rw [ItemTable.othersFrom_erase]
    rfl

end Content

namespace ItemTable
variable {table : ItemTable} {row : ItemRow}

/-- An import leaves the new row and those that have neither its id nor its path. -/
theorem mem_stocked {item : Item} {source : ItemSource} :
    row ∈ (Content.stocked item (some source) table).rows ↔
      row = .ofItem item (some source) ∨
        (row ∈ table.rows ∧ row.id ≠ item.id ∧ row.sourcePath ≠ some source.path) := by
  have hother : row ∈ (table.erase (table.othersFrom source.path item.id)).rows ↔
      row ∈ table.rows ∧ (row.sourcePath = some source.path → row.id = item.id) := by
    rw [mem_erase]
    refine and_congr_right fun hrow => ?_
    unfold othersFrom
    rw [List.mem_filter, mem_idsFrom, not_and]
    constructor
    · intro h hpath
      simpa using h ⟨row, hrow, hpath, rfl⟩
    · rintro h ⟨same, hsame, hpath, hid⟩
      rw [eq_of_id_eq hsame hrow hid] at hpath
      simpa using h hpath
  unfold Content.stocked Content.displaced
  rw [mem_put rfl rfl, hother]
  refine or_congr_right ⟨fun ⟨⟨hrow, hpath⟩, hid⟩ => ⟨hrow, hid, fun h => hid (hpath h)⟩,
    fun ⟨hrow, hid, hpath⟩ => ⟨⟨hrow, fun h => absurd h hpath⟩, hid⟩⟩

end ItemTable

namespace Database
variable {db : Database} {items : ItemTable} {queue : Numbered QueueEntry}

/-- Storing an item succeeds: what came from its file before has made way. -/
theorem perform_save (hitems : db.items = some items) (item : Item)
    (source : Option ItemSource) : db.perform (Content.save item source) =
      (.ok (Content.displaced item source items),
        { db with items := some (Content.stocked item source items) }) := by
  have hupsert : { db with
      items := some (items.erase (Content.displaced item source items)) }.perform
        (Content.upsert (.ofItem item source)) =
      (.ok (), { db with items := some (Content.stocked item source items) }) := by
    unfold Content.upsert
    rw [perform_bind_ok (perform_items rfl), Content.path_free]
    rfl
  unfold Content.save
  rw [perform_bind_ok (perform_items hitems), perform_bind_ok (perform_setItems _ _)]
  exact perform_bind_ok hupsert _

theorem perform_enqueueEach (hqueue : db.queue = some queue) (ids : List NodeId) :
    db.perform (Ingest.enqueueEach ids) =
      (.ok (), { db with queue := some (queue.addAll (ids.map Queue.request)) }) := by
  induction ids generalizing db queue with
  | nil =>
    show (Except.ok (), db) = (Except.ok (), { db with queue := some queue })
    rw [← hqueue]
  | cons id rest ih =>
    have hfirst : db.perform (discard (Queue.enqueue id)) =
        (.ok (), { db with queue := some (queue.add (Queue.request id)) }) := by
      show db.perform ((fun _ => ()) <$> Queue.enqueue id) = _
      rw [perform_map, perform_enqueue hqueue]
    have hstep : Ingest.enqueueEach (id :: rest) =
        discard (Queue.enqueue id) >>= fun _ => Ingest.enqueueEach rest := rfl
    rw [hstep, perform_bind_ok hfirst, ih rfl]
    rfl

theorem perform_deleteSource (hitems : db.items = some items) (hqueue : db.queue = some queue)
    (path : String) : db.perform (Ingest.deleteSource path) = (.ok (items.idsFrom path),
      { db with
        items := some (items.erase (items.idsFrom path))
        queue := some (queue.addAll ((items.idsFrom path).map Queue.request)) }) := by
  unfold Ingest.deleteSource
  rw [perform_bind_ok (perform_items hitems), perform_bind_ok (perform_setItems _ _),
    perform_bind_ok (perform_enqueueEach (by exact hqueue) _)]
  rfl

theorem announced_stocked (hitems : db.items = some items) (hqueue : db.queue = some queue)
    (item : Item) (source : Option ItemSource) :
    Announced (item.id :: Content.displaced item source items) db
      { db with
        items := some (Content.stocked item source items)
        queue := some (queue.addAll
          ((item.id :: Content.displaced item source items).map Queue.request)) } where
  items := by
    refine ⟨items, _, hitems, rfl, fun h => (h.erase _).put item source, fun id hid => ?_⟩
    rw [List.mem_cons, not_or] at hid
    have hother : (ItemRow.ofItem item source).id ≠ id := fun h => hid.1 h.symm
    unfold Content.stocked
    rw [ItemTable.find?_put_of_ne hother, ItemTable.find?_erase_of_not_mem hid.2]
  edges := rfl
  queue := ⟨queue, hqueue, rfl⟩

theorem perform_importFile (hitems : db.items = some items) (hqueue : db.queue = some queue)
    {file : ExportFile} {item : Item} (hitem : Item.ofBytes? file.bytes = some item) :
    db.perform (Ingest.importFile file) =
      (.ok ⟨item.id, item.contentType,
          Content.displaced item (some ⟨file.path, file.hash⟩) items⟩,
        { db with
          items := some (Content.stocked item (some ⟨file.path, file.hash⟩) items)
          queue := some (queue.addAll ((item.id ::
            Content.displaced item (some ⟨file.path, file.hash⟩) items).map Queue.request)) }) := by
  unfold Ingest.importFile
  rw [hitem]
  apply perform_transaction_ok
  rw [perform_bind_ok (perform_save hitems item _),
    perform_bind_ok (perform_enqueueEach (by exact hqueue) _)]
  rfl

theorem perform_importFile_none {file : ExportFile} (hitem : Item.ofBytes? file.bytes = none) :
    db.perform (Ingest.importFile file) =
      (.error (.content "the export is not a content item"), db) := by
  unfold Ingest.importFile
  rw [hitem]
  rfl

theorem announced_importFile (hitems : db.items = some items) (hqueue : db.queue = some queue)
    (file : ExportFile) : ∃ ids, Announced ids db (db.perform (Ingest.importFile file)).2 := by
  cases hitem : Item.ofBytes? file.bytes with
  | none =>
    rw [perform_importFile_none hitem]
    exact ⟨[], .none hitems hqueue⟩
  | some item =>
    rw [perform_importFile hitems hqueue hitem]
    exact ⟨_, announced_stocked hitems hqueue item _⟩

theorem announced_deleteSource (hitems : db.items = some items) (hqueue : db.queue = some queue)
    (path : String) : Announced (items.idsFrom path) db
      { db with
        items := some (items.erase (items.idsFrom path))
        queue := some (queue.addAll ((items.idsFrom path).map Queue.request)) } where
  items := ⟨items, _, hitems, rfl, fun h => h.erase _,
    fun _ hid => ItemTable.find?_erase_of_not_mem hid items⟩
  edges := rfl
  queue := ⟨queue, hqueue, rfl⟩

/-- Deleting takes away what came from the paths. Where nothing did, nothing happens. -/
theorem perform_deleteEach (hitems : db.items = some items) (hqueue : db.queue = some queue)
    (paths : List String) : ∃ lists after table,
      db.perform (paths.mapM Ingest.deleteSource) = (.ok lists, after) ∧
        after.items = some table ∧
        (∀ row, row ∈ table.rows ↔ row ∈ items.rows ∧ ∀ path ∈ paths, row.sourcePath ≠ some path) ∧
        Announced lists.flatten db after ∧ (lists.flatten = [] → after = db) := by
  induction paths generalizing db items queue with
  | nil =>
    exact ⟨[], db, items, rfl, hitems, by simp, .none hitems hqueue, fun _ => rfl⟩
  | cons path rest ih =>
    have hfirst := announced_deleteSource hitems hqueue path
    have hdelete := perform_deleteSource hitems hqueue path
    obtain ⟨mid, hmid⟩ : ∃ mid, mid = { db with
        items := some (items.erase (items.idsFrom path))
        queue := some (queue.addAll ((items.idsFrom path).map Queue.request)) } := ⟨_, rfl⟩
    rw [← hmid] at hfirst hdelete
    obtain ⟨lists, after, table, hrest, htable, hrows, hannounced, hnone⟩ :=
      ih (show mid.items = some _ by rw [hmid]) (show mid.queue = some _ by rw [hmid])
    refine ⟨items.idsFrom path :: lists, after, table, ?_, htable, fun row => ?_,
      hfirst.trans hannounced, fun hempty => ?_⟩
    · rw [List.mapM_cons, perform_bind_ok hdelete, perform_bind_ok hrest]
      rfl
    · rw [hrows, ItemTable.mem_erase_idsFrom, List.forall_mem_cons, and_assoc]
    · rw [List.flatten_cons, List.append_eq_nil_iff] at hempty
      rw [hnone hempty.2, hmid, hempty.1]
      rw [ItemTable.erase_nil, ← hitems]
      show { db with queue := some queue } = db
      rw [← hqueue]

theorem perform_deleteSources (hitems : db.items = some items) (hqueue : db.queue = some queue)
    (paths : List String) : ∃ ids after table,
      db.perform (Ingest.deleteSources paths) = (.ok ids, after) ∧ after.items = some table ∧
        (∀ row, row ∈ table.rows ↔ row ∈ items.rows ∧ ∀ path ∈ paths, row.sourcePath ≠ some path) ∧
        Announced ids db after ∧ (ids = [] → after = db) := by
  unfold Ingest.deleteSources
  by_cases hnone : paths.isEmpty = true
  · obtain rfl : paths = [] := List.isEmpty_iff.1 hnone
    exact ⟨[], db, items, rfl, hitems, by simp, .none hitems hqueue, fun _ => rfl⟩
  · obtain ⟨lists, after, table, hdelete, htable, hrows, hannounced, hempty⟩ :=
      perform_deleteEach hitems hqueue paths
    rw [if_neg hnone]
    exact ⟨lists.flatten, after, table, perform_transaction_ok (perform_map_ok hdelete _), htable,
      hrows, hannounced, hempty⟩

theorem announced_deleteSources (hitems : db.items = some items)
    (hqueue : db.queue = some queue) (paths : List String) :
    ∃ ids, Announced ids db (db.perform (Ingest.deleteSources paths)).2 := by
  obtain ⟨ids, after, table, hdelete, -, -, hannounced, -⟩ :=
    perform_deleteSources hitems hqueue paths
  rw [hdelete]
  exact ⟨ids, hannounced⟩

theorem announced_backfill (hitems : db.items = some items) (hqueue : db.queue = some queue)
    (rules : RuleTable) : ∃ ids, Announced ids db (db.perform (Queue.backfill rules)).2 := by
  unfold Queue.backfill
  by_cases hnone : rules.isEmpty = true
  · rw [if_pos hnone]
    exact ⟨[], .none hitems hqueue⟩
  · rw [if_neg hnone]
    have hafter := Content.readsOnly_findIds (.publishedOf rules.keys) db
    rcases perform_cases db (Content.findIds (.publishedOf rules.keys)) with
      ⟨ids, after, hfind⟩ | ⟨e, after, hfind⟩
    · rw [hfind] at hafter
      obtain rfl : after = db := hafter
      rw [perform_bind_ok hfind]
      exact ⟨ids, announced_enqueueAll hitems hqueue ids⟩
    · rw [hfind] at hafter
      obtain rfl : after = db := hafter
      rw [perform_bind_error hfind]
      exact ⟨[], .none hitems hqueue⟩

end Database

end Lineage
