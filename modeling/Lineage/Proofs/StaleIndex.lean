import Lineage.Proofs.Backfill

/-! # A backfill on a stale index

What a backfill requests does not depend on the index or on what waits already: it is every
published item whose type has rules, once and in ascending order, behind all other requests. A
cycle that has time for all of them gives each of these items the edges that it asserts, whatever
edges there were before, as long as no stored text is that of an item with another id. -/

namespace Lineage

namespace Database
open Queue (selected HasTime)
variable {db : Database} {items : ItemTable} {queue : Numbered QueueEntry} {rules : RuleTable}

theorem mem_selected_iff (hitems : db.items = some items) {id : NodeId} :
    id ∈ selected rules items ↔ db.Selects rules id := by
  unfold Selects row?
  rw [Queue.mem_selected, hitems]
  rfl

theorem ascending_selected (rules : RuleTable) (items : ItemTable) :
    (selected rules items).Pairwise (· < ·) :=
  List.pairwise_map.2 (items.ascending.sublist List.filter_sublist)

theorem backfill_without_rules (db : Database) :
    db.perform (Queue.backfill []) = (.ok 0, db) := rfl

/-- After a cycle in time an item that waits has the edges that it asserts, if its text can be
read. The other requests and the old edges do not count. -/
theorem edgesOf_waiting (hown : db.OwnTexts) (hedges : db.edges.isSome) {after : Database}
    (hafter : after.edges = (db.afterReindexes rules (queue.rows.map (·.value.item))).edges)
    {id : NodeId} (hwaits : ∃ row ∈ queue.rows, row.value.item = id) {item : Item}
    (hstored : db.stored id = .ok (some item)) :
    after.edgesOf id = .ok (item.relationships rules).edges := by
  rw [edgesOf_congr hafter]
  exact edgesOf_afterReindexes hown hedges (List.mem_map.2 hwaits) hstored

/-- Under no rules a backfill requests nothing, and under too many types it fails. Otherwise it
requests the selected items, once each and in ascending order, behind what waits already, and
changes nothing else. Then a cycle always reports; if it has time for all that waits, every selected
item whose text can be read has exactly the edges that it asserts. -/
theorem backfill_heals_selected (hitems : db.items = some items) (hqueue : db.queue = some queue)
    (rules : RuleTable) :
    (∀ other : Database, other.perform (Queue.backfill []) = (.ok 0, other)) ∧
    (ContentFilter.boundValues < rules.length + 3 →
      ∃ e, db.perform (Queue.backfill rules) = (.error e, db)) ∧
    (rules.length + 3 ≤ ContentFilter.boundValues →
      ∃ (ids : List NodeId) (requests : Numbered QueueEntry),
      (∀ id, id ∈ ids ↔ db.Selects rules id) ∧ ids.Pairwise (· < ·) ∧
      requests.rows = queue.rows ++
        ids.mapIdx (fun i id => ⟨queue.lastId + 1 + i, Queue.request id⟩) ∧
      db.perform (Queue.backfill rules) = (.ok ids.length, { db with queue := some requests }) ∧
      ∀ settings : Queue.CycleSettings, 1 ≤ settings.batchSize →
        settings.batchSize ≤ Text.maxSigned64 → ∃ report after,
          { db with queue := some requests }.perform (Queue.cycle rules settings) =
            (.ok report, after) ∧
          (report.timedOut = false ↔ HasTime settings.slice (queue.rows.length + ids.length)) ∧
          (report.timedOut = false → db.OwnTexts → db.edges.isSome →
            ∀ id ∈ ids, ∀ item, db.stored id = .ok (some item) →
              after.stored id = .ok (some item) ∧
              after.edgesOf id = .ok (item.relationships rules).edges)) := by
  refine ⟨backfill_without_rules, fun hlarge => ?_, fun hsmall => ?_⟩
  · rw [perform_backfill hitems hqueue, if_neg (Nat.not_le.2 hlarge)]
    exact ⟨_, rfl⟩
  · have hrows := Queue.rows_requests (selected rules items) queue
    refine ⟨selected rules items, _, fun id => mem_selected_iff hitems,
      ascending_selected rules items, hrows, ?_, fun settings hsome hsize => ?_⟩
    · rw [perform_backfill hitems hqueue, if_pos hsmall]
    · obtain ⟨report, after, hcycle, htime, hdone⟩ := cycle_in_time
        (show { db with queue := some _ }.queue = some (queue.addAll
          ((selected rules items).map Queue.request)) from rfl) rules hsome hsize
      rw [hrows, List.length_append, List.length_mapIdx] at htime
      refine ⟨report, after, hcycle, htime, fun hinTime hown hedges id hid item hstored => ?_⟩
      obtain ⟨hafterItems, hafterEdges⟩ := hdone hinTime
      obtain ⟨row, hrow, -, hvalue⟩ := Numbered.exists_mem_addAll queue
        (List.mem_map_of_mem (f := Queue.request) hid)
      rw [afterReindexes_setQueue] at hafterEdges
      refine ⟨(stored_congr (hafterItems.trans (show _ = db.items from rfl)) id).trans hstored,
        edgesOf_waiting hown hedges hafterEdges ⟨row, hrow, ?_⟩ hstored⟩
      rw [hvalue]
      rfl

/-- Item 2 with an edge that it does not assert any more, behind a request for another item. -/
def stale : Database :=
  { keeping straying [⟨2, 9, 2⟩] with queue := some (Numbered.empty.add (Queue.request 7)) }

/-- The stale edge is replaced by the one that item 2 asserts. -/
theorem stale_edge_is_replaced :
    (stale.items = some (ItemTable.empty.put (.ofItem straying none)) ∧
      stale.queue = some (Numbered.empty.add (Queue.request 7))) ∧
    stale.Selects RuleTable.builtin 2 ∧ stale.edgesOf 2 = .ok [⟨2, 9, 2⟩] ∧
    ∃ requested queued report after,
      stale.perform (Queue.backfill RuleTable.builtin) = (.ok requested, queued) ∧
        queued.perform (Queue.cycle RuleTable.builtin unhurried) = (.ok report, after) ∧
        after.edgesOf 2 = .ok [⟨2, 5, 2⟩] := by
  have hselects : stale.Selects RuleTable.builtin 2 :=
    ⟨_, ItemTable.find?_put_self (.ofItem straying none) .empty, rfl, by decide⟩
  have hitems : stale.items = (keeping straying []).items := rfl
  have hstored : stale.stored 2 = .ok (some straying) := by
    rw [stored_congr hitems, stored_keeping ofText_straying]
    rfl
  have hkeeping : (keeping straying []).OwnTexts := ownTexts_keeping
  have hown : stale.OwnTexts := hkeeping.congr rfl
  obtain ⟨-, -, hheals⟩ := backfill_heals_selected (show stale.items = some _ from rfl)
    (show stale.queue = some _ from rfl) RuleTable.builtin
  obtain ⟨ids, requests, hids, -, -, hbackfill, hcycles⟩ := hheals (by decide)
  obtain ⟨report, after, hcycle, htime, hdone⟩ := hcycles unhurried (by decide) (by decide)
  have hinTime := htime.2 (hasTime_unhurried _)
  obtain ⟨-, hedges⟩ := hdone hinTime hown rfl 2 ((hids 2).2 hselects) straying hstored
  refine ⟨⟨rfl, rfl⟩, hselects, ?_, _, _, report, after, hbackfill, hcycle, ?_⟩
  · rw [edgesOf_table rfl]
    rfl
  · rw [hedges]
    exact congrArg Except.ok asserted_straying

/-! ## What a backfill does not heal -/

/-- The selected items are requested, and a cycle in time gives each of them whose text can be read
the edges that it asserts. -/
def Heals (rules : RuleTable) (settings : Queue.CycleSettings) (db : Database) : Prop :=
  ∃ requested queued, db.perform (Queue.backfill rules) = (.ok requested, queued) ∧
    ∀ report after, queued.perform (Queue.cycle rules settings) = (.ok report, after) →
      report.timedOut = false → ∀ id, db.Selects rules id → ∀ item,
        db.stored id = .ok (some item) → after.edgesOf id = .ok (item.relationships rules).edges

theorem not_heals (hitems : db.items = some items) (hqueue : db.queue = some .empty)
    (hsmall : rules.length + 3 ≤ ContentFilter.boundValues) {id : NodeId} {item : Item}
    (hselects : db.Selects rules id) (hstored : db.stored id = .ok (some item))
    (hother : (db.afterReindexes rules (selected rules items)).edgesOf id ≠
      .ok (item.relationships rules).edges) : ¬ db.Heals rules unhurried := by
  rintro ⟨requested, queued, hbackfill, hheals⟩
  rw [perform_backfill hitems hqueue, if_pos hsmall] at hbackfill
  obtain ⟨-, rfl⟩ := Prod.mk.inj hbackfill
  obtain ⟨report, after, hcycle, htime, hdone⟩ := cycle_of_requests db
    (show (Numbered.empty : Numbered QueueEntry).rows = [] from rfl) (selected rules items) rules
    (show 1 ≤ unhurried.batchSize by decide) (by decide)
  have hinTime := htime.2 (hasTime_unhurried _)
  have hedges := hheals report after hcycle hinTime id hselects item hstored
  rw [edgesOf_congr (hdone hinTime).2] at hedges
  exact hother hedges

/-- Rules for fewer types than there are values that a statement can be given. -/
def manyRules : RuleTable :=
  (List.range 32764).map fun n => (toString n, TypeRules.mk none [])

theorem length_manyRules : manyRules.length = 32764 := by
  unfold manyRules
  rw [List.length_map, List.length_range]

/-- Four indexes that are not healed: of an item that is stored under a foreign id, under rules for
nearly as many types as a statement can be given values, by a cycle with empty batches, and without
a table of edges. -/
theorem backfill_leaves_stale :
    ¬ (holding 1).Heals RuleTable.builtin unhurried ∧
    (manyRules.length < ContentFilter.boundValues ∧ ¬ stale.Heals manyRules unhurried) ∧
    ¬ stale.Heals RuleTable.builtin { unhurried with batchSize := 0 } ∧
    ¬ { keeping straying [] with edges := none }.Heals RuleTable.builtin unhurried := by
  have hselects : ∀ db : Database, db.items = (keeping straying []).items →
      db.Selects RuleTable.builtin 2 := by
    intro db hitems
    unfold Selects row?
    rw [hitems]
    exact ⟨_, ItemTable.find?_put_self (.ofItem straying none) .empty, rfl, by decide⟩
  have hstored : ∀ db : Database, db.items = (keeping straying []).items →
      db.stored 2 = .ok (some straying) := by
    intro db hitems
    rw [stored_congr hitems, stored_keeping ofText_straying]
    rfl
  have hasserted : (straying.relationships RuleTable.builtin).edges = [⟨2, 5, 2⟩] :=
    asserted_straying
  have hheld : (holding 1).Selects RuleTable.builtin 1 :=
    ⟨_, ItemTable.find?_put_self { ItemRow.ofItem straying none with id := 1 } .empty, rfl,
      by decide⟩
  refine ⟨not_heals rfl rfl (by decide) hheld (stored_holding 1) ?_, ⟨?_, ?_⟩, ?_,
    not_heals rfl rfl (by decide) (hselects _ rfl) (hstored _ rfl) ?_⟩
  · have hedges : ((holding 1).afterReindexes RuleTable.builtin [1]).edges =
        some (Edges.replace 1 [⟨2, 5, 2⟩] .empty) :=
      afterReindexes_edges fun id _ => stored_heldUnder 1 id
    rw [hasserted]
    show ((holding 1).afterReindexes RuleTable.builtin [1]).edgesOf 1 ≠ _
    rw [edgesOf_table hedges]
    decide
  · rw [length_manyRules]
    decide
  · rintro ⟨requested, queued, hbackfill, -⟩
    rw [perform_backfill (show stale.items = some _ from rfl) (show stale.queue = some _ from rfl),
      if_neg (by rw [length_manyRules]; decide)] at hbackfill
    cases hbackfill
  · rintro ⟨requested, queued, hbackfill, hheals⟩
    rw [perform_backfill (show stale.items = some _ from rfl) (show stale.queue = some _ from rfl),
      if_pos (by decide)] at hbackfill
    obtain ⟨-, rfl⟩ := Prod.mk.inj hbackfill
    have hedges := hheals _ _ (cycle_of_empty_batches rfl _ _ _) rfl 2 (hselects _ rfl) straying
      (hstored _ rfl)
    rw [hasserted, edgesOf_table rfl] at hedges
    exact absurd (Except.ok.inj hedges) (by decide)
  · rw [afterReindexes_missing rfl]
    intro hedges
    cases hedges

end Database

end Lineage
