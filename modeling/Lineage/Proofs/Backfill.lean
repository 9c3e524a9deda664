import Lineage.Proofs.ItemText
import Lineage.Proofs.ReindexRuns
import Lineage.Proofs.Selections
import Lineage.Proofs.TimeSlices

/-! # What a backfill brings up to date

A backfill requests the published items whose type the table has rules for, and the cycle
after it reindexes these. When the rules change, an index that was exact under the old table
becomes exact under the new one for the selected items. All others keep the edges that they
had: an item of a type that is no longer in the table, and one that is not published, are not
looked at again. -/

namespace Lineage

namespace Queue

/-- The items that a backfill requests, in ascending order. -/
def selected (rules : RuleTable) (table : ItemTable) : List NodeId :=
  (table.rows.filter fun row => row.published && rules.keys.contains row.contentType).map
    ItemRow.id

theorem mem_selected {rules : RuleTable} {table : ItemTable} {id : NodeId} :
    id ∈ selected rules table ↔ ∃ row, table.find? id = some row ∧
      row.published = true ∧ row.contentType ∈ rules.keys := by
  unfold selected
  simp only [List.mem_map, List.mem_filter, Bool.and_eq_true, List.contains_iff_mem,
    ItemTable.find?_eq_some_iff]
  constructor
  · rintro ⟨row, ⟨hrow, hselected⟩, rfl⟩
    exact ⟨row, ⟨hrow, rfl⟩, hselected⟩
  · rintro ⟨row, ⟨hrow, rfl⟩, hselected⟩
    exact ⟨row, ⟨hrow, hselected⟩, rfl⟩

end Queue

namespace Database
open Queue (selected HasTime)
variable {db : Database} {items : ItemTable} {queue : Numbered QueueEntry} {rules : RuleTable}

theorem isStatable_publishedOf (types : List String) :
    (ContentFilter.publishedOf types).isStatable = true ↔
      types.length + 3 ≤ ContentFilter.boundValues := by
  simp [ContentFilter.isStatable, ContentFilter.publishedOf]

theorem select_publishedOf {types : List String} (h : types ≠ []) (rows : List ItemRow) :
    (ContentFilter.publishedOf types).select rows =
      rows.filter fun row => row.published && types.contains row.contentType := by
  have htypes : types.isEmpty = false := by simpa using h
  simp only [ContentFilter.select, ContentFilter.publishedOf, List.drop_zero]
  refine List.filter_congr fun row _ => ?_
  simp [ContentFilter.accepts, htypes, Bool.and_comm]

/-- A backfill requests the selected items behind all that wait already, unless the table has
more types than a statement can be given. -/
theorem perform_backfill (hitems : db.items = some items) (hqueue : db.queue = some queue)
    (rules : RuleTable) : db.perform (Queue.backfill rules) =
      if rules.length + 3 ≤ ContentFilter.boundValues then
        (.ok (selected rules items).length,
          { db with queue := some (queue.addAll ((selected rules items).map Queue.request)) })
      else (.error (.database "too many SQL variables"), db) := by
  unfold Queue.backfill
  cases rules with
  | nil =>
    have hnone : selected [] items = [] := by
      simp [selected, Dictionary.keys]
    rw [if_pos (by decide), hnone]
    show (Except.ok 0, db) = (Except.ok 0, { db with queue := some queue })
    rw [← hqueue]
  | cons rule rest =>
    have hkeys : Dictionary.keys (rule :: rest) ≠ [] := by simp [Dictionary.keys]
    have hlength : (Dictionary.keys (rule :: rest)).length = (rule :: rest).length :=
      List.length_map _
    have hfind := perform_findIds hitems (.publishedOf (Dictionary.keys (rule :: rest)))
    rw [select_publishedOf hkeys] at hfind
    rw [if_neg (by simp)]
    by_cases hsmall : (rule :: rest).length + 3 ≤ ContentFilter.boundValues
    · rw [if_pos ((isStatable_publishedOf _).2 (by rwa [hlength]))] at hfind
      rw [perform_bind_ok hfind, perform_enqueueAll hqueue, if_pos hsmall]
      rfl
    · rw [if_neg fun h => hsmall (by rw [← hlength]; exact (isStatable_publishedOf _).1 h)] at hfind
      rw [perform_bind_error hfind, if_neg hsmall]

/-- A cycle always reports. If it had time for all requests, it has reindexed their items in turn,
and for the items and the edges it has done nothing else. -/
theorem cycle_in_time (hqueue : db.queue = some queue) (rules : RuleTable)
    {settings : Queue.CycleSettings} (hsome : 1 ≤ settings.batchSize)
    (hsize : settings.batchSize ≤ Text.maxSigned64) : ∃ report after,
      db.perform (Queue.cycle rules settings) = (.ok report, after) ∧
        (report.timedOut = false ↔ HasTime settings.slice queue.rows.length) ∧
        (report.timedOut = false → after.items = db.items ∧
          after.edges = (db.afterReindexes rules (queue.rows.map (·.value.item))).edges) := by
  obtain ⟨report, after, hcycle, htime, hvisits⟩ := cycle_ends hqueue rules hsome hsize
  refine ⟨report, after, hcycle, htime, fun hdone => ?_⟩
  obtain ⟨left, -, -, hrun⟩ := perform_visitEach rules settings.maxFailures hqueue
    (show queue.rows = [] ++ queue.rows ++ [] by simp) .start
  obtain ⟨-, hafter⟩ := Prod.mk.inj ((hvisits hdone).symm.trans hrun)
  rw [afterReindexes_eq] at hafter
  rw [hafter]
  exact ⟨rfl, rfl⟩

/-- Where nothing waited before, a cycle reindexes what was requested, if it has time for it. -/
theorem cycle_of_requests (db : Database) {queue : Numbered QueueEntry} (hempty : queue.rows = [])
    (ids : List NodeId) (rules : RuleTable) {settings : Queue.CycleSettings}
    (hsome : 1 ≤ settings.batchSize) (hsize : settings.batchSize ≤ Text.maxSigned64) :
    ∃ report after,
      { db with queue := some (queue.addAll (ids.map Queue.request)) }.perform
          (Queue.cycle rules settings) = (.ok report, after) ∧
        (report.timedOut = false ↔ HasTime settings.slice ids.length) ∧
        (report.timedOut = false → after.items = db.items ∧
          after.edges = (db.afterReindexes rules ids).edges) := by
  have hids : (queue.addAll (ids.map Queue.request)).rows.map (·.value.item) = ids := by
    have hvalues : (queue.addAll (ids.map Queue.request)).values = ids.map Queue.request := by
      rw [Numbered.values_addAll, Numbered.values, hempty]
      rfl
    have hitems := congrArg (List.map QueueEntry.item) hvalues
    simpa [Numbered.values, Function.comp_def, Queue.request] using hitems
  have hlength : (queue.addAll (ids.map Queue.request)).rows.length = ids.length := by
    rw [← List.length_map (·.value.item), hids]
  obtain ⟨report, after, hcycle, htime, hdone⟩ := cycle_in_time
    (show { db with queue := some (queue.addAll (ids.map Queue.request)) }.queue = some _ from rfl)
    rules hsome hsize
  rw [hlength] at htime
  refine ⟨report, after, hcycle, htime, fun hinTime => ?_⟩
  obtain ⟨hafterItems, hafterEdges⟩ := hdone hinTime
  rw [hids, afterReindexes_setQueue] at hafterEdges
  exact ⟨hafterItems, hafterEdges⟩

/-! ## Rules that change -/

/-- The index is in line with a table: no request waits, and every item has the edges that it
asserts under the table. -/
structure InLine (rules : RuleTable) (db : Database) : Prop where
  quiet : ∃ queue, db.queue = some queue ∧ queue.rows = []
  shown : ∀ id, ∃ stored, db.stored id = .ok stored ∧
    db.edgesOf id = .ok (Edges.asserted rules stored)

/-- A published item is stored under the id, and its type is one of those with rules. -/
def Selects (db : Database) (rules : RuleTable) (id : NodeId) : Prop :=
  ∃ row, db.row? id = some row ∧ row.published = true ∧ row.contentType ∈ rules.keys

theorem InLine.tables {old : RuleTable} (h : db.InLine old) :
    (∃ items, db.items = some items) ∧ ∃ edges, db.edges = some edges := by
  obtain ⟨stored, hstored, hedges⟩ := h.shown 0
  constructor
  · cases hitems : db.items with
    | some items => exact ⟨items, rfl⟩
    | none =>
      unfold Database.stored at hstored
      rw [perform_load_missing hitems] at hstored
      cases hstored
  · cases htable : db.edges with
    | some edges => exact ⟨edges, rfl⟩
    | none =>
      unfold edgesOf Edges.ofReporter at hedges
      rw [perform_bind_error (perform_edges_missing htable)] at hedges
      cases hedges

/-- After the rules have changed, a backfill and a cycle that has time for what the backfill
requested bring the selected items in line with the new table. All other items keep the edges
that they have under the old one. The backfill fails only under a table of too many types. -/
theorem backfill_refreshes_selected {old : RuleTable} (hold : db.InLine old) (hown : db.OwnTexts)
    (new : RuleTable) :
    match db.perform (Queue.backfill new) with
    | (.error _, after) => ContentFilter.boundValues < new.length + 3 ∧ after = db
    | (.ok requested, queued) => new.length + 3 ≤ ContentFilter.boundValues ∧
        ∀ settings : Queue.CycleSettings, 1 ≤ settings.batchSize →
          settings.batchSize ≤ Text.maxSigned64 → ∃ report after,
            queued.perform (Queue.cycle new settings) = (.ok report, after) ∧
              (report.timedOut = false ↔ HasTime settings.slice requested) ∧
              (report.timedOut = false → ∀ id, ∃ stored,
                db.stored id = .ok stored ∧ after.stored id = .ok stored ∧
                (db.Selects new id → after.edgesOf id = .ok (Edges.asserted new stored)) ∧
                (¬ db.Selects new id →
                  after.edgesOf id = .ok (Edges.asserted old stored))) := by
  obtain ⟨⟨items, hitems⟩, edges, hedges⟩ := hold.tables
  obtain ⟨queue, hqueue, hempty⟩ := hold.quiet
  rw [perform_backfill hitems hqueue]
  by_cases hsmall : new.length + 3 ≤ ContentFilter.boundValues
  · rw [if_pos hsmall]
    refine ⟨hsmall, fun settings hsome hsize => ?_⟩
    obtain ⟨report, after, hcycle, htime, hdone⟩ :=
      cycle_of_requests db hempty (selected new items) new hsome hsize
    refine ⟨report, after, hcycle, htime, fun hinTime id => ?_⟩
    obtain ⟨hafterItems, hafterEdges⟩ := hdone hinTime
    obtain ⟨stored, hstored, hshown⟩ := hold.shown id
    have hselects : id ∈ selected new items ↔ db.Selects new id := by
      unfold Selects row?
      rw [Queue.mem_selected, hitems]
      rfl
    refine ⟨stored, hstored, (stored_congr hafterItems id).trans hstored, fun hin => ?_,
      fun hout => ?_⟩
    · rw [edgesOf_congr hafterEdges]
      exact edgesOf_afterReindexes hown (by rw [hedges]; rfl) (hselects.2 hin) hstored
    · rw [edgesOf_congr hafterEdges,
        edgesOf_afterReindexes_kept hown (Or.inl fun hin => hout (hselects.1 hin)), hshown]
  · rw [if_neg hsmall]
    exact ⟨Nat.lt_of_not_le hsmall, rfl⟩

def keeping (item : Item) (edges : List Edge) : Database where
  items := some (ItemTable.empty.put (.ofItem item none))
  edges := some (Numbered.empty.addAll edges)
  queue := some .empty
  ledger := some []
  otherTables := []

section
variable {item : Item} {edges : List Edge}

theorem stored_keeping (hread : Item.ofText? item.text = some item) (id : NodeId) :
    (keeping item edges).stored id = .ok (if id = item.id then some item else none) := by
  by_cases hid : id = item.id
  · subst hid
    rw [if_pos rfl]
    exact stored_row rfl (ItemTable.find?_put_self (.ofItem item none) .empty) hread
  · rw [if_neg hid, stored_of_items rfl, ItemTable.find?_put_of_ne (by exact Ne.symm hid)]
    rfl

theorem inLine_keeping (hread : Item.ofText? item.text = some item) {rules : RuleTable}
    (hedges : edges = Edges.asserted rules (some item)) : (keeping item edges).InLine rules where
  quiet := ⟨.empty, rfl, rfl⟩
  shown := by
    intro id
    refine ⟨_, stored_keeping hread id, ?_⟩
    rw [edgesOf_table rfl, Numbered.values_addAll]
    have hreporter : ∀ e ∈ edges, e.reporter = item.id := by
      rw [hedges]
      exact fun e he => Edges.reporter_of_mem he
    refine congrArg Except.ok ?_
    show Edges.assertedBy id edges = _
    unfold Edges.assertedBy
    by_cases hid : id = item.id
    · rw [if_pos hid, ← hedges, List.filter_eq_self]
      intro e he
      simp [hreporter e he, hid]
    · rw [if_neg hid, Edges.asserted, List.filter_eq_nil_iff]
      intro e he
      simpa [hreporter e he] using Ne.symm hid

theorem ownTexts_keeping : (keeping item edges).OwnTexts := by
  rintro items ⟨⟩
  exact ItemTable.ownTexts_empty.put item none

end

/-- Rules under which what was the parent of an advisory is its child. -/
def turnedRules : RuleTable := [("advisory", TypeRules.mk none [.reference "field_advisory_ref_organization"])]

/-- Rules that do not speak of advisories. -/
def eventRules : RuleTable := [("event", RuleTable.childOf "field_event_ref_parents")]

def unhurried : Queue.CycleSettings := ⟨none, 50, 3⟩

theorem hasTime_unhurried (requests : Nat) : HasTime unhurried.slice requests := by
  rintro n ⟨⟩

/-- After its rule was turned round, a backfill and a cycle turn the edge of item 2. -/
theorem turned_rule_turns_edge : (keeping straying [⟨2, 5, 2⟩]).InLine RuleTable.builtin ∧
    ∃ queued report after,
      (keeping straying [⟨2, 5, 2⟩]).perform (Queue.backfill turnedRules) = (.ok 1, queued) ∧
        queued.perform (Queue.cycle turnedRules unhurried) = (.ok report, after) ∧
        after.edgesOf 2 = .ok [⟨2, 2, 5⟩] := by
  have hold : (keeping straying [⟨2, 5, 2⟩]).InLine RuleTable.builtin :=
    inLine_keeping ofText_straying asserted_straying.symm
  have hselects : (keeping straying [⟨2, 5, 2⟩]).Selects turnedRules 2 :=
    ⟨_, ItemTable.find?_put_self (.ofItem straying none) .empty, rfl, by decide⟩
  have hbackfill := perform_backfill
    (show (keeping straying [⟨2, 5, 2⟩]).items = some _ from rfl) rfl turnedRules
  rw [if_pos (by decide)] at hbackfill
  have hrun := backfill_refreshes_selected hold ownTexts_keeping turnedRules
  rw [hbackfill] at hrun
  obtain ⟨-, hcycles⟩ := hrun
  obtain ⟨report, after, hcycle, htime, hshown⟩ := hcycles unhurried (by decide) (by decide)
  obtain ⟨stored, hstored, -, hin, -⟩ := hshown (htime.2 (hasTime_unhurried _)) 2
  rw [stored_keeping ofText_straying] at hstored
  obtain rfl := Except.ok.inj hstored
  exact ⟨hold, _, report, after, hbackfill, hcycle, hin hselects⟩

/-- After a backfill and a cycle every item has the edges that it asserts under the table. -/
def BringsInLine (new : RuleTable) (db : Database) : Prop :=
  ∀ (settings : Queue.CycleSettings) (requested : Nat) (queued : Database)
    (report : Queue.CycleReport) (after : Database),
    db.perform (Queue.backfill new) = (.ok requested, queued) →
    queued.perform (Queue.cycle new settings) = (.ok report, after) → report.timedOut = false →
    ∀ id, ∃ stored, db.stored id = .ok stored ∧
      after.edgesOf id = .ok (Edges.asserted new stored)

theorem not_bringsInLine {new : RuleTable} {id : NodeId} {stored : Option Item}
    (hitems : db.items = some items) (hqueue : db.queue = some .empty)
    (hsmall : new.length + 3 ≤ ContentFilter.boundValues) (hstored : db.stored id = .ok stored)
    (hother : (db.afterReindexes new (selected new items)).edgesOf id ≠
      .ok (Edges.asserted new stored)) : ¬ db.BringsInLine new := by
  intro h
  have hbackfill := perform_backfill hitems hqueue new
  rw [if_pos hsmall] at hbackfill
  obtain ⟨report, after, hcycle, htime, hdone⟩ := cycle_of_requests db
    (show (Numbered.empty : Numbered QueueEntry).rows = [] from rfl) (selected new items) new
    (show 1 ≤ unhurried.batchSize by decide) (by decide)
  have hinTime := htime.2 (hasTime_unhurried _)
  obtain ⟨found, hfound, hedges⟩ := h unhurried _ _ report after hbackfill hcycle hinTime id
  obtain rfl : stored = found := Except.ok.inj (hstored.symm.trans hfound)
  rw [edgesOf_congr (hdone hinTime).2] at hedges
  exact hother hedges

/-- Three indexes that are in line with the rules and are not after the rules have changed and a
backfill was run: of an item whose type has lost its rules, of one that is not published, and
of one that is stored under a foreign id. -/
theorem backfill_is_not_enough :
    ((keeping straying [⟨2, 5, 2⟩]).InLine RuleTable.builtin ∧
      ¬ (keeping straying [⟨2, 5, 2⟩]).BringsInLine eventRules) ∧
    ((keeping straying.unpublished []).InLine eventRules ∧
      ¬ (keeping straying.unpublished []).BringsInLine RuleTable.builtin) ∧
    ((holding 1).InLine eventRules ∧ ¬ (holding 1).BringsInLine RuleTable.builtin) := by
  have hunpublished : Item.ofText? straying.unpublished.text = some straying.unpublished := by
    rw [Item.ofText_text]
    rfl
  refine ⟨⟨inLine_keeping ofText_straying asserted_straying.symm, ?_⟩,
    ⟨inLine_keeping hunpublished rfl, ?_⟩, ⟨⟨.empty, rfl, rfl⟩, fun id => ?_⟩, ?_⟩
  · refine not_bringsInLine rfl rfl (by decide) (stored_keeping ofText_straying 2) ?_
    show (keeping straying [⟨2, 5, 2⟩]).edgesOf 2 ≠ .ok []
    rw [edgesOf_table rfl]
    decide
  · refine not_bringsInLine rfl rfl (by decide) (stored_keeping hunpublished 2) ?_
    show (keeping straying.unpublished []).edgesOf 2 ≠ .ok [⟨2, 5, 2⟩]
    rw [edgesOf_table rfl]
    decide
  · refine ⟨_, stored_heldUnder 1 id, ?_⟩
    rw [edgesOf_table rfl]
    unfold heldUnder
    split <;> rfl
  · refine not_bringsInLine rfl rfl (by decide) (stored_heldUnder 1 1) ?_
    have hedges : ((holding 1).afterReindexes RuleTable.builtin [1]).edges =
        some (Edges.replace 1 [⟨2, 5, 2⟩] .empty) :=
      afterReindexes_edges fun id _ => stored_heldUnder 1 id
    show ((holding 1).afterReindexes RuleTable.builtin [1]).edgesOf 1 ≠ .ok [⟨2, 5, 2⟩]
    rw [edgesOf_table hedges]
    decide

end Database

end Lineage
