import Lineage.Proofs.StoredItems

/-! # A reindex replaces the edges of one item

A reindex is a transaction with three ends: the item is stored and its edges are
replaced, nothing is stored and its edges go, or a table or a readable text is
missing and nothing happens. What it does is said here once (`perform_reindex`,
`perform_reindex_error`); seen through the readings, it exchanges the list of one
reporter and leaves all other lists alone, provided that the stored text is that
of an item with the id under which it stands. -/

namespace Lineage

namespace Edges

/-- The edges that what is stored under an id asserts. -/
def asserted (rules : RuleTable) : Option Item → List Edge
  | some item => (item.relationships rules).edges
  | none => []

theorem reporter_of_mem {item : Item} {rules : RuleTable} {e : Edge}
    (h : e ∈ (item.relationships rules).edges) : e.reporter = item.id := by
  unfold Item.relationships at h
  split at h
  · simp [Relationships.none, Relationships.edges] at h
  · rcases List.mem_append.1 h with h | h
    · obtain ⟨_, _, rfl⟩ := List.mem_map.1 h
      rfl
    · obtain ⟨_, _, rfl⟩ := List.mem_map.1 h
      rfl

/-- A stored item that carries the id under which it stands reports under that id only. -/
theorem reporter_of_mem_asserted {rules : RuleTable} {stored : Option Item} {id : NodeId}
    (hid : ∀ item, stored = some item → item.id = id) {e : Edge}
    (h : e ∈ asserted rules stored) : e.reporter = id := by
  cases stored with
  | none => cases h
  | some item => exact (reporter_of_mem h).trans (hid item rfl)

theorem values_replace (id : NodeId) (new : List Edge) (table : Numbered Edge) :
    (replace id new table).values =
      (table.values.filter fun e => e.reporter != id) ++ new := by
  unfold replace
  rw [Numbered.values_addAll, Numbered.values_keep fun e : Edge => e.reporter != id]

section
variable {id : NodeId} {new : List Edge}

theorem assertedBy_replace (hnew : ∀ e ∈ new, e.reporter = id) (old : List Edge) :
    assertedBy id ((old.filter fun e => e.reporter != id) ++ new) = new := by
  unfold assertedBy
  rw [List.filter_append, List.filter_filter]
  have hold : old.filter (fun e => e.reporter == id && e.reporter != id) = [] := by
    rw [List.filter_eq_nil_iff]
    intro e _
    simp
  rw [hold, List.nil_append, List.filter_eq_self]
  intro e he
  simpa using hnew e he

theorem assertedBy_replace_other (hnew : ∀ e ∈ new, e.reporter = id) {other : NodeId}
    (hne : other ≠ id) (old : List Edge) :
    assertedBy other ((old.filter fun e => e.reporter != id) ++ new) = assertedBy other old := by
  unfold assertedBy
  rw [List.filter_append, List.filter_filter]
  have hnone : new.filter (fun e => e.reporter == other) = [] := by
    rw [List.filter_eq_nil_iff]
    intro e he
    simpa [hnew e he] using hne.symm
  rw [hnone, List.append_nil]
  refine List.filter_congr fun e _ => ?_
  by_cases he : e.reporter = other
  · simp [he, hne]
  · simp [he]

theorem childrenOf_append (old new : List Edge) (parent : NodeId) :
    childrenOf (old ++ new) parent = childrenOf old parent ++ childrenOf new parent := by
  simp [childrenOf]

theorem replace_again (hnew : ∀ e ∈ new, e.reporter = id) (old : List Edge) :
    (((old.filter fun e => e.reporter != id) ++ new).filter fun e => e.reporter != id) ++ new =
      (old.filter fun e => e.reporter != id) ++ new := by
  have hnone : new.filter (fun e => e.reporter != id) = [] := by
    rw [List.filter_eq_nil_iff]
    intro e he
    simpa using hnew e he
  rw [List.filter_append, List.filter_filter, hnone, List.append_nil]
  simp

end
end Edges

namespace Edges

def outcome (rules : RuleTable) (id : NodeId) (stored : Option Item) (table : Numbered Edge) :
    ReindexOutcome :=
  { item := id
    removed := (assertedBy id table.values).length
    inserted := (asserted rules stored).length
    found := stored.isSome }

end Edges

namespace Database
variable {db : Database} {id : NodeId}

theorem perform_reindex {table : Numbered Edge} {stored : Option Item}
    (htable : db.edges = some table) (hstored : db.stored id = .ok stored) (rules : RuleTable) :
    db.perform (Edges.reindex rules id) = (.ok (Edges.outcome rules id stored table),
      { db with edges := some (Edges.replace id (Edges.asserted rules stored) table) }) := by
  have hload : db.perform (Content.load? id) = (.ok stored, db) := by
    rw [perform_load, hstored]
  unfold Edges.reindex
  apply perform_transaction_ok
  rw [perform_bind_ok (perform_edges htable), perform_bind_ok hload]
  cases stored <;> rfl

theorem perform_reindex_missing (h : db.edges = none) (rules : RuleTable) (id : NodeId) :
    db.perform (Edges.reindex rules id) =
      (.error (.database "no such table: descendant_relations"), db) := by
  unfold Edges.reindex
  exact perform_transaction_error (perform_bind_error (perform_edges_missing h) _)

theorem perform_reindex_unreadable {table : Numbered Edge} {e : Failure}
    (htable : db.edges = some table) (hstored : db.stored id = .error e) (rules : RuleTable) :
    db.perform (Edges.reindex rules id) = (.error e, db) := by
  have hload : db.perform (Content.load? id) = (.error e, db) := by rw [perform_load, hstored]
  unfold Edges.reindex
  exact perform_transaction_error
    ((perform_bind_ok (perform_edges htable) _).trans (perform_bind_error hload _))

/-- The three ends of a reindex. It succeeds exactly when both tables are there and the
stored text, if there is one, holds an item. -/
theorem reindex_cases (db : Database) (rules : RuleTable) (id : NodeId) :
    (∃ table stored, db.edges = some table ∧ db.stored id = .ok stored ∧
      db.perform (Edges.reindex rules id) = (.ok (Edges.outcome rules id stored table),
        { db with edges := some (Edges.replace id (Edges.asserted rules stored) table) })) ∨
    ((db.edges = none ∨ ∃ e, db.stored id = .error e) ∧
      ∃ e, db.perform (Edges.reindex rules id) = (.error e, db)) := by
  cases htable : db.edges with
  | none => exact Or.inr ⟨Or.inl rfl, _, perform_reindex_missing htable rules id⟩
  | some table =>
    cases hstored : db.stored id with
    | error e => exact Or.inr ⟨Or.inr ⟨e, rfl⟩, e, perform_reindex_unreadable htable hstored rules⟩
    | ok stored =>
      exact Or.inl ⟨table, stored, rfl, rfl, perform_reindex htable hstored rules⟩

/-- How a reindex ends: with a failure, or with whether the item is stored. -/
def finding (db : Database) (rules : RuleTable) (id : NodeId) : Except Failure Bool :=
  (db.perform (Edges.reindex rules id)).1.map ReindexOutcome.found

/-- The database after a reindex was tried. -/
def afterReindex (db : Database) (rules : RuleTable) (id : NodeId) : Database :=
  (db.perform (Edges.reindex rules id)).2

/-- The database after several items were reindexed in turn, as far as that succeeds. -/
def afterReindexes (db : Database) (rules : RuleTable) (ids : List NodeId) : Database :=
  ids.foldl (fun db id => db.afterReindex rules id) db

section
variable (db : Database) (rules : RuleTable) (id : NodeId)

theorem afterReindex_eq :
    db.afterReindex rules id = { db with edges := (db.afterReindex rules id).edges } := by
  unfold afterReindex
  rcases reindex_cases db rules id with ⟨_, _, _, _, h⟩ | ⟨_, _, h⟩ <;> rw [h]

@[simp] theorem afterReindex_items : (db.afterReindex rules id).items = db.items := by
  rw [afterReindex_eq]

@[simp] theorem afterReindex_queue : (db.afterReindex rules id).queue = db.queue := by
  rw [afterReindex_eq]

theorem afterReindex_edges : (db.afterReindex rules id).edges =
    match db.stored id with
    | .ok stored => db.edges.map (Edges.replace id (Edges.asserted rules stored))
    | .error _ => db.edges := by
  unfold afterReindex
  cases htable : db.edges with
  | none =>
    rw [perform_reindex_missing htable]
    cases db.stored id <;> exact htable
  | some table =>
    cases hstored : db.stored id with
    | error e =>
      rw [perform_reindex_unreadable htable hstored]
      exact htable
    | ok stored => rw [perform_reindex htable hstored]; rfl

@[simp] theorem afterReindex_edges_isSome :
    (db.afterReindex rules id).edges.isSome = db.edges.isSome := by
  rw [afterReindex_edges]
  cases db.stored id <;> simp

theorem finding_eq : db.finding rules id =
    if db.edges.isSome then (db.stored id).map Option.isSome
    else .error (.database "no such table: descendant_relations") := by
  unfold finding
  cases htable : db.edges with
  | none =>
    rw [perform_reindex_missing htable]
    rfl
  | some table =>
    cases hstored : db.stored id with
    | error e =>
      rw [perform_reindex_unreadable htable hstored]
      rfl
    | ok stored =>
      rw [perform_reindex htable hstored]
      rfl

end

theorem afterReindexes_eq (rules : RuleTable) (ids : List NodeId) (db : Database) :
    db.afterReindexes rules ids = { db with edges := (db.afterReindexes rules ids).edges } := by
  induction ids generalizing db with
  | nil => rfl
  | cons id rest ih =>
    have hstep : db.afterReindexes rules (id :: rest) =
      (db.afterReindex rules id).afterReindexes rules rest := rfl
    rw [hstep, ih, afterReindex_eq]

/-- How a reindex ends is decided by the items and by whether there is a table of edges,
neither of which a reindex changes. -/
theorem finding_congr {db db' : Database} (hitems : db'.items = db.items)
    (hedges : db'.edges.isSome = db.edges.isSome) (rules : RuleTable) (id : NodeId) :
    db'.finding rules id = db.finding rules id := by
  rw [finding_eq, finding_eq, hedges, stored_congr hitems]

theorem afterReindex_setQueue (db : Database) (queue : Option (Numbered QueueEntry))
    (rules : RuleTable) (id : NodeId) :
    { db with queue }.afterReindex rules id = { db.afterReindex rules id with queue } := by
  have hedges : ({ db with queue }.afterReindex rules id).edges =
      (db.afterReindex rules id).edges := by
    have hstored := stored_congr (show { db with queue }.items = db.items from rfl) id
    rw [afterReindex_edges, afterReindex_edges, hstored]
  rw [afterReindex_eq, hedges, afterReindex_eq db]

theorem afterReindexes_setQueue (queue : Option (Numbered QueueEntry)) (rules : RuleTable)
    (ids : List NodeId) (db : Database) :
    { db with queue }.afterReindexes rules ids = { db.afterReindexes rules ids with queue } := by
  induction ids generalizing db with
  | nil => rfl
  | cons id rest ih =>
    show ({ db with queue }.afterReindex rules id).afterReindexes rules rest = _
    rw [afterReindex_setQueue, ih]
    rfl

/-! ## What the readings show of it -/

/-- The effect of a successful reindex, whatever item the stored text holds. The rows of
the reporter go, and the new ones stand behind all others. -/
structure Reindexed (rules : RuleTable) (id : NodeId) (stored : Option Item)
    (before : Database) (outcome : ReindexOutcome) (after : Database) : Prop where
  item : outcome.item = id
  found : outcome.found = stored.isSome
  removed : (before.edgesOf id).map List.length = .ok outcome.removed
  inserted : outcome.inserted = (Edges.asserted rules stored).length
  /-- Items, queue and ledger are those from before. -/
  elsewhere : after = { before with edges := after.edges }
  children : ∃ table, before.edges = some table ∧ ∀ parent, after.childrenOf parent =
    .ok (Edges.childrenOf (table.values.filter fun e => e.reporter != id) parent ++
      Edges.childrenOf (Edges.asserted rules stored) parent)

/-- The effect on the lists of reporters, and that there is nothing left to do. -/
structure ReportsOwn (rules : RuleTable) (id : NodeId) (stored : Option Item)
    (before after : Database) : Prop where
  own : after.edgesOf id = .ok (Edges.asserted rules stored)
  others : ∀ other, other ≠ id → after.edgesOf other = before.edgesOf other
  again : ∃ outcome later, after.perform (Edges.reindex rules id) = (.ok outcome, later) ∧
    (∀ reporter, later.edgesOf reporter = after.edgesOf reporter) ∧
    (∀ parent, later.childrenOf parent = after.childrenOf parent) ∧
    later.edgeCount = after.edgeCount

section
variable {rules : RuleTable} {table : Numbered Edge} {stored : Option Item}
variable (htable : db.edges = some table)
include htable

theorem reindexed :
    Reindexed rules id stored db (Edges.outcome rules id stored table)
      { db with edges := some (Edges.replace id (Edges.asserted rules stored) table) } where
  item := rfl
  found := rfl
  removed := by
    rw [edgesOf_table htable]
    rfl
  inserted := rfl
  elsewhere := rfl
  children := by
    refine ⟨table, htable, fun parent => ?_⟩
    rw [childrenOf_table rfl, Edges.values_replace, Edges.childrenOf_append]

theorem reportsOwn {after : Database} (hitems : after.items = db.items)
    (hafter : after.edges = some (Edges.replace id (Edges.asserted rules stored) table))
    (hstored : db.stored id = .ok stored) (hid : ∀ item, stored = some item → item.id = id) :
    ReportsOwn rules id stored db after := by
  have hnew : ∀ e ∈ Edges.asserted rules stored, e.reporter = id :=
    fun e => Edges.reporter_of_mem_asserted hid
  refine ⟨?_, fun other hne => ?_, ?_⟩
  · rw [edgesOf_table hafter, Edges.values_replace, Edges.assertedBy_replace hnew]
  · rw [edgesOf_table hafter, edgesOf_table htable, Edges.values_replace,
      Edges.assertedBy_replace_other hnew hne]
  · -- the second reindex finds the same item, and only numbers its edges anew
    have hagain : (Edges.replace id (Edges.asserted rules stored)
        (Edges.replace id (Edges.asserted rules stored) table)).values =
        (Edges.replace id (Edges.asserted rules stored) table).values := by
      rw [Edges.values_replace, Edges.values_replace, Edges.replace_again hnew]
    refine ⟨_, _, perform_reindex hafter ((stored_congr hitems id).trans hstored) rules,
      fun reporter => ?_, fun parent => ?_, ?_⟩
    · rw [edgesOf_table rfl, edgesOf_table hafter, hagain]
    · rw [childrenOf_table rfl, childrenOf_table hafter, hagain]
    · rw [edgeCount_table rfl, edgeCount_table hafter, hagain]

end

/-- A reindex that fails changes nothing, and fails only for want of a table or of a
readable text. One that succeeds puts the edges that the stored item asserts in the
place of those the reporter had. When the text is that of an item with the id under which
it stands, no other reporter's list changes and a second reindex changes no list. -/
theorem reindex_replaces_edges (db : Database) (rules : RuleTable) (id : NodeId) :
    match db.perform (Edges.reindex rules id) with
    | (.error _, after) => after = db ∧ (db.edges = none ∨ ∃ e, db.stored id = .error e)
    | (.ok outcome, after) => ∃ stored, db.stored id = .ok stored ∧
        Reindexed rules id stored db outcome after ∧
        ((∀ item, stored = some item → item.id = id) → ReportsOwn rules id stored db after) := by
  rcases reindex_cases db rules id with ⟨table, stored, htable, hstored, h⟩ | ⟨hwant, e, h⟩
  · rw [h]
    exact ⟨stored, hstored, reindexed htable, fun hid => reportsOwn htable rfl rfl hstored hid⟩
  · rw [h]
    exact ⟨rfl, hwant⟩

/-- An item with the id 2 that asserts one edge. -/
def straying : Item :=
  (Item.new 2 "advisory").withField "field_advisory_ref_organization" [.reference 5]

def holding (id : NodeId) : Database where
  items := some (ItemTable.empty.put { ItemRow.ofItem straying none with id })
  edges := some .empty
  queue := some .empty
  ledger := some []
  otherTables := []

theorem ofText_straying : Item.ofText? straying.text = some straying := by
  rw [Item.ofText_text]
  rfl

theorem stored_holding (id : NodeId) : (holding id).stored id = .ok (some straying) := by
  have hrow : (ItemTable.empty.put { ItemRow.ofItem straying none with id }).find? id =
      some { ItemRow.ofItem straying none with id } := by
    simp only [ItemTable.find?, ItemTable.put, ItemTable.empty, ItemRow.put, List.find?_cons,
      beq_self_eq_true]
  exact stored_row rfl hrow ofText_straying

theorem asserted_straying :
    Edges.asserted RuleTable.builtin (some straying) = [⟨2, 5, 2⟩] := by
  rfl

/-- The text of item 2 under the id 1 reports under 2, so that a reindex of 1 changes the
list of another reporter. -/
theorem foreign_text_reports_elsewhere :
    ¬ ∀ (db : Database) (rules : RuleTable) (id : NodeId) (stored : Option Item)
        (outcome : ReindexOutcome) (after : Database), db.stored id = .ok stored →
        db.perform (Edges.reindex rules id) = (.ok outcome, after) →
        ReportsOwn rules id stored db after := by
  intro h
  have hrun := perform_reindex rfl (stored_holding 1) RuleTable.builtin
  have hothers := (h _ _ _ _ _ _ (stored_holding 1) hrun).others 2 (by decide)
  rw [edgesOf_table rfl, edgesOf_table rfl, Edges.values_replace, asserted_straying] at hothers
  exact absurd (Except.ok.inj hothers) (by decide)

end Database
end Lineage
