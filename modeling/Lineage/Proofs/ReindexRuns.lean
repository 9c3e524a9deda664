import Lineage.Proofs.Reachability
import Lineage.Proofs.ItemRows
import Lineage.Proofs.Reindex
import Mathlib.Data.Multiset.Basic

/-! # Reindexing several items

A request may be delivered twice, and requests for several items in any order. Each reindex
moves the edges of its item to the end of the table, so that two runs over the same items
leave different tables. What can be read from them is nevertheless the same: a run gives
every item that it reindexes the edges which the stored item asserts and leaves the list of
any other reporter alone, so the lists of all reporters are determined by which items were
reindexed. Two tables with the same lists hold the same edges, each as often, and the same
nodes can be reached in both. -/

namespace Lineage

namespace Edges

/-- Tables that show the same list for each reporter differ only in the order of rows. -/
theorem perm_of_assertedBy {old new : List Edge}
    (h : ∀ reporter, assertedBy reporter old = assertedBy reporter new) : old.Perm new := by
  refine List.perm_iff_count.2 fun e => ?_
  have hcount := congrArg (List.count e) (h e.reporter)
  unfold assertedBy at hcount
  rwa [List.count_filter (by simp), List.count_filter (by simp)] at hcount

theorem childrenOf_perm {old new : List Edge} (h : old.Perm new) (parent : NodeId) :
    (childrenOf old parent).Perm (childrenOf new parent) :=
  (h.filter _).map _

end Edges

namespace Database

/-- Two databases whose edges cannot be told apart except by the order in which the children
of a node are stored. -/
structure SameEdges (a b : Database) : Prop where
  lists : ∀ reporter, a.edgesOf reporter = b.edgesOf reporter
  count : a.edgeCount = b.edgeCount
  children : ∀ parent, (a.childrenOf parent).map Multiset.ofList =
    (b.childrenOf parent).map Multiset.ofList
  /-- Where no limit cuts an answer short, the same nodes are reached. -/
  reached : ∀ start limit flat flat',
    a.descendantsOf start .flat limit = .ok flat → b.descendantsOf start .flat limit = .ok flat' →
    1 + flat.length < limit → 1 + flat'.length < limit → ∃ unique unique',
      a.descendantsOf start .unique limit = .ok unique ∧
        b.descendantsOf start .unique limit = .ok unique' ∧ ∀ id, id ∈ unique ↔ id ∈ unique'

theorem SameEdges.refl (db : Database) : SameEdges db db where
  lists := fun _ => rfl
  count := rfl
  children := fun _ => rfl
  reached := by
    intro start limit flat _ hflat _ hwhole _
    cases htable : db.edges with
    | none =>
      rw [descendantsOf_missing htable (by omega)] at hflat
      cases hflat
    | some table =>
      obtain ⟨unique, hunique, -⟩ := mem_unique_iff htable hflat hwhole
      exact ⟨unique, unique, hunique, hunique, fun _ => Iff.rfl⟩

theorem sameEdges_of_lists {a b : Database} {old new : Numbered Edge} (ha : a.edges = some old)
    (hb : b.edges = some new) (h : ∀ reporter, a.edgesOf reporter = b.edgesOf reporter) :
    SameEdges a b := by
  have hperm : old.values.Perm new.values := Edges.perm_of_assertedBy fun reporter => by
    have hlist := h reporter
    rw [edgesOf_table ha, edgesOf_table hb] at hlist
    exact Except.ok.inj hlist
  have hchildren := Edges.childrenOf_perm hperm
  refine ⟨h, ?_, fun parent => ?_, fun start limit flat flat' hflat hflat' hwhole hwhole' => ?_⟩
  · rw [edgeCount_table ha, edgeCount_table hb, hperm.length_eq]
  · rw [childrenOf_table ha, childrenOf_table hb]
    exact congrArg Except.ok (Multiset.coe_eq_coe.2 (hchildren parent))
  · obtain ⟨unique, hunique, hmem⟩ := mem_unique_iff ha hflat hwhole
    obtain ⟨unique', hunique', hmem'⟩ := mem_unique_iff hb hflat' hwhole'
    have hstep : Descendants.Step (Edges.childrenOf old.values) =
        Descendants.Step (Edges.childrenOf new.values) := by
      funext parent child
      exact propext (hchildren parent).mem_iff
    refine ⟨unique, unique', hunique, hunique', fun id => ?_⟩
    rw [hmem, hmem', hstep]

/-- No stored text is that of an item with an id other than the one under which it stands. -/
def OwnTexts (db : Database) : Prop := ∀ items, db.items = some items → items.OwnTexts

variable {db : Database} {rules : RuleTable} {stored : Option Item} {id reporter : NodeId}

theorem OwnTexts.id_eq (h : db.OwnTexts) (hstored : db.stored id = .ok stored) :
    ∀ item, stored = some item → item.id = id := by
  rintro item rfl
  cases hitems : db.items with
  | none =>
    unfold Database.stored at hstored
    rw [perform_load_missing hitems] at hstored
    cases hstored
  | some items => exact id_of_stored hitems (h items hitems) hstored

theorem OwnTexts.congr {db' : Database} (h : db.OwnTexts) (hitems : db'.items = db.items) :
    db'.OwnTexts := fun items hsome => h items (hitems.symm.trans hsome)

theorem edgesOf_afterReindex_self (hown : db.OwnTexts) {table : Numbered Edge}
    (htable : db.edges = some table) (hstored : db.stored id = .ok stored) :
    (db.afterReindex rules id).edgesOf id = .ok (Edges.asserted rules stored) := by
  have hedges : (db.afterReindex rules id).edges =
      some (Edges.replace id (Edges.asserted rules stored) table) := by
    rw [afterReindex_edges, hstored, htable]
    rfl
  exact (reportsOwn htable (afterReindex_items db rules id) hedges hstored
    (hown.id_eq hstored)).own

theorem edgesOf_afterReindex_other (hown : db.OwnTexts) (hne : reporter ≠ id) :
    (db.afterReindex rules id).edgesOf reporter = db.edgesOf reporter := by
  cases hstored : db.stored id with
  | error e =>
    refine edgesOf_congr ?_ reporter
    rw [afterReindex_edges, hstored]
  | ok stored =>
    cases htable : db.edges with
    | none =>
      refine edgesOf_congr ?_ reporter
      rw [afterReindex_edges, hstored, htable]
      rfl
    | some table =>
      have hedges : (db.afterReindex rules id).edges =
          some (Edges.replace id (Edges.asserted rules stored) table) := by
        rw [afterReindex_edges, hstored, htable]
        rfl
      exact (reportsOwn htable (afterReindex_items db rules id) hedges hstored
        (hown.id_eq hstored)).others reporter hne

theorem afterReindexes_cons (rest : List NodeId) : db.afterReindexes rules (id :: rest) =
    (db.afterReindex rules id).afterReindexes rules rest := rfl

/-- An item that the run does not reindex keeps its list, and so does one whose text cannot be
read. -/
theorem edgesOf_afterReindexes_kept (hown : db.OwnTexts) {ids : List NodeId}
    (h : reporter ∉ ids ∨ ∃ e, db.stored reporter = .error e) :
    (db.afterReindexes rules ids).edgesOf reporter = db.edgesOf reporter := by
  induction ids generalizing db with
  | nil => rfl
  | cons id rest ih =>
    have hitems := afterReindex_items db rules id
    have hrest : reporter ∉ rest ∨ ∃ e, (db.afterReindex rules id).stored reporter = .error e := by
      rw [stored_congr hitems]
      exact h.imp_left fun hnot hmem => hnot (List.mem_cons_of_mem _ hmem)
    rw [afterReindexes_cons, ih (hown.congr hitems) hrest]
    by_cases hne : reporter = id
    · subst hne
      obtain ⟨e, hstored⟩ := h.resolve_left fun hnot => hnot List.mem_cons_self
      refine edgesOf_congr ?_ reporter
      rw [afterReindex_edges, hstored]
    · exact edgesOf_afterReindex_other hown hne

theorem edgesOf_afterReindexes (hown : db.OwnTexts) (hedges : db.edges.isSome) {ids : List NodeId}
    (hmem : reporter ∈ ids) (hstored : db.stored reporter = .ok stored) :
    (db.afterReindexes rules ids).edgesOf reporter = .ok (Edges.asserted rules stored) := by
  induction ids generalizing db with
  | nil => cases hmem
  | cons id rest ih =>
    have hitems := afterReindex_items db rules id
    rw [afterReindexes_cons]
    by_cases hrest : reporter ∈ rest
    · exact ih (hown.congr hitems) (by simpa using hedges) hrest
        ((stored_congr hitems reporter).trans hstored)
    · obtain rfl : reporter = id := (List.mem_cons.1 hmem).resolve_right hrest
      obtain ⟨table, htable⟩ := Option.isSome_iff_exists.1 hedges
      rw [edgesOf_afterReindexes_kept (hown.congr hitems) (Or.inl hrest)]
      exact edgesOf_afterReindex_self hown htable hstored

theorem afterReindexes_missing (h : db.edges = none) (ids : List NodeId) :
    db.afterReindexes rules ids = db := by
  induction ids with
  | nil => rfl
  | cons id rest ih =>
    have hsame : db.afterReindex rules id = db := by
      unfold afterReindex
      rw [perform_reindex_missing h]
    rw [afterReindexes_cons, hsame, ih]

@[simp] theorem afterReindexes_edges_isSome (ids : List NodeId) :
    (db.afterReindexes rules ids).edges.isSome = db.edges.isSome := by
  induction ids generalizing db with
  | nil => rfl
  | cons id rest ih => rw [afterReindexes_cons, ih, afterReindex_edges_isSome]

theorem afterReindexes_edges {found : NodeId → Option Item} {ids : List NodeId}
    (h : ∀ id ∈ ids, db.stored id = .ok (found id)) : (db.afterReindexes rules ids).edges =
      db.edges.map fun table => ids.foldl
        (fun table id => Edges.replace id (Edges.asserted rules (found id)) table) table := by
  induction ids generalizing db with
  | nil => simp [afterReindexes]
  | cons id rest ih =>
    obtain ⟨hid, hrest⟩ := List.forall_mem_cons.1 h
    have hitems := afterReindex_items db rules id
    rw [afterReindexes_cons, ih fun other hother => (stored_congr hitems other).trans
      (hrest other hother), afterReindex_edges, hid, Option.map_map]
    rfl

/-- Two runs over the same items, in whatever order and however often each, cannot be told
apart by their edges. A reindex that fails, for want of a table or of a readable text, fails
in both and changes nothing. -/
theorem reindex_order_irrelevant (hown : db.OwnTexts) (rules : RuleTable)
    {first second : List NodeId} (hsame : ∀ id, id ∈ first ↔ id ∈ second) :
    SameEdges (db.afterReindexes rules first) (db.afterReindexes rules second) := by
  cases htable : db.edges with
  | none =>
    rw [afterReindexes_missing htable, afterReindexes_missing htable]
    exact .refl db
  | some table =>
    have hedges : db.edges.isSome := by rw [htable]; rfl
    obtain ⟨old, hold⟩ : ∃ old, (db.afterReindexes rules first).edges = some old :=
      Option.isSome_iff_exists.1 (by simpa using hedges)
    obtain ⟨new, hnew⟩ : ∃ new, (db.afterReindexes rules second).edges = some new :=
      Option.isSome_iff_exists.1 (by simpa using hedges)
    refine sameEdges_of_lists hold hnew fun reporter => ?_
    cases hstored : db.stored reporter with
    | error e =>
      rw [edgesOf_afterReindexes_kept hown (Or.inr ⟨e, hstored⟩),
        edgesOf_afterReindexes_kept hown (Or.inr ⟨e, hstored⟩)]
    | ok stored =>
      by_cases hmem : reporter ∈ first
      · rw [edgesOf_afterReindexes hown hedges hmem hstored,
          edgesOf_afterReindexes hown hedges ((hsame reporter).1 hmem) hstored]
      · rw [edgesOf_afterReindexes_kept hown (Or.inl hmem),
          edgesOf_afterReindexes_kept hown (Or.inl fun h => hmem ((hsame reporter).2 h))]

def following : Item :=
  (Item.new 3 "advisory").withField "field_advisory_ref_organization" [.reference 2]

def chainItems : ItemTable :=
  (ItemTable.empty.put (.ofItem straying none)).put (.ofItem following none)

def chained : Database := { holding 2 with items := some chainItems }

def chainItem (id : NodeId) : Option Item :=
  if id = 2 then some straying else if id = 3 then some following else none

theorem ownTexts_chained : chained.OwnTexts := by
  rintro items ⟨⟩
  exact (ItemTable.ownTexts_empty.put straying none).put following none

theorem stored_chained : ∀ id ∈ [2, 3], chained.stored id = .ok (chainItem id) := by
  have htwo : chainItems.find? 2 = some (.ofItem straying none) := by
    unfold chainItems
    rw [ItemTable.find?_put_of_ne (show following.id ≠ 2 by decide)]
    exact ItemTable.find?_put_self (.ofItem straying none) .empty
  have hthree : chainItems.find? 3 = some (.ofItem following none) := by
    refine (ItemTable.find?_put_self (.ofItem following none) _).trans ?_
    rw [ItemTable.find?_put_of_ne (show straying.id ≠ 3 by decide)]
    rfl
  have hfollowing : Item.ofText? following.text = some following := by
    rw [Item.ofText_text]
    rfl
  intro id hid
  rcases List.mem_pair.1 hid with rfl | rfl
  · exact stored_row rfl htwo ofText_straying
  · exact stored_row rfl hthree hfollowing

/-- The table when the edge of item 2 was stored first. -/
theorem edges_forward : (chained.afterReindexes RuleTable.builtin [2, 3]).edges =
    some (Edges.replace 3 [⟨3, 2, 3⟩] (Edges.replace 2 [⟨2, 5, 2⟩] .empty)) :=
  afterReindexes_edges fun id hid => stored_chained id hid

/-- The table when the edge of item 3 was stored first, and that of item 2 twice. -/
theorem edges_backward : (chained.afterReindexes RuleTable.builtin [3, 2, 2]).edges =
    some (Edges.replace 2 [⟨2, 5, 2⟩]
      (Edges.replace 2 [⟨2, 5, 2⟩] (Edges.replace 3 [⟨3, 2, 3⟩] .empty))) :=
  afterReindexes_edges fun id hid => stored_chained id (by simpa [or_comm] using hid)

/-- The items 2 and 3 are found below item 5 whichever of their edges was stored first. -/
theorem chain_in_any_order :
    let forward := chained.afterReindexes RuleTable.builtin [2, 3]
    let backward := chained.afterReindexes RuleTable.builtin [3, 2, 2]
    forward.edges ≠ backward.edges ∧ SameEdges forward backward ∧ ∃ unique unique',
      forward.descendantsOf 5 .unique 4 = .ok unique ∧
        backward.descendantsOf 5 .unique 4 = .ok unique' ∧ ∀ id, id ∈ unique ↔ id ∈ unique' := by
  have hsame : ∀ id : NodeId, id ∈ [2, 3] ↔ id ∈ [3, 2, 2] := by
    intro id
    simp [or_comm]
  have hrun := reindex_order_irrelevant ownTexts_chained RuleTable.builtin hsame
  refine ⟨?_, hrun, hrun.reached 5 4 [2, 3] [2, 3] ?_ ?_ (by decide) (by decide)⟩
  · rw [edges_forward, edges_backward]
    decide
  · rw [descendantsOf_table edges_forward]
    decide
  · rw [descendantsOf_table edges_backward]
    decide

/-- What a database that holds the text of item 2 under one id holds under another. -/
def heldUnder (id other : NodeId) : Option Item := if other = id then some straying else none

theorem stored_heldUnder (id other : NodeId) :
    (holding id).stored other = .ok (heldUnder id other) := by
  unfold heldUnder
  by_cases hid : other = id
  · subst hid
    rw [if_pos rfl]
    exact stored_holding other
  · rw [if_neg hid, stored_of_items rfl, ItemTable.find?_put_of_ne (by exact Ne.symm hid)]
    rfl

/-- The text of item 2 under the id 1 adds an edge of item 2 whenever item 1 is reindexed, so
that a repetition can be seen in the number of edges. -/
theorem foreign_text_adds_again :
    ¬ ∀ (db : Database) (rules : RuleTable) (first second : List NodeId),
        (∀ id, ∃ stored, db.stored id = .ok stored) → (∀ id, id ∈ first ↔ id ∈ second) →
        SameEdges (db.afterReindexes rules first) (db.afterReindexes rules second) := by
  intro h
  have honce : ((holding 1).afterReindexes RuleTable.builtin [1]).edges =
      some (Edges.replace 1 [⟨2, 5, 2⟩] .empty) :=
    afterReindexes_edges fun id _ => stored_heldUnder 1 id
  have htwice : ((holding 1).afterReindexes RuleTable.builtin [1, 1]).edges =
      some (Edges.replace 1 [⟨2, 5, 2⟩] (Edges.replace 1 [⟨2, 5, 2⟩] .empty)) :=
    afterReindexes_edges fun id _ => stored_heldUnder 1 id
  have hcount := (h (holding 1) RuleTable.builtin [1] [1, 1]
    (fun id => ⟨_, stored_heldUnder 1 id⟩) (by simp)).count
  rw [edgeCount_table honce, edgeCount_table htwice] at hcount
  exact absurd (Except.ok.inj hcount) (by decide)

end Database

end Lineage
