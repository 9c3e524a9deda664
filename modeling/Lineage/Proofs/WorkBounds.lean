import Lineage.Api.Listing
import Lineage.Config.Reader
import Lineage.Proofs.Locality
import Lineage.Proofs.Queries
import Lineage.Proofs.ReadOnly
import Lineage.Proofs.Selections
import Mathlib

/-! # How much work a request makes

A configuration is taken only if its default limit is one that may be asked for. Then every
query that is read from parameters has a limit that may be asked for, and a page is never larger
than the largest page. So the items of a listing and the lookups that are made for each of them
have bounds that the configuration sets, on every database and whatever is asked for.

A lookup is counted where the answer depends on it: an answer that was found with the children
of some nodes is the answer of every database in which these nodes have the same children. -/

namespace Lineage

theorem Config.fault?_of_ofText {isFile : String → Bool} {text : String} {config : Config}
    (h : ofText isFile text = .ok config) : config.fault? isFile = none := by
  unfold ofText at h
  split at h
  · cases h
  · rename_i read _
    cases hfault : read.fault? isFile with
    | some fault =>
      rw [hfault] at h
      cases h
    | none =>
      rw [hfault] at h
      obtain rfl := Except.ok.inj h
      exact hfault

/-- A check that finds nothing leaves it to the checks behind it. -/
theorem Config.of_check {wrong : Prop} [Decidable wrong] {fault : String} {others : Option String}
    (h : (if wrong then some fault else others) = none) : ¬ wrong ∧ others = none := by
  split at h
  · cases h
  · rename_i hright
    exact ⟨hright, h⟩

theorem Config.permits_default {isFile : String → Bool} {config : Config}
    (h : config.fault? isFile = none) : config.traversal.Permits config.traversal.defaultLimit := by
  obtain ⟨-, h⟩ := of_check h
  obtain ⟨hzero, h⟩ := of_check h
  obtain ⟨hmost, -⟩ := of_check h
  rw [beq_iff_eq] at hzero
  exact ⟨Nat.pos_of_ne_zero hzero, Nat.le_of_not_lt hmost⟩

/-- The lookups of a query are as many as the visits that have one. -/
theorem Descendants.lookups_query (children : NodeId → List NodeId) (start : NodeId)
    (format : DescendantFormat) (limit : Nat) :
    (query children start format limit).lookups =
      ((start :: (query children start .flat limit).descendants.ids).take
        (allowedLookups limit)).length := by
  obtain ⟨trees, lookups, hdepth, hflat, hunique⟩ := query_formats children start limit
  obtain ⟨grown, htrees, -⟩ := treeAnswer_expanded children start limit
  have hanswer : query children start .depth limit = treeAnswer children start limit := rfl
  obtain ⟨hsame, hlookups⟩ := Answer.mk.inj (hdepth.symm.trans (hanswer.trans htrees))
  obtain rfl := Descendants.nested.inj hsame
  have hshown : (query children start .flat limit).descendants.ids = (nested trees).ids := by
    rw [hflat]
    rfl
  have hspent : (query children start format limit).lookups = lookups := by
    cases format with
    | flat => rw [hflat]
    | unique => rw [hunique]
    | depth => rw [hdepth]
  rw [hspent, hlookups, hshown, List.length_take, List.length_cons, Nat.add_comm, Nat.min_comm]
  rfl

namespace Database
variable {db : Database} {start : NodeId} {format : DescendantFormat} {limit : Nat}

/-- A query finds its answer with the children of these nodes, which are looked up one after
another. No other part of the database counts. -/
structure AnswersFrom (db : Database) (nodes : List NodeId) (start : NodeId)
    (format : DescendantFormat) (limit : Nat) (answer : Descendants.Answer) : Prop where
  performed : db.perform (Edges.descendants start format limit) = (.ok answer, db)
  counted : answer.lookups = nodes.length
  enough : ∀ other : Database, (∀ node ∈ nodes, other.childrenOf node = db.childrenOf node) →
    other.perform (Edges.descendants start format limit) = (.ok answer, other)

/-- Descendants that are found with no more than so many lookups. -/
def FindsWithin (db : Database) (most : Nat) (start : NodeId) (format : DescendantFormat)
    (limit : Nat) (shown : Descendants) : Prop :=
  ∃ nodes answer, db.AnswersFrom nodes start format limit answer ∧
    answer.descendants = shown ∧ nodes.length ≤ most

theorem answersFrom_nil (h : Descendants.allowedLookups limit = 0) :
    ∃ answer, db.AnswersFrom [] start format limit answer := by
  have hperform : ∀ other : Database, other.perform (Edges.descendants start format limit) =
      (.ok (Descendants.query (fun _ => []) start format limit), other) := by
    intro other
    unfold Edges.descendants
    rw [if_pos (by simpa using h)]
    rfl
  refine ⟨_, hperform db, ?_, fun other _ => hperform other⟩
  rw [Descendants.lookups_query, h, List.take_zero]

/-- Where there is a table of edges, the nodes of the visits with a lookup decide. -/
theorem answersFrom_table {table : Numbered Edge} (hedges : db.edges = some table)
    (h : Descendants.allowedLookups limit ≠ 0) : ∃ nodes answer,
      db.AnswersFrom nodes start format limit answer ∧
        nodes.length ≤ Descendants.allowedLookups limit := by
  refine ⟨_, _, ⟨perform_descendants hedges start format limit,
    Descendants.lookups_query (Edges.childrenOf table.values) start format limit, ?_⟩,
    List.length_take_le _ _⟩
  intro other hsame
  have hstart : start ∈ (start :: (Descendants.query (Edges.childrenOf table.values) start .flat
      limit).descendants.ids).take (Descendants.allowedLookups limit) := by
    obtain ⟨lookups, hlookups⟩ := Nat.exists_eq_succ_of_ne_zero h
    rw [hlookups, List.take_succ_cons]
    exact List.mem_cons_self
  -- a database that can tell the children of the start has a table of edges
  cases hother : other.edges with
  | none =>
    have hmissing := hsame start hstart
    rw [childrenOf_table hedges] at hmissing
    unfold childrenOf Edges.children at hmissing
    rw [perform_bind_error (perform_edges_missing hother)] at hmissing
    cases hmissing
  | some changed =>
    rw [perform_descendants hother, Descendants.query_congr fun node hnode => ?_]
    have hchildren := hsame node hnode
    rw [childrenOf_table hedges, childrenOf_table hother] at hchildren
    exact (Except.ok.inj hchildren).symm

/-- A query is answered with fewer lookups than its limit, or there is no table to look into. -/
theorem findsWithin_cases (db : Database) (start : NodeId) (format : DescendantFormat)
    (limit : Nat) :
    (∃ answer, db.perform (Edges.descendants start format limit) = (.ok answer, db) ∧
        db.FindsWithin (limit - 1) start format limit answer.descendants) ∨
      (db.edges = none ∧ ∃ e,
        db.perform (Edges.descendants start format limit) = (.error e, db)) := by
  by_cases hnone : Descendants.allowedLookups limit = 0
  · obtain ⟨answer, hanswer⟩ : ∃ answer, db.AnswersFrom [] start format limit answer :=
      answersFrom_nil hnone
    exact Or.inl ⟨answer, hanswer.performed, [], answer, hanswer, rfl, Nat.zero_le _⟩
  · cases hedges : db.edges with
    | some table =>
      obtain ⟨nodes, answer, hanswer, hmost⟩ : ∃ nodes answer,
          db.AnswersFrom nodes start format limit answer ∧
            nodes.length ≤ Descendants.allowedLookups limit := answersFrom_table hedges hnone
      exact Or.inl ⟨answer, hanswer.performed, nodes, answer, hanswer, rfl, hmost⟩
    | none =>
      unfold Edges.descendants
      rw [if_neg (by simpa using hnone)]
      exact Or.inr ⟨rfl, _, perform_bind_error (perform_edges_missing hedges) _⟩

theorem FindsWithin.mono {shown : Descendants} {most larger : Nat}
    (h : db.FindsWithin most start format limit shown) (hle : most ≤ larger) :
    db.FindsWithin larger start format limit shown := by
  obtain ⟨nodes, answer, hanswer, hshown, hmost⟩ := h
  exact ⟨nodes, answer, hanswer, hshown, hmost.trans hle⟩

/-! ## Listings -/

/-- A listing changes nothing and shows at most so many rows, each with descendants that are found
with at most so many lookups. Where it fails, that is before any children were found: the items
cannot be read, or there is no table of edges. -/
def ListsWithin (db : Database) (rows lookups : Nat) (filter : ContentFilter)
    (format : DescendantFormat) (limit : Nat) (list : Action (Page ItemDescendants)) : Prop :=
  (∃ page, db.perform list = (.ok page, db) ∧ page.data.length ≤ rows ∧
      ∀ row ∈ page.data, db.FindsWithin lookups row.item.id format limit row.descendants) ∨
    ∃ e, db.perform list = (.error e, db) ∧
      (db.perform (Content.findItems filter) = (.error e, db) ∨ db.edges = none)

theorem length_findItems_le {filter : ContentFilter} {items : List Item} {rows : Nat}
    (hrows : filter.limit = some rows)
    (h : db.perform (Content.findItems filter) = (.ok items, db)) : items.length ≤ rows := by
  cases htable : db.items with
  | none =>
    unfold Content.findItems Content.find at h
    split at h
    · rw [perform_bind_error (perform_bind_error (perform_items_missing htable) _)] at h
      cases h
    · cases h
  | some table =>
    by_cases hfits : filter.isStatable = true
    · rw [perform_readings htable filter hfits, Prod.mk.injEq, ItemRow.mapM_item_eq_ok_iff] at h
      have hlength := congrArg List.length h.1
      rw [List.length_map, List.length_map] at hlength
      rw [← hlength]
      unfold ContentFilter.select
      rw [hrows]
      exact List.length_take_le _ _
    · have hfind := perform_find htable filter
      rw [if_neg hfits] at hfind
      unfold Content.findItems at h
      rw [perform_bind_error hfind] at h
      cases h

/-- Every item of a window is walked from, and each of the walks has a limit of its own. -/
theorem listsWithin_find (db : Database) {filter : ContentFilter} {most : Nat}
    (hmost : filter.limit = some most) (format : DescendantFormat) (limit offset : Nat) :
    db.ListsWithin most (limit - 1) filter format limit (do
      let rows ← ItemDescendants.find filter format limit
      pure ⟨rows, most, offset⟩) := by
  have hreads : ∀ item : Item, Action.ReadsOnly (do
      let answer ← Edges.descendants item.id format limit
      pure (ItemDescendants.mk item answer.descendants)) :=
    fun item => Action.readsOnly_bind (Edges.readsOnly_descendants item.id format limit)
      fun _ => Action.readsOnly_pure _
  have hkept := Content.readsOnly_findItems filter db
  rcases perform_cases db (Content.findItems filter) with ⟨items, after, hitems⟩ | ⟨e, after, he⟩
  · obtain rfl : after = db := by rwa [hitems] at hkept
    rcases Action.perform_mapM_cases hreads after items with
      ⟨rows, hlength, hmade, hfound⟩ | ⟨item, -, e, he, hfailed⟩
    · refine Or.inl ⟨⟨rows, most, offset⟩, ?_, hlength ▸ length_findItems_le hmost hitems, ?_⟩
      · unfold ItemDescendants.find
        rw [bind_assoc, perform_bind_ok hitems, perform_bind_ok hfound]
        rfl
      · intro row hrow
        obtain ⟨item, -, hrow⟩ := hmade row hrow
        rcases findsWithin_cases after item.id format limit with
          ⟨answer, hanswer, hwithin⟩ | ⟨-, e, he⟩
        · rw [perform_bind_ok hanswer] at hrow
          obtain rfl := Except.ok.inj (congrArg Prod.fst hrow)
          exact hwithin
        · rw [perform_bind_error he] at hrow
          cases hrow
    · refine Or.inr ⟨e, ?_, Or.inr ?_⟩
      · unfold ItemDescendants.find
        rw [bind_assoc, perform_bind_ok hitems, perform_bind_error hfailed]
      · rcases findsWithin_cases after item.id format limit with ⟨answer, hanswer, -⟩ | ⟨hnone, -⟩
        · rw [perform_bind_ok hanswer] at he
          cases he
        · exact hnone
  · obtain rfl : after = db := by rwa [he] at hkept
    refine Or.inr ⟨e, ?_, Or.inl he⟩
    unfold ItemDescendants.find
    rw [bind_assoc, perform_bind_error he]

theorem ListsWithin.mono {rows lookups moreRows moreLookups : Nat} {filter : ContentFilter}
    {list : Action (Page ItemDescendants)}
    (h : db.ListsWithin rows lookups filter format limit list) (hrows : rows ≤ moreRows)
    (hlookups : lookups ≤ moreLookups) :
    db.ListsWithin moreRows moreLookups filter format limit list := by
  rcases h with ⟨page, hpage, hlength, hfound⟩ | hfailed
  · exact Or.inl ⟨page, hpage, hlength.trans hrows, fun row hrow => (hfound row hrow).mono hlookups⟩
  · exact Or.inr hfailed

end Database

def TypeQuery.filter (query : TypeQuery) : ContentFilter :=
  (ContentFilter.publishedOf [query.contentType]).page query.offset query.limit

def MetadataQuery.filter (query : MetadataQuery) : ContentFilter :=
  ⟨query.contentTypes, query.published, query.offset, some query.limit⟩

/-- Under a configuration that is taken, whatever parameters are given: every query that is read
from them asks for a walk between one and the largest limit, and for a page no larger than the
largest one. So on every database the descendants of a node are found with fewer lookups than the
largest limit, and a listing shows no more items than the largest page, each with descendants that
are found so. -/
theorem Config.requests_stay_within_limits {isFile : String → Bool} {text : String}
    {config : Config} (h : Config.ofText isFile text = .ok config) (params : Parameters) :
    (∀ query, DescendantQuery.read config.traversal params = .ok query →
      config.traversal.Permits query.depthLimit ∧ ∀ (db : Database) (id : NodeId),
        (∃ found, db.perform (NodeDescendants.find id query) = (.ok found, db) ∧
          db.FindsWithin (config.traversal.maxLimit - 1) id query.format query.depthLimit
            found.descendants) ∨
        (db.edges = none ∧ ∃ e, db.perform (NodeDescendants.find id query) = (.error e, db))) ∧
    (∀ query, TypeQuery.read config.traversal config.api params = .ok query →
      config.traversal.Permits query.descendants.depthLimit ∧
        query.limit ≤ config.api.maxPageSize ∧ ∀ db : Database,
          db.ListsWithin config.api.maxPageSize (config.traversal.maxLimit - 1) query.filter
            query.descendants.format query.descendants.depthLimit query.list) ∧
    (∀ query, MetadataQuery.read config.api params = .ok query →
      query.limit ≤ config.api.maxPageSize ∧ ∀ db : Database,
        db.ListsWithin config.api.maxPageSize (config.traversal.maxLimit - 1) query.filter
          query.format config.traversal.defaultLimit (query.list config.traversal)) := by
  have hdefault := permits_default (fault?_of_ofText h)
  refine ⟨fun query hread => ?_, fun query hread => ?_, fun query hread => ?_⟩
  · obtain ⟨requested, hresolve⟩ := DescendantQuery.of_read hread
    have hpermits := TraversalConfig.permits_of_resolve hdefault hresolve
    refine ⟨hpermits, fun db id => ?_⟩
    unfold NodeDescendants.find
    rcases db.findsWithin_cases id query.format query.depthLimit with
      ⟨answer, hanswer, hwithin⟩ | ⟨hnone, e, he⟩
    · refine Or.inl ⟨⟨id, query, answer.descendants⟩, ?_,
        hwithin.mono (Nat.sub_le_sub_right hpermits.2 1)⟩
      rw [Database.perform_bind_ok hanswer]
      rfl
    · exact Or.inr ⟨hnone, e, Database.perform_bind_error he _⟩
  · obtain ⟨hdescendants, hpage⟩ := TypeQuery.of_read hread
    obtain ⟨requested, hresolve⟩ := DescendantQuery.of_read hdescendants
    have hpermits := TraversalConfig.permits_of_resolve hdefault hresolve
    exact ⟨hpermits, hpage, fun db => (db.listsWithin_find rfl query.descendants.format
      query.descendants.depthLimit query.offset).mono hpage (Nat.sub_le_sub_right hpermits.2 1)⟩
  · obtain ⟨-, hpage⟩ := MetadataQuery.of_read hread
    exact ⟨hpage, fun db => (db.listsWithin_find rfl query.format config.traversal.defaultLimit
      query.offset).mono hpage (Nat.sub_le_sub_right hdefault.2 1)⟩

def tightText : String :=
  "[manager]\ndb_path = \"\"\n[traversal]\ndefault_limit = 2\nmax_limit = 3\n[api]\nmax_page_size = 1"

def tight : Config := ⟨⟨"", "content", none, "info"⟩, ⟨2, 3⟩, .default, ⟨1⟩, .default⟩

/-- Parameters that ask for the longest walks and for more rows than there may be. -/
def wide : Parameters :=
  [("content_type", "advisory"), ("limit", "1001"), ("depth_limit", " +3")]

/-- The walk is made as asked for, with two lookups on a chain, and the pages have one row. -/
theorem wide_requests_on_tight_limits :
    Config.ofText (fun _ => false) tightText = .ok tight ∧
    DescendantQuery.read tight.traversal wide = .ok ⟨.flat, 3⟩ ∧
    TypeQuery.read tight.traversal tight.api wide = .ok ⟨"advisory", ⟨.flat, 3⟩, 1, 0⟩ ∧
    MetadataQuery.read tight.api wide = .ok ⟨[], none, .flat, 1, 0⟩ ∧
    (∃ found, Database.chainAround.perform (NodeDescendants.find 1 ⟨.flat, 3⟩) =
        (.ok found, Database.chainAround) ∧
      Database.chainAround.FindsWithin 2 1 .flat 3 found.descendants) ∧
    Database.chainAround.ListsWithin 1 2 (TypeQuery.filter ⟨"advisory", ⟨.flat, 3⟩, 1, 0⟩) .flat 3
      (TypeQuery.list ⟨"advisory", ⟨.flat, 3⟩, 1, 0⟩) ∧
    Database.chainAround.ListsWithin 1 2 (MetadataQuery.filter ⟨[], none, .flat, 1, 0⟩) .flat 2
      (MetadataQuery.list ⟨2, 3⟩ ⟨[], none, .flat, 1, 0⟩) := by
  have htaken : Config.ofText (fun _ => false) tightText = .ok tight := by cbv
  have hnode : DescendantQuery.read tight.traversal wide = .ok ⟨.flat, 3⟩ := by cbv
  have htype : TypeQuery.read tight.traversal tight.api wide =
      .ok ⟨"advisory", ⟨.flat, 3⟩, 1, 0⟩ := by
    have hnamed : ((wide.find? "content_type").map Text.trim).getD "" = "advisory" := by cbv
    have hlimit : wide.number? "limit" = .ok (some 1001) := by cbv
    rw [TypeQuery.read_eq, hnamed, if_neg (by decide), hlimit, hnode]
    rfl
  have hmetadata : MetadataQuery.read tight.api wide = .ok ⟨[], none, .flat, 1, 0⟩ := by cbv
  obtain ⟨honNodes, honTypes, honMetadata⟩ :=
    Config.requests_stay_within_limits htaken wide
  refine ⟨htaken, hnode, htype, hmetadata, ?_, (honTypes _ htype).2.2 _,
    (honMetadata _ hmetadata).2 _⟩
  rcases (honNodes _ hnode).2 Database.chainAround 1 with hfound | ⟨hnone, -⟩
  · exact hfound
  · cases hnone

end Lineage
