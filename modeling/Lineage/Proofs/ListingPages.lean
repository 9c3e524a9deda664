import Lineage.CommandLine.Program
import Lineage.Proofs.AnswerFormats
import Lineage.Proofs.Authorization
import Lineage.Proofs.Backfill

/-! # The pages of a listing

A listing by type goes over the same rows twice: a request takes a window of them and reads the
items from their texts, and the command takes the ids of all of them and loads each item by its
id. Windows that follow each other without a gap make up the whole, and where the columns of a
row are those of its item both find the same items under the same ids. -/

namespace Lineage

namespace Text

theorem trimChars_of_digits {cs : List Char} (h : ∀ c ∈ cs, c.isDigit = true) :
    trimChars cs = cs := by
  have hskip : ∀ ds : List Char, (∀ c ∈ ds, c.isDigit = true) → skipBlank ds = ds := by
    intro ds hds
    cases ds with
    | nil => rfl
    | cons c rest => exact skipBlank_of_ne (isBlank_of_isDigit (hds c List.mem_cons_self)) rest
  unfold trimChars
  rw [hskip cs h, hskip cs.reverse fun c hc => h c (List.mem_reverse.1 hc), List.reverse_reverse]

theorem countUpTo?_toDigits {n most : Nat} (h : n ≤ most) :
    countUpTo? most (Nat.toDigits 10 n) = some n := by
  have hdigits : ∀ c ∈ Nat.toDigits 10 n, c.isDigit = true :=
    fun c hc => Nat.isDigit_of_mem_toDigits (by decide) (by decide) hc
  have hread : natural? (Nat.toDigits 10 n) = some n := by
    rw [natural?_of_digits Nat.toDigits_ne_nil hdigits, Nat.ofDigitChars_ten_toDigits]
  unfold countUpTo?
  dsimp only
  split
  · rename_i hplus
    rw [hplus] at hdigits
    exact absurd (hdigits '+' List.mem_cons_self) (by decide)
  · rw [hread, Option.filter_some, if_pos (by simpa using h)]

end Text

theorem Parameters.number?_toString {params : Parameters} {key : String} {n : Nat}
    (hfind : params.find? key = some (toString n)) (hn : n ≤ Text.maxUnsigned64) :
    params.number? key = .ok (some n) := by
  have hdigits : ∀ c ∈ Nat.toDigits 10 n, c.isDigit = true :=
    fun c hc => Nat.isDigit_of_mem_toDigits (by decide) (by decide) hc
  have htrim : Text.trim (toString n) = String.ofList (Nat.toDigits 10 n) := by
    unfold Text.trim
    rw [Nat.toString_eq_ofList_toDigits, String.toList_ofList, Text.trimChars_of_digits hdigits]
  have hsome : (String.ofList (Nat.toDigits 10 n)).isEmpty = false := by
    simp
  unfold number?
  rw [hfind, Option.map_some, htrim]
  simp [hsome, String.toList_ofList, Text.countUpTo?_toDigits hn]

theorem DescendantFormat.ofParameter_name (format : DescendantFormat) :
    ofParameter (some format.name) = format := by
  cases format <;> decide

namespace TypeQuery
variable {t : TraversalConfig} {api : ApiConfig} {query : TypeQuery} {params : Parameters}

/-- The parameters that ask for a page, written out. -/
def parameters (query : TypeQuery) : List (String × String) :=
  [("content_type", query.contentType), ("format", query.descendants.format.name),
    ("depth_limit", toString query.descendants.depthLimit), ("limit", toString query.limit),
    ("offset", toString query.offset)]

/-- What a page has to be for a server to give it as it is asked for: its type is a name without
blanks around it, and its numbers are machine words in the range that is allowed. -/
structure Allowed (t : TraversalConfig) (api : ApiConfig) (query : TypeQuery) : Prop where
  trimmed : Text.trim query.contentType = query.contentType
  named : query.contentType ≠ ""
  someDepth : 1 ≤ query.descendants.depthLimit
  depth : query.descendants.depthLimit ≤ min t.maxLimit Text.maxUnsigned64
  someRows : 1 ≤ query.limit
  limit : query.limit ≤ min api.maxPageSize Text.maxUnsigned64

theorem Allowed.resolve (h : query.Allowed t api) :
    t.resolve (some query.descendants.depthLimit) = .ok query.descendants.depthLimit := by
  have hsome : ¬ (query.descendants.depthLimit == 0) = true := by
    have := h.someDepth
    simp only [beq_iff_eq]
    omega
  unfold TraversalConfig.resolve
  dsimp only
  rw [if_neg hsome, if_neg (Nat.not_lt.2 (h.depth.trans (Nat.min_le_left _ _)))]

theorem read_parameters (h : query.Allowed t api) (hoffset : query.offset ≤ Text.maxUnsigned64)
    (hparams : ∀ entry ∈ query.parameters, params.find? entry.1 = some entry.2) :
    read t api params = .ok query := by
  have htype : params.find? "content_type" = some query.contentType :=
    hparams ("content_type", query.contentType) (by simp [parameters])
  have hformat : params.find? "format" = some query.descendants.format.name :=
    hparams ("format", query.descendants.format.name) (by simp [parameters])
  have hdepth : params.number? "depth_limit" = .ok (some query.descendants.depthLimit) :=
    Parameters.number?_toString
      (hparams ("depth_limit", toString query.descendants.depthLimit) (by simp [parameters]))
      (h.depth.trans (Nat.min_le_right _ _))
  have hlimit : params.number? "limit" = .ok (some query.limit) :=
    Parameters.number?_toString
      (hparams ("limit", toString query.limit) (by simp [parameters]))
      (h.limit.trans (Nat.min_le_right _ _))
  have hskip : params.number? "offset" = .ok (some query.offset) :=
    Parameters.number?_toString
      (hparams ("offset", toString query.offset) (by simp [parameters])) hoffset
  have hdescendants : DescendantQuery.read t params = .ok query.descendants := by
    unfold DescendantQuery.read
    rw [hdepth, hformat, DescendantFormat.ofParameter_name]
    show (do let limit ← t.resolve (some query.descendants.depthLimit); _) = _
    rw [h.resolve]
    rfl
  have hnamed : query.contentType.isEmpty = false := by simpa using h.named
  unfold read
  rw [htype, Option.map_some, Option.getD_some, h.trimmed]
  simp only [hnamed, hlimit, hskip, hdescendants]
  show Except.ok { query with limit := min query.limit api.maxPageSize } = Except.ok query
  rw [Nat.min_eq_left (h.limit.trans (Nat.min_le_left _ _))]

end TypeQuery

/-- The item that a row holds; where the text is that of no item, one without content. -/
def ItemRow.held (row : ItemRow) : Item :=
  (Item.ofText? row.text).getD (.new row.id row.contentType)

namespace ItemTable
variable {table : ItemTable} {row : ItemRow} {contentType : String}

/-- Every text is that of an item, and the columns of its row by which items are found and
selected are those of the item. -/
def Faithful (table : ItemTable) : Prop :=
  ∀ row ∈ table.rows, ∃ item, Item.ofText? row.text = some item ∧ row.id = item.id ∧
    row.contentType = item.contentType ∧ row.published = item.published

/-- The published rows of a type, in ascending order of their ids. -/
def listed (table : ItemTable) (contentType : String) : List ItemRow :=
  table.rows.filter fun row => row.published && [contentType].contains row.contentType

theorem mem_listed : row ∈ table.listed contentType ↔
    row ∈ table.rows ∧ row.published = true ∧ row.contentType = contentType := by
  simp [listed]

namespace Faithful
variable (h : table.Faithful)
include h

theorem ofText_held (hrow : row ∈ table.rows) : Item.ofText? row.text = some row.held := by
  obtain ⟨item, hitem, -⟩ := h row hrow
  unfold ItemRow.held
  rw [hitem]
  rfl

theorem columns (hrow : row ∈ table.rows) : row.id = row.held.id ∧
    row.contentType = row.held.contentType ∧ row.published = row.held.published := by
  obtain ⟨item, hitem, hcolumns⟩ := h row hrow
  obtain rfl : item = row.held := Option.some.inj (hitem.symm.trans (h.ofText_held hrow))
  exact hcolumns

theorem item_eq_held (hrow : row ∈ table.rows) : row.item = .ok row.held :=
  ItemRow.item_eq_ok_iff.2 (h.ofText_held hrow)

/-- Among the items of a listing, that of a row is the one with its id. -/
theorem find?_held (hrow : row ∈ table.listed contentType) :
    ((table.listed contentType).map ItemRow.held).reverse.find? (fun item => item.id == row.id) =
      some row.held := by
  have hmem : row ∈ table.rows := (mem_listed.1 hrow).1
  cases hfind : ((table.listed contentType).map ItemRow.held).reverse.find?
      (fun item => item.id == row.id) with
  | none =>
    have hnone := List.find?_eq_none.1 hfind row.held
      (List.mem_reverse.2 (List.mem_map_of_mem hrow))
    simp [(h.columns hmem).1] at hnone
  | some item =>
    obtain ⟨other, hother, rfl⟩ :=
      List.mem_map.1 (List.mem_reverse.1 (List.mem_of_find?_eq_some hfind))
    have hotherMem : other ∈ table.rows := (mem_listed.1 hother).1
    have hsame : other.held.id = row.id := by simpa using List.find?_some hfind
    rw [eq_of_id_eq hotherMem hmem ((h.columns hotherMem).1.trans hsame)]

theorem ascending_held (contentType : String) :
    ((table.listed contentType).map fun row => row.held.id).Pairwise (· < ·) := by
  have hids : (table.listed contentType).Pairwise fun a b => a.id < b.id :=
    table.ascending.filter _
  rw [List.pairwise_map]
  refine hids.imp_of_mem fun ha hb hlt => ?_
  rwa [← (h.columns (mem_listed.1 ha).1).1, ← (h.columns (mem_listed.1 hb).1).1]

end Faithful

end ItemTable

/-- What a listing shows of a row. -/
def ItemDescendants.ofRow (edges : List Edge) (format : DescendantFormat) (limit : Nat)
    (row : ItemRow) : ItemDescendants :=
  ⟨row.held, (Descendants.query (Edges.childrenOf edges) row.held.id format limit).descendants⟩

/-- The same as the command has it. -/
def ItemDescendants.answer (shown : ItemDescendants) : Program.Answer :=
  ⟨shown.item.id, some shown.item.title, shown.descendants⟩

namespace Database
variable {db : Database} {items : ItemTable} {edges : Numbered Edge}

section
variable (hitems : db.items = some items) (hfaithful : items.Faithful)
include hitems hfaithful

theorem mem_held_iff {contentType : String} {item : Item} :
    item ∈ (items.listed contentType).map ItemRow.held ↔
      db.stored item.id = .ok (some item) ∧ item.published = true ∧
        item.contentType = contentType := by
  rw [List.mem_map]
  constructor
  · rintro ⟨row, hrow, rfl⟩
    obtain ⟨hmem, hpublished, htype⟩ := ItemTable.mem_listed.1 hrow
    obtain ⟨hid, hcontentType, hflag⟩ := hfaithful.columns hmem
    refine ⟨stored_row hitems (ItemTable.find?_eq_some_iff.2 ⟨hmem, hid⟩)
      (hfaithful.ofText_held hmem), ?_, ?_⟩
    · rw [← hflag, hpublished]
    · rw [← hcontentType, htype]
  · rintro ⟨hstored, hpublished, htype⟩
    rw [stored_of_items hitems] at hstored
    cases hfind : items.find? item.id with
    | none =>
      rw [hfind] at hstored
      cases hstored
    | some row =>
      have hmem : row ∈ items.rows := (ItemTable.find?_eq_some_iff.1 hfind).1
      rw [hfind] at hstored
      dsimp only at hstored
      rw [hfaithful.item_eq_held hmem] at hstored
      obtain rfl : row.held = item := Option.some.inj (Except.ok.inj hstored)
      obtain ⟨-, hcontentType, hflag⟩ := hfaithful.columns hmem
      exact ⟨row, ItemTable.mem_listed.2
        ⟨hmem, hflag.trans hpublished, hcontentType.trans htype⟩, rfl⟩

theorem perform_findItems (contentType : String) (offset limit : Nat) :
    db.perform (Content.findItems ((ContentFilter.publishedOf [contentType]).page offset limit)) =
      (.ok ((((items.listed contentType).drop offset).take limit).map ItemRow.held), db) := by
  have hselect : ((ContentFilter.publishedOf [contentType]).page offset limit).select items.rows =
      ((items.listed contentType).drop offset).take limit :=
    congrArg (fun rows => (List.drop offset rows).take limit)
      (select_publishedOf (List.cons_ne_nil contentType []) items.rows)
  have hfind := perform_find hitems ((ContentFilter.publishedOf [contentType]).page offset limit)
  rw [if_pos (by rfl), hselect] at hfind
  unfold Content.findItems
  rw [perform_bind_ok hfind]
  refine perform_mapM_ok fun row hrow => ?_
  have hmem : row ∈ items.rows :=
    (ItemTable.mem_listed.1 (List.mem_of_mem_drop (List.mem_of_mem_take hrow))).1
  rw [perform_ofExcept, hfaithful.item_eq_held hmem]

theorem perform_loadAll (contentType : String) :
    db.perform (Content.loadAll ((items.listed contentType).map ItemRow.id)) =
      (.ok ((items.listed contentType).map ItemRow.held), db) := by
  have hload : ∀ row ∈ items.listed contentType,
      db.perform ((Content.load? ∘ ItemRow.id) row) = (.ok (some row.held), db) := by
    intro row hrow
    have hmem : row ∈ items.rows := (ItemTable.mem_listed.1 hrow).1
    show db.perform (Content.load? row.id) = _
    rw [perform_load_table hitems, ItemTable.find?_eq_some_iff.2 ⟨hmem, rfl⟩]
    dsimp only
    rw [hfaithful.item_eq_held hmem]
    rfl
  unfold Content.loadAll
  rw [List.mapM_map, perform_bind_ok (perform_mapM_ok hload)]
  show (Except.ok (((items.listed contentType).map fun row => some row.held).filterMap id), db) = _
  rw [List.filterMap_map]
  exact congrArg (Except.ok ·, db) (congrFun List.filterMap_eq_map' _)

variable (hedges : db.edges = some edges)
include hedges

theorem perform_list (query : TypeQuery) : db.perform query.list =
    (.ok ⟨(((items.listed query.contentType).drop query.offset).take query.limit).map
        (.ofRow edges.values query.descendants.format query.descendants.depthLimit),
      query.limit, query.offset⟩, db) := by
  have hfind : ∀ item : Item, db.perform (do
      let answer ← Edges.descendants item.id query.descendants.format query.descendants.depthLimit
      pure (ItemDescendants.mk item answer.descendants)) =
    (.ok ⟨item, (Descendants.query (Edges.childrenOf edges.values) item.id
      query.descendants.format query.descendants.depthLimit).descendants⟩, db) := by
    intro item
    rw [perform_bind_ok (perform_descendants hedges _ _ _)]
    rfl
  unfold TypeQuery.list ItemDescendants.find
  rw [bind_assoc, perform_bind_ok (perform_findItems hitems hfaithful _ _ _),
    perform_bind_ok (perform_mapM_ok fun item _ => hfind item), List.map_map]
  rfl

theorem perform_answers (contentType : String) (format : DescendantFormat) (depthLimit : Nat)
    (json : Bool) :
    db.perform (Program.answers ⟨.type contentType, format, some depthLimit, json⟩ depthLimit) =
      (.ok ((items.listed contentType).map
        fun row => (ItemDescendants.ofRow edges.values format depthLimit row).answer), db) := by
  have hids : db.perform (Program.startIds (.type contentType)) =
      (.ok ((items.listed contentType).map ItemRow.id), db) := by
    unfold Program.startIds
    rw [perform_findIds hitems, if_pos (by rfl),
      select_publishedOf (List.cons_ne_nil contentType [])]
    rfl
  have hanswer : ∀ row ∈ items.listed contentType,
      db.perform (((fun id : NodeId => do
        let found ← Edges.descendants id format depthLimit
        let title := (((items.listed contentType).map ItemRow.held).reverse.find?
          fun item => item.id == id).map Item.title
        pure (Program.Answer.mk id title found.descendants)) ∘ ItemRow.id) row) =
      (.ok (ItemDescendants.ofRow edges.values format depthLimit row).answer, db) := by
    intro row hrow
    have hid : row.id = row.held.id := (hfaithful.columns (ItemTable.mem_listed.1 hrow).1).1
    rw [Function.comp_apply, perform_bind_ok (perform_descendants hedges _ _ _),
      hfaithful.find?_held hrow, hid]
    rfl
  unfold Program.answers
  rw [perform_bind_ok hids, perform_bind_ok (perform_loadAll hitems hfaithful contentType),
    List.mapM_map]
  exact perform_mapM_ok hanswer

end

/-! ## Page after page -/

/-- The pages from a query on, as they are read one after the other. The next one begins where
the last one ended, and the first that is not full is the end. -/
inductive Paged (db : Database) : TypeQuery → List (Page ItemDescendants) → Prop where
  | last {query : TypeQuery} {page : Page ItemDescendants}
      (hlist : db.perform query.list = (.ok page, db))
      (hshort : page.data.length < query.limit) : Paged db query [page]
  | next {query : TypeQuery} {page : Page ItemDescendants} {rest : List (Page ItemDescendants)}
      (hlist : db.perform query.list = (.ok page, db))
      (hfull : ¬ page.data.length < query.limit)
      (hrest : Paged db { query with offset := query.offset + query.limit } rest) :
      Paged db query (page :: rest)

section
variable (hitems : db.items = some items) (hedges : db.edges = some edges)
variable (hfaithful : items.Faithful)
include hitems hedges hfaithful

theorem Paged.flatMap_data {query : TypeQuery} {pages : List (Page ItemDescendants)}
    (h : db.Paged query pages) : pages.flatMap Page.data =
      ((items.listed query.contentType).drop query.offset).map
        (.ofRow edges.values query.descendants.format query.descendants.depthLimit) := by
  induction h with
  | @last query _ hlist hshort =>
    rw [perform_list hitems hfaithful hedges] at hlist
    obtain rfl := Except.ok.inj (Prod.mk.inj hlist).1
    -- a window that is not full takes all that is left
    have hall : ((items.listed query.contentType).drop query.offset).length ≤ query.limit := by
      rw [List.length_map, List.length_take] at hshort
      omega
    rw [List.flatMap_singleton, List.take_of_length_le hall]
  | next hlist hfull hrest ih =>
    rw [perform_list hitems hfaithful hedges] at hlist
    obtain rfl := Except.ok.inj (Prod.mk.inj hlist).1
    rw [List.flatMap_cons, ih, ← List.map_append, ← List.drop_drop, List.take_append_drop]

/-- Pages of at least one row come to an end. -/
theorem exists_paged (query : TypeQuery) (hsome : 1 ≤ query.limit) :
    ∃ pages, db.Paged query pages := by
  have hlist := perform_list hitems hfaithful hedges query
  by_cases hshort : (items.listed query.contentType).length - query.offset < query.limit
  · refine ⟨_, .last hlist ?_⟩
    rw [List.length_map, List.length_take, List.length_drop]
    omega
  · obtain ⟨rest, hrest⟩ := exists_paged { query with offset := query.offset + query.limit } hsome
    refine ⟨_, .next hlist ?_ hrest⟩
    rw [List.length_map, List.length_take, List.length_drop]
    omega
termination_by (items.listed query.contentType).length - query.offset

end

end Database

/-! ## Requests for pages -/

namespace Http.Server
variable {s : Server} {r : Request} {query : TypeQuery} {db : Database}

/-- A request for a page of the listing by type that nothing speaks against. -/
structure AsksFor (s : Server) (r : Request) (query : TypeQuery) : Prop where
  method : r.method = "GET"
  path : r.target.path = "/api/v1/descendants"
  parameters : ∀ entry ∈ query.parameters, (parameters r).find? entry.1 = some entry.2
  admitted : s.refusal? r = none

theorem run_answer {α : Type} {act : Action α} {a : α} {after : Database}
    (h : db.perform act = (.ok a, after)) (write : α → Response) :
    (answer act write).run db = (write a, after) := by
  have hrun : StateT.run act.run db = (.ok a, after) := h
  unfold answer
  rw [StateT.run_bind, hrun]
  rfl

theorem AsksFor.run_respond (h : s.AsksFor r query)
    (hallowed : query.Allowed s.config.traversal s.config.api)
    (hoffset : query.offset ≤ Text.maxUnsigned64) {page : Page ItemDescendants}
    (hlist : db.perform query.list = (.ok page, db)) :
    (s.respond r).run db =
      ({ Response.json 200 (page.toJson ItemDescendants.toJson) with
          allowOrigin := s.allowOrigin r }, db) := by
  have hroute : Route.ofPath? r.target.path = some .descendantsByType := by
    rw [h.path]
    decide +kernel
  have hhandle : (s.handle r .descendantsByType).run db =
      (.json 200 (page.toJson ItemDescendants.toJson), db) := by
    unfold handle withQuery
    dsimp only
    rw [h.admitted, TypeQuery.read_parameters hallowed hoffset h.parameters]
    exact run_answer hlist _
  unfold respond dispatch
  rw [hroute, h.method, StateT.run_bind]
  dsimp only
  rw [if_neg (by decide), if_neg (by decide), StateT.run_bind, hhandle]
  rfl

end Http.Server

namespace Database
variable {db : Database} {items : ItemTable} {edges : Numbered Edge}

/-- Where the columns of the rows are those of their items, the pages of a listing by type show
every published item of the type once, in ascending order, and what the command finds for the type
are their ids, titles and descendants. A request for a page is answered with just these, and with
the type, and the answer counts the rows of the page. -/
theorem pages_list_what_is_printed (hitems : db.items = some items)
    (hedges : db.edges = some edges) (hfaithful : items.Faithful) {s : Http.Server}
    {query : TypeQuery} (hallowed : query.Allowed s.config.traversal s.config.api) :
    (∀ offset r, offset ≤ Text.maxUnsigned64 → s.AsksFor r { query with offset } →
      ∃ page, db.perform { query with offset }.list = (.ok page, db) ∧
        (s.respond r).run db =
          ({ Http.Response.json 200 (.obj [("data", .arr (page.data.map fun shown =>
                .obj [("id", .int shown.item.id), ("title", .str shown.item.title),
                  ("content_type", .str shown.item.contentType),
                  ("descendants", shown.descendants.toJson)])),
                ("metadata", .obj [("resultset", .obj [("count", .int page.data.length),
                  ("limit", .int query.limit), ("offset", .int offset)])])]) with
              allowOrigin := s.allowOrigin r }, db)) ∧
    (∃ pages, db.Paged { query with offset := 0 } pages) ∧
    ∀ pages, db.Paged { query with offset := 0 } pages →
      (((pages.flatMap Page.data).map fun shown => shown.item.id).Pairwise (· < ·)) ∧
      (∀ item, item ∈ (pages.flatMap Page.data).map ItemDescendants.item ↔
        db.stored item.id = .ok (some item) ∧ item.published = true ∧
          item.contentType = query.contentType) ∧
      (∀ shown ∈ pages.flatMap Page.data, ∃ lookups,
        db.perform (Edges.descendants shown.item.id query.descendants.format
          query.descendants.depthLimit) = (.ok ⟨shown.descendants, lookups⟩, db)) ∧
      ∀ json, db.perform (Program.answers ⟨.type query.contentType, query.descendants.format,
            some query.descendants.depthLimit, json⟩ query.descendants.depthLimit) =
          (.ok ((pages.flatMap Page.data).map fun shown =>
            ⟨shown.item.id, some shown.item.title, shown.descendants⟩), db) := by
  refine ⟨fun offset r hoffset hasks => ?_, ?_, fun pages hpages => ?_⟩
  · have hlist := perform_list hitems hfaithful hedges { query with offset }
    have hallowedThere : { query with offset }.Allowed s.config.traversal s.config.api :=
      ⟨hallowed.trimmed, hallowed.named, hallowed.someDepth, hallowed.depth, hallowed.someRows,
        hallowed.limit⟩
    exact ⟨_, hlist, hasks.run_respond hallowedThere hoffset hlist⟩
  · exact exists_paged hitems hedges hfaithful _ hallowed.someRows
  · rw [hpages.flatMap_data hitems hedges hfaithful, List.drop_zero]
    refine ⟨?_, fun item => ?_, fun shown hshown => ?_, fun json => ?_⟩
    · rw [List.map_map]
      exact hfaithful.ascending_held query.contentType
    · rw [List.map_map]
      exact mem_held_iff hitems hfaithful
    · obtain ⟨row, -, rfl⟩ := List.mem_map.1 hshown
      exact ⟨_, perform_descendants hedges _ _ _⟩
    · rw [perform_answers hitems hfaithful hedges, List.map_map]
      rfl

def firstAdvisory : Http.Request :=
  ⟨"GET", ⟨"/api/v1/descendants",
    "content_type=advisory&format=flat&depth_limit=20&limit=1&offset=0"⟩,
    [("Authorization", "Bearer sesame")]⟩

/-- Where one advisory is stored, a request for the first one is answered and the pages of one row
show it. -/
theorem stored_advisory_is_listed :
    ((ItemTable.empty.put (.ofItem straying none)).Faithful ∧
      Http.Server.keyed.AsksFor firstAdvisory ⟨"advisory", ⟨.flat, 20⟩, 1, 0⟩) ∧
    (∃ response, (Http.Server.keyed.respond firstAdvisory).run (keeping straying [⟨2, 5, 2⟩]) =
      (response, keeping straying [⟨2, 5, 2⟩]) ∧ response.status = 200) ∧
    ∃ pages, (keeping straying [⟨2, 5, 2⟩]).Paged ⟨"advisory", ⟨.flat, 20⟩, 1, 0⟩ pages ∧
      straying ∈ (pages.flatMap Page.data).map ItemDescendants.item := by
  have hfaithful : (ItemTable.empty.put (.ofItem straying none)).Faithful := by
    intro row hrow
    obtain rfl : row = .ofItem straying none := List.mem_singleton.1 hrow
    exact ⟨straying, ofText_straying, rfl, rfl, rfl⟩
  have hkey : Http.Server.keyed.HasKey firstAdvisory := ⟨by decide, by decide +kernel⟩
  have hasks : Http.Server.keyed.AsksFor firstAdvisory ⟨"advisory", ⟨.flat, 20⟩, 1, 0⟩ := by
    refine ⟨rfl, rfl, by decide +kernel, ?_⟩
    unfold Http.Server.refusal?
    rw [Http.Server.keyRefusal_eq_none_iff.2 hkey]
    rfl
  have hallowed : TypeQuery.Allowed Http.Server.keyed.config.traversal
      Http.Server.keyed.config.api ⟨"advisory", ⟨.flat, 20⟩, 1, 0⟩ :=
    ⟨by decide +kernel, by decide, by decide, by decide, by decide, by decide⟩
  obtain ⟨hanswered, ⟨pages, hpages⟩, hlisted⟩ := pages_list_what_is_printed
    (show (keeping straying [⟨2, 5, 2⟩]).items = some _ from rfl) rfl hfaithful hallowed
  obtain ⟨page, -, hresponse⟩ := hanswered 0 firstAdvisory (by decide) hasks
  obtain ⟨-, hitems, -⟩ := hlisted pages hpages
  have hstored : (keeping straying [⟨2, 5, 2⟩]).stored straying.id = .ok (some straying) := by
    rw [stored_keeping ofText_straying, if_pos rfl]
  exact ⟨⟨hfaithful, hasks⟩, ⟨_, hresponse, rfl⟩, pages, hpages,
    (hitems straying).2 ⟨hstored, rfl, rfl⟩⟩

end Database

end Lineage
