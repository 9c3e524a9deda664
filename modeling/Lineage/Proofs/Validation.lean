import Lineage.Proofs.ListingPages
import Lineage.Proofs.RequestSizes
import Lineage.Proofs.WorkBounds

/-! # Which requests are bad

What a request has to look like can be said route by route, without a look at how it is read: its
node is named, its numbers are left out or spelled and in their range, its type is there. Where
the tables are there and the stored texts can be read, that decides alone. A valid request is
answered as its route has it, any other is told that it is bad and leaves everything as it was, and
there is no third answer. -/

namespace Lineage

/-- Under a node that has no children there is nothing, in every format. -/
theorem Descendants.toJson_query_of_childless {children : NodeId → List NodeId} {start : NodeId}
    (h : children start = []) (format : DescendantFormat) (limit : Nat) :
    (query children start format limit).descendants.toJson = .arr [] := by
  obtain ⟨trees, lookups, hdepth, hflat, hunique⟩ := query_formats children start limit
  obtain ⟨grown, hgrown, hexpanded⟩ := treeAnswer_expanded children start limit
  have hanswer : query children start .depth limit = treeAnswer children start limit := rfl
  obtain ⟨hsame, -⟩ := Answer.mk.inj (hdepth.symm.trans (hanswer.trans hgrown))
  obtain rfl := Descendants.nested.inj hsame
  have hroot : trees.map DescendantTree.id = [] := by
    have hbranches : trees.map DescendantTree.id = if 0 < limit - 1 then children start else [] :=
      hexpanded 0 (.node start trees) (by rw [DescendantTree.subtrees]; rfl)
    rw [hbranches, h, ite_self]
  obtain rfl := List.map_eq_nil_iff.1 hroot
  cases format with
  | flat => rw [hflat]; rfl
  | unique => rw [hunique]; rfl
  | depth => rw [hdepth]; rfl

theorem Database.perform_nodeDescendants {db : Database} {edges : Numbered Edge}
    (h : db.edges = some edges) (id : NodeId) (query : DescendantQuery) :
    db.perform (NodeDescendants.find id query) = (.ok ⟨id, query, (Descendants.query
      (Edges.childrenOf edges.values) id query.format query.depthLimit).descendants⟩, db) := by
  unfold NodeDescendants.find
  rw [perform_bind_ok (perform_descendants h _ _ _)]
  rfl

/-- The tables that requests are about are there, and every stored text is that of an item. -/
structure Database.Serves (db : Database) : Prop where
  items : ∃ items, db.items = some items ∧
    ∀ row ∈ items.rows, ∃ item, Item.ofText? row.text = some item
  edges : ∃ edges, db.edges = some edges
  queue : ∃ requests, db.queue = some requests

namespace Database.Serves
variable {db : Database}

theorem exists_items (h : db.Serves) {filter : ContentFilter} (hfits : filter.isStatable = true) :
    ∃ items, db.perform (Content.findItems filter) = (.ok items, db) := by
  obtain ⟨table, htable, hread⟩ := h.items
  rw [perform_readings htable filter hfits]
  cases hrows : (filter.select table.rows).mapM ItemRow.item with
  | ok items => exact ⟨items, rfl⟩
  | error e =>
    obtain ⟨before, row, after, hsplit, hrow, -⟩ := mapM_eq_error_iff.1 hrows
    have hmem : row ∈ filter.select table.rows := by simp [hsplit]
    obtain ⟨item, hitem⟩ := hread row ((filter.select_sublist table.rows).subset hmem)
    rw [ItemRow.item_eq_ok_iff.2 hitem] at hrow
    cases hrow

theorem exists_page (h : db.Serves) {filter : ContentFilter} (hfits : filter.isStatable = true)
    {rows lookups limit : Nat} {format : DescendantFormat} {list : Action (Page ItemDescendants)}
    (hlist : db.ListsWithin rows lookups filter format limit list) :
    ∃ page, db.perform list = (.ok page, db) := by
  obtain ⟨items, hitems⟩ := h.exists_items hfits
  obtain ⟨edges, hedges⟩ := h.edges
  rcases hlist with ⟨page, hpage, -⟩ | ⟨e, -, he | hnone⟩
  · exact ⟨page, hpage⟩
  · rw [hitems] at he
    cases he
  · rw [hedges] at hnone
    cases hnone

end Database.Serves

namespace Http.Server
variable {s : Server} {r : Request} {route : Route} {db : Database}

/-- A path segment that names a node once its escapes are resolved. -/
def NamesNode (segment : String) : Prop :=
  ∃ text, segmentText? segment = some text ∧ NodeId.Named text

/-- What a route looks at is as it has to be. -/
def Accepts (s : Server) (r : Request) : Route → Prop
  | .health => True
  | .descendantsByType => TypeQuery.Taken s.config.traversal (parameters r)
  | .metadata => MetadataQuery.Taken (parameters r)
  | .descendantsOf segment =>
    NamesNode segment ∧ DescendantQuery.Taken s.config.traversal (parameters r)
  | .reindex segment => NamesNode segment

/-- The status of a request that is answered as its route has it. -/
def success : Route → Nat
  | .reindex _ => 202
  | _ => 200

/-- What such a request leaves of a database: a fresh request behind the waiting ones where
it was to reindex, and otherwise everything as it was. -/
def Leaves (db after : Database) : Route → Prop
  | .reindex segment => ∃ text id requests, segmentText? segment = some text ∧
      NodeId.read text = .ok id ∧ db.queue = some requests ∧
      after = { db with queue := some (requests.add (Queue.request id)) }
  | _ => after = db

/-- What is valid has its status and its effect. What is not is told so, without any effect. -/
def Answers (respond : StateM Database Response) (db : Database) (valid : Prop) (status : Nat)
    (effect : Database → Prop) : Prop :=
  (valid ∧ ∃ response after, respond.run db = (response, after) ∧ response.status = status ∧
      effect after) ∨
    (¬ valid ∧ ∃ response, respond.run db = (response, db) ∧ response.status = 400)

namespace Answers
variable {respond : StateM Database Response} {valid other : Prop} {status : Nat}
  {effect : Database → Prop}

theorem map (h : Answers respond db valid status effect) {f : Response → Response}
    (hf : ∀ response, (f response).status = response.status) :
    Answers (f <$> respond) db valid status effect := by
  rcases h with ⟨hvalid, response, after, hrun, hstatus, heffect⟩ | ⟨hvalid, response, hrun, hbad⟩
  · refine Or.inl ⟨hvalid, f response, after, ?_, (hf response).trans hstatus, heffect⟩
    rw [StateT.run_map, hrun]
    rfl
  · refine Or.inr ⟨hvalid, f response, ?_, (hf response).trans hbad⟩
    rw [StateT.run_map, hrun]
    rfl

end Answers

/-! ## Routes -/

section
variable (hadmitted : s.refusal? r = none)
include hadmitted

theorem answers_withQuery {α : Type} {query : Except Failure α} {valid : Prop}
    (h : Judged query valid) {go : α → StateM Database Response}
    (hgo : ∀ a, query = .ok a → ∃ response, (go a).run db = (response, db) ∧
      response.status = 200) :
    Answers (s.withQuery r query go) db valid 200 (· = db) := by
  unfold withQuery
  rw [hadmitted]
  rcases h with ⟨hvalid, a, rfl⟩ | ⟨hinvalid, detail, rfl⟩
  · obtain ⟨response, hrun, hstatus⟩ := hgo a rfl
    exact Or.inl ⟨hvalid, response, db, hrun, hstatus, rfl⟩
  · exact Or.inr ⟨hinvalid, _, rfl, rfl⟩

/-- A segment that names no node decides; otherwise the node does. -/
theorem answers_withNode {valid : Prop} {status : Nat} {effect : Database → Prop}
    {segment : String} {go : NodeId → StateM Database Response}
    (hgo : ∀ text id, segmentText? segment = some text → NodeId.read text = .ok id →
      Answers (go id) db valid status effect) :
    Answers (s.withNode r segment go) db (NamesNode segment ∧ valid) status effect := by
  unfold withNode NamesNode
  cases htext : segmentText? segment with
  | none =>
    refine Or.inr ⟨?_, _, rfl, rfl⟩
    rintro ⟨⟨text, hsome, -⟩, -⟩
    cases hsome
  | some text =>
    dsimp only
    rw [hadmitted]
    dsimp only
    rcases NodeId.judged_read text with ⟨hnamed, id, hid⟩ | ⟨hunnamed, detail, he⟩
    · rw [hid]
      rcases hgo text id htext hid with ⟨hvalid, hanswered⟩ | ⟨hvalid, hrefused⟩
      · exact Or.inl ⟨⟨⟨text, rfl, hnamed⟩, hvalid⟩, hanswered⟩
      · exact Or.inr ⟨fun h => hvalid h.2, hrefused⟩
    · rw [he]
      refine Or.inr ⟨?_, _, rfl, rfl⟩
      rintro ⟨⟨other, hother, hnamed⟩, -⟩
      obtain rfl := Option.some.inj hother
      exact hunnamed hnamed

/-- On every route the request is answered as what it looks at deserves. -/
theorem answers_handle {method uri : String} {headers : List (String × String)}
    (hmade : Request.make? method uri headers = some r) (h : db.Serves) (route : Route) :
    Answers (s.handle r route) db (s.Accepts r route) (success route) (Leaves db · route) := by
  unfold handle
  cases route with
  | health => exact Or.inl ⟨trivial, _, db, rfl, rfl, rfl⟩
  | descendantsByType =>
    refine answers_withQuery hadmitted (TypeQuery.judged_read _ _ _) fun query _ => ?_
    have hfits : query.filter.isStatable = true := rfl
    obtain ⟨page, hpage⟩ := h.exists_page hfits
      (db.listsWithin_find rfl query.descendants.format query.descendants.depthLimit query.offset)
    exact ⟨_, run_answer hpage _, rfl⟩
  | metadata =>
    refine answers_withQuery hadmitted (MetadataQuery.judged_read _ _) fun query hquery => ?_
    have hfits : query.filter.isStatable = true := by
      unfold MetadataQuery.filter
      rw [(MetadataQuery.of_read hquery).1]
      exact MetadataQuery.isStatable_of_request hmade _ _ _
    obtain ⟨page, hpage⟩ := h.exists_page hfits
      (db.listsWithin_find rfl query.format s.config.traversal.defaultLimit query.offset)
    exact ⟨_, run_answer hpage _, rfl⟩
  | descendantsOf segment =>
    refine answers_withNode hadmitted fun text id _ _ => ?_
    obtain ⟨edges, hedges⟩ := h.edges
    rcases DescendantQuery.judged_read s.config.traversal (parameters r) with
      ⟨hvalid, query, hquery⟩ | ⟨hinvalid, detail, he⟩
    · rw [hquery]
      have hfound := Database.perform_nodeDescendants hedges id query
      exact Or.inl ⟨hvalid, _, db, run_answer hfound _, rfl, rfl⟩
    · rw [he]
      exact Or.inr ⟨hinvalid, _, rfl, rfl⟩
  | reindex segment =>
    obtain ⟨requests, hrequests⟩ := h.queue
    have hanswers : Answers
        (s.withNode r segment fun id => answer (Queue.enqueue id) (queued id)) db
        (NamesNode segment ∧ True) 202 (Leaves db · (.reindex segment)) :=
      answers_withNode hadmitted fun text id htext hid =>
        Or.inl ⟨trivial, _, _, run_answer (Database.perform_enqueue hrequests id) _, rfl,
          text, id, requests, htext, hid, hrequests, rfl⟩
    rw [and_true] at hanswers
    exact hanswers

end

/-! ## Responses -/

theorem respond_route (hroute : Route.ofPath? r.target.path = some route)
    (hmethod : r.method ∈ route.methods) : s.respond r =
      (fun response => { (if r.method == "HEAD" then response.withoutBody else response) with
        allowOrigin := s.allowOrigin r }) <$> s.handle r route := by
  have hoptions : ¬ (r.method == "OPTIONS") = true := by
    intro h
    rw [beq_iff_eq.1 h] at hmethod
    cases route <;> simp [Route.methods] at hmethod
  unfold respond dispatch
  rw [hroute]
  dsimp only
  rw [if_neg hoptions, if_neg (by simpa using hmethod), map_eq_pure_bind, bind_assoc]
  rfl

theorem answers_respond (hadmitted : s.refusal? r = none)
    (hroute : Route.ofPath? r.target.path = some route) (hmethod : r.method ∈ route.methods)
    {method uri : String} {headers : List (String × String)}
    (hmade : Request.make? method uri headers = some r) (h : db.Serves) :
    Answers (s.respond r) db (s.Accepts r route) (success route) (Leaves db · route) := by
  rw [respond_route hroute hmethod]
  refine (answers_handle hadmitted hmade h route).map fun response => ?_
  split <;> rfl

/-- What is told of a node under which nothing is. -/
def childless (id : NodeId) (query : DescendantQuery) : Json :=
  .obj [("id", .int id), ("format", .str query.format.name), ("depth_limit", .int query.depthLimit),
    ("descendants", .arr [])]

/-- The descendants of a node without stored children are an empty list. -/
theorem respond_childless (hadmitted : s.refusal? r = none) {segment text : String} {id : NodeId}
    (hroute : Route.ofPath? r.target.path = some (.descendantsOf segment))
    (hmethod : r.method = "GET") (htext : segmentText? segment = some text)
    (hid : NodeId.read text = .ok id) {query : DescendantQuery}
    (hquery : DescendantQuery.read s.config.traversal (parameters r) = .ok query)
    (h : db.Serves) (hnone : db.childrenOf id = .ok []) :
    (s.respond r).run db =
      ({ Response.json 200 (childless id query) with allowOrigin := s.allowOrigin r }, db) := by
  obtain ⟨edges, hedges⟩ := h.edges
  rw [Database.childrenOf_table hedges] at hnone
  have hfound := Database.perform_nodeDescendants hedges id query
  have hhandle : (s.handle r (.descendantsOf segment)).run db =
      (.json 200 (childless id query), db) := by
    unfold handle withNode
    dsimp only
    rw [htext, hadmitted]
    dsimp only
    rw [hid]
    dsimp only
    rw [hquery]
    dsimp only
    rw [run_answer hfound]
    unfold NodeDescendants.toJson childless
    rw [Descendants.toJson_query_of_childless (Except.ok.inj hnone)]
  rw [respond_route hroute (by rw [hmethod]; exact List.mem_cons_self), StateT.run_map, hhandle,
    hmethod]
  rfl

/-- A node is read from a text exactly where that spells a positive number of 64 bits with a sign,
and a parameter is left out, or gives a number of 64 bits, or is bad. The queries are read from
parameters that are valid, and on all others there is bad input. A request for a route with one of
its methods, which nothing speaks against, has the status of its route where all that it looks at
is valid, and 400 and no effect where it is not; what it is answered with for a node without stored
children is an empty list. -/
theorem requests_are_judged_by_grammar (s : Server) :
    (∀ segment, (∀ id, NodeId.read segment = .ok id ↔ ∃ n : Nat, Text.Spells segment n ∧
        1 ≤ n ∧ n ≤ Text.maxSigned64 ∧ id = n) ∧
      Judged (NodeId.read segment) (NodeId.Named segment)) ∧
    (∀ (params : Parameters) key, (params.number? key = .ok none ↔ params.Omits key) ∧
      (∀ n, params.number? key = .ok (some n) ↔ params.Gives key n) ∧
      Judged (params.number? key) (params.Legible key)) ∧
    (∀ params : Parameters,
      Judged (DescendantQuery.read s.config.traversal params)
        (DescendantQuery.Taken s.config.traversal params) ∧
      Judged (TypeQuery.read s.config.traversal s.config.api params)
        (TypeQuery.Taken s.config.traversal params) ∧
      Judged (MetadataQuery.read s.config.api params) (MetadataQuery.Taken params)) ∧
    ∀ (method uri : String) (headers : List (String × String)) (r : Request) (route : Route)
      (db : Database), Request.make? method uri headers = some r →
      Route.ofPath? r.target.path = some route → r.method ∈ route.methods →
      s.refusal? r = none → db.Serves →
      Answers (s.respond r) db (s.Accepts r route) (success route) (Leaves db · route) ∧
      ∀ segment text id query, route = .descendantsOf segment → r.method = "GET" →
        segmentText? segment = some text → NodeId.read text = .ok id →
        DescendantQuery.read s.config.traversal (parameters r) = .ok query →
        db.childrenOf id = .ok [] → (s.respond r).run db =
          ({ Response.json 200 (childless id query) with allowOrigin := s.allowOrigin r }, db) := by
  refine ⟨fun segment => ⟨fun id => NodeId.read_eq_ok_iff, NodeId.judged_read segment⟩,
    fun params key => ⟨params.number?_eq_none_iff, fun n => params.number?_eq_some_iff,
      params.judged_number? key⟩,
    fun params => ⟨DescendantQuery.judged_read _ params, TypeQuery.judged_read _ _ params,
      MetadataQuery.judged_read _ params⟩, ?_⟩
  intro method uri headers r route db hmade hroute hmethod hadmitted h
  refine ⟨answers_respond hadmitted hroute hmethod hmade h, ?_⟩
  rintro segment text id query rfl hget htext hid hquery hnone
  exact respond_childless hadmitted hroute hget htext hid hquery h hnone

open Database (keeping straying ofText_straying)

def farRequest (limit : String) : Request :=
  ⟨"GET", ⟨"/api/v1/descendants/+9", "depth_limit=" ++ limit⟩,
    [("Authorization", "Bearer sesame")]⟩

theorem serves_keeping : (keeping straying [⟨2, 5, 2⟩]).Serves where
  items := by
    refine ⟨ItemTable.empty.put (.ofItem straying none), rfl, fun row hrow => ?_⟩
    obtain rfl : row = .ofItem straying none := List.mem_singleton.1 hrow
    exact ⟨straying, ofText_straying⟩
  edges := ⟨Numbered.empty.addAll [⟨2, 5, 2⟩], rfl⟩
  queue := ⟨.empty, rfl⟩

section
variable {limit : String} (h : limit ∈ ["100", "101"])
include h

theorem make_farRequest :
    Request.make? "GET" ("/api/v1/descendants/+9?depth_limit=" ++ limit)
      [("Authorization", "Bearer sesame")] = some (farRequest limit) := by
  have htarget : Target.read? ("/api/v1/descendants/+9?depth_limit=" ++ limit) =
      some (farRequest limit).target := by
    revert limit
    decide +kernel
  unfold Request.make?
  rw [if_pos (by decide +kernel), htarget]
  rfl

theorem parameters_farRequest : parameters (farRequest limit) = [("depth_limit", limit)] := by
  revert limit
  decide +kernel

theorem admits_farRequest : keyed.refusal? (farRequest limit) = none := by
  have hkey : keyed.HasKey (farRequest limit) := by
    refine ⟨by decide, ?_⟩
    revert limit
    decide +kernel
  unfold refusal?
  rw [keyRefusal_eq_none_iff.2 hkey]
  rfl

end

/-- With the largest limit there is an empty list, and with one that is larger by one there is
bad input. -/
theorem far_requests_are_judged :
    (∀ limit ∈ ["100", "101"],
      Request.make? "GET" ("/api/v1/descendants/+9?depth_limit=" ++ limit)
        [("Authorization", "Bearer sesame")] = some (farRequest limit) ∧
      Route.ofPath? (farRequest limit).target.path = some (.descendantsOf "+9") ∧
      keyed.refusal? (farRequest limit) = none) ∧
    (keeping straying [⟨2, 5, 2⟩]).Serves ∧
    (keyed.respond (farRequest "100")).run (keeping straying [⟨2, 5, 2⟩]) =
      ({ Response.json 200 (childless 9 ⟨.flat, 100⟩) with allowOrigin := some everyOrigin },
        keeping straying [⟨2, 5, 2⟩]) ∧
    ∃ response, (keyed.respond (farRequest "101")).run (keeping straying [⟨2, 5, 2⟩]) =
      (response, keeping straying [⟨2, 5, 2⟩]) ∧ response.status = 400 := by
  have hroute : ∀ limit, Route.ofPath? (farRequest limit).target.path =
      some (.descendantsOf "+9") := fun limit => by
    show Route.ofPath? "/api/v1/descendants/+9" = _
    decide +kernel
  obtain ⟨-, -, -, hjudged⟩ := requests_are_judged_by_grammar keyed
  refine ⟨fun limit h => ⟨make_farRequest h, hroute limit, admits_farRequest h⟩,
    serves_keeping, ?_, ?_⟩
  · have hquery : DescendantQuery.read keyed.config.traversal (parameters (farRequest "100")) =
        .ok ⟨.flat, 100⟩ := by
      rw [parameters_farRequest (by decide)]
      cbv
    refine (hjudged _ _ _ _ _ _ (make_farRequest (by decide)) (hroute "100") List.mem_cons_self
      (admits_farRequest (by decide)) serves_keeping).2 "+9" "+9" 9 _ rfl rfl ?_ ?_ hquery ?_
    · decide +kernel
    · cbv
    · rw [Database.childrenOf_table rfl]
      rfl
  · have hbad : DescendantQuery.read keyed.config.traversal (parameters (farRequest "101")) =
        .error (.invalidInput "depth_limit 101 exceeds the maximum of 100") := by
      rw [parameters_farRequest (by decide)]
      cbv
    rcases (hjudged _ _ _ _ _ _ (make_farRequest (by decide)) (hroute "101") List.mem_cons_self
      (admits_farRequest (by decide)) serves_keeping).1 with ⟨⟨-, htaken⟩, -⟩ | ⟨-, hrefused⟩
    · obtain ⟨query, hquery⟩ := (DescendantQuery.judged_read _ _).exists_ok_iff.2 htaken
      rw [hbad] at hquery
      cases hquery
    · exact hrefused

end Http.Server

end Lineage
