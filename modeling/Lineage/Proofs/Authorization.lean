import Lineage.Http.Server
import Lineage.Proofs.ReadOnly
import Lineage.Proofs.SourcePaths

/-! # What a request without the key learns and changes

A request goes through the router, through the reading of its path and through the check of its
key before anything looks at the database. One that is turned away on the way is answered the
same whatever is stored. Of all others only a request to reindex writes: what the listings do
is made of readings. -/

namespace Lineage

open Lineage.Action (ReadsOnly readsOnly_bind readsOnly_pure)

theorem NodeDescendants.readsOnly_find (id : NodeId) (query : DescendantQuery) :
    ReadsOnly (find id query) :=
  readsOnly_bind (Edges.readsOnly_descendants _ _ _) fun _ => readsOnly_pure _

theorem ItemDescendants.readsOnly_find (filter : ContentFilter) (format : DescendantFormat)
    (limit : Nat) : ReadsOnly (find filter format limit) :=
  readsOnly_bind (Content.readsOnly_findItems filter) fun items =>
    Action.readsOnly_mapM (fun _ =>
      readsOnly_bind (Edges.readsOnly_descendants _ _ _) fun _ => readsOnly_pure _) items

theorem TypeQuery.readsOnly_list (query : TypeQuery) : ReadsOnly query.list :=
  readsOnly_bind (ItemDescendants.readsOnly_find _ _ _) fun _ => readsOnly_pure _

theorem MetadataQuery.readsOnly_list (t : TraversalConfig) (query : MetadataQuery) :
    ReadsOnly (query.list t) :=
  readsOnly_bind (ItemDescendants.readsOnly_find _ _ _) fun _ => readsOnly_pure _

namespace Http

/-- There is one response for all databases, and each is left as it is. -/
def Blind (respond : StateM Database Response) : Prop :=
  ∃ response, ∀ db, respond.run db = (response, db)

/-- Whatever the response, the database is left as it is. -/
def Keeps (respond : StateM Database Response) : Prop := ∀ db, (respond.run db).2 = db

section
variable {respond : StateM Database Response}

theorem blind_pure (response : Response) : Blind (pure response) := ⟨response, fun _ => rfl⟩

theorem keeps_pure (response : Response) : Keeps (pure response) := fun _ => rfl

theorem Blind.map (h : Blind respond) (f : Response → Response) : Blind (f <$> respond) := by
  obtain ⟨response, hrun⟩ := h
  refine ⟨f response, fun db => ?_⟩
  rw [StateT.run_map, hrun]
  rfl

theorem Keeps.map (h : Keeps respond) (f : Response → Response) : Keeps (f <$> respond) := by
  intro db
  rw [StateT.run_map]
  exact h db

theorem keeps_answer {α : Type} {act : Action α} (h : ReadsOnly act) (write : α → Response) :
    Keeps (Server.answer act write) := by
  intro db
  have hafter : ((Server.answer act write).run db).2 = (db.perform act).2 := by
    unfold Server.answer Database.perform
    rw [StateT.run_bind]
    cases act.run.run db with
    | mk outcome after => cases outcome <;> rfl
  rw [hafter, h db]

end

namespace Server
variable {s : Server} {r : Request} {route : Route} {refusal : Response}

/-- The server has a key, and the first authorization header of the request bears it. -/
def HasKey (s : Server) (r : Request) : Prop :=
  s.key ≠ "" ∧ r.visible? "authorization" = some ("Bearer " ++ s.key)

theorem bears_iff {value key : String} :
    bearer.isPrefixOf value.toList = true ∧ value.toList.drop bearer.length = key.toList ↔
      value = "Bearer " ++ key := by
  rw [List.isPrefixOf_iff_prefix, ← String.toList_inj, String.toList_append]
  show _ ↔ value.toList = bearer ++ key.toList
  constructor
  · rintro ⟨⟨rest, hrest⟩, hkey⟩
    rw [← hrest, List.drop_left] at hkey
    rw [← hrest, hkey]
  · intro h
    rw [h]
    exact ⟨List.prefix_append _ _, List.drop_left⟩

theorem keyRefusal_eq_none_iff : keyRefusal? s.key r = none ↔ s.HasKey r := by
  unfold keyRefusal? HasKey
  cases r.visible? "authorization" with
  | none => simp
  | some value =>
    rw [Option.some.injEq, ← bears_iff]
    by_cases hbears : bearer.isPrefixOf value.toList = true
    · simp [hbears]
    · simp [hbears]

/-- Without the key there is a refusal, before the origin is looked at. -/
theorem exists_refusal (hlocked : s.config.http.authless = false) (hkey : ¬ s.HasKey r) :
    ∃ refusal, s.refusal? r = some refusal := by
  unfold refusal?
  rw [hlocked]
  cases hrefusal : keyRefusal? s.key r with
  | none => exact absurd (keyRefusal_eq_none_iff.1 hrefusal) hkey
  | some refusal => exact ⟨refusal, rfl⟩

theorem blind_withNode (h : s.refusal? r = some refusal) (segment : String)
    (go : NodeId → StateM Database Response) : Blind (s.withNode r segment go) := by
  unfold withNode
  rw [h]
  cases segmentText? segment <;> exact blind_pure _

theorem blind_withQuery {α : Type} (h : s.refusal? r = some refusal) (query : Except Failure α)
    (go : α → StateM Database Response) : Blind (s.withQuery r query go) := by
  unfold withQuery
  rw [h]
  exact blind_pure _

/-- A request that is refused is answered without a look at the database, on every route. -/
theorem blind_handle (h : s.refusal? r = some refusal) (route : Route) :
    Blind (s.handle r route) := by
  unfold handle
  cases route with
  | health => exact blind_pure _
  | descendantsByType => exact blind_withQuery h _ _
  | descendantsOf segment => exact blind_withNode h segment _
  | metadata => exact blind_withQuery h _ _
  | reindex segment => exact blind_withNode h segment _

theorem keeps_withNode {go : NodeId → StateM Database Response} (h : ∀ id, Keeps (go id))
    (segment : String) : Keeps (s.withNode r segment go) := by
  unfold withNode
  cases segmentText? segment with
  | none => exact keeps_pure _
  | some text =>
    dsimp only
    cases s.refusal? r with
    | some refusal => exact keeps_pure refusal
    | none =>
      dsimp only
      cases NodeId.read text with
      | error failure => exact keeps_pure _
      | ok id => exact h id

theorem keeps_withQuery {α : Type} {go : α → StateM Database Response} (h : ∀ a, Keeps (go a))
    (query : Except Failure α) : Keeps (s.withQuery r query go) := by
  unfold withQuery
  cases s.refusal? r with
  | some refusal => exact keeps_pure refusal
  | none =>
    cases query with
    | error failure => exact keeps_pure _
    | ok query => exact h query

/-- On every route but the one to reindex only readings are made. -/
theorem keeps_handle (h : ∀ segment, route ≠ .reindex segment) : Keeps (s.handle r route) := by
  unfold handle
  cases route with
  | health => exact keeps_pure _
  | descendantsByType =>
    exact keeps_withQuery (fun query => keeps_answer query.readsOnly_list _) _
  | descendantsOf segment =>
    refine keeps_withNode (fun id => ?_) segment
    cases DescendantQuery.read s.config.traversal (parameters r) with
    | error failure => exact keeps_pure _
    | ok query => exact keeps_answer (NodeDescendants.readsOnly_find id query) _
  | metadata => exact keeps_withQuery (fun query => keeps_answer (query.readsOnly_list _) _) _
  | reindex segment => exact absurd rfl (h segment)

/-- A request is answered by the router alone, or by what handles its route, if it has one of
the methods of the route. -/
theorem respond_cases (s : Server) (r : Request) : (∃ response, s.respond r = pure response) ∨
    ∃ route f, Route.ofPath? r.target.path = some route ∧ r.method ∈ route.methods ∧
      s.respond r = f <$> s.handle r route := by
  unfold respond dispatch
  cases hroute : Route.ofPath? r.target.path with
  | none => exact Or.inl ⟨_, rfl⟩
  | some route =>
    dsimp only
    split
    · exact Or.inl ⟨_, rfl⟩
    · split
      · exact Or.inl ⟨_, rfl⟩
      · rename_i hmethod
        refine Or.inr ⟨route, fun response =>
          { (if r.method == "HEAD" then response.withoutBody else response) with
            allowOrigin := s.allowOrigin r }, rfl, by simpa using hmethod, ?_⟩
        rw [map_eq_pure_bind, bind_assoc]
        rfl

theorem path_of_reindex {path segment : String}
    (h : Route.ofPath? path = some (.reindex segment)) : path = "/api/v1/reindex/" ++ segment := by
  have hsegments : Path.segments path = ["", "api", "v1", "reindex", segment] := by
    unfold Route.ofPath? at h
    split at h
    case h_5 name hsplit =>
      split at h
      · cases h
      · cases h
        exact hsplit
    case h_4 => split at h <;> cases h
    all_goals cases h
  rw [← Path.intercalate_segments path, hsegments]
  rfl

/-- A server that asks for a key answers requests without it the same whatever is stored, and
changes nothing on them; one whose key is empty does so with all requests. And no request to any
server changes the database, unless it posts to the path of a reindex. -/
theorem nothing_without_key (s : Server) (r : Request) :
    (s.config.http.authless = false → ¬ s.HasKey r →
      ∃ response, ∀ db, (s.respond r).run db = (response, db)) ∧
    ∀ db, ((s.respond r).run db).2 ≠ db →
      r.method = "POST" ∧ ∃ id, r.target.path = "/api/v1/reindex/" ++ id := by
  constructor
  · intro hlocked hkey
    obtain ⟨refusal, hrefusal⟩ := exists_refusal hlocked hkey
    rcases s.respond_cases r with ⟨response, hrespond⟩ | ⟨route, f, -, -, hrespond⟩ <;>
      rw [hrespond]
    · exact blind_pure response
    · exact (blind_handle hrefusal route).map f
  · intro db hchanged
    rcases s.respond_cases r with ⟨response, hrespond⟩ | ⟨route, f, hroute, hmethod, hrespond⟩ <;>
      rw [hrespond] at hchanged
    · exact absurd rfl hchanged
    · by_cases hreindex : ∃ segment, route = .reindex segment
      · obtain ⟨segment, rfl⟩ := hreindex
        exact ⟨List.mem_singleton.1 hmethod, segment, path_of_reindex hroute⟩
      · exact absurd ((keeps_handle (not_exists.1 hreindex)).map f db) hchanged

def keyed : Server :=
  ⟨⟨⟨"items.db", "content", none, "info"⟩, .default, .default, .default, .default⟩, "sesame"⟩

def reindexWith (key : String) : Request :=
  ⟨"POST", ⟨"/api/v1/reindex/7", ""⟩, [("Authorization", "Bearer " ++ key)]⟩

def queueOnly : Database := ⟨none, none, some .empty, none, []⟩

/-- The same request with a wrong key is answered blindly and with the right one is queued. -/
theorem key_decides :
    (keyed.config.http.authless = false ∧ ¬ keyed.HasKey (reindexWith "open") ∧
      ∃ response, ∀ db, (keyed.respond (reindexWith "open")).run db = (response, db)) ∧
    ((keyed.respond (reindexWith "sesame")).run queueOnly).2 ≠ queueOnly ∧
      (reindexWith "sesame").method = "POST" ∧
      ∃ id, (reindexWith "sesame").target.path = "/api/v1/reindex/" ++ id := by
  have hkey : ¬ keyed.HasKey (reindexWith "open") := fun h => absurd h.2 (by decide +kernel)
  have hchanged : ((keyed.respond (reindexWith "sesame")).run queueOnly).2 ≠ queueOnly := by
    decide +kernel
  exact ⟨⟨rfl, hkey, (nothing_without_key keyed (reindexWith "open")).1 rfl hkey⟩, hchanged,
    (nothing_without_key keyed (reindexWith "sesame")).2 queueOnly hchanged⟩

end Server

end Http

end Lineage
