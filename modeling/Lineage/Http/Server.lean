import Lineage.Api.Listing
import Lineage.Http.Message
import Lineage.Queue.Basic
import Lineage.Text.Bytes

/-! The server: which requests there are, who may make them, and what they are answered
with. Only a request to reindex changes the database. -/

namespace Lineage.Http

inductive Route where
  | health
  | descendantsByType
  | descendantsOf (segment : String)
  | metadata
  | reindex (segment : String)
deriving DecidableEq, Repr

namespace Route

/-- The route of a path. A segment that stands for a node is not empty. -/
def ofPath? (path : String) : Option Route :=
  match (path.toList.splitOn '/').map String.ofList with
  | ["", "health"] => some .health
  | ["", "api", "v1", "descendants"] => some .descendantsByType
  | ["", "api", "v1", "content-metadata"] => some .metadata
  | ["", "api", "v1", "descendants", segment] =>
    if segment.isEmpty then none else some (.descendantsOf segment)
  | ["", "api", "v1", "reindex", segment] =>
    if segment.isEmpty then none else some (.reindex segment)
  | _ => none

def methods : Route → List String
  | .reindex _ => ["POST"]
  | _ => ["GET", "HEAD"]

def allow (route : Route) : String := ",".intercalate route.methods

end Route

structure Server where
  config : Config
  key : String

namespace Server

/-- A server with the key that the environment holds for it, if it needs one. -/
def ofConfig (config : Config) (environment : String → Option String) : Except Failure Server :=
  if config.http.authless then .ok ⟨config, ""⟩
  else match environment config.http.keyVariable with
    | some key => .ok ⟨config, key⟩
    | none => .error (.config
        ("Environment variable " ++ config.http.keyVariable ++
          " not set. Set it in your .env file or as an environment variable," ++
          " or enable authless mode."))

def refusal (status : Nat) (error message : String) : Response :=
  .json status (.obj [("error", .str error), ("message", .str message)])

def unauthorized (error : String) : Response :=
  refusal 401 error "Use 'Authorization: Bearer <api-key>' header"

def bearer : List Char := "Bearer ".toList

/-- What is wrong with the key of a request. An empty key opens nothing. -/
def keyRefusal? (key : String) (r : Request) : Option Response :=
  match r.visible? "authorization" with
  | none => some (unauthorized "Missing Authorization header")
  | some value =>
    if !bearer.isPrefixOf value.toList then
      some (unauthorized "Invalid Authorization header format")
    else if key.isEmpty || value.toList.drop bearer.length != key.toList then
      some (unauthorized "Invalid API key")
    else none

/-- What is wrong with the origin of a request; one without an origin is no page's. -/
def originRefusal? (allowed : List String) (r : Request) : Option Response :=
  if allowed.isEmpty then none
  else match r.visible? "origin" with
    | none => none
    | some origin =>
      if allowed.contains origin then none
      else some (refusal 403 "Origin not allowed"
        ("Origin '" ++ origin ++ "' is not in the allowed origins list"))

def refusal? (s : Server) (r : Request) : Option Response :=
  if s.config.http.authless then none
  else keyRefusal? s.key r <|> originRefusal? s.config.http.allowedOrigins r

/-- What stands for every origin. It is none itself, so that it has no place in a list. -/
def everyOrigin : String := "*"

def allowOrigin (s : Server) (r : Request) : Option String :=
  let allowed := s.config.http.allowedOrigins
  if allowed.isEmpty then some everyOrigin
  else (r.header? "origin").filter fun origin =>
    (allowed.filter isHeaderValue).contains origin

def answer {α : Type} (act : Action α) (write : α → Response) : StateM Database Response := do
  match ← act.run with
  | .ok a => pure (write a)
  | .error failure => pure (.ofFailure failure)

/-- The parameters of a query; the last of several with one name counts. -/
def parameters (r : Request) : Parameters :=
  Dictionary.ofPairs (Text.formPairs r.target.query)

def health : Response := .json 200 (.obj
  [("status", .str "ok"), ("service", .str "descendant-manager"), ("version", .str "1.0.0")])

def queued (id : NodeId) (queueId : Int) : Response := .json 202 (.obj
  [("id", .int id), ("queue_id", .int queueId), ("status", .str "queued")])

def segmentText? (segment : String) : Option String :=
  Text.text? (Text.percentDecode (Text.utf8 segment))

/-- Goes on with a node's path segment, for a request that nothing speaks against. -/
def withNode (s : Server) (r : Request) (segment : String)
    (go : NodeId → StateM Database Response) : StateM Database Response :=
  match segmentText? segment with
  | none => pure (.plain 400 "Invalid URL: Invalid UTF-8 in `id`")
  | some text =>
    match s.refusal? r with
    | some refusal => pure refusal
    | none =>
      match NodeId.read text with
      | .error failure => pure (.ofFailure failure)
      | .ok id => go id

/-- Goes on with what a query asks for, for a request that nothing speaks against. -/
def withQuery {α : Type} (s : Server) (r : Request) (query : Except Failure α)
    (go : α → StateM Database Response) : StateM Database Response :=
  match s.refusal? r with
  | some refusal => pure refusal
  | none =>
    match query with
    | .error failure => pure (.ofFailure failure)
    | .ok query => go query

def handle (s : Server) (r : Request) : Route → StateM Database Response
  | .health => pure health
  | .descendantsByType =>
    s.withQuery r (TypeQuery.read s.config.traversal s.config.api (parameters r)) fun query =>
      answer query.list fun page => .json 200 (page.toJson ItemDescendants.toJson)
  | .metadata =>
    s.withQuery r (MetadataQuery.read s.config.api (parameters r)) fun query =>
      answer (query.list s.config.traversal) fun page =>
        .json 200 (page.toJson ItemDescendants.metadataJson)
  | .descendantsOf segment =>
    s.withNode r segment fun id =>
      match DescendantQuery.read s.config.traversal (parameters r) with
      | .error failure => pure (.ofFailure failure)
      | .ok query => answer (NodeDescendants.find id query) fun n => .json 200 n.toJson
  | .reindex segment =>
    s.withNode r segment fun id => answer (Queue.enqueue id) (queued id)

/-- The answer before the origin is put in. Every request for options is answered alike,
and `HEAD` is `GET` without a body. -/
def dispatch (s : Server) (r : Request) : StateM Database Response := do
  match Route.ofPath? r.target.path with
  | none => pure (.empty (if r.method == "OPTIONS" then 200 else 404))
  | some route =>
    if r.method == "OPTIONS" then pure { Response.empty 200 with allow := some route.allow }
    else if !route.methods.contains r.method then
      pure { Response.empty 405 with allow := some route.allow }
    else
      let response ← s.handle r route
      pure (if r.method == "HEAD" then response.withoutBody else response)

def respond (s : Server) (r : Request) : StateM Database Response := do
  let response ← s.dispatch r
  pure { response with allowOrigin := s.allowOrigin r }

end Server

end Lineage.Http
