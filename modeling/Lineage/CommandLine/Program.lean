import Lineage.Api.Listing
import Lineage.CommandLine.Arguments
import Lineage.CommandLine.Run
import Lineage.Http.Server
import Lineage.Ingest.Import
import Lineage.Queue.Cycle

/-! The programs: managing the index, importing exports, watching them, requesting all
reindexes, asking for descendants, and statistics. -/

namespace Lineage

inductive Program where
  | manager
  | importer
  | backfill
  | descendants
  | stats
  | watch
deriving DecidableEq, Repr

namespace Program

def name : Program → String
  | manager => "descendant-manager"
  | importer => "import"
  | backfill => "backfill"
  | descendants => "descendants"
  | stats => "stats"
  | watch => "watch"

def ofName? (s : String) : Option Program :=
  [manager, importer, backfill, descendants, stats, watch].find? fun p => p.name == s

def requiredTables : List String :=
  [StandardTable.items.name, StandardTable.edges.name, StandardTable.queue.name, ledgerName]

/-- Fails when a table is missing, a migration was not applied or the database keeps no
log. -/
def checkSchema (journal : Journal) : Action Unit := do
  let names := (← getThe Database).tableNames
  if !requiredTables.all names.contains then
    throw (.config "Not all required tables exist")
  let applied := (← Database.appliedMigrations).length
  if applied < 3 then
    throw (.config ("Expected at least 3 migrations, found " ++ toString applied))
  if journal != .log then
    throw (.config ("Journal mode is not WAL: " ++ journal.name))

def verify : Run Unit := do
  let config ← Run.loadConfig
  let _ ← Run.loadRules config
  Run.migrate config
  Run.ofOutcome (← Run.connect config checkSchema)
  discard (Run.withDatabase config Queue.stats)

/-- The first cycle of a worker; a cycle that fails is logged. -/
def work : Run Unit := do
  let config ← Run.loadConfig
  Run.migrate config
  let rules ← Run.loadRules config
  match ← Run.cycle config rules with
  | .ok report => Run.note report.summary?.toList
  | .error failure => Run.note ["Queue cycle failed: " ++ failure.message]

def bindFailure (port : Nat) : Failure :=
  .file ("Failed to bind to 127.0.0.1:" ++ toString port ++
    ". Set http_server.port in config.toml to use another port.")

/-- All that a server does before it answers. One that has a list with every origin in it
breaks off. -/
def serve : Run Http.Server := do
  let config ← Run.loadConfig
  if !config.http.enabled then
    Run.fail (.setup
      "http_server.enabled is false in config.toml; use `worker` to run the queue only")
  Run.migrate config
  let _ ← Run.loadRules config
  let s ← Run.around
  let server ← Run.ofOutcome (Http.Server.ofConfig config s.environment.find?)
  if s.portsInUse.contains config.http.port then Run.fail (bindFailure config.http.port)
  if config.http.allowedOrigins.contains Http.Server.everyOrigin then throw .brokenOff
  pure server

def importFolder (settings : Ingest.Settings) : Run Unit := do
  let config ← Run.loadConfig
  let folder ← Run.contentFolder config
  Run.migrate config
  let files := ExportFile.discover (← Run.around).files folder
  let report ← Ingest.importFolder (Run.withDatabase config) (Run.tryDatabase config)
    settings files
  Run.note report.summary

def startWatching : Run Unit := do
  let config ← Run.loadConfig
  let _ ← Run.contentFolder config
  Run.migrate config

def requestAll (drain : Bool) : Run Unit := do
  let config ← Run.loadConfig
  let rules ← Run.loadRules config
  Run.migrate config
  let queued ← Run.withDatabase config (Queue.backfill rules)
  Run.print ["Queued " ++ toString queued ++ " items across " ++ toString rules.length ++
    " content types"]
  if drain then
    let report ← Run.ofOutcome (← Run.cycle config rules)
    Run.print ["Cycle: " ++ toString report.processed ++ " reindexed, " ++
      toString report.failed ++ " failed, " ++ toString report.dropped ++ " dropped"]

/-! ## Asking for descendants -/

/-- Where a question starts: at an item, or at every published item of a type. -/
inductive Start where
  | item (id : NodeId)
  | type (name : String)
deriving DecidableEq, Repr

structure Question where
  start : Start
  format : DescendantFormat
  depthLimit : Option Nat
  json : Bool
deriving DecidableEq, Repr

namespace Question

def options : List OptionSpec := [
  ⟨"content-type", none, true⟩, ⟨"format", some 'f', true⟩,
  ⟨"depth-limit", some 'd', true⟩, ⟨"json", none, false⟩]

/-- Exactly one of an item and a type has to be given. -/
def start? (a : Arguments) : Option Start :=
  match a.positionals, a.value? "content-type" with
  | [id], none => (Text.signed64? id.toList).map .item
  | [], some name => some (.type name)
  | _, _ => none

def ofArguments? (args : List String) : Option Question := do
  let a ← Arguments.read? options 1 .none args
  let start ← start? a
  let format ← DescendantFormat.ofName? ((a.value? "format").getD "flat")
  let depthLimit ← match a.value? "depth-limit" with
    | none => some none
    | some text => (Text.countUpTo? Text.maxUnsigned64 text.toList).map some
  some { start, format, depthLimit, json := a.has "json" }

end Question

/-- A node on a line of its own, two blanks deeper at every level. -/
def treeLine (indent : Nat) (id : NodeId) : String :=
  String.ofList (List.replicate (2 * indent) ' ') ++ toString id

def treeLines (indent : Nat) : List DescendantTree → List String
  | [] => []
  | .node id branches :: rest =>
    treeLine indent id :: treeLines (indent + 1) branches ++ treeLines indent rest

/-- What is found for one item. Items that are not stored have no title. -/
structure Answer where
  id : NodeId
  title : Option String
  descendants : Descendants

namespace Answer

def label (a : Answer) : String :=
  match a.title with
  | some title => toString a.id ++ " (" ++ title ++ ")"
  | none => toString a.id

def toJson (a : Answer) : Json :=
  .obj [("descendants", a.descendants.toJson), ("id", .int a.id),
    ("title", (a.title.map Json.str).getD .null)]

/-- What is printed: one line of JSON, or text, in which trees take a line for each node. -/
def lines (json : Bool) (a : Answer) : List String :=
  if json then [a.toJson.text]
  else match a.descendants with
    | .listed ids => [a.label ++ ": [" ++ ", ".intercalate (ids.map toString) ++ "]"]
    | .nested trees => a.label :: treeLines 1 trees

end Answer

def startIds (start : Start) : Action (List NodeId) :=
  match start with
  | .item id => pure [id]
  | .type name => Content.findIds (.publishedOf [name])

/-- The answers to a question, with the titles of the items that are stored. -/
def answers (q : Question) (limit : Nat) : Action (List Answer) := do
  let ids ← startIds q.start
  let items ← Content.loadAll ids
  ids.mapM fun id => do
    let found ← Edges.descendants id q.format limit
    let title := (items.reverse.find? fun item => item.id == id).map Item.title
    pure ⟨id, title, found.descendants⟩

def ask (q : Question) : Run Unit := do
  let config ← Run.loadConfig
  let limit := q.depthLimit.getD config.traversal.defaultLimit
  if limit == 0 || config.traversal.maxLimit < limit then
    Run.fail (.setup ("--depth-limit must be between 1 and " ++
      toString config.traversal.maxLimit))
  let found ← Run.withDatabase config (answers q limit)
  Run.print (found.flatMap (Answer.lines q.json))

/-! ## Statistics -/

/-- A content type with its items, those that are published and those that assert edges. -/
structure TypeStats where
  contentType : String
  items : Nat
  published : Nat
  reporting : Nat
deriving DecidableEq, Repr

namespace TypeStats

def ofRows (rows : List ItemRow) (edges : List Edge) (contentType : String) : TypeStats :=
  let ofType := rows.filter fun row => row.contentType == contentType
  ⟨contentType, ofType.length, (ofType.filter ItemRow.published).length,
    (ofType.filter fun row => edges.any fun e => e.reporter == row.id).length⟩

/-- The types with the most items first, and by name where they have equally many. -/
def all (rows : List ItemRow) (edges : List Edge) : List TypeStats :=
  let types := (rows.map ItemRow.contentType).eraseDups
  (types.map (ofRows rows edges)).mergeSort fun a b =>
    b.items < a.items || (a.items == b.items && a.contentType ≤ b.contentType)

def padding (width : Nat) (s : String) : String :=
  String.ofList (List.replicate (width - s.length) ' ')

/-- A line of the table: the type on the left of its column, the numbers on the right. -/
def columns (contentType items published reporting : String) : String :=
  let right := fun s => " " ++ padding 10 s ++ s
  contentType ++ padding 30 contentType ++ right items ++ right published ++ right reporting

def line (t : TypeStats) : String :=
  columns t.contentType (toString t.items) (toString t.published) (toString t.reporting)

def rule : String := String.ofList (List.replicate 62 '-')

def table (types : List TypeStats) : List String :=
  if types.isEmpty then
    ["No content items imported yet.", "", "Run the import binary to load content exports."]
  else
    ["Content Items by Type:", "", rule,
      columns "Content type" "Items" "Published" "Reporting", rule] ++
    types.map line ++ [rule]

end TypeStats

/-- The age of the oldest request is shown by its time, which is not kept here. -/
def oldestEntry : String := "  Oldest entry: <time>"

def countContent : Action (List TypeStats) := do
  let items ← Action.items
  let edges ← Action.edges
  pure (TypeStats.all items.rows edges.values)

def countIndex : Action (Nat × Nat × Queue.Stats) := do
  let edges := (← Action.edges).values
  let queue ← Queue.stats
  pure (edges.length, (edges.map Edge.parent).eraseDups.length, queue)

def showStats : Run Unit := do
  let config ← Run.loadConfig
  Run.print ["", "=== Descendant Manager Statistics ===", ""]
  Run.print (TypeStats.table (← Run.withDatabase config countContent))
  let (edges, parents, queue) ← Run.withDatabase config countIndex
  Run.print (["", "Relationship Index:", "  Edges: " ++ toString edges,
      "  Distinct parents: " ++ toString parents, "", "Reindex Queue:",
      "  Pending: " ++ toString queue.pending, "  Retrying: " ++ toString queue.retrying] ++
    (if queue.pending == 0 then [] else [oldestEntry]) ++ [""])

/-! ## Running -/

/-- What a program does with its arguments; `none` are arguments that it does not
understand. -/
def command? (p : Program) (args : List String) : Option (Run Unit) :=
  match p with
  | manager =>
    match args.head? with
    | some "serve" => some (discard serve)
    | some "worker" => some work
    | _ => some verify
  | importer => do
    let specs : List OptionSpec :=
      [⟨"force", some 'f', false⟩, ⟨"cleanup", some 'c', false⟩]
    let a ← Arguments.read? specs 0 .none args
    some (importFolder ⟨a.has "force", a.has "cleanup"⟩)
  | backfill => do
    let a ← Arguments.read? [⟨"drain", none, false⟩] 0 .none args
    some (requestAll (a.has "drain"))
  | descendants => (Question.ofArguments? args).map ask
  | stats => some showStats
  | watch => do
    let a ← Arguments.read? [⟨"debounce-ms", none, true⟩] 0 .none args
    let delay := (a.value? "debounce-ms").getD "500"
    let _ ← Text.countUpTo? Text.maxUnsigned64 delay.toList
    some startWatching

/-- How a program ended: its exit code, the message of a failure, and what it printed
and logged. -/
structure Ending where
  exit : Nat
  error : Option String
  output : List String
  log : List String
deriving DecidableEq, Repr

/-- Runs a program. It ends with 1 when it fails, with 2 when it does not understand its
arguments, and with 101 when it breaks off. -/
def run (p : Program) (args : List String) (around : Surroundings) : Ending × Surroundings :=
  match p.command? args with
  | none => (⟨2, none, [], []⟩, around)
  | some command =>
    let (outcome, s) := command.run.run ⟨around, [], []⟩
    let after := { s.around with environment := around.environment }
    match outcome with
    | .ok () => (⟨0, none, s.output, s.log⟩, after)
    | .error (.failed failure) => (⟨1, some failure.message, s.output, s.log⟩, after)
    | .error .brokenOff => (⟨101, none, s.output, s.log⟩, after)

end Program

end Lineage
