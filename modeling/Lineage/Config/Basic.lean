import Lineage.Failure
import Lineage.Queue.Cycle

/-! The configuration: where things are, and the limits that programs keep to. -/

namespace Lineage

/-- Locations of the database, of the exports and of the rule table; without one the
builtin rules apply. -/
structure ManagerConfig where
  databasePath : String
  contentFolder : String
  rulesPath : Option String
  logLevel : String
deriving DecidableEq, Repr

/-- The limit of a walk that does not ask for one, and the largest that may be asked for. -/
structure TraversalConfig where
  defaultLimit : Nat
  maxLimit : Nat
deriving DecidableEq, Repr

structure QueueConfig where
  cycleSeconds : Nat
  batchSize : Nat
  maxFailures : Nat
  pollSeconds : Nat
deriving DecidableEq, Repr

structure ApiConfig where
  maxPageSize : Nat
deriving DecidableEq, Repr

/-- Without `authless` every request needs the key that an environment variable holds. -/
structure HttpConfig where
  enabled : Bool
  port : Nat
  keyVariable : String
  allowedOrigins : List String
  authless : Bool
deriving DecidableEq, Repr

structure Config where
  manager : ManagerConfig
  traversal : TraversalConfig
  queue : QueueConfig
  api : ApiConfig
  http : HttpConfig
deriving DecidableEq, Repr

def TraversalConfig.default : TraversalConfig := ⟨20, 100⟩
def QueueConfig.default : QueueConfig := ⟨300, 50, 3, 60⟩
def ApiConfig.default : ApiConfig := ⟨1000⟩
def HttpConfig.default : HttpConfig := ⟨false, 8080, "DESCENDANT_API_KEY", [], false⟩

/-- How the queue is worked through. A slice of no seconds is over before the first
request; any other is longer than a cycle takes. -/
def QueueConfig.cycleSettings (q : QueueConfig) : Queue.CycleSettings :=
  ⟨if q.cycleSeconds == 0 then some 0 else none, q.batchSize, q.maxFailures⟩

namespace Config

def fault? (isFile : String → Bool) (c : Config) : Option String :=
  if c.manager.rulesPath.any fun path => !isFile path then
    some ("rules_path does not exist or is not a file: " ++ c.manager.rulesPath.getD "")
  else if c.traversal.defaultLimit == 0 then
    some "traversal.default_limit must be greater than 0"
  else if c.traversal.maxLimit < c.traversal.defaultLimit then
    some "traversal.default_limit must not exceed traversal.max_limit"
  else if c.queue.batchSize == 0 then
    some "queue.batch_size must be greater than 0"
  else if c.queue.cycleSeconds == 0 then
    some "queue.cycle_time_secs must be greater than 0"
  else if c.queue.maxFailures == 0 then
    some "queue.max_retries must be greater than 0"
  else if c.api.maxPageSize == 0 then
    some "api.max_page_size must be greater than 0"
  else none

end Config

end Lineage
