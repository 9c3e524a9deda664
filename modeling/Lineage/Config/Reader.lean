import Lineage.Config.Basic
import Lineage.Toml.Parser

/-! Reading configurations. Sections and values that are left out have their defaults,
except for the place of the database. -/

namespace Lineage

def Toml.unsigned64? : Toml → Option Nat := Toml.countUpTo? Text.maxUnsigned64

def maxPort : Nat := 65535

def ManagerConfig.ofToml? (v : Toml) : Option ManagerConfig :=
  match v.record? ["db_path", "content_folder", "rules_path", "log_level"] with
  | some [database, content, rules, level] => do
    let databasePath ← Toml.required Toml.string? database
    let contentFolder ← Toml.withDefault "content" Toml.string? content
    let rulesPath ← Toml.optional Toml.string? rules
    let logLevel ← Toml.withDefault "info" Toml.string? level
    some { databasePath, contentFolder, rulesPath, logLevel }
  | _ => none

def TraversalConfig.ofToml? (v : Toml) : Option TraversalConfig :=
  let d := TraversalConfig.default
  match v.record? ["default_limit", "max_limit"] with
  | some [limit, most] => do
    let defaultLimit ← Toml.withDefault d.defaultLimit Toml.unsigned64? limit
    let maxLimit ← Toml.withDefault d.maxLimit Toml.unsigned64? most
    some { defaultLimit, maxLimit }
  | _ => none

def QueueConfig.ofToml? (v : Toml) : Option QueueConfig :=
  let d := QueueConfig.default
  match v.record? ["cycle_time_secs", "batch_size", "max_retries", "poll_interval_secs"] with
  | some [seconds, size, failures, poll] => do
    let cycleSeconds ← Toml.withDefault d.cycleSeconds Toml.unsigned64? seconds
    let batchSize ← Toml.withDefault d.batchSize Toml.unsigned64? size
    let maxFailures ←
      Toml.withDefault d.maxFailures (Toml.countUpTo? Text.maxUnsigned32) failures
    let pollSeconds ← Toml.withDefault d.pollSeconds Toml.unsigned64? poll
    some { cycleSeconds, batchSize, maxFailures, pollSeconds }
  | _ => none

def ApiConfig.ofToml? (v : Toml) : Option ApiConfig :=
  match v.record? ["max_page_size"] with
  | some [size] =>
    (Toml.withDefault ApiConfig.default.maxPageSize Toml.unsigned64? size).map ApiConfig.mk
  | _ => none

def HttpConfig.ofToml? (v : Toml) : Option HttpConfig :=
  let d := HttpConfig.default
  match v.record? ["enabled", "port", "api_key_env", "allowed_origins", "authless"] with
  | some [enabled, port, key, origins, authless] => do
    let enabled ← Toml.withDefault d.enabled Toml.boolean? enabled
    let port ← Toml.withDefault d.port (Toml.countUpTo? maxPort) port
    let keyVariable ← Toml.withDefault d.keyVariable Toml.string? key
    let allowedOrigins ← Toml.withDefault d.allowedOrigins (Toml.list? Toml.string?) origins
    let authless ← Toml.withDefault d.authless Toml.boolean? authless
    some { enabled, port, keyVariable, allowedOrigins, authless }
  | _ => none

namespace Config

def ofToml? (v : Toml) : Option Config :=
  match v.record? ["manager", "traversal", "queue", "api", "http_server"] with
  | some [manager, traversal, queue, api, http] => do
    let manager ← Toml.required ManagerConfig.ofToml? manager
    let traversal ← Toml.withDefault .default TraversalConfig.ofToml? traversal
    let queue ← Toml.withDefault .default QueueConfig.ofToml? queue
    let api ← Toml.withDefault .default ApiConfig.ofToml? api
    let http ← Toml.withDefault .default HttpConfig.ofToml? http
    some { manager, traversal, queue, api, http }
  | _ => none

/-- The configuration that a text gives; `isFile` tells which paths are those of files. -/
def ofText (isFile : String → Bool) (text : String) : Except Failure Config :=
  match (Toml.parse? text).bind ofToml? with
  | none => .error (.setup "Failed to parse config.toml")
  | some config =>
    match config.fault? isFile with
    | some fault => .error (.setup fault)
    | none => .ok config

end Config

end Lineage
