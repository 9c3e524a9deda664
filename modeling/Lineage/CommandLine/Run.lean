import Lineage.CommandLine.Environment
import Lineage.Config.Reader
import Lineage.Files.Connection
import Lineage.Files.Migrations
import Lineage.Rules.Reader

/-! What a program finds around it and does to it: files, databases among them, variables
and the ports that are in use; and what it prints and logs. -/

namespace Lineage

structure Surroundings where
  files : FileTree
  working : Location
  environment : Environment
  portsInUse : List Nat

structure RunState where
  around : Surroundings
  output : List String
  log : List String

/-- Why a program ends before it is done: it has failed, or it has come upon something
that it cannot express and breaks off without a word. -/
inductive Interruption where
  | failed (failure : Failure)
  | brokenOff
deriving DecidableEq, Repr

abbrev Run (α : Type) := ExceptT Interruption (StateM RunState) α

namespace Run
variable {α : Type}

def fail (failure : Failure) : Run α := throw (.failed failure)

/-- Goes on with an outcome, unless it is a failure. -/
def ofOutcome : Except Failure α → Run α
  | .ok a => pure a
  | .error failure => fail failure

def around : Run Surroundings := do pure (← getThe RunState).around

def print (lines : List String) : Run Unit :=
  modifyThe RunState fun s => { s with output := s.output ++ lines }

def note (lines : List String) : Run Unit :=
  modifyThe RunState fun s => { s with log := s.log ++ lines }

/-- The outcome of an action over a connection of its own to the configured database. The
action is told the journal. -/
def connect (config : Config) (act : Journal → Action α) : Run (Except Failure α) :=
  ExceptT.mk fun s =>
    let address := DatabaseAddress.ofText? config.manager.databasePath
    let (outcome, files) := s.around.files.withDatabase s.around.working address act
    (.ok outcome, { s with around := { s.around with files } })

def tryDatabase (config : Config) (act : Action α) : Run (Except Failure α) :=
  connect config fun _ => act

def withDatabase (config : Config) (act : Action α) : Run α := do
  ofOutcome (← tryDatabase config act)

def migrate (config : Config) : Run Unit := do
  let s ← around
  withDatabase config (Database.migrate (s.files.migrations s.working))

def readText (s : Surroundings) (path : String) : Except Failure String := do
  match Text.text? (← s.files.read s.working path) with
  | some text => pure text
  | none => throw (.file "stream did not contain valid UTF-8")

/-- Sets the variables of the file `.env`, if there is one. -/
def loadEnvironment : Run Unit := do
  let s ← around
  match s.files.read s.working ".env" with
  | .error _ => pure ()
  | .ok file =>
    match s.environment.load? file with
    | none => throw .brokenOff
    | some environment =>
      modifyThe RunState fun s => { s with around := { s.around with environment } }

/-- The configuration, from the file that `DESCENDANT_CONFIG` names or `config.toml`. -/
def loadConfig : Run Config := do
  loadEnvironment
  let s ← around
  let path := (s.environment.find? "DESCENDANT_CONFIG").getD "config.toml"
  match readText s path with
  | .error _ => fail (.setup ("Failed to read config file: " ++ path))
  | .ok text => ofOutcome (Config.ofText (s.files.isFile s.working) text)

def loadRules (config : Config) : Run RuleTable := do
  match config.manager.rulesPath with
  | none => pure .builtin
  | some path =>
    match (readText (← around) path).bind RuleTable.ofText with
    | .ok table => pure table
    | .error _ => fail (.setup ("Failed to load rules: " ++ path))

/-- Where the exports are; there has to be a folder. -/
def contentFolder (config : Config) : Run Location := do
  let s ← around
  let path := config.manager.contentFolder
  match (s.files.resolve? s.working path).filter s.files.isFolder with
  | some location => pure location
  | none => fail (.setup ("content_folder is not a directory: " ++ path ++
      ". Set content_folder in config.toml to your content export directory."))

/-- The longest slice of a cycle. The end of a slice is a time of a clock that counts
seconds up to 2 ^ 63, and that has counted some already. -/
def maxSlice : Nat := Nat.pow 2 63 - Nat.pow 10 5

/-- A cycle over the configured queue. One whose end no clock can show breaks off. -/
def cycle (config : Config) (rules : RuleTable) : Run (Except Failure Queue.CycleReport) := do
  if maxSlice < config.queue.cycleSeconds then throw .brokenOff
  else tryDatabase config (Queue.cycle rules config.queue.cycleSettings)

end Run

end Lineage
