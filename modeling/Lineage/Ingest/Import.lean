import Lineage.Content
import Lineage.Ingest.Export
import Lineage.Queue.Basic

/-! Importing exports into the content store. Every item that an import stores or
removes is requested to be reindexed in the same transaction. -/

namespace Lineage

structure ImportOutcome where
  item : NodeId
  contentType : String
  /-- Items that came from the file before and are gone now. -/
  displaced : List NodeId
deriving DecidableEq, Repr

namespace Ingest

def enqueueEach (ids : List NodeId) : Action Unit :=
  ids.forM fun id => discard (Queue.enqueue id)

/-- Stores the item that a file holds. A file that holds none changes nothing. -/
def importFile (file : ExportFile) : Action ImportOutcome := do
  match Item.ofBytes? file.bytes with
  | none => throw (.content "the export is not a content item")
  | some item => Action.transaction do
    let displaced ← Content.save item (some ⟨file.path, file.hash⟩)
    enqueueEach (item.id :: displaced)
    pure ⟨item.id, item.contentType, displaced⟩

/-- The source paths of stored items with their hashes. -/
def hashes : Action (Dictionary String) := do
  let rows := (← Action.items).rows
  pure (Dictionary.ofPairs (rows.filterMap fun row => do
    some (← row.sourcePath, ← row.fileHash)))

/-- The source paths of stored items that are not among `existing`, in ascending order. -/
def vanished (existing : List String) : Action (List String) := do
  let paths := (← Action.items).rows.filterMap ItemRow.sourcePath
  pure ((paths.mergeSort fun a b => a ≤ b).filter fun path => !existing.contains path)

/-- Removes the items that came from a file, and requests their reindexes. -/
def deleteSource (path : String) : Action (List NodeId) := do
  let table ← Action.items
  let ids := table.idsFrom path
  Action.setItems (table.erase ids)
  enqueueEach ids
  pure ids

def deleteSources (paths : List String) : Action (List NodeId) := do
  if paths.isEmpty then pure []
  else Action.transaction (List.flatten <$> paths.mapM deleteSource)

/-- Which files to import, and whether to delete the items of files that are gone. -/
structure Settings where
  /-- All files, not only the changed ones. -/
  force : Bool
  cleanup : Bool
deriving DecidableEq, Repr

structure Report where
  discovered : Nat
  new : Nat
  modified : Nat
  unchanged : Nat
  imported : Nat
  errors : Nat
  deleted : Nat
  queued : Nat
deriving DecidableEq, Repr

/-- What the log says when an import is complete. -/
def Report.summary (r : Report) : List String :=
  [ "Files discovered: " ++ toString r.discovered,
    "  New: " ++ toString r.new,
    "  Modified: " ++ toString r.modified,
    "  Unchanged (skipped): " ++ toString r.unchanged,
    "Items imported: " ++ toString r.imported ++ " (errors: " ++ toString r.errors ++ ")",
    "Items deleted: " ++ toString r.deleted,
    "Reindex requests queued: " ++ toString r.queued ] ++
  if r.errors == 0 then []
  else ["Some exports failed to import. Check logs above for details."]

/-- Counts the outcome of importing one file; a failure does not stop an import. -/
def Report.count (report : Report) : Except Failure ImportOutcome → Report
  | .ok outcome =>
    { report with
      imported := report.imported + 1
      queued := report.queued + 1 + outcome.displaced.length }
  | .error _ => { report with errors := report.errors + 1 }

/-- Brings the content store in line with the files of a folder. Every action is carried
out by itself: `perform` goes on only when it succeeds, and `attempt` in any case. -/
def importFolder {m : Type → Type} [Monad m] (perform : {α : Type} → Action α → m α)
    (attempt : {α : Type} → Action α → m (Except Failure α)) (settings : Settings)
    (files : List ExportFile) : m Report := do
  let classes := Classification.ofFiles (← perform hashes) files
  let chosen := if settings.force then files else classes.changed
  let start : Report :=
    ⟨files.length, classes.new.length, classes.modified.length, classes.unchanged.length,
      0, 0, 0, 0⟩
  let report ← chosen.foldlM
    (fun report file => report.count <$> attempt (importFile file)) start
  let gone ← perform (vanished (files.map ExportFile.path))
  let deleted ← if settings.cleanup then perform (deleteSources gone) else pure []
  pure { report with
    deleted := deleted.length
    queued := report.queued + deleted.length }

end Ingest

end Lineage
