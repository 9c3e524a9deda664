import Lineage.Proofs.Announcements
import Lineage.Proofs.MigrationFiles
import Lineage.Watch.Change

/-! # Where stored items come from

In a database that only imports, deletions and the watch over a folder have changed, every
stored item came from a file: its row is the one that the file gives. No two rows came from
one path, so a path and a hash together tell which bytes were read, as long as no two of the
contents that ever were read have one hash. -/

namespace Lineage

namespace ExportFile
variable {file : ExportFile} {row : ItemRow}

/-- The row that an import of the file stores, if the file holds an item. -/
def row? (file : ExportFile) : Option ItemRow :=
  (Item.ofBytes? file.bytes).map fun item => .ofItem item (some ⟨file.path, file.hash⟩)

theorem sourcePath_of_row? (h : file.row? = some row) : row.sourcePath = some file.path := by
  obtain ⟨item, -, rfl⟩ := Option.map_eq_some_iff.1 h
  rfl

theorem fileHash_of_row? (h : file.row? = some row) : row.fileHash = some file.hash := by
  obtain ⟨item, -, rfl⟩ := Option.map_eq_some_iff.1 h
  rfl

end ExportFile

namespace ItemTable

/-- No two rows came from one path. -/
def DistinctPaths (table : ItemTable) : Prop :=
  ∀ a ∈ table.rows, ∀ b ∈ table.rows, a.sourcePath = b.sourcePath → a = b

/-- Every row came from a file with one of the contents, and no two came from one path. -/
structure Sourced (contents : List (List UInt8)) (table : ItemTable) : Prop where
  known : ∀ row ∈ table.rows, ∃ file : ExportFile,
    file.bytes ∈ contents ∧ file.row? = some row
  distinct : table.DistinctPaths

variable {contents : List (List UInt8)} {table : ItemTable}

theorem sourced_empty : empty.Sourced contents :=
  ⟨fun row h => (by cases h), fun a h => (by cases h)⟩

theorem Sourced.mono {more : List (List UInt8)} (h : table.Sourced contents)
    (hmore : ∀ bytes ∈ contents, bytes ∈ more) : table.Sourced more where
  known := by
    intro row hrow
    obtain ⟨file, hbytes, hfile⟩ := h.known row hrow
    exact ⟨file, hmore file.bytes hbytes, hfile⟩
  distinct := h.distinct

theorem Sourced.subset {fewer : ItemTable} (h : table.Sourced contents)
    (hsub : ∀ row ∈ fewer.rows, row ∈ table.rows) : fewer.Sourced contents where
  known := fun row hrow => h.known row (hsub row hrow)
  distinct := fun a ha b hb => h.distinct a (hsub a ha) b (hsub b hb)

theorem Sourced.stocked {file : ExportFile} {item : Item} (h : table.Sourced contents)
    (hbytes : file.bytes ∈ contents) (hitem : Item.ofBytes? file.bytes = some item) :
    (Content.stocked item (some ⟨file.path, file.hash⟩) table).Sourced contents where
  known := by
    intro row hrow
    rcases mem_stocked.1 hrow with rfl | ⟨hold, -⟩
    · refine ⟨file, hbytes, ?_⟩
      unfold ExportFile.row?
      rw [hitem]
      rfl
    · exact h.known row hold
  distinct := by
    intro a ha b hb hpath
    rcases mem_stocked.1 ha with rfl | ⟨ha, -, hanew⟩ <;>
      rcases mem_stocked.1 hb with rfl | ⟨hb, -, hbnew⟩
    · rfl
    · exact absurd hpath.symm hbnew
    · exact absurd hpath hanew
    · exact h.distinct a ha b hb hpath

/-- Where the hash that is stored for a path is that of a file at the path, the file is the
one that was imported from there. -/
theorem Sourced.row_of_hash {file : ExportFile} {row : ItemRow} (h : table.Sourced contents)
    (hinj : Set.InjOn Digest.sha256 {bytes | bytes ∈ contents}) (hbytes : file.bytes ∈ contents)
    (hrow : row ∈ table.rows) (hpath : row.sourcePath = some file.path)
    (hhash : row.fileHash = some file.hash) : file.row? = some row := by
  obtain ⟨old, hknown, hold⟩ := h.known row hrow
  have hsamePath : old.path = file.path :=
    Option.some.inj ((ExportFile.sourcePath_of_row? hold).symm.trans hpath)
  have hsameHash : old.hash = file.hash :=
    Option.some.inj ((ExportFile.fileHash_of_row? hold).symm.trans hhash)
  have hsameBytes : old.bytes = file.bytes := hinj hknown hbytes hsameHash
  cases old
  cases file
  subst hsamePath hsameBytes
  exact hold

theorem Sourced.mem_of_hash {file : ExportFile} {row old : ItemRow} (h : table.Sourced contents)
    (hinj : Set.InjOn Digest.sha256 {bytes | bytes ∈ contents}) (hbytes : file.bytes ∈ contents)
    (hfile : file.row? = some row) (hold : old ∈ table.rows)
    (hpath : old.sourcePath = some file.path) (hhash : old.fileHash = some file.hash) :
    row ∈ table.rows := by
  have hknown := h.row_of_hash hinj hbytes hold hpath hhash
  rw [hfile] at hknown
  exact Option.some.inj hknown ▸ hold

end ItemTable

namespace Database
variable {db : Database} {items : ItemTable} {queue : Numbered QueueEntry}

theorem perform_storedHash (hitems : db.items = some items) (path : String) :
    db.perform (Watch.storedHash path) =
      (.ok ((items.rows.find? fun row => row.sourcePath == some path).bind ItemRow.fileHash),
        db) := by
  unfold Watch.storedHash
  rw [perform_bind_ok (perform_items hitems)]
  rfl

/-- What handling a path does depends on what is there: nothing for a path that is ignored or
a file that is known, and otherwise what importing or deleting does. -/
theorem perform_handleChange (hitems : db.items = some items) (tree : FileTree)
    (working : Location) (root path : String) :
    db.perform (Watch.handleChange tree working root path) =
      match Watch.sourcePath? tree working root path with
      | none => (.ok .ignored, db)
      | some sourcePath =>
        match tree.read working path with
        | .error _ => db.perform (.deleted <$> Ingest.deleteSources [sourcePath])
        | .ok bytes =>
          if ((items.rows.find? fun row => row.sourcePath == some sourcePath).bind
              ItemRow.fileHash) == some (ExportFile.hash ⟨sourcePath, bytes⟩) then
            (.ok .unchanged, db)
          else db.perform (.imported <$> Ingest.importFile ⟨sourcePath, bytes⟩) := by
  unfold Watch.handleChange
  cases Watch.sourcePath? tree working root path with
  | none => rfl
  | some sourcePath =>
    cases tree.read working path with
    | error e => rfl
    | ok bytes =>
      dsimp only
      rw [perform_bind_ok (perform_storedHash hitems sourcePath)]
      split <;> rfl

end Database

/-- What changes the content store from files: an import, a deletion, or the handling of a
path as the file tree was at that time. -/
inductive ContentChange where
  | importFile (file : ExportFile)
  | deleteSources (paths : List String)
  | handlePath (tree : FileTree) (working : Location) (root path : String)

namespace ContentChange

def apply (db : Database) : ContentChange → Database
  | importFile file => (db.perform (Ingest.importFile file)).2
  | deleteSources paths => (db.perform (Ingest.deleteSources paths)).2
  | handlePath tree working root path => (db.perform (Watch.handleChange tree working root path)).2

def contents : ContentChange → List (List UInt8)
  | importFile file => [file.bytes]
  | deleteSources _ => []
  | handlePath tree working _ path => (tree.read working path).toOption.toList

end ContentChange

namespace Database

/-- The store and the queue are there, and the store has a property. -/
def StoreHas (P : ItemTable → Prop) (db : Database) : Prop :=
  ∃ items queue, db.items = some items ∧ db.queue = some queue ∧ P items

namespace StoreHas
variable {db : Database} {P : ItemTable → Prop}

theorem importFile (h : db.StoreHas P) {file : ExportFile}
    (hstocked : ∀ {items item}, P items → Item.ofBytes? file.bytes = some item →
      P (Content.stocked item (some ⟨file.path, file.hash⟩) items)) :
    StoreHas P (db.perform (Ingest.importFile file)).2 := by
  have hsame := h
  obtain ⟨items, queue, hitems, hqueue, hstore⟩ := hsame
  cases hitem : Item.ofBytes? file.bytes with
  | none =>
    rw [perform_importFile_none hitem]
    exact h
  | some item =>
    rw [perform_importFile hitems hqueue hitem]
    exact ⟨_, _, rfl, rfl, hstocked hstore hitem⟩

theorem deleteSources (h : db.StoreHas P) (paths : List String)
    (hfewer : ∀ {items fewer : ItemTable}, P items →
      (∀ row ∈ fewer.rows, row ∈ items.rows) → P fewer) :
    StoreHas P (db.perform (Ingest.deleteSources paths)).2 := by
  obtain ⟨items, queue, hitems, hqueue, hstore⟩ := h
  obtain ⟨ids, after, table, hdelete, htable, hrows, hannounced, -⟩ :=
    perform_deleteSources hitems hqueue paths
  obtain ⟨old, -, hold⟩ := hannounced.queue
  rw [hdelete]
  exact ⟨table, _, htable, hold, hfewer hstore fun row hrow => ((hrows row).1 hrow).1⟩

/-- Where files are followed, items are stored from what was read and rows are taken away. What
outlasts both is kept by every change. -/
theorem apply (h : db.StoreHas P) {change : ContentChange}
    (hstocked : ∀ {items item} {file : ExportFile}, P items → file.bytes ∈ change.contents →
      Item.ofBytes? file.bytes = some item →
        P (Content.stocked item (some ⟨file.path, file.hash⟩) items))
    (hfewer : ∀ {items fewer : ItemTable}, P items →
      (∀ row ∈ fewer.rows, row ∈ items.rows) → P fewer) : (change.apply db).StoreHas P := by
  cases change with
  | importFile file =>
    exact h.importFile fun hstore =>
      hstocked hstore (by simp [ContentChange.contents])
  | deleteSources paths => exact h.deleteSources paths hfewer
  | handlePath tree working root path =>
    show StoreHas P (db.perform (Watch.handleChange tree working root path)).2
    have hsame := h
    obtain ⟨items, queue, hitems, -⟩ := hsame
    rw [perform_handleChange hitems]
    cases Watch.sourcePath? tree working root path with
    | none => exact h
    | some sourcePath =>
      cases hread : tree.read working path with
      | error e =>
        dsimp only
        rw [perform_map_after]
        exact h.deleteSources [sourcePath] hfewer
      | ok bytes =>
        dsimp only
        split
        · exact h
        · rw [perform_map_after]
          exact h.importFile fun hstore => hstocked hstore (by
            simp [ContentChange.contents, hread, Except.toOption])

end StoreHas

/-- What a new database becomes by changes, the first of which comes first. -/
def changedBy (changes : List ContentChange) : Database := changes.foldl ContentChange.apply migrated

theorem changedBy_eq (changes : List ContentChange) : changedBy changes =
    changes.foldl ContentChange.apply ⟨some .empty, some .empty, some .empty,
      some [⟨1, "001_content_items"⟩, ⟨2, "002_descendant_relations"⟩,
        ⟨3, "003_descendant_queue"⟩], []⟩ := by
  unfold changedBy
  rw [migrated_eq]

/-- The store and the queue are there, and what is stored came from files. -/
def Sourced (contents : List (List UInt8)) (db : Database) : Prop :=
  ∃ items queue, db.items = some items ∧ db.queue = some queue ∧ items.Sourced contents

variable {contents : List (List UInt8)} {db : Database}

theorem Sourced.apply (h : db.Sourced contents) {change : ContentChange}
    (hcontents : ∀ bytes ∈ change.contents, bytes ∈ contents) :
    Sourced contents (change.apply db) := by
  have hstore : db.StoreHas (ItemTable.Sourced contents) := h
  exact hstore.apply (fun hitems hread hitem => hitems.stocked (hcontents _ hread) hitem)
    fun hitems hsub => hitems.subset hsub

/-- What is stored came from the contents that the changes read. -/
theorem sourced_changedBy (changes : List ContentChange) :
    Sourced (changes.flatMap ContentChange.contents) (changedBy changes) := by
  have hrun : ∀ (later : List ContentChange) (db : Database),
      (∀ change ∈ later, ∀ bytes ∈ change.contents,
        bytes ∈ changes.flatMap ContentChange.contents) →
      Sourced (changes.flatMap ContentChange.contents) db →
      Sourced (changes.flatMap ContentChange.contents) (later.foldl ContentChange.apply db) := by
    intro later
    induction later with
    | nil => exact fun db _ h => h
    | cons change rest ih =>
      intro db hlater h
      obtain ⟨hchange, hrest⟩ := List.forall_mem_cons.1 hlater
      exact ih _ hrest (h.apply hchange)
  refine hrun changes migrated (fun change hchange bytes hbytes => ?_) ?_
  · exact List.mem_flatMap.2 ⟨change, hchange, hbytes⟩
  · exact ⟨.empty, .empty, by rw [migrated_eq], by rw [migrated_eq], ItemTable.sourced_empty⟩

end Database

end Lineage
