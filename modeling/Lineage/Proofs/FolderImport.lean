import Lineage.Proofs.Dictionaries
import Lineage.Proofs.ItemText
import Lineage.Proofs.Provenance

/-! # The store as the image of a folder

Ids and source paths are two keys of one row, and files may be renamed, swap their ids or
take over an id from one another. An import of one file therefore may take a row away from
another path. It never takes away a row that belongs there: the row of a file that is in the
folder has an id and a path that no other file of the folder has. So whatever is right stays
right, and after all paths were settled that need it, in any order, the store has one row for
every file. -/

namespace Lineage

namespace ExportFile

/-- Files that all hold an item, and no two of them items of one id. -/
structure Importable (files : List ExportFile) : Prop where
  parse : ∀ file ∈ files, ∃ item, Item.ofBytes? file.bytes = some item
  ids : (files.map fun file => (Item.ofBytes? file.bytes).map Item.id).Nodup

variable {files : List ExportFile} {a b file : ExportFile} {row r s : ItemRow}

theorem row?_of_item {item : Item} (h : Item.ofBytes? file.bytes = some item) :
    file.row? = some (.ofItem item (some ⟨file.path, file.hash⟩)) := by
  unfold row?
  rw [h]
  rfl

theorem id_of_row? (h : file.row? = some row) :
    (Item.ofBytes? file.bytes).map Item.id = some row.id := by
  obtain ⟨item, hitem, rfl⟩ := Option.map_eq_some_iff.1 h
  rw [hitem]
  rfl

theorem Importable.exists_row (h : Importable files) (hfile : file ∈ files) :
    ∃ row, file.row? = some row := by
  obtain ⟨item, hitem⟩ := h.parse file hfile
  exact ⟨_, row?_of_item hitem⟩

theorem Importable.eq_of_id (h : Importable files) (ha : a ∈ files) (hb : b ∈ files)
    (hr : a.row? = some r) (hs : b.row? = some s) (hid : r.id = s.id) : a = b := by
  refine List.inj_on_of_nodup_map h.ids ha hb ?_
  rw [id_of_row? hr, id_of_row? hs, hid]

end ExportFile

open ExportFile (Importable)

namespace ItemTable

/-- The table has one row for every file, and no other. -/
def Mirrors (table : ItemTable) (files : List ExportFile) : Prop :=
  (table.rows.map some).Perm (files.map ExportFile.row?)

variable {files : List ExportFile} {table old mid new : ItemTable} {file : ExportFile}
variable {paths first second : List String}

theorem mirrors_iff (h : Importable files) :
    table.Mirrors files ↔ ∀ row, row ∈ table.rows ↔ ∃ file ∈ files, file.row? = some row := by
  have hrows : (table.rows.map some).Nodup :=
    table.nodup_rows.map (Option.some_injective ItemRow)
  have hfiles : (files.map ExportFile.row?).Nodup := by
    refine List.Nodup.of_map (Option.map ItemRow.id) ?_
    have hids : (files.map ExportFile.row?).map (Option.map ItemRow.id) =
        files.map fun file => (Item.ofBytes? file.bytes).map Item.id := by
      rw [List.map_map]
      refine List.map_congr_left fun file hfile => ?_
      obtain ⟨row, hrow⟩ := h.exists_row hfile
      rw [Function.comp_apply, hrow, ExportFile.id_of_row? hrow]
      rfl
    rw [hids]
    exact h.ids
  unfold Mirrors
  rw [List.perm_ext_iff_of_nodup hrows hfiles]
  constructor
  · intro hmem row
    simpa using hmem (some row)
  · intro hmem row?
    cases row? with
    | none =>
      refine ⟨fun hnone => by simp at hnone, fun hnone => ?_⟩
      obtain ⟨file, hfile, hrow⟩ := List.mem_map.1 hnone
      obtain ⟨row, hsome⟩ := h.exists_row hfile
      rw [hsome] at hrow
      cases hrow
    | some row => simpa using hmem row

theorem Mirrors.unique (h : Importable files) {s t : ItemTable} (hs : s.Mirrors files)
    (ht : t.Mirrors files) : s = t :=
  ext_of_mem fun row => ((mirrors_iff h).1 hs row).trans ((mirrors_iff h).1 ht row).symm

/-! ## Settling paths -/

/-- The new table came out of the old one when these paths were settled. The rows of files
that were there stayed and those of files at the paths have come, and of other rows only
those are left that came from other paths. -/
structure Settled (files : List ExportFile) (paths : List String) (old new : ItemTable) :
    Prop where
  keeps : ∀ file ∈ files, ∀ row, file.row? = some row → row ∈ old.rows → row ∈ new.rows
  brings : ∀ file ∈ files, file.path ∈ paths → ∀ row, file.row? = some row → row ∈ new.rows
  origin : ∀ row ∈ new.rows, (∃ file ∈ files, file.row? = some row) ∨
    (row ∈ old.rows ∧ ∀ path ∈ paths, row.sourcePath ≠ some path)

namespace Settled

theorem nothing : Settled files [] table table where
  keeps := fun _ _ _ _ hrow => hrow
  brings := fun _ _ hpath => nomatch hpath
  origin := fun _ hrow => Or.inr ⟨hrow, fun _ hpath => nomatch hpath⟩

theorem trans (h : Settled files first old mid) (h' : Settled files second mid new) :
    Settled files (first ++ second) old new where
  keeps := fun file hfile row hrow hold =>
    h'.keeps file hfile row hrow (h.keeps file hfile row hrow hold)
  brings := by
    intro file hfile hpath row hrow
    rcases List.mem_append.1 hpath with hpath | hpath
    · exact h'.keeps file hfile row hrow (h.brings file hfile hpath row hrow)
    · exact h'.brings file hfile hpath row hrow
  origin := by
    intro row hrow
    rcases h'.origin row hrow with hfile | ⟨hmid, hsecond⟩
    · exact Or.inl hfile
    · refine (h.origin row hmid).imp_right fun ⟨hold, hfirst⟩ => ⟨hold, fun path hpath => ?_⟩
      exact (List.mem_append.1 hpath).elim (hfirst path) (hsecond path)

/-- An import settles the path of its file: no other file of the folder has the id or the
path of the new row. -/
theorem stocked (h : Importable files) (hpaths : (files.map ExportFile.path).Nodup)
    (hfile : file ∈ files) {item : Item} (hitem : Item.ofBytes? file.bytes = some item) :
    Settled files [file.path] table
      (Content.stocked item (some ⟨file.path, file.hash⟩) table) where
  keeps := by
    intro other hother row hrow hold
    by_cases hsame : other = file
    · subst hsame
      rw [ExportFile.row?_of_item hitem] at hrow
      exact mem_stocked.2 (Or.inl (Option.some.inj hrow).symm)
    · refine mem_stocked.2 (Or.inr ⟨hold, fun hid => hsame ?_, fun hpath => hsame ?_⟩)
      · exact h.eq_of_id hother hfile hrow (ExportFile.row?_of_item hitem) hid
      · rw [ExportFile.sourcePath_of_row? hrow] at hpath
        exact List.inj_on_of_nodup_map hpaths hother hfile (Option.some.inj hpath)
  brings := by
    intro other hother hpath row hrow
    obtain rfl : other = file :=
      List.inj_on_of_nodup_map hpaths hother hfile (List.mem_singleton.1 hpath)
    rw [ExportFile.row?_of_item hitem] at hrow
    exact mem_stocked.2 (Or.inl (Option.some.inj hrow).symm)
  origin := by
    intro row hrow
    rcases mem_stocked.1 hrow with rfl | ⟨hold, -, hpath⟩
    · exact Or.inl ⟨file, hfile, ExportFile.row?_of_item hitem⟩
    · exact Or.inr ⟨hold, List.forall_mem_singleton.2 hpath⟩

theorem known (hpaths : (files.map ExportFile.path).Nodup) (hfile : file ∈ files)
    {row : ItemRow} (hrow : file.row? = some row) (hthere : row ∈ table.rows)
    (hdistinct : table.DistinctPaths) : Settled files [file.path] table table where
  keeps := fun _ _ _ _ hold => hold
  brings := by
    intro other hother hpath right hright
    obtain rfl : other = file :=
      List.inj_on_of_nodup_map hpaths hother hfile (List.mem_singleton.1 hpath)
    exact Option.some.inj (hrow.symm.trans hright) ▸ hthere
  origin := by
    intro old hold
    by_cases hpath : old.sourcePath = some file.path
    · have hsame : old.sourcePath = row.sourcePath :=
        hpath.trans (ExportFile.sourcePath_of_row? hrow).symm
      rw [hdistinct old hold row hthere hsame]
      exact Or.inl ⟨file, hfile, hrow⟩
    · exact Or.inr ⟨hold, List.forall_mem_singleton.2 hpath⟩

theorem deleted (hgone : ∀ path ∈ paths, ∀ file ∈ files, file.path ≠ path)
    (hrows : ∀ row, row ∈ new.rows ↔ row ∈ old.rows ∧ ∀ path ∈ paths, row.sourcePath ≠ some path) :
    Settled files paths old new where
  keeps := by
    intro file hfile row hrow hold
    refine (hrows row).2 ⟨hold, fun path hpath hsame => hgone path hpath file hfile ?_⟩
    exact Option.some.inj ((ExportFile.sourcePath_of_row? hrow).symm.trans hsame)
  brings := fun file hfile hpath => absurd rfl (hgone file.path hpath file hfile)
  origin := fun row hrow => Or.inr ((hrows row).1 hrow)

/-- A table mirrors the files when all paths were settled whose file had no row, and no row
of a path without a file is left. -/
theorem mirrors (h : Settled files paths old new) (himportable : Importable files)
    (hdistinct : old.DistinctPaths)
    (hfiles : ∀ file ∈ files, ∀ row, file.row? = some row → row ∈ old.rows ∨ file.path ∈ paths)
    (hrows : ∀ row ∈ new.rows, ∃ file ∈ files, row.sourcePath = some file.path) :
    new.Mirrors files := by
  rw [mirrors_iff himportable]
  intro row
  constructor
  · intro hrow
    rcases h.origin row hrow with hfile | ⟨hold, hsettled⟩
    · exact hfile
    · obtain ⟨file, hfile, hpath⟩ := hrows row hrow
      obtain ⟨right, hright⟩ := himportable.exists_row hfile
      rcases hfiles file hfile right hright with hthere | hpaths
      · have hsame : row.sourcePath = right.sourcePath :=
          hpath.trans (ExportFile.sourcePath_of_row? hright).symm
        rw [hdistinct row hold right hthere hsame]
        exact ⟨file, hfile, hright⟩
      · exact absurd hpath (hsettled file.path hpaths)
  · rintro ⟨file, hfile, hrow⟩
    rcases hfiles file hfile row hrow with hthere | hpath
    · exact h.keeps file hfile row hrow hthere
    · exact h.brings file hfile hpath row hrow

end Settled

/-- Where a folder has one file at every path, what mirrors it has one row from there. -/
theorem Mirrors.distinct (h : table.Mirrors files) (himportable : Importable files)
    (hpaths : (files.map ExportFile.path).Nodup) : table.DistinctPaths := by
  intro a ha b hb hpath
  obtain ⟨file, hfile, hrow⟩ := ((mirrors_iff himportable).1 h a).1 ha
  obtain ⟨other, hother, hotherRow⟩ := ((mirrors_iff himportable).1 h b).1 hb
  rw [ExportFile.sourcePath_of_row? hrow, ExportFile.sourcePath_of_row? hotherRow] at hpath
  obtain rfl : file = other :=
    List.inj_on_of_nodup_map hpaths hfile hother (Option.some.inj hpath)
  exact Option.some.inj (hrow.symm.trans hotherRow)

theorem Mirrors.source (h : table.Mirrors files) (himportable : Importable files)
    {row : ItemRow} (hrow : row ∈ table.rows) :
    ∃ file ∈ files, row.sourcePath = some file.path ∧ row.fileHash = some file.hash := by
  obtain ⟨file, hfile, hsome⟩ := ((mirrors_iff himportable).1 h row).1 hrow
  exact ⟨file, hfile, ExportFile.sourcePath_of_row? hsome, ExportFile.fileHash_of_row? hsome⟩

end ItemTable

namespace Classification
variable {hashes : Dictionary String} {files : List ExportFile} {file : ExportFile}

theorem statusOf_unchanged :
    statusOf hashes file = .unchanged ↔ hashes.find? file.path = some file.hash := by
  unfold statusOf
  cases hashes.find? file.path with
  | none => simp
  | some stored =>
    by_cases h : stored = file.hash <;> simp [h]

theorem ofFiles_eq (hashes : Dictionary String) (files : List ExportFile) :
    ofFiles hashes files =
      ⟨files.filter fun file => statusOf hashes file == .new,
        files.filter fun file => statusOf hashes file == .modified,
        files.filter fun file => statusOf hashes file == .unchanged⟩ := by
  have hhaving : ∀ status : Status,
      ((files.map fun file => (file, statusOf hashes file)).filter fun j => j.2 == status).map
        Prod.fst = files.filter fun file => statusOf hashes file == status := by
    intro status
    rw [List.filter_map, List.map_map]
    exact List.map_id _
  unfold ofFiles
  simp only [hhaving]

/-- A file is imported unless it is the one that was imported last. -/
theorem mem_changed : file ∈ (ofFiles hashes files).changed ↔
    file ∈ files ∧ hashes.find? file.path ≠ some file.hash := by
  rw [ne_eq, ← statusOf_unchanged, ofFiles_eq]
  unfold changed
  rw [List.mem_append, List.mem_filter, List.mem_filter, ← and_or_left]
  refine and_congr_right fun _ => ?_
  cases statusOf hashes file <;> decide

theorem ofFiles_unchanged (h : ∀ file ∈ files, hashes.find? file.path = some file.hash) :
    ofFiles hashes files = ⟨[], [], files⟩ := by
  have hstatus : ∀ file ∈ files, statusOf hashes file = .unchanged := fun file hfile =>
    statusOf_unchanged.2 (h file hfile)
  rw [ofFiles_eq]
  congr 1
  · exact List.filter_eq_nil_iff.2 fun file hfile => by simp [hstatus file hfile]
  · exact List.filter_eq_nil_iff.2 fun file hfile => by simp [hstatus file hfile]
  · exact List.filter_eq_self.2 fun file hfile => by simp [hstatus file hfile]

end Classification

namespace Ingest

/-- Brings the store in line with files and deletes the items of all others. -/
def mirror (files : List ExportFile) : Action Report :=
  importFolder (fun act => act) Action.attempt ⟨false, true⟩ files

end Ingest

namespace Database
variable {db : Database} {items : ItemTable} {queue : Numbered QueueEntry}
variable {files : List ExportFile} {contents : List (List UInt8)}

/-- The hashes tell for every path what was imported from there. -/
theorem perform_hashes (hitems : db.items = some items) (hdistinct : items.DistinctPaths) :
    ∃ hashes, db.perform Ingest.hashes = (.ok hashes, db) ∧ ∀ path hash,
      hashes.find? path = some hash ↔
        ∃ row ∈ items.rows, row.sourcePath = some path ∧ row.fileHash = some hash := by
  obtain ⟨source?, hsource⟩ : ∃ source? : ItemRow → Option (String × String),
      source? = fun row => row.sourcePath.bind fun path => row.fileHash.bind fun hash =>
        some (path, hash) := ⟨_, rfl⟩
  have hiff : ∀ (row : ItemRow) path hash, source? row = some (path, hash) ↔
      row.sourcePath = some path ∧ row.fileHash = some hash := by
    intro row path hash
    simp [hsource, Option.bind_eq_some_iff]
  have hkeys : ((items.rows.filterMap source?).map Prod.fst).Nodup := by
    unfold List.Nodup
    rw [List.pairwise_map, List.pairwise_filterMap]
    refine items.nodup_rows.imp_of_mem fun ha hb hne pair hpair other hother heq => hne ?_
    refine hdistinct _ ha _ hb ?_
    rw [((hiff _ _ _).1 hpair).1, ((hiff _ _ _).1 hother).1, heq]
  refine ⟨Dictionary.ofPairs (items.rows.filterMap source?), ?_, fun path hash => ?_⟩
  · unfold Ingest.hashes
    rw [perform_bind_ok (perform_items hitems), hsource]
    rfl
  · rw [Dictionary.find?_ofPairs_iff hkeys, List.mem_filterMap]
    simp only [hiff]

theorem perform_vanished (hitems : db.items = some items) (existing : List String) :
    ∃ gone, db.perform (Ingest.vanished existing) = (.ok gone, db) ∧ ∀ path,
      path ∈ gone ↔ (∃ row ∈ items.rows, row.sourcePath = some path) ∧ path ∉ existing := by
  refine ⟨_, perform_bind_ok (perform_items hitems) _, fun path => ?_⟩
  simp [List.mem_mergeSort]

/-- Importing files of a folder one after another succeeds and settles their paths. -/
theorem perform_importEach (himportable : Importable files)
    (hpaths : (files.map ExportFile.path).Nodup) (hitems : db.items = some items)
    (hqueue : db.queue = some queue) (chosen : List ExportFile)
    (hchosen : ∀ file ∈ chosen, file ∈ files) (report : Ingest.Report) :
    ∃ after table ids,
      db.perform (chosen.foldlM (fun report file =>
          report.count <$> Action.attempt (Ingest.importFile file)) report) =
        (.ok { report with
          imported := report.imported + chosen.length
          queued := report.queued + ids.length }, after) ∧
        after.items = some table ∧
        ItemTable.Settled files (chosen.map ExportFile.path) items table ∧
        Announced ids db after := by
  induction chosen generalizing db items queue report with
  | nil => exact ⟨db, items, [], rfl, hitems, .nothing, .none hitems hqueue⟩
  | cons file rest ih =>
    obtain ⟨hfile, hrest⟩ := List.forall_mem_cons.1 hchosen
    obtain ⟨item, hitem⟩ := himportable.parse file hfile
    have himport := perform_importFile hitems hqueue hitem
    have hannounced := announced_stocked hitems hqueue item (some ⟨file.path, file.hash⟩)
    have hsettled : ItemTable.Settled files [file.path] items _ :=
      .stocked himportable hpaths hfile hitem
    obtain ⟨mid, hmid⟩ : ∃ mid, mid = { db with
        items := some (Content.stocked item (some ⟨file.path, file.hash⟩) items)
        queue := some (queue.addAll ((item.id ::
          Content.displaced item (some ⟨file.path, file.hash⟩) items).map Queue.request)) } :=
      ⟨_, rfl⟩
    rw [← hmid] at himport hannounced
    have hcount : db.perform (report.count <$> Action.attempt (Ingest.importFile file)) =
        (.ok { report with
          imported := report.imported + 1
          queued := report.queued + 1 +
            (Content.displaced item (some ⟨file.path, file.hash⟩) items).length }, mid) := by
      exact perform_map_ok (perform_attempt himport) _
    obtain ⟨after, table, ids, hfold, htable, hlater, hids⟩ :=
      ih (show mid.items = some _ by rw [hmid]) (show mid.queue = some _ by rw [hmid]) hrest
        { report with
          imported := report.imported + 1
          queued := report.queued + 1 +
            (Content.displaced item (some ⟨file.path, file.hash⟩) items).length }
    refine ⟨after, table, _, ?_, htable, hsettled.trans hlater, hannounced.trans hids⟩
    rw [List.foldlM_cons, perform_bind_ok hcount, hfold]
    congr 3
    · simp only [List.length_cons]
      omega
    · simp only [List.length_append, List.length_cons]
      omega

/-- An import makes the store mirror the files, without an error, and counts what it
requests. -/
theorem perform_mirror (himportable : Importable files)
    (hpaths : (files.map ExportFile.path).Nodup) (hitems : db.items = some items)
    (hqueue : db.queue = some queue) (hsourced : items.Sourced contents)
    (hinj : Set.InjOn Digest.sha256 {bytes | bytes ∈ contents})
    (hfiles : ∀ file ∈ files, file.bytes ∈ contents) :
    ∃ report after table ids, db.perform (Ingest.mirror files) = (.ok report, after) ∧
      after.items = some table ∧ table.Mirrors files ∧ Announced ids db after ∧
      report.errors = 0 ∧ report.queued = ids.length := by
  obtain ⟨hashes, hhashes, hfound⟩ := perform_hashes hitems hsourced.distinct
  obtain ⟨start, hstart⟩ : ∃ start : Ingest.Report, start = ⟨files.length,
      (Classification.ofFiles hashes files).new.length,
      (Classification.ofFiles hashes files).modified.length,
      (Classification.ofFiles hashes files).unchanged.length, 0, 0, 0, 0⟩ := ⟨_, rfl⟩
  obtain ⟨mid, stocked, imported, himport, hstocked, hsettled, hannounced⟩ :=
    perform_importEach himportable hpaths hitems hqueue
      (Classification.ofFiles hashes files).changed
      (fun file hfile => (Classification.mem_changed.1 hfile).1) start
  obtain ⟨gone, hvanished, hgone⟩ := perform_vanished hstocked (files.map ExportFile.path)
  obtain ⟨requests, -, hrequests⟩ := hannounced.queue
  obtain ⟨deleted, after, table, hdelete, htable, hrows, hdeleted, -⟩ :=
    perform_deleteSources hstocked hrequests gone
  have hdeletes : ItemTable.Settled files gone stocked table := by
    refine .deleted (fun path hpath file hfile hsame => ((hgone path).1 hpath).2 ?_) hrows
    exact hsame ▸ List.mem_map_of_mem hfile
  refine ⟨{ start with
      imported := start.imported + (Classification.ofFiles hashes files).changed.length
      deleted := deleted.length
      queued := start.queued + imported.length + deleted.length },
    after, table, imported ++ deleted, ?_, htable,
    (hsettled.trans hdeletes).mirrors himportable hsourced.distinct ?_ ?_,
    hannounced.trans hdeleted, ?_, ?_⟩
  · unfold Ingest.mirror Ingest.importFolder
    rw [perform_bind_ok hhashes]
    simp only [Bool.false_eq_true, if_false, if_true, ← hstart]
    rw [perform_bind_ok himport, perform_bind_ok hvanished, perform_bind_ok hdelete]
    rfl
  · -- a file that is not imported has its row already
    intro file hfile row hrow
    by_cases hhash : hashes.find? file.path = some file.hash
    · obtain ⟨old, hold, hpath, hsame⟩ := (hfound file.path file.hash).1 hhash
      exact Or.inl (hsourced.mem_of_hash hinj (hfiles file hfile) hrow hold hpath hsame)
    · refine Or.inr (List.mem_append_left _ (List.mem_map_of_mem ?_))
      exact Classification.mem_changed.2 ⟨hfile, hhash⟩
  · -- what came from no file is gone
    intro row hrow
    obtain ⟨hthere, hleft⟩ := (hrows row).1 hrow
    rcases hsettled.origin row hthere with ⟨file, hfile, hsome⟩ | ⟨hold, -⟩
    · exact ⟨file, hfile, ExportFile.sourcePath_of_row? hsome⟩
    · obtain ⟨source, -, hsource⟩ := hsourced.known row hold
      have hpath := ExportFile.sourcePath_of_row? hsource
      by_contra hnone
      refine hleft source.path ((hgone source.path).2 ⟨⟨row, hthere, hpath⟩, fun hmem => ?_⟩) hpath
      obtain ⟨file, hfile, hsame⟩ := List.mem_map.1 hmem
      exact hnone ⟨file, hfile, hsame ▸ hpath⟩
  · rw [hstart]
  · rw [hstart]
    simp only [List.length_append]
    omega

/-- A store that mirrors the files is left as it is: all files are unchanged, and no path is
without its file. -/
theorem perform_mirror_again (himportable : Importable files)
    (hpaths : (files.map ExportFile.path).Nodup) (hitems : db.items = some items)
    (hmirrors : items.Mirrors files) :
    ∃ hashes, db.perform Ingest.hashes = (.ok hashes, db) ∧
      Classification.ofFiles hashes files = ⟨[], [], files⟩ ∧
      db.perform (Ingest.vanished (files.map ExportFile.path)) = (.ok [], db) ∧
      db.perform (Ingest.mirror files) =
        (.ok ⟨files.length, 0, 0, files.length, 0, 0, 0, 0⟩, db) := by
  obtain ⟨hashes, hhashes, hfound⟩ :=
    perform_hashes hitems (hmirrors.distinct himportable hpaths)
  obtain ⟨gone, hvanished, hgone⟩ := perform_vanished hitems (files.map ExportFile.path)
  have hclasses : Classification.ofFiles hashes files = ⟨[], [], files⟩ := by
    refine Classification.ofFiles_unchanged fun file hfile => ?_
    obtain ⟨row, hrow⟩ := himportable.exists_row hfile
    exact (hfound file.path file.hash).2 ⟨row,
      ((ItemTable.mirrors_iff himportable).1 hmirrors row).2 ⟨file, hfile, hrow⟩,
      ExportFile.sourcePath_of_row? hrow, ExportFile.fileHash_of_row? hrow⟩
  obtain rfl : gone = [] := by
    rw [List.eq_nil_iff_forall_not_mem]
    intro path hpath
    obtain ⟨⟨row, hrow, hsource⟩, hnone⟩ := (hgone path).1 hpath
    obtain ⟨file, hfile, hsame, -⟩ := hmirrors.source himportable hrow
    obtain rfl : path = file.path := Option.some.inj (hsource.symm.trans hsame)
    exact hnone (List.mem_map_of_mem hfile)
  refine ⟨hashes, hhashes, hclasses, hvanished, ?_⟩
  unfold Ingest.mirror Ingest.importFolder
  rw [perform_bind_ok hhashes]
  simp only [Bool.false_eq_true, if_false, if_true, hclasses]
  have hnothing : db.perform ((Classification.changed ⟨[], [], files⟩).foldlM
      (fun report file => Ingest.Report.count report <$> Action.attempt (Ingest.importFile file))
      (⟨files.length, 0, 0, files.length, 0, 0, 0, 0⟩ : Ingest.Report)) =
        (.ok ⟨files.length, 0, 0, files.length, 0, 0, 0, 0⟩, db) := rfl
  rw [List.length_nil, perform_bind_ok hnothing, perform_bind_ok hvanished]
  rfl

theorem stored_of_mirrors (himportable : Importable files) (hitems : db.items = some items)
    (hmirrors : items.Mirrors files) {file : ExportFile} (hfile : file ∈ files) :
    ∃ item, Item.ofBytes? file.bytes = some item ∧ db.stored item.id = .ok (some item) := by
  obtain ⟨item, hitem⟩ := himportable.parse file hfile
  have hrow : items.find? item.id = some (.ofItem item (some ⟨file.path, file.hash⟩)) :=
    ItemTable.find?_eq_some_iff.2 ⟨((ItemTable.mirrors_iff himportable).1 hmirrors _).2
      ⟨file, hfile, ExportFile.row?_of_item hitem⟩, rfl⟩
  exact ⟨item, hitem,
    stored_row hitems hrow (Item.ofText_text_of_read (Or.inr ⟨file.bytes, hitem⟩))⟩

/-! ## Folders -/

/-- However the store came about, an import with cleanup makes it the image of the folder:
it has one row for every export, with the path and the hash of the file and a text that is
its item. Whatever was stored, replaced or removed was requested to be reindexed. Then there
is nothing left to do: all files are unchanged, no path is without its file, and a second
run changes nothing. -/
theorem import_mirrors_folder (changes : List ContentChange) (tree : FileTree)
    (folder : Location) (himportable : Importable (ExportFile.discover tree folder))
    (hpaths : ((ExportFile.discover tree folder).map ExportFile.path).Nodup)
    (hinj : Set.InjOn Digest.sha256 {bytes | bytes ∈ changes.flatMap ContentChange.contents ++
      (ExportFile.discover tree folder).map ExportFile.bytes}) :
    ∃ report after table ids,
      (changedBy changes).perform (Ingest.mirror (ExportFile.discover tree folder)) =
          (.ok report, after) ∧
        after.items = some table ∧ table.Mirrors (ExportFile.discover tree folder) ∧
        (∀ file ∈ ExportFile.discover tree folder, ∃ item,
          Item.ofBytes? file.bytes = some item ∧ after.stored item.id = .ok (some item)) ∧
        Announced ids (changedBy changes) after ∧
        report.errors = 0 ∧ report.queued = ids.length ∧
        ∃ hashes, after.perform Ingest.hashes = (.ok hashes, after) ∧
          Classification.ofFiles hashes (ExportFile.discover tree folder) =
            ⟨[], [], ExportFile.discover tree folder⟩ ∧
          after.perform (Ingest.vanished
            ((ExportFile.discover tree folder).map ExportFile.path)) = (.ok [], after) ∧
          after.perform (Ingest.mirror (ExportFile.discover tree folder)) =
            (.ok ⟨(ExportFile.discover tree folder).length, 0, 0,
              (ExportFile.discover tree folder).length, 0, 0, 0, 0⟩, after) := by
  obtain ⟨items, queue, hitems, hqueue, hsourced⟩ := sourced_changedBy changes
  obtain ⟨report, after, table, ids, hmirror, htable, hmirrors, hannounced, herrors, hqueued⟩ :=
    perform_mirror himportable hpaths hitems hqueue
      (hsourced.mono fun bytes hbytes => List.mem_append_left _ hbytes) hinj
      fun file hfile => List.mem_append_right _ (List.mem_map_of_mem hfile)
  exact ⟨report, after, table, ids, hmirror, htable, hmirrors,
    fun file hfile => stored_of_mirrors himportable htable hmirrors hfile, hannounced, herrors,
    hqueued, perform_mirror_again himportable hpaths htable hmirrors⟩

def pageText (id : String) : List UInt8 :=
  Text.utf8 ("\x7b\"id\":" ++ id ++ ",\"type\":\"page\"\x7d")

def pagesFolder : FileTree where
  folders := [["content"]]
  files := [(["content", "a.json"], .bytes (pageText "1")),
    (["content", "b.json"], .bytes (pageText "2"))]
  distinct := by decide

theorem discover_pagesFolder : ExportFile.discover pagesFolder ["content"] =
    [⟨"a.json", pageText "1"⟩, ⟨"b.json", pageText "2"⟩] := by
  cbv

theorem importable_pagesAt (first second : String) :
    Importable [⟨first, pageText "1"⟩, ⟨second, pageText "2"⟩] where
  parse := by
    have hfirst : (Item.ofBytes? (pageText "1")).isSome = true := by decide +kernel
    have hsecond : (Item.ofBytes? (pageText "2")).isSome = true := by decide +kernel
    refine List.forall_mem_cons.2 ⟨Option.isSome_iff_exists.1 hfirst, ?_⟩
    exact List.forall_mem_singleton.2 (Option.isSome_iff_exists.1 hsecond)
  ids := by
    show ([pageText "1", pageText "2"].map fun bytes => (Item.ofBytes? bytes).map Item.id).Nodup
    decide +kernel

theorem importable_pages :
    Importable [⟨"a.json", pageText "1"⟩, ⟨"b.json", pageText "2"⟩] :=
  importable_pagesAt _ _

theorem injOn_pages : Set.InjOn Digest.sha256 {bytes | bytes ∈ [pageText "1", pageText "2"]} := by
  have hne : Digest.sha256 (pageText "1") ≠ Digest.sha256 (pageText "2") := by decide +kernel
  simp [Set.InjOn, hne, hne.symm]

/-- Each of the files held the item of the other when they were imported. -/
def beforeSwap : List ContentChange :=
  [.importFile ⟨"a.json", pageText "2"⟩, .importFile ⟨"b.json", pageText "1"⟩]

theorem import_mirrors_swapped :
    Importable (ExportFile.discover pagesFolder ["content"]) ∧
      ((ExportFile.discover pagesFolder ["content"]).map ExportFile.path).Nodup ∧
      Set.InjOn Digest.sha256 {bytes | bytes ∈ beforeSwap.flatMap ContentChange.contents ++
        (ExportFile.discover pagesFolder ["content"]).map ExportFile.bytes} ∧
      ∃ report after table,
        (changedBy beforeSwap).perform
            (Ingest.mirror (ExportFile.discover pagesFolder ["content"])) = (.ok report, after) ∧
          after.items = some table ∧
          table.Mirrors (ExportFile.discover pagesFolder ["content"]) := by
  have himportable : Importable (ExportFile.discover pagesFolder ["content"]) := by
    rw [discover_pagesFolder]
    exact importable_pages
  have hpaths : ((ExportFile.discover pagesFolder ["content"]).map ExportFile.path).Nodup := by
    rw [discover_pagesFolder]
    decide
  have hinj : Set.InjOn Digest.sha256 {bytes | bytes ∈ beforeSwap.flatMap ContentChange.contents ++
      (ExportFile.discover pagesFolder ["content"]).map ExportFile.bytes} := by
    rw [discover_pagesFolder]
    exact injOn_pages.mono (by simp [beforeSwap, ContentChange.contents])
  obtain ⟨report, after, table, ids, hmirror, htable, hmirrors, -⟩ :=
    import_mirrors_folder beforeSwap pagesFolder ["content"] himportable hpaths hinj
  exact ⟨himportable, hpaths, hinj, report, after, table, hmirror, htable, hmirrors⟩

end Database

end Lineage
