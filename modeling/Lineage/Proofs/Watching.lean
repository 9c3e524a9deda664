import Lineage.Proofs.FolderImport
import Lineage.Proofs.SourcePaths

/-! # Following a folder path by path

Whoever handles the paths of a folder one by one, in any order and as often as he likes,
ends with the store that an import of the whole folder makes, once he has handled every
path where the store and the folder differ. Every call settles its own path and leaves
alone what is right, so their order does not matter. -/

namespace Lineage

open Lineage.Path (segments under)
open ExportFile (Importable)

/-- A folder and the root that names it. The names of what is in it are names, have no slash
of either kind in them and lead to it through folders, and its exports are within reach. -/
structure ContentFolder (tree : FileTree) (working : Location) (root : String)
    (folder : Location) : Prop where
  place : tree.resolve? working root = some folder
  names : ∀ file ∈ tree.filesBelow folder, ∀ name ∈ file.1,
    (SourcePath.isPart name = true ∧ name ≠ "..") ∧ name.utf8ByteSize ≤ FileTree.maxName
  slashes : ∀ file ∈ tree.filesBelow folder, ∀ name ∈ file.1,
    '/' ∉ name.toList ∧ '\\' ∉ name.toList
  ways : ∀ file ∈ tree.filesBelow folder, ∀ n < file.1.length,
    tree.isFolder (folder ++ file.1.take n) = true
  apart : ∀ file ∈ tree.filesBelow folder, tree.isFolder (folder ++ file.1) = false
  reach : ∀ file ∈ ExportFile.discover tree folder,
    FileTree.isPathable (under root file.path) = true

namespace ContentFolder
variable {tree : FileTree} {working folder : Location} {root path : String} {file : ExportFile}
variable {bytes : List UInt8}

/-- The path of an export is normal and spelled with the names that lead to it. -/
theorem names_of_export (h : ContentFolder tree working root folder)
    (hfile : file ∈ ExportFile.discover tree folder) : ∃ names content,
      (names, content) ∈ tree.filesBelow folder ∧ segments file.path = names ∧
        file.bytes = content.toBytes ∧ SourcePath.normalize file.path = file.path ∧
        SourcePath.isExport file.path = true := by
  obtain ⟨names, content, hbelow, hexport, rfl⟩ := ExportFile.mem_discover.1 hfile
  have hne : names ≠ [] := by
    rintro rfl
    exact absurd hexport (by decide)
  have hsegments : segments (Path.spellNames names) = names :=
    Path.segments_intercalate hne fun name hname => (h.slashes _ hbelow name hname).1
  have hbackslash : '\\' ∉ (Path.spellNames names).toList := by
    intro hchar
    rcases Path.mem_intercalate hchar with hslash | ⟨name, hname, hmem⟩
    · exact absurd hslash (by decide)
    · exact (h.slashes _ hbelow name hname).2 hmem
  have hnormal : SourcePath.normalize (Path.spellNames names) = Path.spellNames names :=
    SourcePath.normalize_of_parts hbackslash fun s hs =>
      (h.names _ hbelow s (by rwa [hsegments] at hs)).1.1
  rw [hnormal]
  exact ⟨names, content, hbelow, hsegments, rfl, hnormal, hexport⟩

theorem read_export (h : ContentFolder tree working root folder)
    (hfile : file ∈ ExportFile.discover tree folder) :
    tree.read working (under root file.path) = .ok file.bytes := by
  obtain ⟨names, content, hbelow, hsegments, hbytes, -⟩ := h.names_of_export hfile
  have hmem : (folder ++ names, content) ∈ tree.files := FileTree.mem_filesBelow.1 hbelow
  have hthere : (tree.entry? (folder ++ names)).isSome = true := by
    unfold FileTree.entry?
    rw [if_neg (by simp [h.apart _ hbelow]), FileTree.fileAt?_eq_some_iff.2 hmem]
    rfl
  refine FileTree.read_eq_ok_iff.2 ⟨folder ++ names, content, ?_, hmem, hbytes⟩
  rw [FileTree.resolve?_under h.place, if_pos (h.reach file hfile), hsegments,
    FileTree.follow_names (h.names _ hbelow) (h.ways _ hbelow) hthere]

theorem ne_empty_of_read (h : ContentFolder tree working root folder)
    (hread : tree.read working (under root path) = .ok bytes) : path ≠ "" := by
  rintro rfl
  obtain ⟨place, content, hplace, hmem, -⟩ := FileTree.read_eq_ok_iff.1 hread
  have hsegments : segments "" = [""] := rfl
  rw [FileTree.resolve?_under h.place, hsegments] at hplace
  have hfolder : tree.isFolder folder = true ∧ place = folder := by
    split at hplace
    · rw [FileTree.follow] at hplace
      split at hplace
      · cases hplace
      · rename_i hfolder
        rw [if_pos (show ("".isEmpty || "" == ".") = true from rfl), FileTree.follow] at hplace
        split at hplace
        · exact ⟨by simpa using hfolder, (Option.some.inj hplace).symm⟩
        · cases hplace
    · cases hplace
  have hbelow : ([], content) ∈ tree.filesBelow folder := by
    rw [FileTree.mem_filesBelow, List.append_nil, ← hfolder.2]
    exact hmem
  have happart := h.apart _ hbelow
  rw [List.append_nil, hfolder.1] at happart
  cases happart

/-- A normal path below the folder that leads to an export, and not by going up, is its path. -/
theorem mem_discover_of_read (h : ContentFolder tree working root folder)
    (hnormal : SourcePath.normalize path = path) (hup : ".." ∉ segments path)
    (hexport : SourcePath.isExport (under root path) = true)
    (hread : tree.read working (under root path) = .ok bytes) :
    ⟨path, bytes⟩ ∈ ExportFile.discover tree folder := by
  have hne := h.ne_empty_of_read hread
  obtain ⟨place, content, hplace, hmem, rfl⟩ := FileTree.read_eq_ok_iff.1 hread
  have hnames : ∀ name ∈ segments path, SourcePath.isPart name = true ∧ name ≠ ".." :=
    fun name hname =>
      ⟨SourcePath.isPart_of_normal hnormal hne hname, fun hsame => hup (hsame ▸ hname)⟩
  have hfollow : tree.follow folder (segments path) = some place := by
    rw [FileTree.resolve?_under h.place] at hplace
    split at hplace
    · exact hplace
    · cases hplace
  rw [FileTree.place_of_follow hnames hfollow] at hmem
  have hspell : Path.spellNames (segments path) = path := Path.intercalate_segments path
  refine ExportFile.mem_discover.2
    ⟨segments path, content, FileTree.mem_filesBelow.2 hmem, ?_, ?_⟩
  · rw [hspell, ← SourcePath.isExport_under (FileTree.resolve?_ne_empty h.place) hnormal hne]
    exact hexport
  · rw [hspell, hnormal]

theorem nodup_paths (h : ContentFolder tree working root folder)
    (himportable : Importable (ExportFile.discover tree folder)) :
    ((ExportFile.discover tree folder).map ExportFile.path).Nodup := by
  have hids := himportable.ids
  unfold List.Nodup at hids ⊢
  rw [List.pairwise_map] at hids ⊢
  refine hids.imp_of_mem fun {a b} ha hb hne hpath => hne ?_
  have hbytes : (.ok a.bytes : Except Failure (List UInt8)) = .ok b.bytes := by
    rw [← h.read_export ha, ← h.read_export hb, hpath]
  rw [Except.ok.inj hbytes]

end ContentFolder

/-! ## Calls -/

/-- The items whose reindexes are requested with what was done. -/
def WatchAction.requested : WatchAction → List NodeId
  | imported outcome => outcome.item :: outcome.displaced
  | deleted ids => ids
  | unchanged => []
  | ignored => []

namespace Watch

def handleEach (tree : FileTree) (working : Location) (root : String) (paths : List String) :
    Action (List WatchAction) :=
  paths.mapM fun path => handleChange tree working root (under root path)

/-- No file is reached by a path that goes up. -/
def Direct (tree : FileTree) (working : Location) (root path : String) : Prop :=
  ".." ∈ segments path → tree.isFile working (under root path) = false

theorem sourcePath?_under {root path : String} (hroot : root ≠ "")
    (hnormal : SourcePath.normalize path = path) (tree : FileTree) (working : Location) :
    sourcePath? tree working root (under root path) =
      if SourcePath.isExport (under root path) then some path else none := by
  unfold sourcePath?
  rw [SourcePath.below?_under hroot hnormal]
  by_cases hexport : SourcePath.isExport (under root path) = true <;> simp [hexport]

end Watch

namespace Database
variable {db after : Database} {tree : FileTree} {working folder : Location} {root path : String}
variable {items : ItemTable} {queue : Numbered QueueEntry} {contents : List (List UInt8)}

theorem deleteSource_nothing (h : db.perform (Ingest.deleteSource path) = (.ok [], after)) :
    after = db := by
  unfold Ingest.deleteSource at h
  cases hitems : db.items with
  | none =>
    rw [perform_bind_error (perform_items_missing hitems)] at h
    cases h
  | some table =>
    rw [perform_bind_ok (perform_items hitems), perform_bind_ok (perform_setItems _ _)] at h
    obtain ⟨_, requested, hrequest, hreturn⟩ := of_perform_bind_ok h
    obtain ⟨hids, rfl⟩ := Prod.mk.inj hreturn
    have hnone : table.idsFrom path = [] := Except.ok.inj hids
    rw [hnone, ItemTable.erase_nil, ← hitems] at hrequest
    exact (Prod.mk.inj hrequest).2.symm

theorem deleteSources_nothing (h : db.perform (Ingest.deleteSources [path]) = (.ok [], after)) :
    after = db := by
  have hdelete : db.perform (List.flatten <$> [path].mapM Ingest.deleteSource) =
      (.ok [], after) := by
    rcases transaction_cases db (List.flatten <$> [path].mapM Ingest.deleteSource) with
      ⟨ids, last, hact, htransaction⟩ | ⟨e, htransaction⟩
    · exact hact.trans (htransaction.symm.trans h)
    · cases htransaction.symm.trans h
  obtain ⟨lists, hlists, hflat⟩ := of_perform_map_ok hdelete
  rw [List.mapM_cons] at hlists
  obtain ⟨ids, mid, hids, hrest⟩ := of_perform_bind_ok hlists
  obtain ⟨hlist, rfl⟩ := Prod.mk.inj hrest
  obtain rfl : [ids] = lists := Except.ok.inj hlist
  have hnone : ids = [] := by simpa using hflat
  exact deleteSource_nothing (hnone ▸ hids)

theorem readsOnly_storedHash (path : String) : Action.ReadsOnly (Watch.storedHash path) :=
  Action.readsOnly_bind (Action.readsOnly_table _ _) fun _ => Action.readsOnly_pure _

/-- A call that requests nothing changes nothing, whatever the database. -/
theorem quiet_call {action : WatchAction}
    (h : db.perform (Watch.handleChange tree working root path) = (.ok action, after))
    (hquiet : action.requested = []) : after = db := by
  unfold Watch.handleChange at h
  cases hsource : Watch.sourcePath? tree working root path with
  | none =>
    rw [hsource] at h
    exact (Prod.mk.inj h).2.symm
  | some sourcePath =>
    cases hread : tree.read working path with
    | error e =>
      rw [hsource, hread] at h
      dsimp only at h
      obtain ⟨ids, hdelete, rfl⟩ := of_perform_map_ok h
      exact deleteSources_nothing ((show ids = [] from hquiet) ▸ hdelete)
    | ok bytes =>
      rw [hsource, hread] at h
      dsimp only at h
      obtain ⟨stored, mid, hstored, h⟩ := of_perform_bind_ok h
      have hmid : mid = db := by
        rw [← readsOnly_storedHash sourcePath db, hstored]
      split at h
      · exact (Prod.mk.inj h).2.symm.trans hmid
      · obtain ⟨outcome, -, rfl⟩ := of_perform_map_ok h
        cases hquiet

/-! ## Convergence -/

/-- A call about a path without a file removes what came from there. -/
theorem perform_handle_gone (hfolder : ContentFolder tree working root folder)
    (hitems : db.items = some items) (hqueue : db.queue = some queue)
    (hsourced : items.Sourced contents) {e : Failure}
    (hsource : Watch.sourcePath? tree working root (under root path) = some path)
    (hread : tree.read working (under root path) = .error e) :
    ∃ action after table,
      db.perform (Watch.handleChange tree working root (under root path)) = (.ok action, after) ∧
        after.items = some table ∧ table.Sourced contents ∧
        ItemTable.Settled (ExportFile.discover tree folder) [path] items table ∧
        Announced action.requested db after := by
  obtain ⟨ids, after, table, hdelete, htable, hrows, hannounced, -⟩ :=
    perform_deleteSources hitems hqueue [path]
  have hgone : ∀ file ∈ ExportFile.discover tree folder, file.path ≠ path := by
    intro file hfile hsame
    have hthere := hfolder.read_export hfile
    rw [hsame, hread] at hthere
    cases hthere
  rw [perform_handleChange hitems, hsource, hread]
  exact ⟨.deleted ids, after, table, perform_map_ok hdelete _, htable,
    hsourced.subset fun row hrow => ((hrows row).1 hrow).1,
    .deleted (List.forall_mem_singleton.2 hgone) hrows, hannounced⟩

section
variable (hfolder : ContentFolder tree working root folder)
variable (himportable : Importable (ExportFile.discover tree folder))
variable (hinj : Set.InjOn Digest.sha256 {bytes | bytes ∈ contents})
variable (hfiles : ∀ file ∈ ExportFile.discover tree folder, file.bytes ∈ contents)
include hfolder himportable hinj hfiles

/-- A call about an export that is there stores it, unless it is the one that was stored. -/
theorem perform_handle_export (hitems : db.items = some items) (hqueue : db.queue = some queue)
    (hsourced : items.Sourced contents) {bytes : List UInt8}
    (hsource : Watch.sourcePath? tree working root (under root path) = some path)
    (hread : tree.read working (under root path) = .ok bytes)
    (hfile : ⟨path, bytes⟩ ∈ ExportFile.discover tree folder) :
    ∃ action after table,
      db.perform (Watch.handleChange tree working root (under root path)) = (.ok action, after) ∧
        after.items = some table ∧ table.Sourced contents ∧
        ItemTable.Settled (ExportFile.discover tree folder) [path] items table ∧
        Announced action.requested db after := by
  have hpaths := hfolder.nodup_paths himportable
  rw [perform_handleChange hitems, hsource, hread]
  dsimp only
  split
  · rename_i hsame
    obtain ⟨row, hfind, hhash⟩ := Option.bind_eq_some_iff.1 (eq_of_beq hsame)
    have hrow := List.mem_of_find?_eq_some hfind
    have hpath : row.sourcePath = some path := by simpa using List.find?_some hfind
    have hknown : ExportFile.row? ⟨path, bytes⟩ = some row :=
      hsourced.row_of_hash hinj (hfiles _ hfile) hrow hpath hhash
    exact ⟨.unchanged, db, items, rfl, hitems, hsourced,
      .known hpaths hfile hknown hrow hsourced.distinct, .none hitems hqueue⟩
  · obtain ⟨item, hitem⟩ := himportable.parse _ hfile
    have himport := perform_importFile hitems hqueue hitem
    exact ⟨_, _, _, perform_map_ok himport _, rfl, hsourced.stocked (hfiles _ hfile) hitem,
      .stocked himportable hpaths hfile hitem,
      announced_stocked hitems hqueue item (some ⟨path, ExportFile.hash ⟨path, bytes⟩⟩)⟩

/-- A call settles its path, if it is that of an export, and requests the reindexes of all
that it stores or removes. -/
theorem perform_handle (hitems : db.items = some items) (hqueue : db.queue = some queue)
    (hsourced : items.Sourced contents) (hnormal : SourcePath.normalize path = path)
    (hdirect : Watch.Direct tree working root path) :
    ∃ action after table,
      db.perform (Watch.handleChange tree working root (under root path)) = (.ok action, after) ∧
        after.items = some table ∧ table.Sourced contents ∧
        ItemTable.Settled (ExportFile.discover tree folder)
          ([path].filter fun path => SourcePath.isExport (under root path)) items table ∧
        Announced action.requested db after := by
  have hroot := FileTree.resolve?_ne_empty hfolder.place
  have hsource := Watch.sourcePath?_under hroot hnormal tree working
  by_cases hexport : SourcePath.isExport (under root path) = true
  · rw [if_pos hexport] at hsource
    rw [List.filter_singleton, hexport]
    cases hread : tree.read working (under root path) with
    | error e => exact perform_handle_gone hfolder hitems hqueue hsourced hsource hread
    | ok bytes =>
      have hup : ".." ∉ segments path := by
        intro hmem
        exact absurd (FileTree.isFile_of_read hread) (by simp [hdirect hmem])
      exact perform_handle_export hfolder himportable hinj hfiles hitems hqueue hsourced hsource
        hread (hfolder.mem_discover_of_read hnormal hup hexport hread)
  · rw [if_neg hexport] at hsource
    rw [List.filter_singleton, eq_false_of_ne_true hexport, perform_handleChange hitems, hsource]
    exact ⟨.ignored, db, items, rfl, hitems, hsourced, .nothing, .none hitems hqueue⟩

/-- Calls settle the paths of exports among theirs. All that they changed until any of them
was requested to be reindexed. -/
theorem perform_handleEach (hitems : db.items = some items) (hqueue : db.queue = some queue)
    (hsourced : items.Sourced contents) {paths : List String}
    (hnormal : ∀ path ∈ paths, SourcePath.normalize path = path)
    (hdirect : ∀ path ∈ paths, Watch.Direct tree working root path) :
    ∃ actions after table,
      db.perform (Watch.handleEach tree working root paths) = (.ok actions, after) ∧
        after.items = some table ∧
        ItemTable.Settled (ExportFile.discover tree folder)
          (paths.filter fun path => SourcePath.isExport (under root path)) items table ∧
        Announced (actions.flatMap WatchAction.requested) db after ∧
        ∀ n, ∃ mid, db.perform (Watch.handleEach tree working root (paths.take n)) =
            (.ok (actions.take n), mid) ∧
          Announced ((actions.take n).flatMap WatchAction.requested) db mid := by
  induction paths generalizing db items queue with
  | nil =>
    refine ⟨[], db, items, rfl, hitems, .nothing, .none hitems hqueue, fun n => ⟨db, ?_, ?_⟩⟩
    · rw [List.take_nil, List.take_nil]
      rfl
    · rw [List.take_nil]
      exact .none hitems hqueue
  | cons path rest ih =>
    obtain ⟨hpath, hrest⟩ := List.forall_mem_cons.1 hnormal
    obtain ⟨hway, hways⟩ := List.forall_mem_cons.1 hdirect
    obtain ⟨action, mid, stocked, hfirst, hstocked, hknown, hsettled, hannounced⟩ :=
      perform_handle hfolder himportable hinj hfiles hitems hqueue hsourced hpath hway
    obtain ⟨requests, -, hrequests⟩ := hannounced.queue
    obtain ⟨actions, after, table, hlater, htable, hsettles, hannounces, hprefixes⟩ :=
      ih hstocked hrequests hknown hrest hways
    have hrun : ∀ {later : List String} {done : List WatchAction} {last : Database},
        mid.perform (Watch.handleEach tree working root later) = (.ok done, last) →
        db.perform (Watch.handleEach tree working root (path :: later)) =
          (.ok (action :: done), last) := by
      intro later done last hdone
      have hcons : Watch.handleEach tree working root (path :: later) =
          Watch.handleChange tree working root (under root path) >>= fun action =>
            Watch.handleEach tree working root later >>= fun done => pure (action :: done) :=
        List.mapM_cons
      rw [hcons, perform_bind_ok hfirst, perform_bind_ok hdone]
      rfl
    refine ⟨action :: actions, after, table, hrun hlater, htable, ?_,
      hannounced.trans hannounces, fun n => ?_⟩
    · have hfilter : (path :: rest).filter (fun path => SourcePath.isExport (under root path)) =
          [path].filter (fun path => SourcePath.isExport (under root path)) ++
            rest.filter fun path => SourcePath.isExport (under root path) := by
        rw [← List.filter_append, List.singleton_append]
      rw [hfilter]
      exact hsettled.trans hsettles
    · cases n with
      | zero => exact ⟨db, rfl, .none hitems hqueue⟩
      | succ n =>
        obtain ⟨last, hdone, hids⟩ := hprefixes n
        exact ⟨last, hrun hdone, hannounced.trans hids⟩

end

def sourcePaths (db : Database) : List String :=
  (db.items.toList.flatMap ItemTable.rows).filterMap ItemRow.sourcePath

theorem mem_sourcePaths (hitems : db.items = some items) :
    path ∈ db.sourcePaths ↔ ∃ row ∈ items.rows, row.sourcePath = some path := by
  unfold sourcePaths
  rw [hitems]
  simp

end Database

/-- Paths to handle after a history of changes: normal ones, which leave out none where the
store and a folder of importable exports differ. Those are the paths of exports whose hash is
not the one that is stored, and stored paths at which there is no file. -/
structure Watch.Covers (changes : List ContentChange) (tree : FileTree) (working : Location)
    (root : String) (folder : Location) (paths : List String) : Prop where
  content : ContentFolder tree working root folder
  importable : Importable (ExportFile.discover tree folder)
  injective : Set.InjOn Digest.sha256 {bytes | bytes ∈ changes.flatMap ContentChange.contents ++
    (ExportFile.discover tree folder).map ExportFile.bytes}
  normal : ∀ path ∈ paths, SourcePath.normalize path = path
  changed : ∀ file ∈ ExportFile.discover tree folder,
    ((Database.changedBy changes).perform (Watch.storedHash file.path)).1 ≠ .ok (some file.hash) →
      file.path ∈ paths
  gone : ∀ path ∈ (Database.changedBy changes).sourcePaths,
    tree.isFile working (under root path) = false → path ∈ paths

/-- Once paths are settled that cover all differences, the store is the image of the folder. -/
theorem Watch.Covers.mirrors {changes : List ContentChange} {tree : FileTree}
    {working folder : Location} {root : String} {paths : List String} {items table : ItemTable}
    (h : Watch.Covers changes tree working root folder paths)
    (hitems : (Database.changedBy changes).items = some items)
    (hsourced : items.Sourced (changes.flatMap ContentChange.contents ++
      (ExportFile.discover tree folder).map ExportFile.bytes))
    (hstored : ∀ path ∈ (Database.changedBy changes).sourcePaths,
      SourcePath.isExport path = true ∧ SourcePath.normalize path = path ∧
        Watch.Direct tree working root path)
    (hsettled : ItemTable.Settled (ExportFile.discover tree folder)
      (paths.filter fun path => SourcePath.isExport (under root path)) items table) :
    table.Mirrors (ExportFile.discover tree folder) := by
  have hroot := FileTree.resolve?_ne_empty h.content.place
  refine hsettled.mirrors h.importable hsourced.distinct ?_ ?_
  · intro file hfile row hrow
    by_cases hhash : ((Database.changedBy changes).perform (Watch.storedHash file.path)).1 =
        .ok (some file.hash)
    · rw [Database.perform_storedHash hitems] at hhash
      obtain ⟨old, hfind, hsame⟩ := Option.bind_eq_some_iff.1 (Except.ok.inj hhash)
      have hpath : old.sourcePath = some file.path := by simpa using List.find?_some hfind
      have hbytes := List.mem_append_right (changes.flatMap ContentChange.contents)
        (List.mem_map_of_mem (f := ExportFile.bytes) hfile)
      exact Or.inl (hsourced.mem_of_hash h.injective hbytes hrow (List.mem_of_find?_eq_some hfind)
        hpath hsame)
    · obtain ⟨-, -, -, -, -, hnormal, hexport⟩ := h.content.names_of_export hfile
      exact Or.inr (List.mem_filter.2 ⟨h.changed file hfile hhash,
        SourcePath.isExport_under_of_isExport hroot hnormal hexport⟩)
  · -- a row that is left from before came from a file that is still there
    intro row hrow
    rcases hsettled.origin row hrow with ⟨file, hfile, hsome⟩ | ⟨hold, hleft⟩
    · exact ⟨file, hfile, ExportFile.sourcePath_of_row? hsome⟩
    · obtain ⟨source, -, hsource⟩ := hsourced.known row hold
      have hpath := ExportFile.sourcePath_of_row? hsource
      have hmem := (Database.mem_sourcePaths hitems).2 ⟨row, hold, hpath⟩
      obtain ⟨hexport, hnormal, hdirect⟩ := hstored source.path hmem
      have hunder := SourcePath.isExport_under_of_isExport hroot hnormal hexport
      cases hthere : tree.isFile working (under root source.path) with
      | false =>
        exact absurd hpath
          (hleft source.path (List.mem_filter.2 ⟨h.gone source.path hmem hthere, hunder⟩))
      | true =>
        obtain ⟨bytes, hread⟩ := FileTree.exists_read_of_isFile hthere
        have hup : ".." ∉ segments source.path := by
          intro hmem
          exact absurd hthere (by simp [hdirect hmem])
        exact ⟨_, h.content.mem_discover_of_read hnormal hup hunder hread, hpath⟩

namespace Database

/-- However the store came about, handling paths that cover its differences from a content
folder makes it the image of the folder, in any order and with any repetitions. The result
is what an import with cleanup makes of the same store. What was stored, replaced or removed
up to any of the calls was requested to be reindexed, and a call that requests nothing
changes nothing. The paths, and those that are stored, must not reach files by going up, and
what is stored has to be under paths that exports can have. -/
theorem watch_mirrors_folder {changes : List ContentChange} {tree : FileTree}
    {working folder : Location} {root : String} {paths : List String}
    (hcovers : Watch.Covers changes tree working root folder paths)
    (hdirect : ∀ path ∈ paths, Watch.Direct tree working root path)
    (hstored : ∀ path ∈ (changedBy changes).sourcePaths, SourcePath.isExport path = true ∧
      SourcePath.normalize path = path ∧ Watch.Direct tree working root path) :
    ∃ actions after table,
      (changedBy changes).perform (Watch.handleEach tree working root paths) =
          (.ok actions, after) ∧
        after.items = some table ∧ table.Mirrors (ExportFile.discover tree folder) ∧
        (∀ file ∈ ExportFile.discover tree folder, ∃ item,
          Item.ofBytes? file.bytes = some item ∧ after.stored item.id = .ok (some item)) ∧
        (∃ report mirrored,
          (changedBy changes).perform (Ingest.mirror (ExportFile.discover tree folder)) =
            (.ok report, mirrored) ∧ mirrored.items = after.items) ∧
        Announced (actions.flatMap WatchAction.requested) (changedBy changes) after ∧
        (∀ n, ∃ mid,
          (changedBy changes).perform (Watch.handleEach tree working root (paths.take n)) =
              (.ok (actions.take n), mid) ∧
            Announced ((actions.take n).flatMap WatchAction.requested) (changedBy changes) mid) ∧
        ∀ (store : Database) (path : String) (action : WatchAction) (next : Database),
          store.perform (Watch.handleChange tree working root path) = (.ok action, next) →
            action.requested = [] → next = store := by
  have himportable := hcovers.importable
  have hpaths := hcovers.content.nodup_paths himportable
  obtain ⟨items, queue, hitems, hqueue, hknown⟩ := sourced_changedBy changes
  have hsourced := hknown.mono fun bytes hbytes => List.mem_append_left
    ((ExportFile.discover tree folder).map ExportFile.bytes) hbytes
  have hfiles : ∀ file ∈ ExportFile.discover tree folder,
      file.bytes ∈ changes.flatMap ContentChange.contents ++
        (ExportFile.discover tree folder).map ExportFile.bytes :=
    fun file hfile => List.mem_append_right _ (List.mem_map_of_mem hfile)
  obtain ⟨actions, after, table, hrun, htable, hsettled, hannounced, hprefixes⟩ :=
    perform_handleEach hcovers.content himportable hcovers.injective hfiles hitems hqueue hsourced
      hcovers.normal hdirect
  have hmirrors : table.Mirrors (ExportFile.discover tree folder) :=
    hcovers.mirrors hitems hsourced hstored hsettled
  obtain ⟨report, mirrored, mirror, ids, hmirror, hmirrored, hsame, -⟩ :=
    perform_mirror himportable hpaths hitems hqueue hsourced hcovers.injective hfiles
  refine ⟨actions, after, table, hrun, htable, hmirrors,
    fun file hfile => stored_of_mirrors himportable htable hmirrors hfile,
    ⟨report, mirrored, hmirror, ?_⟩, hannounced, hprefixes,
    fun store path action next hcall hquiet => quiet_call hcall hquiet⟩
  rw [hmirrored, htable, hsame.unique himportable hmirrors]

theorem content_pagesFolder : ContentFolder pagesFolder [] "content" ["content"] where
  place := by decide +kernel
  names := by decide +kernel
  slashes := by decide +kernel
  ways := by decide +kernel
  apart := by decide +kernel
  reach := by
    rw [discover_pagesFolder]
    decide +kernel

/-- Two files that swapped their items are handled in the order that takes a row away from
the other path, and one of them once more. -/
theorem watch_mirrors_swapped :
    Watch.Covers beforeSwap pagesFolder [] "content" ["content"] ["b.json", "a.json", "b.json"] ∧
      ∃ actions after table,
        (changedBy beforeSwap).perform (Watch.handleEach pagesFolder [] "content"
            ["b.json", "a.json", "b.json"]) = (.ok actions, after) ∧
          after.items = some table ∧
          table.Mirrors (ExportFile.discover pagesFolder ["content"]) := by
  have hcovers : Watch.Covers beforeSwap pagesFolder [] "content" ["content"]
      ["b.json", "a.json", "b.json"] := by
    refine ⟨content_pagesFolder, ?_, ?_, by decide +kernel, ?_, ?_⟩
    · rw [discover_pagesFolder]
      exact importable_pages
    · rw [discover_pagesFolder]
      exact injOn_pages.mono (by simp [beforeSwap, ContentChange.contents])
    · rw [discover_pagesFolder, changedBy_eq]
      decide +kernel
    · rw [changedBy_eq]
      decide +kernel
  have hdirect : ∀ path ∈ ["b.json", "a.json", "b.json"],
      Watch.Direct pagesFolder [] "content" path := by
    unfold Watch.Direct
    decide +kernel
  have hstored : ∀ path ∈ (changedBy beforeSwap).sourcePaths, SourcePath.isExport path = true ∧
      SourcePath.normalize path = path ∧ Watch.Direct pagesFolder [] "content" path := by
    rw [changedBy_eq]
    unfold Watch.Direct
    decide +kernel
  obtain ⟨actions, after, table, hrun, htable, hmirrors, -⟩ :=
    watch_mirrors_folder hcovers hdirect hstored
  exact ⟨hcovers, actions, after, table, hrun, htable, hmirrors⟩

/-! ## Paths that lead astray -/

/-- The calls succeed and do not make the store the image of the folder. -/
def Misses (changes : List ContentChange) (tree : FileTree) (working : Location) (root : String)
    (folder : Location) (paths : List String) : Prop :=
  ∃ actions after table,
    (changedBy changes).perform (Watch.handleEach tree working root paths) =
        (.ok actions, after) ∧
      after.items = some table ∧ ¬ table.Mirrors (ExportFile.discover tree folder)

/-- A store that has something from a path without an export is not the image of the folder. -/
theorem misses_of_sourcePath {changes : List ContentChange} {paths : List String}
    {actions : List WatchAction} (hcovers : Watch.Covers changes tree working root folder paths)
    (hrun : ((changedBy changes).perform (Watch.handleEach tree working root paths)).1 =
      .ok actions)
    (hmem : path ∈ ((changedBy changes).perform
      (Watch.handleEach tree working root paths)).2.sourcePaths)
    (hnone : path ∉ (ExportFile.discover tree folder).map ExportFile.path) :
    Misses changes tree working root folder paths := by
  obtain ⟨after, hafter⟩ : ∃ after, (changedBy changes).perform
      (Watch.handleEach tree working root paths) = (.ok actions, after) := ⟨_, Prod.ext hrun rfl⟩
  rw [hafter] at hmem
  cases hitems : after.items with
  | none =>
    unfold sourcePaths at hmem
    rw [hitems] at hmem
    cases hmem
  | some table =>
    refine ⟨actions, after, table, hafter, hitems, fun hmirrors => hnone ?_⟩
    obtain ⟨row, hrow, hpath⟩ := (mem_sourcePaths hitems).1 hmem
    obtain ⟨file, hfile, hsame, -⟩ := hmirrors.source hcovers.importable hrow
    obtain rfl : path = file.path := Option.some.inj (hpath.symm.trans hsame)
    exact List.mem_map_of_mem hfile

def besideFolder : FileTree where
  folders := [["content"], ["content", "sub"]]
  files := [(["content", "a.json"], .bytes (pageText "1"))]
  distinct := by decide

theorem discover_besideFolder :
    ExportFile.discover besideFolder ["content"] = [⟨"a.json", pageText "1"⟩] := by
  cbv

theorem content_besideFolder : ContentFolder besideFolder [] "content" ["content"] where
  place := by decide +kernel
  names := by decide +kernel
  slashes := by decide +kernel
  ways := by decide +kernel
  apart := by decide +kernel
  reach := by
    rw [discover_besideFolder]
    decide +kernel

theorem covers_beside : Watch.Covers [.importFile ⟨"a.json", pageText "1"⟩] besideFolder []
    "content" ["content"] ["sub/../a.json"] where
  content := content_besideFolder
  importable := by
    rw [discover_besideFolder]
    have hitem : (Item.ofBytes? (pageText "1")).isSome = true := by decide +kernel
    refine ⟨List.forall_mem_singleton.2 (Option.isSome_iff_exists.1 hitem), ?_⟩
    exact List.nodup_singleton _
  injective := by
    rw [discover_besideFolder]
    exact injOn_pages.mono (by simp [ContentChange.contents])
  normal := by decide +kernel
  changed := by
    rw [discover_besideFolder, changedBy_eq]
    decide +kernel
  gone := by
    rw [changedBy_eq]
    decide +kernel

def emptyFolder : FileTree where
  folders := [["content"]]
  files := []
  distinct := List.nodup_nil

theorem discover_emptyFolder : ExportFile.discover emptyFolder ["content"] = [] := by
  cbv

theorem covers_empty : Watch.Covers [.importFile ⟨"notes.txt", pageText "1"⟩] emptyFolder []
    "content" ["content"] ["notes.txt"] where
  content := by
    refine ⟨by decide +kernel, by decide, by decide, by decide, by decide, ?_⟩
    rw [discover_emptyFolder]
    exact fun _ hfile => nomatch hfile
  importable := by
    rw [discover_emptyFolder]
    exact ⟨(fun _ hfile => nomatch hfile), List.nodup_nil⟩
  injective := by
    rw [discover_emptyFolder]
    exact injOn_pages.mono (by simp [ContentChange.contents])
  normal := by decide +kernel
  changed := by
    rw [discover_emptyFolder]
    exact fun _ hfile => nomatch hfile
  gone := by
    rw [changedBy_eq]
    decide +kernel

/-- It is not enough that the calls cover all differences. By a path that goes up a file is
stored from where no export is, and what was stored from a file that is no export stays when
the file is gone: its path is ignored. -/
theorem covering_is_not_enough :
    (Watch.Covers [.importFile ⟨"a.json", pageText "1"⟩] besideFolder [] "content" ["content"]
        ["sub/../a.json"] ∧
      Misses [.importFile ⟨"a.json", pageText "1"⟩] besideFolder [] "content" ["content"]
        ["sub/../a.json"]) ∧
      Watch.Covers [.importFile ⟨"notes.txt", pageText "1"⟩] emptyFolder [] "content" ["content"]
        ["notes.txt"] ∧
      Misses [.importFile ⟨"notes.txt", pageText "1"⟩] emptyFolder [] "content" ["content"]
        ["notes.txt"] := by
  constructor
  · refine ⟨covers_beside, misses_of_sourcePath covers_beside
      (show _ = Except.ok [.imported ⟨1, "page", []⟩] from ?_)
      (show "sub/../a.json" ∈ _ from ?_) ?_⟩
    · rw [changedBy_eq]
      decide +kernel
    · rw [changedBy_eq]
      decide +kernel
    · rw [discover_besideFolder]
      decide
  · refine ⟨covers_empty, misses_of_sourcePath covers_empty
      (show _ = Except.ok [.ignored] from ?_) (show "notes.txt" ∈ _ from ?_) ?_⟩
    · rw [changedBy_eq]
      decide +kernel
    · rw [changedBy_eq]
      decide +kernel
    · rw [discover_emptyFolder]
      exact fun hmem => nomatch hmem

end Database

end Lineage
