import Lineage.Proofs.FolderImport
import Lineage.Proofs.Spellings
import Lineage.Proofs.StoreInvariant

/-! # Exports and their keys

Every export below a folder is listed once, in the order of the source paths. The source path is
the key of an export in the store, and it is all that the listing tells of where the export is. A
backslash may stand in the name of a file, and in a source path it is a slash, so that exports in
different places can have one key: those do whose paths are spellings of one path. Importing a
folder into an empty store displaces an item exactly if that happens. -/

namespace Lineage

open ExportFile (Importable)
open Lineage.Path (SameSpelled)

namespace FileTree
variable {tree : FileTree} {folder names : Location} {content : FileContent}

/-- An export lies below the folder, where the names lead. -/
def HasExport (tree : FileTree) (folder names : Location) (content : FileContent) : Prop :=
  (folder ++ names, content) ∈ tree.files ∧ SourcePath.isExport (Path.spellNames names) = true

/-- The names of what is in a folder are names of files. -/
def WellNamed (tree : FileTree) (folder : Location) : Prop :=
  ∀ file ∈ tree.filesBelow folder, ∀ name ∈ file.1,
    (SourcePath.isPart name = true ∧ name ≠ "..") ∧ '/' ∉ name.toList

def exportsBelow (tree : FileTree) (folder : Location) : List (Location × FileContent) :=
  (tree.filesBelow folder).filter fun file => SourcePath.isExport (Path.spellNames file.1)

theorem mem_exportsBelow :
    (names, content) ∈ tree.exportsBelow folder ↔ tree.HasExport folder names content := by
  unfold exportsBelow HasExport
  rw [List.mem_filter, mem_filesBelow]

theorem nodup_filesBelow (tree : FileTree) (folder : Location) :
    ((tree.filesBelow folder).map Prod.fst).Nodup := by
  have hfirsts : (tree.filesBelow folder).map Prod.fst =
      (tree.files.map Prod.fst).filterMap fun location =>
        if folder.isPrefixOf location then some (location.drop folder.length) else none := by
    unfold filesBelow
    rw [List.map_filterMap, List.filterMap_map]
    refine List.filterMap_congr fun file _ => ?_
    rw [Function.comp_apply]
    split <;> rfl
  have hback : ∀ location rest : Location, rest ∈ (if folder.isPrefixOf location then
      some (location.drop folder.length) else none) → location = folder ++ rest := by
    intro location rest hrest
    split at hrest
    · rename_i hprefix
      obtain ⟨tail, rfl⟩ := List.isPrefixOf_iff_prefix.1 hprefix
      rw [List.drop_left] at hrest
      rw [Option.mem_some_iff.1 hrest]
    · cases hrest
  rw [hfirsts]
  exact tree.distinct.filterMap fun a b rest ha hb => (hback a rest ha).trans (hback b rest hb).symm

theorem nodup_exportsBelow (tree : FileTree) (folder : Location) :
    ((tree.exportsBelow folder).map Prod.fst).Nodup :=
  (tree.nodup_filesBelow folder).sublist (List.filter_sublist.map _)

end FileTree

namespace ExportFile
variable {tree : FileTree} {folder : Location}

/-- What an import takes from a place below the folder. -/
def atNames (names : Location) (content : FileContent) : ExportFile :=
  ⟨SourcePath.normalize (Path.spellNames names), content.toBytes⟩

theorem discover_eq (tree : FileTree) (folder : Location) : discover tree folder =
    ((tree.exportsBelow folder).map fun file => atNames file.1 file.2).mergeSort
      fun a b => a.path ≤ b.path := rfl

/-- The exports are listed one by one, in another order than the tree has them. -/
theorem discover_listed (tree : FileTree) (folder : Location) :
    ∃ found : List (Location × FileContent), found.Perm (tree.exportsBelow folder) ∧
      discover tree folder = found.map fun file => atNames file.1 file.2 := by
  refine ⟨_, List.mergeSort_perm (tree.exportsBelow folder) fun a b =>
    (atNames a.1 a.2).path ≤ (atNames b.1 b.2).path, ?_⟩
  rw [discover_eq]
  exact (List.map_mergeSort (s := fun a b : ExportFile => decide (a.path ≤ b.path))
    (f := fun file : Location × FileContent => atNames file.1 file.2) fun _ _ _ _ => rfl).symm

theorem sorted_discover (tree : FileTree) (folder : Location) :
    (discover tree folder).Pairwise fun a b => a.path ≤ b.path := by
  have hsorted : (discover tree folder).Pairwise fun a b => decide (a.path ≤ b.path) = true := by
    rw [discover_eq]
    refine List.pairwise_mergeSort (fun a b c hab hbc => ?_) (fun a b => ?_) _
    · simp only [decide_eq_true_eq] at hab hbc ⊢
      exact hab.trans hbc
    · simpa using le_total a.path b.path
  exact hsorted.imp of_decide_eq_true

/-- Exports with one key are those whose paths are spellings of one path. -/
theorem nodup_paths_iff : ((discover tree folder).map path).Nodup ↔
    ∀ a x b y, tree.HasExport folder a x → tree.HasExport folder b y →
      SameSpelled (Path.spellNames a) (Path.spellNames b) → a = b := by
  obtain ⟨found, hperm, hlisted⟩ := discover_listed tree folder
  have hplaces : (found.map Prod.fst).Nodup :=
    (hperm.map Prod.fst).nodup_iff.2 (tree.nodup_exportsBelow folder)
  have hmem : ∀ names content,
      (names, content) ∈ found ↔ tree.HasExport folder names content := fun names content =>
    hperm.mem_iff.trans FileTree.mem_exportsBelow
  rw [hlisted, List.map_map, List.nodup_map_iff_inj_on hplaces.of_map]
  constructor
  · intro hinj a x b y ha hb hspelled
    exact congrArg Prod.fst (hinj (a, x) ((hmem a x).2 ha) (b, y) ((hmem b y).2 hb)
      (SourcePath.normalize_eq_iff.2 hspelled))
  · rintro hspelled ⟨a, x⟩ ha ⟨b, y⟩ hb hkey
    refine List.inj_on_of_nodup_map hplaces ha hb ?_
    exact hspelled a x b y ((hmem a x).1 ha) ((hmem b y).1 hb) (SourcePath.normalize_eq_iff.1 hkey)

/-- Where no name has a backslash in it, the key of an export is spelled with the names that lead
to it. -/
theorem nodup_paths_of_slashes (hnames : tree.WellNamed folder)
    (hslashes : ∀ names content, tree.HasExport folder names content →
      ∀ name ∈ names, '\\' ∉ name.toList) : ((discover tree folder).map path).Nodup := by
  have hkey : ∀ names content, tree.HasExport folder names content →
      Path.segments (Path.spellNames names) = names ∧
        SourcePath.normalize (Path.spellNames names) = Path.spellNames names := by
    intro names content hexport
    have hbelow : (names, content) ∈ tree.filesBelow folder := FileTree.mem_filesBelow.2 hexport.1
    have hne : names ≠ [] := by
      rintro rfl
      exact absurd hexport.2 (by decide)
    have hsegments : Path.segments (Path.spellNames names) = names :=
      Path.segments_intercalate hne fun name hname => (hnames _ hbelow name hname).2
    refine ⟨hsegments, SourcePath.normalize_of_parts (fun hchar => ?_) fun s hs => ?_⟩
    · rcases Path.mem_intercalate hchar with hslash | ⟨name, hname, hmem⟩
      · cases hslash
      · exact hslashes names content hexport name hname hmem
    · rw [hsegments] at hs
      exact (hnames _ hbelow s hs).1.1
  rw [nodup_paths_iff]
  intro a x b y ha hb hspelled
  obtain ⟨hsegmentsA, hnormalA⟩ := hkey a x ha
  obtain ⟨hsegmentsB, hnormalB⟩ := hkey b y hb
  have hsame : Path.spellNames a = Path.spellNames b := by
    rw [← hnormalA, ← hnormalB, SourcePath.normalize_eq_iff.2 hspelled]
  rw [← hsegmentsA, hsame, hsegmentsB]

end ExportFile

namespace ExportFile.Importable
variable {files others : List ExportFile}

theorem left (h : Importable (files ++ others)) : Importable files where
  parse := fun file hfile => h.parse file (List.mem_append_left _ hfile)
  ids := h.ids.sublist ((List.sublist_append_left files others).map _)

end ExportFile.Importable

namespace ItemTable
variable {table : ItemTable} {files : List ExportFile} {file : ExportFile} {item : Item}

theorem mirrors_empty : empty.Mirrors [] := .refl _

/-- Among the rows of other files, a file displaces one exactly if its key is there. -/
theorem displaced_eq_nil_iff (himportable : Importable (files ++ [file]))
    (hitem : Item.ofBytes? file.bytes = some item) (hmirrors : table.Mirrors files) :
    Content.displaced item (some ⟨file.path, file.hash⟩) table = [] ↔
      file.path ∉ files.map ExportFile.path := by
  rw [List.eq_nil_iff_forall_not_mem, List.mem_map]
  constructor
  · rintro hnone ⟨other, hother, hpath⟩
    obtain ⟨row, hrow⟩ := himportable.left.exists_row hother
    refine hnone row.id (Content.mem_displaced.2 ⟨fun hid => ?_, row,
      ((mirrors_iff himportable.left).1 hmirrors row).2 ⟨other, hother, hrow⟩, rfl, _, rfl, ?_⟩)
    · -- no two of the files hold items of one id
      have hids := himportable.ids
      rw [List.map_append, List.nodup_append] at hids
      refine hids.2.2 _ (List.mem_map_of_mem hother) _ (List.mem_map_of_mem List.mem_cons_self) ?_
      rw [ExportFile.id_of_row? hrow, hid, hitem]
      rfl
    · rw [ExportFile.sourcePath_of_row? hrow, hpath]
  · rintro hnew id hid
    obtain ⟨-, row, hrow, -, source, hsource, hpath⟩ := Content.mem_displaced.1 hid
    obtain ⟨other, hother, hsome, -⟩ := hmirrors.source himportable.left hrow
    obtain rfl := Option.some.inj hsource
    exact hnew ⟨other, hother, Option.some.inj (hsome.symm.trans hpath)⟩

theorem Mirrors.stocked (himportable : Importable (files ++ [file]))
    (hitem : Item.ofBytes? file.bytes = some item) (hmirrors : table.Mirrors files)
    (hnew : file.path ∉ files.map ExportFile.path) :
    (Content.stocked item (some ⟨file.path, file.hash⟩) table).Mirrors (files ++ [file]) := by
  have hrow : file.row? = some (.ofItem item (some ⟨file.path, file.hash⟩)) :=
    ExportFile.row?_of_item hitem
  rw [mirrors_iff himportable]
  intro row
  rw [mem_stocked, (mirrors_iff himportable.left).1 hmirrors]
  constructor
  · rintro (rfl | ⟨⟨other, hother, hsome⟩, -, -⟩)
    · exact ⟨file, by simp, hrow⟩
    · exact ⟨other, List.mem_append_left _ hother, hsome⟩
  · rintro ⟨other, hother, hsome⟩
    rcases List.mem_append.1 hother with hold | hlast
    · refine Or.inr ⟨⟨other, hold, hsome⟩, fun hid => ?_, fun hpath => hnew ?_⟩
      · obtain rfl := himportable.eq_of_id hother (by simp) hsome hrow hid
        exact hnew (List.mem_map_of_mem hold)
      · rw [ExportFile.sourcePath_of_row? hsome] at hpath
        exact List.mem_map.2 ⟨other, hold, Option.some.inj hpath⟩
    · obtain rfl := List.mem_singleton.1 hlast
      exact Or.inl (Option.some.inj (hsome.symm.trans hrow))

end ItemTable

namespace Database
variable {db : Database} {items : ItemTable} {queue : Numbered QueueEntry}

/-- A file that holds an item is imported: it displaces what came from its path, and the tables
are there afterwards. -/
theorem exists_import (hitems : db.items = some items) (hqueue : db.queue = some queue)
    {file : ExportFile} {item : Item} (hitem : Item.ofBytes? file.bytes = some item) :
    ∃ outcome after next, db.perform (Ingest.importFile file) = (.ok outcome, after) ∧
      outcome.displaced = Content.displaced item (some ⟨file.path, file.hash⟩) items ∧
      after.items = some (Content.stocked item (some ⟨file.path, file.hash⟩) items) ∧
      after.queue = some next :=
  ⟨_, _, _, perform_importFile hitems hqueue hitem, rfl, rfl, rfl⟩

theorem perform_importRun {files : List ExportFile} (hitems : db.items = some items)
    (hqueue : db.queue = some queue)
    (hparse : ∀ file ∈ files, ∃ item, Item.ofBytes? file.bytes = some item) :
    ∃ outcomes after table, db.perform (files.mapM Ingest.importFile) = (.ok outcomes, after) ∧
      after.items = some table := by
  induction files generalizing db items queue with
  | nil => exact ⟨[], db, items, rfl, hitems⟩
  | cons file rest ih =>
    obtain ⟨⟨item, hitem⟩, hrest⟩ := List.forall_mem_cons.1 hparse
    obtain ⟨outcome, mid, next, hfirst, -, hmid, hnext⟩ := exists_import hitems hqueue hitem
    obtain ⟨outcomes, after, table, hrun, htable⟩ := ih hmid hnext hrest
    refine ⟨outcome :: outcomes, after, table, ?_, htable⟩
    rw [List.mapM_cons, perform_bind_ok hfirst, perform_bind_ok hrun]
    rfl

/-- Where the files before have their rows, the files that follow displace nothing exactly if no
two files of all have one key, and then each of them adds its row. -/
theorem perform_importRun_onto {done rest : List ExportFile}
    (himportable : Importable (done ++ rest)) (hdone : (done.map ExportFile.path).Nodup)
    (hitems : db.items = some items) (hqueue : db.queue = some queue)
    (hmirrors : items.Mirrors done) :
    ∃ outcomes after table, db.perform (rest.mapM Ingest.importFile) = (.ok outcomes, after) ∧
      after.items = some table ∧
      ((∀ outcome ∈ outcomes, outcome.displaced = []) ↔
        ((done ++ rest).map ExportFile.path).Nodup) ∧
      (((done ++ rest).map ExportFile.path).Nodup → table.Mirrors (done ++ rest)) := by
  induction rest generalizing done db items queue with
  | nil =>
    rw [List.append_nil]
    exact ⟨[], db, items, rfl, hitems, iff_of_true (by simp) hdone, fun _ => hmirrors⟩
  | cons file rest ih =>
    obtain ⟨item, hitem⟩ := himportable.parse file (by simp)
    obtain ⟨outcome, mid, next, hfirst, houtcome, hmid, hnext⟩ := exists_import hitems hqueue hitem
    have hsplit : done ++ file :: rest = done ++ [file] ++ rest := by simp
    rw [hsplit] at himportable ⊢
    have hdisplaced := ItemTable.displaced_eq_nil_iff himportable.left hitem hmirrors
    rw [← houtcome] at hdisplaced
    by_cases hknown : file.path ∈ done.map ExportFile.path
    · -- the key is taken: what has it makes way, whatever follows
      have htaken : ¬ ((done ++ [file] ++ rest).map ExportFile.path).Nodup := by
        intro hnodup
        rw [List.map_append, List.map_append, List.append_assoc, List.nodup_append] at hnodup
        exact hnodup.2.2 _ hknown _ (by simp) rfl
      have hparse : ∀ other ∈ rest, ∃ item, Item.ofBytes? other.bytes = some item :=
        fun other hother => himportable.parse other (List.mem_append_right _ hother)
      obtain ⟨outcomes, after, table, hrun, htable⟩ := perform_importRun hmid hnext hparse
      refine ⟨outcome :: outcomes, after, table, ?_, htable, iff_of_false (fun hnone => ?_) htaken,
        fun hnodup => absurd hnodup htaken⟩
      · rw [List.mapM_cons, perform_bind_ok hfirst, perform_bind_ok hrun]
        rfl
      · exact hdisplaced.1 (hnone _ List.mem_cons_self) hknown
    · have hapart : ((done ++ [file]).map ExportFile.path).Nodup := by
        rw [List.map_append, List.nodup_append]
        refine ⟨hdone, by simp, fun a ha b hb heq => hknown ?_⟩
        rw [List.map_singleton, List.mem_singleton] at hb
        exact hb ▸ heq ▸ ha
      obtain ⟨outcomes, after, table, hrun, htable, hnone, hall⟩ := ih himportable hapart hmid hnext
        (hmirrors.stocked himportable.left hitem hknown)
      refine ⟨outcome :: outcomes, after, table, ?_, htable, ?_, hall⟩
      · rw [List.mapM_cons, perform_bind_ok hfirst, perform_bind_ok hrun]
        rfl
      · rw [List.forall_mem_cons, hnone]
        exact and_iff_right (hdisplaced.2 hknown)

/-- Every export below a folder is listed once, in ascending order of the keys. Keys agree exactly
for exports whose paths are spellings of one path, and so never where no name of an export has a
backslash in it. Imported one after another into an empty store, files that hold different items
displace nothing exactly if their keys differ, and then the store has one row for every file. -/
theorem exports_are_listed_once (tree : FileTree) (folder : Location) :
    (∃ found : List (Location × FileContent), found.Nodup ∧
      (∀ names content, (names, content) ∈ found ↔ tree.HasExport folder names content) ∧
      ExportFile.discover tree folder = found.map fun file => .atNames file.1 file.2) ∧
    ((ExportFile.discover tree folder).Pairwise fun a b => a.path ≤ b.path) ∧
    (((ExportFile.discover tree folder).map ExportFile.path).Nodup ↔
      ∀ a x b y, tree.HasExport folder a x → tree.HasExport folder b y →
        SameSpelled (Path.spellNames a) (Path.spellNames b) → a = b) ∧
    (tree.WellNamed folder →
      (∀ names content, tree.HasExport folder names content → ∀ name ∈ names,
        '\\' ∉ name.toList) →
      ((ExportFile.discover tree folder).map ExportFile.path).Nodup) ∧
    ∀ (db : Database) (queue : Numbered QueueEntry), db.items = some .empty →
      db.queue = some queue → Importable (ExportFile.discover tree folder) →
        ∃ outcomes after table,
          db.perform ((ExportFile.discover tree folder).mapM Ingest.importFile) =
              (.ok outcomes, after) ∧
            after.items = some table ∧
            ((∀ outcome ∈ outcomes, outcome.displaced = []) ↔
              ((ExportFile.discover tree folder).map ExportFile.path).Nodup) ∧
            (((ExportFile.discover tree folder).map ExportFile.path).Nodup →
              table.Mirrors (ExportFile.discover tree folder)) := by
  refine ⟨?_, ExportFile.sorted_discover tree folder, ExportFile.nodup_paths_iff,
    ExportFile.nodup_paths_of_slashes, fun db queue hitems hqueue himportable => ?_⟩
  · obtain ⟨found, hperm, hlisted⟩ := ExportFile.discover_listed tree folder
    exact ⟨found, hperm.nodup_iff.2 (tree.nodup_exportsBelow folder).of_map,
      fun names content => hperm.mem_iff.trans FileTree.mem_exportsBelow, hlisted⟩
  · have hempty : Importable ([] ++ ExportFile.discover tree folder) := himportable
    exact perform_importRun_onto hempty List.nodup_nil hitems hqueue ItemTable.mirrors_empty

/-- A folder with two pages, one of which has a backslash in its name. -/
def backslashFolder (page : String) : FileTree where
  folders := [["content"], ["content", "a"]]
  files := [(["content", "a", page], .bytes (pageText "1")),
    (["content", "a\\b.json"], .bytes (pageText "2"))]
  distinct := by simp

/-- A name with a backslash does no harm where its key is that of no other export. -/
theorem backslash_alone_displaces_nothing :
    Importable (ExportFile.discover (backslashFolder "a.json") ["content"]) ∧
      ∃ outcomes after table,
        migrated.perform ((ExportFile.discover (backslashFolder "a.json") ["content"]).mapM
            Ingest.importFile) = (.ok outcomes, after) ∧
          after.items = some table ∧ (∀ outcome ∈ outcomes, outcome.displaced = []) ∧
          table.Mirrors (ExportFile.discover (backslashFolder "a.json") ["content"]) := by
  have hdiscover : ExportFile.discover (backslashFolder "a.json") ["content"] =
      [⟨"a/a.json", pageText "1"⟩, ⟨"a/b.json", pageText "2"⟩] := by
    cbv
  have himportable : Importable (ExportFile.discover (backslashFolder "a.json") ["content"]) := by
    rw [hdiscover]
    exact importable_pagesAt _ _
  have hpaths : ((ExportFile.discover (backslashFolder "a.json") ["content"]).map
      ExportFile.path).Nodup := by
    rw [hdiscover]
    decide
  obtain ⟨-, -, -, -, himport⟩ := exports_are_listed_once (backslashFolder "a.json") ["content"]
  obtain ⟨outcomes, after, table, hrun, htable, hnone, hmirrors⟩ :=
    himport migrated .empty (by rw [migrated_eq]) (by rw [migrated_eq]) himportable
  exact ⟨himportable, outcomes, after, table, hrun, htable, hnone.2 hpaths, hmirrors hpaths⟩

/-- A backslash in a name and a folder of that name come to one key: one export takes the place of
the other when the folder is imported. -/
theorem backslash_takes_key :
    (¬ ∀ (tree : FileTree) (folder : Location), tree.WellNamed folder →
      ((ExportFile.discover tree folder).map ExportFile.path).Nodup) ∧
    ¬ ∀ (tree : FileTree) (folder : Location), tree.WellNamed folder →
      Importable (ExportFile.discover tree folder) → ∃ outcomes after,
        migrated.perform ((ExportFile.discover tree folder).mapM Ingest.importFile) =
            (.ok outcomes, after) ∧
          ∀ outcome ∈ outcomes, outcome.displaced = [] := by
  have hdiscover : ExportFile.discover (backslashFolder "b.json") ["content"] =
      [⟨"a/b.json", pageText "1"⟩, ⟨"a/b.json", pageText "2"⟩] := by
    cbv
  have hnames : (backslashFolder "b.json").WellNamed ["content"] := by
    unfold FileTree.WellNamed
    decide +kernel
  have hpaths : ¬ ((ExportFile.discover (backslashFolder "b.json") ["content"]).map
      ExportFile.path).Nodup := by
    rw [hdiscover]
    decide
  have himportable : Importable ([] ++ ExportFile.discover (backslashFolder "b.json")
      ["content"]) := by
    rw [hdiscover]
    exact importable_pagesAt _ _
  have hitems : migrated.items = some .empty := by rw [migrated_eq]
  have hqueue : migrated.queue = some .empty := by rw [migrated_eq]
  refine ⟨fun h => hpaths (h _ _ hnames), fun h => ?_⟩
  obtain ⟨outcomes, after, hrun, hnone⟩ := h _ _ hnames himportable
  obtain ⟨outcomes', after', table, hrun', -, hiff, -⟩ := perform_importRun_onto himportable
    List.nodup_nil hitems hqueue ItemTable.mirrors_empty
  rw [hrun] at hrun'
  obtain rfl := Except.ok.inj (congrArg Prod.fst hrun')
  exact hpaths (hiff.1 hnone)

end Database

end Lineage
