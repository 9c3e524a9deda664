import Lineage.Ingest.Export
import Mathlib.Data.List.Nodup
import Mathlib.Data.String.Basic

/-! # Paths below a folder

A path below a folder is that of the folder, a slash and a rest. If the rest is normal, it
is the source path of what is there, and names lead from the place of the folder to it. Only
a part that is two dots is no name: it leads up again, so that a file can be reached under a
source path that is not the one of its export. -/

namespace Lineage

namespace Path

def under (root path : String) : String := root ++ "/" ++ path

theorem slash_toList : "/".toList = ['/'] := rfl

theorem segments_under (root path : String) :
    segments (under root path) = segments root ++ segments path := by
  have hchars : (under root path).toList = root.toList ++ '/' :: path.toList := by
    simp [under, slash_toList]
  unfold segments
  rw [hchars, List.splitOn_append_cons_self, List.map_append]

theorem intercalate_segments (text : String) : "/".intercalate (segments text) = text := by
  have hlists : (segments text).map String.toList = text.toList.splitOn '/' := by
    unfold segments
    rw [List.map_map]
    exact (List.map_congr_left fun cs _ => String.toList_ofList).trans (List.map_id _)
  rw [← String.toList_inj, String.toList_intercalate, hlists, slash_toList,
    List.intercalate_splitOn]

theorem segments_intercalate {names : List String} (hne : names ≠ [])
    (h : ∀ name ∈ names, '/' ∉ name.toList) : segments ("/".intercalate names) = names := by
  have hsplit : (['/'].intercalate (names.map String.toList)).splitOn '/' =
      names.map String.toList := by
    refine List.splitOn_intercalate '/' (fun cs hcs => ?_) (by simpa using hne)
    obtain ⟨name, hname, rfl⟩ := List.mem_map.1 hcs
    exact h name hname
  unfold segments
  rw [String.toList_intercalate, slash_toList, hsplit, List.map_map]
  exact (List.map_congr_left fun name _ => String.ofList_toList).trans (List.map_id _)

theorem segments_ne_nil (text : String) : segments text ≠ [] := by
  unfold segments
  simp

theorem mem_intercalate {c : Char} {names : List String} (h : c ∈ ("/".intercalate names).toList) :
    c = '/' ∨ ∃ name ∈ names, c ∈ name.toList := by
  induction names with
  | nil => simp at h
  | cons name rest ih =>
    cases rest with
    | nil => exact Or.inr ⟨name, List.mem_cons_self, by simpa using h⟩
    | cons next rest =>
      rw [String.intercalate_cons_cons, String.toList_append, String.toList_append, slash_toList,
        List.mem_append, List.mem_append] at h
      rcases h with (h | h) | h
      · exact Or.inr ⟨name, List.mem_cons_self, h⟩
      · exact Or.inl (List.mem_singleton.1 h)
      · exact (ih h).imp_right fun ⟨other, hother, hmem⟩ =>
          ⟨other, List.mem_cons_of_mem _ hother, hmem⟩

theorem components_of_part {text first : String} {rest : List String}
    (hsegments : segments text = first :: rest) (hempty : first ≠ "") (hdot : first ≠ ".") :
    components text = (first :: rest).filterMap inner? := by
  unfold components
  rw [hsegments]
  split
  · rename_i h
    cases h
  · rename_i h
    exact absurd (List.cons.inj h).1 hempty
  · rename_i h
    exact absurd (List.cons.inj h).1 hempty
  · rename_i h
    exact absurd (List.cons.inj h).1 hdot
  · rename_i h
    rw [h]

/-- The components of a path below a folder are those of the folder and of the rest. -/
theorem components_under {root : String} (hroot : root ≠ "") (path : String) :
    components (under root path) = components root ++ (segments path).filterMap inner? := by
  have hsegments : segments root ≠ [""] := fun h => hroot (by
    rw [← intercalate_segments root, h, String.intercalate_singleton])
  obtain ⟨first, rest, hcons⟩ := List.exists_cons_of_ne_nil (segments_ne_nil root)
  have hunder : segments (under root path) = first :: (rest ++ segments path) := by
    rw [segments_under, hcons, List.cons_append]
  by_cases hempty : first = ""
  · subst hempty
    obtain ⟨second, rest, rfl⟩ := List.exists_cons_of_ne_nil
      (show rest ≠ [] from fun h => hsegments (by rw [hcons, h]))
    unfold components
    rw [hunder, hcons]
    simp only [List.cons_append, ← List.filterMap_append]
  · by_cases hdot : first = "."
    · subst hdot
      unfold components
      rw [hunder, hcons]
      simp only [List.cons_append, ← List.filterMap_append]
    · rw [components_of_part hunder hempty hdot, components_of_part hcons hempty hdot,
        ← List.filterMap_append, List.cons_append]

theorem below?_append (folder rest : List Component) :
    below? folder (folder ++ rest) = some rest := by
  induction folder with
  | nil => rfl
  | cons a folder ih =>
    rw [List.cons_append, below?, if_pos rfl]
    exact ih

theorem slash_not_mem {text segment : String} (h : segment ∈ segments text) :
    '/' ∉ segment.toList := by
  have hpieces : ∀ cs : List Char, ∀ piece ∈ cs.splitOn '/', '/' ∉ piece := by
    intro cs
    induction cs with
    | nil => simp
    | cons c rest ih =>
      intro piece hpiece
      rw [List.splitOn_cons_eq_if_modifyHead] at hpiece
      by_cases hc : c = '/'
      · rw [if_pos (by simpa using hc)] at hpiece
        rcases List.mem_cons.1 hpiece with rfl | hpiece
        · simp
        · exact ih piece hpiece
      · rw [if_neg (by simpa using hc)] at hpiece
        obtain ⟨first, others, hsplit⟩ :=
          List.exists_cons_of_ne_nil (List.splitOn_ne_nil '/' rest)
        rw [hsplit] at ih hpiece
        rcases List.mem_cons.1 hpiece with rfl | hpiece
        · simpa [Ne.symm hc] using ih first List.mem_cons_self
        · exact ih piece (List.mem_cons_of_mem _ hpiece)
  obtain ⟨piece, hpiece, rfl⟩ := List.mem_map.1 h
  rw [String.toList_ofList]
  exact hpieces text.toList piece hpiece

end Path

namespace SourcePath
open Lineage.Path (segments under)
variable {root path : String}

theorem isPart_iff {part : String} : isPart part = true ↔ part ≠ "" ∧ part ≠ "." := by
  simp [isPart]

/-- A path without backslashes whose segments are all parts is normal. -/
theorem normalize_of_parts (hbackslash : '\\' ∉ path.toList)
    (hparts : ∀ s ∈ segments path, isPart s = true) : normalize path = path := by
  have hsame : path.toList.map (fun c => if c == '\\' then '/' else c) = path.toList := by
    conv_rhs => rw [← List.map_id path.toList]
    refine List.map_congr_left fun c hc => if_neg ?_
    simpa using fun h : c = '\\' => hbackslash (h ▸ hc)
  have hsegments : parts path = segments path := by
    unfold parts segments
    rw [hsame]
  unfold normalize
  rw [hsegments, List.filter_eq_self.2 hparts, Path.intercalate_segments]

theorem isPart_of_normal (h : normalize path = path) (hne : path ≠ "") {s : String}
    (hs : s ∈ segments path) : isPart s = true := by
  have hsome : (parts path).filter isPart ≠ [] := by
    intro hnone
    unfold normalize at h
    rw [hnone, String.intercalate_nil] at h
    exact hne h.symm
  have hslash : ∀ part ∈ (parts path).filter isPart, '/' ∉ part.toList := by
    intro part hpart
    have hsegments : parts path = segments (String.ofList
        (path.toList.map fun c => if c == '\\' then '/' else c)) := by
      unfold parts segments
      rw [String.toList_ofList]
    rw [hsegments] at hpart
    exact Path.slash_not_mem (List.mem_filter.1 hpart).1
  have hsegments : segments path = (parts path).filter isPart := by
    conv_lhs => rw [← h]
    exact Path.segments_intercalate hsome hslash
  rw [hsegments] at hs
  exact (List.mem_filter.1 hs).2

theorem spell_parts {names : List String} (h : ∀ s ∈ names, isPart s = true) :
    Path.spell (names.filterMap Path.inner?) = "/".intercalate names := by
  have htexts : (names.filterMap Path.inner?).map Path.Component.text = names := by
    induction names with
    | nil => rfl
    | cons name rest ih =>
      obtain ⟨hname, hrest⟩ := List.forall_mem_cons.1 h
      obtain ⟨hempty, hdot⟩ := isPart_iff.1 hname
      by_cases hup : name = ".."
      · subst hup
        have hinner : Path.inner? ".." = some .up := rfl
        rw [List.filterMap_cons_some hinner, List.map_cons, ih hrest]
        rfl
      · have hinner : Path.inner? name = some (.name name) := by
          simp [Path.inner?, hempty, hdot, hup]
        rw [List.filterMap_cons_some hinner, List.map_cons, ih hrest]
        rfl
  unfold Path.spell
  rw [htexts]

theorem spell_of_normal (h : normalize path = path) :
    Path.spell ((segments path).filterMap Path.inner?) = path := by
  by_cases hne : path = ""
  · subst hne
    rfl
  · rw [spell_parts fun s hs => isPart_of_normal h hne hs, Path.intercalate_segments]

/-- What has a normal path below a folder has it as its source path. -/
theorem below?_under (hroot : root ≠ "") (h : normalize path = path) :
    below? root (under root path) = some path := by
  unfold below?
  rw [Path.components_under hroot, Path.below?_append, Option.map_some, spell_of_normal h, h]

theorem isExport_under (hroot : root ≠ "") (h : normalize path = path) (hne : path ≠ "") :
    isExport (under root path) = isExport path := by
  obtain ⟨first, rest, hcons⟩ := List.exists_cons_of_ne_nil (Path.segments_ne_nil path)
  have hfirst : isPart first = true :=
    isPart_of_normal h hne (hcons ▸ List.mem_cons_self)
  obtain ⟨hempty, hdot⟩ := isPart_iff.1 hfirst
  have hcomponents : Path.components path = (segments path).filterMap Path.inner? := by
    rw [Path.components_of_part hcons hempty hdot, hcons]
  have hsome : (segments path).filterMap Path.inner? ≠ [] := by
    rw [hcons]
    by_cases hup : first = ".." <;> simp [Path.inner?, hempty, hdot, hup]
  unfold isExport Path.extension? Path.fileName?
  rw [Path.components_under hroot, List.getLast?_append_of_ne_nil _ hsome, hcomponents]

theorem isExport_under_of_isExport (hroot : root ≠ "") (h : normalize path = path)
    (hexport : isExport path = true) : isExport (under root path) = true := by
  have hne : path ≠ "" := by
    rintro rfl
    exact absurd hexport (by decide)
  rw [isExport_under hroot h hne, hexport]

end SourcePath

/-! ## The way to a file -/

namespace FileTree
open Lineage.Path (segments under)
variable {tree : FileTree} {location folder found : Location} {names : List String}

theorem fileAt?_eq_some_iff {content : FileContent} :
    tree.fileAt? location = some content ↔ (location, content) ∈ tree.files := by
  unfold fileAt?
  rw [Option.map_eq_some_iff]
  constructor
  · rintro ⟨file, hfile, rfl⟩
    have hplace : file.1 = location := by simpa using List.find?_some hfile
    exact hplace ▸ List.mem_of_find?_eq_some hfile
  · intro hmem
    cases hfind : tree.files.find? fun file => file.1 == location with
    | none => simpa using List.find?_eq_none.1 hfind _ hmem
    | some file =>
      have hplace : file.1 = location := by simpa using List.find?_some hfind
      have hsame := List.inj_on_of_nodup_map tree.distinct (List.mem_of_find?_eq_some hfind) hmem
        hplace
      exact ⟨file, rfl, congrArg Prod.snd hsame⟩

theorem mem_filesBelow {content : FileContent} :
    (names, content) ∈ tree.filesBelow folder ↔ (folder ++ names, content) ∈ tree.files := by
  unfold filesBelow
  rw [List.mem_filterMap]
  constructor
  · rintro ⟨file, hfile, hsome⟩
    split at hsome
    · rename_i hprefix
      obtain ⟨rest, hrest⟩ := List.isPrefixOf_iff_prefix.1 hprefix
      cases hsome
      rw [← hrest, List.drop_left, hrest]
      exact hfile
    · cases hsome
  · intro hmem
    refine ⟨_, hmem, ?_⟩
    rw [if_pos (List.isPrefixOf_iff_prefix.2 (List.prefix_append folder names)), List.drop_left]

theorem entry?_of_isFolder (h : tree.isFolder location = true) :
    tree.entry? location = some .folder := by
  unfold entry?
  rw [if_pos h]

theorem follow_of_entry?_none (h : tree.entry? location = none) (way : List String) :
    tree.follow location way = none := by
  cases way with
  | nil => simp [follow, h]
  | cons segment rest =>
    have hfolder : tree.isFolder location = false := by
      by_contra hfolder
      rw [entry?_of_isFolder (by simpa using hfolder)] at h
      cases h
    simp [follow, hfolder]

theorem follow_append (location : Location) (first second : List String) :
    tree.follow location (first ++ second) =
      (tree.follow location first).bind fun place => tree.follow place second := by
  induction first generalizing location with
  | nil =>
    rw [List.nil_append, follow]
    cases hentry : tree.entry? location with
    | none =>
      rw [follow_of_entry?_none hentry]
      rfl
    | some entry => rfl
  | cons segment rest ih =>
    rw [List.cons_append, follow, follow, ih, ih, ih]
    split
    · rfl
    · split
      · rfl
      · split
        · rfl
        · split <;> rfl

theorem resolve?_ne_empty {working : Location} {path : String}
    (h : tree.resolve? working path = some location) : path ≠ "" := by
  rintro rfl
  simp [resolve?] at h

theorem start_of_relative {working : Location} {path first : String} {rest : List String}
    (hsegments : segments path = first :: rest) (hfirst : first ≠ "") :
    start working path = (working, first :: rest) := by
  unfold start
  rw [hsegments]
  split
  · rename_i h
    exact absurd (List.cons.inj h).1 hfirst
  · rfl

theorem start_under (working : Location) (root path : String) :
    start working (under root path) =
      ((start working root).1, (start working root).2 ++ segments path) := by
  obtain ⟨first, rest, hcons⟩ := List.exists_cons_of_ne_nil (Path.segments_ne_nil root)
  have hunder : segments (under root path) = first :: (rest ++ segments path) := by
    rw [Path.segments_under, hcons, List.cons_append]
  by_cases hempty : first = ""
  · subst hempty
    unfold start
    rw [hunder, hcons]
    rfl
  · rw [start_of_relative hunder hempty, start_of_relative hcons hempty, List.cons_append]

theorem resolve?_eq (tree : FileTree) (working : Location) (path : String) :
    tree.resolve? working path = if path.isEmpty || !isPathable path then none
      else tree.follow (start working path).1 (start working path).2 := by
  unfold resolve? start
  split
  · rfl
  · split <;> rfl

/-- Below a folder a path leads where its segments lead from there. -/
theorem resolve?_under {working : Location} {root : String}
    (hroot : tree.resolve? working root = some folder) (path : String) :
    tree.resolve? working (under root path) =
      if isPathable (under root path) then tree.follow folder (segments path) else none := by
  have hnonempty : (under root path).isEmpty = false := by
    have hslash : '/' ∈ (under root path).toList := by simp [under]
    rw [← Bool.not_eq_true, String.isEmpty_iff]
    intro h
    simp [h] at hslash
  have hstart : tree.follow (start working root).1 (start working root).2 = some folder := by
    rw [resolve?_eq] at hroot
    split at hroot
    · cases hroot
    · exact hroot
  rw [resolve?_eq, hnonempty, Bool.false_or, start_under, follow_append, hstart]
  by_cases hpathable : isPathable (under root path) = true <;> simp [hpathable]

theorem read_eq_ok_iff {working : Location} {path : String} {bytes : List UInt8} :
    tree.read working path = .ok bytes ↔ ∃ place content, tree.resolve? working path = some place ∧
      (place, content) ∈ tree.files ∧ bytes = content.toBytes := by
  unfold read
  constructor
  · intro h
    split at h
    · rename_i content hcontent
      cases h
      obtain ⟨place, hplace, hfile⟩ := Option.bind_eq_some_iff.1 hcontent
      exact ⟨place, content, hplace, fileAt?_eq_some_iff.1 hfile, rfl⟩
    · cases h
  · rintro ⟨place, content, hplace, hfile, rfl⟩
    rw [hplace, Option.bind_some, fileAt?_eq_some_iff.2 hfile]

theorem isFile_of_read {working : Location} {path : String} {bytes : List UInt8}
    (h : tree.read working path = .ok bytes) : tree.isFile working path = true := by
  obtain ⟨place, content, hplace, hfile, -⟩ := read_eq_ok_iff.1 h
  unfold isFile
  rw [hplace, Option.bind_some, fileAt?_eq_some_iff.2 hfile]
  rfl

theorem exists_read_of_isFile {working : Location} {path : String}
    (h : tree.isFile working path = true) : ∃ bytes, tree.read working path = .ok bytes := by
  obtain ⟨content, hcontent⟩ := Option.isSome_iff_exists.1 h
  obtain ⟨place, hplace, hfile⟩ := Option.bind_eq_some_iff.1 hcontent
  exact ⟨content.toBytes,
    read_eq_ok_iff.2 ⟨place, content, hplace, fileAt?_eq_some_iff.1 hfile, rfl⟩⟩

theorem place_of_follow (hnames : ∀ name ∈ names, SourcePath.isPart name = true ∧ name ≠ "..")
    (h : tree.follow folder names = some found) : found = folder ++ names := by
  induction names generalizing folder with
  | nil =>
    rw [follow] at h
    split at h
    · simpa using h.symm
    · cases h
  | cons name rest ih =>
    obtain ⟨⟨hname, hup⟩, hrest⟩ := List.forall_mem_cons.1 hnames
    obtain ⟨hempty, hdot⟩ := SourcePath.isPart_iff.1 hname
    rw [follow] at h
    split at h
    · cases h
    · rw [if_neg (by simp [hempty, hdot]), if_neg (by simpa using hup)] at h
      split at h
      · cases h
      · rw [ih hrest h, List.append_assoc, List.singleton_append]

/-- Names can be followed through folders. -/
theorem follow_names
    (hnames : ∀ name ∈ names, (SourcePath.isPart name = true ∧ name ≠ "..") ∧
      name.utf8ByteSize ≤ maxName)
    (hways : ∀ n < names.length, tree.isFolder (folder ++ names.take n) = true)
    (hthere : (tree.entry? (folder ++ names)).isSome = true) :
    tree.follow folder names = some (folder ++ names) := by
  induction names generalizing folder with
  | nil =>
    rw [List.append_nil] at hthere ⊢
    rw [follow, if_pos hthere]
  | cons name rest ih =>
    obtain ⟨⟨⟨hname, hup⟩, hshort⟩, hrest⟩ := List.forall_mem_cons.1 hnames
    obtain ⟨hempty, hdot⟩ := SourcePath.isPart_iff.1 hname
    have hfolder : tree.isFolder folder = true := by simpa using hways 0 (by simp)
    have hnext : folder ++ [name] ++ rest = folder ++ name :: rest := by simp
    rw [follow, if_neg (by simp [hfolder]), if_neg (by simp [hempty, hdot]),
      if_neg (by simpa using hup), if_neg (by omega),
      ih hrest (fun n hn => ?_) (by rw [hnext]; exact hthere), hnext]
    simpa using hways (n + 1) (by simpa using hn)

end FileTree

/-! ## Exports below a folder -/

namespace ExportFile
variable {tree : FileTree} {folder : Location} {file : ExportFile}

theorem mem_discover : file ∈ discover tree folder ↔
    ∃ names content, (names, content) ∈ tree.filesBelow folder ∧
      SourcePath.isExport (Path.spellNames names) = true ∧
      file = ⟨SourcePath.normalize (Path.spellNames names), content.toBytes⟩ := by
  unfold discover
  rw [List.mem_mergeSort, List.mem_map]
  constructor
  · rintro ⟨⟨names, content⟩, hmem, rfl⟩
    obtain ⟨hbelow, hexport⟩ := List.mem_filter.1 hmem
    exact ⟨names, content, hbelow, hexport, rfl⟩
  · rintro ⟨names, content, hbelow, hexport, rfl⟩
    exact ⟨(names, content), List.mem_filter.2 ⟨hbelow, hexport⟩, rfl⟩

end ExportFile

end Lineage
