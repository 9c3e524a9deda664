import Lineage.Proofs.SourcePaths
import Lineage.Watch.Change
import Mathlib.Logic.Relation

/-! # Spellings of a path

A path is spelled in many ways: slashes may be doubled or end it, a single dot may stand between
them, and either slash will do. The source path of a file is found by its components or by the
parts of its text, and both ways come to the names that count. So a file has one source path,
whichever folder it is looked at from and however its path below the folder is spelled; and paths
with one source path are spellings of each other. -/

namespace Lineage

namespace Path

def IsRelative (path : String) : Prop := path.toList.head? ≠ some '/'

/-- The path from one that another goes on from. A path that begins at the root does not go on,
and a slash comes between the two unless one is there or nothing comes before it. -/
def join (root path : String) : String :=
  if path.toList.head? = some '/' then path
  else if root.isEmpty || root.toList.getLast? == some '/' then root ++ path
  else under root path

/-- One step from a spelling of a path to a longer one, or to the other slash. -/
inductive Respelling : String → String → Prop where
  | double (before after : String) : Respelling (before ++ "/" ++ after) (before ++ "//" ++ after)
  | trail (path : String) : Respelling path (path ++ "/")
  | dot (before after : String) : Respelling (before ++ "/" ++ after) (before ++ "/./" ++ after)
  | dotAhead (path : String) : Respelling path ("./" ++ path)
  | turn (before after : String) : Respelling (before ++ "/" ++ after) (before ++ "\\" ++ after)

/-- Two spellings with steps between them, in either direction. -/
abbrev SameSpelled : String → String → Prop := Relation.EqvGen Respelling

/-- A segment inside of a path is passed over, or is a component with its own text. -/
theorem inner?_cases (segment : String) :
    (SourcePath.isPart segment = false ∧ inner? segment = none) ∨
      ∃ c, inner? segment = some c ∧ c.text = segment := by
  unfold inner? SourcePath.isPart
  by_cases hempty : segment = ""
  · subst hempty
    exact Or.inl ⟨rfl, rfl⟩
  · by_cases hdot : segment = "."
    · subst hdot
      exact Or.inl ⟨rfl, rfl⟩
    · by_cases hup : segment = ".."
      · subst hup
        exact Or.inr ⟨.up, rfl, rfl⟩
      · exact Or.inr ⟨.name segment, by simp [hempty, hdot, hup], rfl⟩

theorem mem_intercalate_of_mem {names : List String} {name : String} (h : name ∈ names) {c : Char}
    (hc : c ∈ name.toList) : c ∈ ("/".intercalate names).toList := by
  induction names with
  | nil => cases h
  | cons first rest ih =>
    cases rest with
    | nil =>
      obtain rfl := List.mem_singleton.1 h
      rwa [String.intercalate_singleton]
    | cons next rest =>
      rw [String.intercalate_cons_cons, String.toList_append, String.toList_append,
        List.mem_append, List.mem_append]
      rcases List.mem_cons.1 h with rfl | hrest
      · exact Or.inl (Or.inl hc)
      · exact Or.inr (ih hrest)

end Path

namespace SourcePath
open Lineage.Path (segments under SameSpelled Respelling)
variable {root path key : String}

def slashed (path : String) : String :=
  String.ofList (path.toList.map fun c => if c == '\\' then '/' else c)

/-- The parts of a path that are neither empty nor a dot. -/
def names (path : String) : List String := (parts path).filter isPart

theorem normalize_eq (path : String) : normalize path = "/".intercalate (names path) := rfl

theorem slashed_append (a b : String) : slashed (a ++ b) = slashed a ++ slashed b := by
  unfold slashed
  rw [String.toList_append, List.map_append, String.ofList_append]

theorem parts_eq (path : String) : parts path = segments (slashed path) := by
  unfold parts segments slashed
  rw [String.toList_ofList]

theorem names_under (a b : String) : names (under a b) = names a ++ names b := by
  have hslash : slashed "/" = "/" := rfl
  have hparts : parts (under a b) = parts a ++ parts b := by
    rw [parts_eq, parts_eq, parts_eq, under, slashed_append, slashed_append, hslash]
    exact Path.segments_under _ _
  unfold names
  rw [hparts, List.filter_append]

theorem names_turned (before after : String) :
    names (before ++ "\\" ++ after) = names (before ++ "/" ++ after) := by
  have hturned : slashed "\\" = slashed "/" := rfl
  unfold names
  rw [parts_eq, parts_eq, slashed_append, slashed_append, slashed_append, slashed_append, hturned]

theorem names_of_not_part (h : isPart path = false) : names path = [] := by
  have hidle : path = "" ∨ path = "." := by
    by_contra hpart
    rw [isPart_iff.2 (not_or.1 hpart)] at h
    cases h
  rcases hidle with rfl | rfl <;> rfl

theorem names_intercalate (segs : List String) :
    names ("/".intercalate segs) = segs.flatMap names := by
  induction segs with
  | nil => rfl
  | cons first rest ih =>
    cases rest with
    | nil => rw [String.intercalate_singleton, List.flatMap_singleton]
    | cons next rest =>
      rw [String.intercalate_cons_cons, List.flatMap_cons, ← ih]
      exact names_under first _

theorem names_segments (path : String) : (segments path).flatMap names = names path := by
  rw [← names_intercalate, Path.intercalate_segments]

theorem names_inner (segs : List String) :
    (segs.filterMap Path.inner?).flatMap (fun c => names c.text) = segs.flatMap names := by
  induction segs with
  | nil => rfl
  | cons first rest ih =>
    rcases Path.inner?_cases first with ⟨hidle, hnone⟩ | ⟨c, hsome, htext⟩
    · rw [List.filterMap_cons_none hnone, List.flatMap_cons, names_of_not_part hidle, ih,
        List.nil_append]
    · rw [List.filterMap_cons_some hsome, List.flatMap_cons, List.flatMap_cons, htext, ih]

theorem names_spell (components : List Path.Component) :
    names (Path.spell components) = components.flatMap fun c => names c.text := by
  unfold Path.spell
  rw [names_intercalate, List.flatMap_map]

/-- Spelling a path by its components keeps the names. -/
theorem names_components (path : String) :
    names (Path.spell (Path.components path)) = names path := by
  rw [names_spell, ← names_segments path]
  unfold Path.components
  split
  · rename_i hnone
    exact absurd hnone (Path.segments_ne_nil path)
  · rename_i hempty
    rw [hempty]
    rfl
  · rename_i rest hroot
    rw [hroot, List.flatMap_cons, List.flatMap_cons, names_inner]
    rfl
  · rename_i rest hhere
    rw [hhere, List.flatMap_cons, List.flatMap_cons, names_inner]
    rfl
  · rename_i first rest hfirst
    rw [hfirst, names_inner]

/-- The components of what goes on from a folder are those of the folder and others, which have
the names of the path that goes on. -/
theorem components_join (hpath : Path.IsRelative path) (root : String) :
    ∃ rest, Path.components (Path.join root path) = Path.components root ++ rest ∧
      names (Path.spell rest) = names path := by
  have hinner : names (Path.spell ((segments path).filterMap Path.inner?)) = names path := by
    rw [names_spell, names_inner, names_segments]
  unfold Path.join
  rw [if_neg hpath]
  split
  · rename_i hshort
    rw [Bool.or_eq_true, String.isEmpty_iff, beq_iff_eq, List.getLast?_eq_some_iff] at hshort
    rcases hshort with rfl | ⟨chars, hchars⟩
    · exact ⟨Path.components path, by rw [String.empty_append]; rfl, names_components path⟩
    · obtain ⟨base, rfl⟩ : ∃ base, root = under base "" := by
        refine ⟨String.ofList chars, ?_⟩
        rw [← String.toList_inj, hchars]
        simp [under]
      have hwhole : under base "" ++ path = under base path := by
        simp [under]
      rw [hwhole]
      by_cases hbase : base = ""
      · -- the folder is the root, whose slash has nothing before it to be a component
        subst hbase
        refine ⟨(segments path).filterMap Path.inner?, ?_, hinner⟩
        obtain ⟨first, others, hcons⟩ := List.exists_cons_of_ne_nil (Path.segments_ne_nil path)
        have hsegments : segments (under "" path) = "" :: first :: others := by
          rw [Path.segments_under, hcons]
          rfl
        unfold Path.components
        rw [hsegments, hcons]
        rfl
      · refine ⟨(segments path).filterMap Path.inner?, ?_, hinner⟩
        rw [Path.components_under hbase, Path.components_under hbase, List.append_assoc]
        rfl
  · rename_i hshort
    have hroot : root ≠ "" := by
      rintro rfl
      exact hshort rfl
    exact ⟨_, Path.components_under hroot path, hinner⟩

theorem below?_join (hpath : Path.IsRelative path) (root : String) :
    below? root (Path.join root path) = some (normalize path) := by
  obtain ⟨rest, hcomponents, hnames⟩ := components_join hpath root
  unfold below?
  rw [hcomponents, Path.below?_append, Option.map_some, normalize_eq, hnames, ← normalize_eq]

/-! ## Normal paths -/

/-- Only slashes separate the segments, and each segment counts. A path without any segment is
the empty one. -/
def Normal (path : String) : Prop :=
  '\\' ∉ path.toList ∧ (path = "" ∨ ∀ s ∈ segments path, s ≠ "" ∧ s ≠ ".")

theorem normalize_of_normal (h : Normal path) : normalize path = path := by
  obtain ⟨hbackslash, rfl | hsegments⟩ := h
  · rfl
  · exact normalize_of_parts hbackslash fun s hs => isPart_iff.2 (hsegments s hs)

theorem backslash_not_mem_slashed (path : String) : '\\' ∉ (slashed path).toList := by
  unfold slashed
  rw [String.toList_ofList, List.mem_map]
  rintro ⟨c, -, hc⟩
  split at hc
  · cases hc
  · rename_i hother
    exact hother (by simp [hc])

theorem normal_normalize (path : String) : Normal (normalize path) := by
  have hmem : ∀ name ∈ names path, name ∈ segments (slashed path) := fun name hname =>
    parts_eq path ▸ (List.mem_filter.1 hname).1
  constructor
  · intro hbackslash
    rcases Path.mem_intercalate hbackslash with hslash | ⟨name, hname, hc⟩
    · cases hslash
    · refine backslash_not_mem_slashed path ?_
      rw [← Path.intercalate_segments (slashed path)]
      exact Path.mem_intercalate_of_mem (hmem name hname) hc
  · by_cases hnone : names path = []
    · rw [normalize_eq, hnone]
      exact Or.inl rfl
    · refine Or.inr fun s hs => isPart_iff.1 ?_
      rw [normalize_eq, Path.segments_intercalate hnone fun name hname =>
        Path.slash_not_mem (hmem name hname)] at hs
      exact (List.mem_filter.1 hs).2

theorem exists_normalize_iff : (∃ path, normalize path = key) ↔ Normal key := by
  constructor
  · rintro ⟨path, rfl⟩
    exact normal_normalize path
  · exact fun h => ⟨key, normalize_of_normal h⟩

/-! ## One path, many spellings -/

section
variable {a b : String}

theorem double_eq (before after : String) :
    before ++ "//" ++ after = under before (under "" after) := by
  have htwo : "//" = "/" ++ "/" := rfl
  unfold under
  rw [htwo, String.empty_append]
  simp only [String.append_assoc]

theorem dot_eq (before after : String) :
    before ++ "/./" ++ after = under before (under "." after) := by
  have hdot : "/./" = "/" ++ "." ++ "/" := rfl
  unfold under
  rw [hdot]
  simp only [String.append_assoc]

theorem trail_eq (path : String) : path ++ "/" = under path "" := by simp [under]

theorem names_of_respelling (h : Respelling a b) : names a = names b := by
  cases h with
  | double before after =>
    rw [double_eq, names_under, names_under]
    exact names_under before after
  | trail =>
    rw [trail_eq, names_under]
    exact (List.append_nil _).symm
  | dot before after =>
    rw [dot_eq, names_under, names_under]
    exact names_under before after
  | dotAhead => exact (names_under "." a).symm
  | turn before after => exact (names_turned before after).symm

theorem names_of_sameSpelled (h : SameSpelled a b) : names a = names b := by
  induction h with
  | rel a b h => exact names_of_respelling h
  | refl a => rfl
  | symm a b h ih => exact ih.symm
  | trans a b c hab hbc ihab ihbc => exact ihab.trans ihbc

/-- Below a folder the rest can be spelled as before. -/
theorem sameSpelled_under (folder : String) (h : SameSpelled a b) :
    SameSpelled (under folder a) (under folder b) := by
  induction h with
  | rel a b h =>
    refine .rel _ _ ?_
    cases h with
    | double before after =>
      simpa [under, String.append_assoc] using Respelling.double (under folder before) after
    | trail =>
      simpa [under, String.append_assoc] using Respelling.trail (under folder a)
    | dot before after =>
      simpa [under, String.append_assoc] using Respelling.dot (under folder before) after
    | dotAhead =>
      rw [show under folder ("./" ++ a) = folder ++ "/./" ++ a from (dot_eq folder a).symm]
      exact .dot folder a
    | turn before after =>
      simpa [under, String.append_assoc] using Respelling.turn (under folder before) after
  | refl a => exact .refl _
  | symm a b h ih => exact .symm _ _ ih
  | trans a b c hab hbc ihab ihbc => exact .trans _ _ _ ihab ihbc

theorem sameSpelled_slashed (path : String) : SameSpelled path (slashed path) := by
  -- the characters are turned from left to right, behind those that are turned already
  have hturn : ∀ (cs : List Char) (before : String),
      SameSpelled (before ++ String.ofList cs) (before ++ slashed (String.ofList cs)) := by
    intro cs
    induction cs with
    | nil => exact fun before => .refl _
    | cons c rest ih =>
      intro before
      rw [String.ofList_cons, slashed_append, ← String.append_assoc, ← String.append_assoc]
      by_cases hc : c = '\\'
      · subst hc
        exact .trans _ _ _ (.symm _ _ (.rel _ _ (.turn before (String.ofList rest)))) (ih _)
      · have hsame : slashed (String.singleton c) = String.singleton c := by
          simp [slashed, hc]
        rw [hsame]
        exact ih _
  have hwhole := hturn path.toList ""
  rwa [String.ofList_toList, String.empty_append, String.empty_append] at hwhole

/-- A slash ahead counts as little as any other. -/
theorem sameSpelled_slash_ahead (path : String) : SameSpelled (under "" path) path := by
  have hdot : SameSpelled path (under "." path) := .rel _ _ (.dotAhead path)
  have hdouble : SameSpelled (under "." path) (under "." (under "" path)) := by
    rw [← double_eq]
    exact .rel _ _ (.double "." path)
  have hslash : SameSpelled (under "" path) (under "." (under "" path)) := .rel _ _ (.dotAhead _)
  exact .trans _ _ _ hslash (.symm _ _ (.trans _ _ _ hdot hdouble))

theorem sameSpelled_parts (segs : List String) :
    SameSpelled ("/".intercalate segs) ("/".intercalate (segs.filter isPart)) := by
  induction segs with
  | nil => exact .refl _
  | cons first rest ih =>
    have hbelow : SameSpelled ("/".intercalate (first :: rest))
        (under first ("/".intercalate (rest.filter isPart))) := by
      cases rest with
      | nil =>
        rw [String.intercalate_singleton, List.filter_nil, String.intercalate_nil, ← trail_eq]
        exact .rel _ _ (.trail first)
      | cons next rest =>
        rw [String.intercalate_cons_cons]
        exact sameSpelled_under first ih
    refine .trans _ _ _ hbelow ?_
    by_cases hpart : isPart first = true
    · rw [List.filter_cons_of_pos hpart]
      cases rest.filter isPart with
      | nil =>
        rw [String.intercalate_singleton, String.intercalate_nil, ← trail_eq]
        exact .symm _ _ (.rel _ _ (.trail first))
      | cons next others =>
        rw [String.intercalate_cons_cons]
        exact .refl _
    · rw [List.filter_cons_of_neg hpart]
      have hidle : first = "" ∨ first = "." := by
        by_contra hother
        exact hpart (isPart_iff.2 (not_or.1 hother))
      rcases hidle with rfl | rfl
      · exact sameSpelled_slash_ahead _
      · exact .symm _ _ (.rel _ _ (.dotAhead _))

theorem sameSpelled_normalize (path : String) : SameSpelled path (normalize path) := by
  refine .trans _ _ _ (sameSpelled_slashed path) ?_
  rw [← Path.intercalate_segments (slashed path), ← parts_eq]
  exact sameSpelled_parts (parts path)

/-- Paths with one source path are those between which there are steps of spelling. -/
theorem normalize_eq_iff : normalize a = normalize b ↔ SameSpelled a b := by
  constructor
  · intro h
    have hb := sameSpelled_normalize b
    rw [← h] at hb
    exact .trans _ _ _ (sameSpelled_normalize a) (.symm _ _ hb)
  · intro h
    rw [normalize_eq, normalize_eq, names_of_sameSpelled h]

end

end SourcePath

namespace Watch
variable {tree : FileTree} {working : Location} {root path key : String}

/-- What the watch takes a path for agrees with what an import takes it for. -/
theorem sourcePath?_join (hpath : Path.IsRelative path) :
    sourcePath? tree working root (Path.join root path) =
      if SourcePath.isExport (Path.join root path) then some (SourcePath.normalize path)
      else none := by
  unfold sourcePath?
  rw [SourcePath.below?_join hpath root]
  cases SourcePath.isExport (Path.join root path) <;> rfl

end Watch

namespace SourcePath
open Lineage.Path (SameSpelled)

/-- There is one source path for all spellings of a path. Whatever folder a relative path goes on
from, an import finds its normal form, and so does the watch if it is that of an export; and where
the spellings of two paths are steps apart, both find the same from any two folders. It makes no
difference whether the text of a path is normalized or what is spelled with its components. Normal
forms agree for spellings that are steps apart and for no others. Normalizing twice is normalizing
once, what it gives are exactly the normal paths, and it leaves these as they are. -/
theorem spellings_have_one_key :
    (∀ root path, Path.IsRelative path →
      relative root (Path.join root path) = .ok (normalize path) ∧
      ∀ tree working, isExport (Path.join root path) = true →
        Watch.sourcePath? tree working root (Path.join root path) = some (normalize path)) ∧
    (∀ root root' path path', Path.IsRelative path → Path.IsRelative path' →
      SameSpelled path path' →
        relative root (Path.join root path) = relative root' (Path.join root' path') ∧
        ∀ tree tree' working working' key key',
          Watch.sourcePath? tree working root (Path.join root path) = some key →
          Watch.sourcePath? tree' working' root' (Path.join root' path') = some key' →
            key = key') ∧
    (∀ path, normalize (Path.spell (Path.components path)) = normalize path) ∧
    (∀ path path', normalize path = normalize path' ↔ SameSpelled path path') ∧
    (∀ path, normalize (normalize path) = normalize path) ∧
    (∀ key, (∃ path, normalize path = key) ↔ Normal key) ∧
    ∀ key, Normal key → normalize key = key := by
  have himport : ∀ root path, Path.IsRelative path →
      relative root (Path.join root path) = .ok (normalize path) := by
    intro root path hpath
    unfold relative
    rw [below?_join hpath root]
  have hwatch : ∀ tree working root path key, Path.IsRelative path →
      Watch.sourcePath? tree working root (Path.join root path) = some key →
        key = normalize path := by
    intro tree working root path key hpath hkey
    rw [Watch.sourcePath?_join hpath] at hkey
    split at hkey
    · exact (Option.some.inj hkey).symm
    · cases hkey
  refine ⟨fun root path hpath => ⟨himport root path hpath, fun tree working hexport => ?_⟩,
    fun root root' path path' hpath hpath' hspelled => ⟨?_, ?_⟩,
    fun path => ?_, fun _ _ => normalize_eq_iff,
    fun path => normalize_of_normal (normal_normalize path), fun _ => exists_normalize_iff,
    fun _ => normalize_of_normal⟩
  · rw [Watch.sourcePath?_join hpath, if_pos hexport]
  · rw [himport root path hpath, himport root' path' hpath', normalize_eq_iff.2 hspelled]
  · intro tree tree' working working' key key' hkey hkey'
    rw [hwatch tree working root path key hpath hkey,
      hwatch tree' working' root' path' key' hpath' hkey', normalize_eq_iff.2 hspelled]
  · rw [normalize_eq, names_components, ← normalize_eq]

end SourcePath

end Lineage
