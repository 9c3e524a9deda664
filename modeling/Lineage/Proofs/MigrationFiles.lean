import Lineage.Database.Migration
import Lineage.Proofs.Actions
import Mathlib

/-! # The migrations of a folder

A folder is loaded as a whole or not at all. Its files are sorted twice, by name and then by
version, and as the second sorting is stable the files of one version stay in the order of their
names. Endings are taken off a file name after the version was read from it; as a version has no
dot the name that is left still tells the version, so that migrations of one name have one. -/

namespace Lineage

section
variable {α : Type} (key : α → Nat)

theorem key_trans (a b c : α) (hab : decide (key a ≤ key b) = true)
    (hbc : decide (key b ≤ key c) = true) : decide (key a ≤ key c) = true := by
  simp only [decide_eq_true_eq] at hab hbc ⊢
  exact hab.trans hbc

theorem key_total (a b : α) : (decide (key a ≤ key b) || decide (key b ≤ key a)) = true := by
  simp only [Bool.or_eq_true, decide_eq_true_eq]
  exact Nat.le_total _ _

/-- The elements of one key stand in a list as they stand in the sorted one. -/
theorem filter_mergeSort_key (l : List α) (n : Nat) :
    (l.mergeSort fun a b => key a ≤ key b).filter (key · == n) = l.filter (key · == n) := by
  have hsame : (l.filter (key · == n)).Pairwise fun a b => decide (key a ≤ key b) = true := by
    refine List.pairwise_of_forall_mem_list fun a ha b hb => ?_
    simp only [List.mem_filter, beq_iff_eq] at ha hb
    simp [ha.2, hb.2]
  have hsub := List.sublist_mergeSort (key_trans key) (key_total key) hsame List.filter_sublist
  have hfilter := hsub.filter (key · == n)
  rw [List.filter_filter] at hfilter
  simp only [Bool.and_self] at hfilter
  exact (hfilter.eq_of_length ((List.mergeSort_perm l _).filter _).length_eq.symm).symm

/-- Sorting by a number keeps the order of the elements that have the same. -/
theorem pairwise_mergeSort_key {R : α → α → Prop} {l : List α} (h : l.Pairwise R) :
    (l.mergeSort fun a b => key a ≤ key b).Pairwise fun a b =>
      key a < key b ∨ key a = key b ∧ R a b := by
  have hsorted := List.pairwise_mergeSort (key_trans key) (key_total key) l
  refine List.pairwise_iff_forall_sublist.2 fun {a b} hab => ?_
  have hle := of_decide_eq_true (List.pairwise_iff_forall_sublist.1 hsorted hab)
  rcases Nat.lt_or_eq_of_le hle with hlt | heq
  · exact Or.inl hlt
  · have hpair := hab.filter (key · == key b)
    rw [List.filter_cons_of_pos (by simp [heq]), List.filter_cons_of_pos (by simp),
      List.filter_nil, filter_mergeSort_key] at hpair
    exact Or.inr ⟨heq, List.pairwise_iff_forall_sublist.1 (h.sublist List.filter_sublist) hpair⟩

end

namespace ScriptFile
variable {σ : Type}

theorem isBefore_total (a b : List UInt8) : isBefore a b = true ∨ isBefore b a = true := by
  induction a generalizing b with
  | nil => exact Or.inl rfl
  | cons x xs ih =>
    cases b with
    | nil => exact Or.inr rfl
    | cons y ys =>
      simp only [isBefore, Bool.or_eq_true, Bool.and_eq_true, decide_eq_true_eq, beq_iff_eq]
      rcases Nat.lt_trichotomy x.toNat y.toNat with hlt | heq | hgt
      · exact Or.inl (Or.inl (UInt8.lt_iff_toNat_lt.2 hlt))
      · have hbyte := UInt8.toNat_inj.1 heq
        rcases ih ys with h | h
        · exact Or.inl (Or.inr ⟨hbyte, h⟩)
        · exact Or.inr (Or.inr ⟨hbyte.symm, h⟩)
      · exact Or.inr (Or.inl (UInt8.lt_iff_toNat_lt.2 hgt))

theorem isBefore_trans (a b c : List UInt8) (hab : isBefore a b = true)
    (hbc : isBefore b c = true) : isBefore a c = true := by
  induction a generalizing b c with
  | nil => rfl
  | cons x xs ih =>
    cases b with
    | nil => cases hab
    | cons y ys =>
      cases c with
      | nil => cases hbc
      | cons z zs =>
        simp only [isBefore, Bool.or_eq_true, Bool.and_eq_true, decide_eq_true_eq,
          beq_iff_eq] at hab hbc ⊢
        rcases hab with hlt | ⟨rfl, hxs⟩
        · rcases hbc with hlt' | ⟨rfl, -⟩
          · exact Or.inl (UInt8.lt_trans hlt hlt')
          · exact Or.inl hlt
        · exact hbc.imp_right fun ⟨heq, hys⟩ => ⟨heq, ih ys zs hxs hys⟩

theorem dropEndings_spec (reversed : List Char) :
    ∃ endings, reversed = endings ++ dropEndings reversed ∧ '_' ∉ endings ∧
      (endings = [] ∨ '.' ∈ endings) := by
  fun_induction dropEndings reversed with
  | case1 rest ih =>
    obtain ⟨endings, heq, hunder, -⟩ := ih
    refine ⟨'l' :: 'q' :: 's' :: '.' :: endings, ?_, ?_, Or.inr ?_⟩
    · simp only [List.cons_append, ← heq]
    · simpa using hunder
    · simp
  | case2 rest => exact ⟨[], rfl, by simp, Or.inl rfl⟩

theorem dot_not_mem_of_version {most n : Nat} {cs : List Char}
    (h : Text.countUpTo? most cs = some n) : '.' ∉ cs := by
  have hdigits : ∀ {ds : List Char}, (Text.natural? ds).filter (· ≤ most) = some n → '.' ∉ ds := by
    intro ds hds hdot
    unfold Text.natural? at hds
    split at hds
    · cases hds
    · rename_i hall
      simp only [Bool.or_eq_true, Bool.not_eq_true', not_or, Bool.not_eq_false,
        List.all_eq_true] at hall
      exact absurd (hall.2 '.' hdot) (by decide)
  unfold Text.countUpTo? at h
  split at h
  · rename_i rest
    simpa using hdigits h
  · exact hdigits h

/-- The endings that are taken off a file name are no part of its version. -/
theorem version?_dropEndings {name : String} {n : Nat} (h : version? name = some n) :
    version? (String.ofList (dropEndings name.toList.reverse).reverse) = some n := by
  obtain ⟨endings, heq, hunder, hdot⟩ := dropEndings_spec name.toList.reverse
  have hname : name.toList = (dropEndings name.toList.reverse).reverse ++ endings.reverse := by
    rw [← List.reverse_append, ← heq, List.reverse_reverse]
  generalize (dropEndings name.toList.reverse).reverse = left at hname ⊢
  suffices hsame : versionText name = versionText (String.ofList left) by
    rw [version?, ← hsame]
    exact h
  have hfree : '.' ∉ versionText name := dot_not_mem_of_version h
  unfold versionText at hfree ⊢
  rw [String.toList_ofList]
  rw [hname] at hfree ⊢
  by_cases hleft : ∀ c ∈ left, (c != '_') = true
  · rw [List.takeWhile_append_of_pos hleft] at hfree ⊢
    rcases hdot with rfl | hdot
    · simp [List.takeWhile_eq_self_iff.2 hleft]
    · -- a name without an underscore is its version as a whole, endings and all
      have hall : ∀ c ∈ endings.reverse, (c != '_') = true := by
        intro c hc
        simp only [bne_iff_ne]
        rintro rfl
        exact hunder (List.mem_reverse.1 hc)
      rw [List.takeWhile_eq_self_iff.2 hall] at hfree
      exact absurd (List.mem_append_right _ (List.mem_reverse.2 hdot)) hfree
  · have hshort : left.takeWhile (· != '_') ≠ left := fun heq =>
      hleft (List.takeWhile_eq_self_iff.1 heq)
    rw [List.takeWhile_append, if_neg]
    intro hlen
    exact hshort ((List.takeWhile_sublist _).eq_of_length hlen)

/-- A file that is no migration: its name is no text, its version is none or too large, or
its script cannot be read. -/
def Broken (file : ScriptFile σ) : Prop :=
  match Text.text? file.name with
  | none => True
  | some name => version? name = none ∨ file.script = none

theorem migration_cases (file : ScriptFile σ) :
    (∃ m, file.migration = .ok m ∧ version? m.name = some m.version ∧
        file.script = some m.script) ∨
      ∃ e, file.migration = .error e ∧ file.Broken := by
  unfold migration Broken
  cases Text.text? file.name with
  | none => exact Or.inr ⟨_, rfl, trivial⟩
  | some name =>
    dsimp only
    cases hversion : version? name with
    | none => exact Or.inr ⟨_, rfl, Or.inl rfl⟩
    | some version =>
      cases hscript : file.script with
      | none => exact Or.inr ⟨_, rfl, Or.inr rfl⟩
      | some script =>
        refine Or.inl ⟨⟨version, String.ofList (dropEndings name.toList.reverse).reverse, script⟩,
          rfl, ?_, rfl⟩
        exact version?_dropEndings hversion

end ScriptFile

namespace Migration
variable {σ : Type}

/-- A lower version comes first, and of one version the file that is named first. -/
def Precedes (a b : ScriptFile σ × Migration σ) : Prop :=
  a.2.version < b.2.version ∨
    a.2.version = b.2.version ∧ ScriptFile.isBefore a.1.name b.1.name = true

/-- The migrations among the files, each with its file, in the order of their turns. -/
structure Loads (files : List (ScriptFile σ)) (entries : List (ScriptFile σ × Migration σ)) :
    Prop where
  perm : (entries.map Prod.fst).Perm (files.filter ScriptFile.isMigration)
  read : ∀ entry ∈ entries, entry.1.migration = .ok entry.2
  ordered : entries.Pairwise Precedes

/-- A folder that is missing or has a broken file among its migrations. -/
def Unloadable (folder : ScriptFolder σ) : Prop :=
  match folder with
  | none => True
  | some files => ∃ file ∈ files, file.isMigration = true ∧ file.Broken

theorem load_cases (folder : ScriptFolder σ) :
    (∃ files entries, folder = some files ∧ Loads files entries ∧
        load folder = .ok (entries.map Prod.snd)) ∨
      ∃ e, load folder = .error e ∧ Unloadable folder := by
  cases folder with
  | none => exact Or.inr ⟨_, rfl, trivial⟩
  | some files =>
    unfold load
    dsimp only
    have hsorted := List.pairwise_mergeSort
      (fun a b c : ScriptFile σ => ScriptFile.isBefore_trans a.name b.name c.name)
      (fun a b => by simpa using ScriptFile.isBefore_total a.name b.name)
      (files.filter ScriptFile.isMigration)
    have hperm := List.mergeSort_perm (files.filter ScriptFile.isMigration)
      fun a b => ScriptFile.isBefore a.name b.name
    generalize (files.filter ScriptFile.isMigration).mergeSort _ = sorted at hsorted hperm ⊢
    rcases mapM_cases ScriptFile.migration sorted with
      ⟨pairs, rfl, hread, hload⟩ | ⟨file, hfile, e, he, hload⟩
    · have hentries := List.mergeSort_perm pairs fun a b => a.2.version ≤ b.2.version
      refine Or.inl ⟨files, pairs.mergeSort fun a b => a.2.version ≤ b.2.version, rfl,
        ⟨?_, ?_, ?_⟩, ?_⟩
      · exact (hentries.map _).trans hperm
      · exact fun entry hentry => hread entry (hentries.mem_iff.1 hentry)
      · exact pairwise_mergeSort_key (fun p => p.2.version) (List.pairwise_map.1 hsorted)
      · have hmap : (pairs.mergeSort fun a b => a.2.version ≤ b.2.version).map Prod.snd =
            (pairs.map Prod.snd).mergeSort fun a b => a.version ≤ b.version :=
          List.map_mergeSort fun _ _ _ _ => rfl
        rw [hload, hmap]
        rfl
    · rw [hload]
      refine Or.inr ⟨e, rfl, ?_⟩
      obtain ⟨hin, hsql⟩ := List.mem_filter.1 (hperm.mem_iff.1 hfile)
      rcases file.migration_cases with ⟨m, hm, -, -⟩ | ⟨_, -, hbroken⟩
      · rw [he] at hm
        cases hm
      · exact ⟨file, hin, hsql, hbroken⟩

theorem Loads.spec {files : List (ScriptFile σ)} {entries : List (ScriptFile σ × Migration σ)}
    (h : Loads files entries) {m : Migration σ} (hm : m ∈ entries.map Prod.snd) :
    ScriptFile.version? m.name = some m.version ∧
      ∃ file ∈ files, file.isMigration = true ∧ file.script = some m.script := by
  obtain ⟨⟨file, _⟩, hentry, rfl⟩ := List.mem_map.1 hm
  have hread := h.read _ hentry
  have hfile := List.mem_filter.1 (h.perm.mem_iff.1 (List.mem_map_of_mem hentry))
  rcases file.migration_cases with ⟨m, hm, hversion, hscript⟩ | ⟨e, he, -⟩
  · rw [hread] at hm
    rw [Except.ok.inj hm]
    exact ⟨hversion, file, hfile.1, hfile.2, hscript⟩
  · rw [hread] at he
    cases he

end Migration

/-- The migrations that come with the library make the tables and put nothing in them. -/
theorem Database.migrated_eq : migrated = ⟨some .empty, some .empty, some .empty,
    some [⟨1, "001_content_items"⟩, ⟨2, "002_descendant_relations"⟩, ⟨3, "003_descendant_queue"⟩],
    []⟩ := by
  cbv

end Lineage
