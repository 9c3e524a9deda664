import Lineage.Proofs.ListingPages
import Lineage.Proofs.StoredItems
import Mathlib

/-! # How descendants are told

Descendants are given out in three ways: as a row of a page, as a line of JSON that a program prints,
and as text with a line for each node. None of them loses anything. The JSON of descendants tells them
apart, a printed line is read as an object with the id, the title and the descendants that a row of
the same item has, and of trees the depth of each line tells which node stands below which. -/

namespace Lineage

namespace DescendantTree

mutual
theorem toJson_inj : ∀ {a b : DescendantTree}, a.toJson = b.toJson → a = b
  | .node id branches, .node id' branches', h => by
    rw [toJson, toJson] at h
    injection h with hentries
    obtain ⟨hbranches, hid⟩ : forestJson branches = forestJson branches' ∧ id = id' := by
      simpa using hentries
    rw [hid, forestJson_inj hbranches]
theorem forestJson_inj : ∀ {as bs : List DescendantTree}, forestJson as = forestJson bs → as = bs
  | [], [], _ => rfl
  | [], _ :: _, h => by cases h
  | _ :: _, [], h => by cases h
  | a :: as, b :: bs, h => by
    obtain ⟨hfirst, hrest⟩ := List.cons.inj h
    rw [toJson_inj hfirst, forestJson_inj hrest]
end

mutual
theorem toJson_readable : ∀ tree : DescendantTree, tree.toJson.Readable
  | .node _ branches => ⟨forestJson_readable branches, trivial, trivial⟩
theorem forestJson_readable : ∀ trees : List DescendantTree, Json.ItemsReadable (forestJson trees)
  | [] => trivial
  | tree :: rest => ⟨toJson_readable tree, forestJson_readable rest⟩
end

theorem toJson_ne_int (tree : DescendantTree) (n : Int) : tree.toJson ≠ .int n := by
  cases tree
  rw [toJson]
  exact fun h => nomatch h

end DescendantTree

namespace Descendants

theorem toJson_readable (found : Descendants) : found.toJson.Readable := by
  cases found with
  | nested trees => exact DescendantTree.forestJson_readable trees
  | listed ids =>
    show Json.ItemsReadable (ids.map .int)
    induction ids with
    | nil => trivial
    | cons id rest ih => exact ⟨trivial, ih⟩

/-- A list and trees are written alike only if there is nothing in them. -/
theorem isEmpty_of_toJson_eq {ids : List NodeId} {trees : List DescendantTree}
    (h : (listed ids).toJson = (nested trees).toJson) : ids = [] ∧ trees = [] := by
  have hitems : ids.map Json.int = DescendantTree.forestJson trees := by simpa [toJson] using h
  cases trees with
  | nil => exact ⟨List.map_eq_nil_iff.1 hitems, rfl⟩
  | cons tree rest =>
    cases ids with
    | nil => cases hitems
    | cons id others => exact absurd (List.cons.inj hitems).1.symm (tree.toJson_ne_int id)

theorem toJson_eq_iff {a b : Descendants} :
    a.toJson = b.toJson ↔ a = b ∨ a.isEmpty = true ∧ b.isEmpty = true := by
  constructor
  · intro h
    match a, b with
    | listed ids, listed ids' =>
      have hitems : ids.map Json.int = ids'.map Json.int := by simpa [toJson] using h
      exact Or.inl (congrArg listed (List.map_injective_iff.2 (fun _ _ => Json.int.inj) hitems))
    | nested trees, nested trees' =>
      have hitems : DescendantTree.forestJson trees = DescendantTree.forestJson trees' := by
        simpa [toJson] using h
      exact Or.inl (congrArg nested (DescendantTree.forestJson_inj hitems))
    | listed ids, nested trees =>
      obtain ⟨rfl, rfl⟩ := isEmpty_of_toJson_eq h
      exact Or.inr ⟨rfl, rfl⟩
    | nested trees, listed ids =>
      obtain ⟨rfl, rfl⟩ := isEmpty_of_toJson_eq h.symm
      exact Or.inr ⟨rfl, rfl⟩
  · rintro (rfl | ⟨ha, hb⟩)
    · rfl
    · have hnone : ∀ found : Descendants, found.isEmpty = true → found.toJson = .arr [] := by
        intro found hfound
        cases found with
        | listed ids => rw [List.isEmpty_iff.1 hfound]; rfl
        | nested trees => rw [List.isEmpty_iff.1 hfound]; rfl
      rw [hnone a ha, hnone b hb]

end Descendants

theorem ItemDescendants.record?_toJson (shown : ItemDescendants) :
    shown.toJson.record? ["id", "title", "content_type", "descendants"] =
      some [some (.int shown.item.id), some (.str shown.item.title),
        some (.str shown.item.contentType), some shown.descendants.toJson] := rfl

/-- A row and a line of the same item have the same fields, the type apart. -/
theorem ItemDescendants.record?_answer (shown : ItemDescendants) :
    shown.answer.toJson.record? ["id", "title", "descendants"] =
      shown.toJson.record? ["id", "title", "descendants"] := rfl

namespace Program

namespace Answer

theorem toJson_readable (a : Answer) : a.toJson.Readable := by
  refine ⟨a.descendants.toJson_readable, trivial, ?_, trivial⟩
  show ((a.title.map Json.str).getD .null).Readable
  cases a.title <;> trivial

/-- A printed line of JSON is read as an object, and these are its fields. -/
theorem exists_line (a : Answer) : ∃ line v, a.lines true = [line] ∧
    Json.ofString? line = some v ∧ v.record? ["id", "title", "descendants"] =
      some [some (.int a.id), some ((a.title.map .str).getD .null), some a.descendants.toJson] :=
  ⟨_, a.toJson, rfl, Json.ofString_text a.toJson_readable, rfl⟩

end Answer

/-! ## Trees line by line -/

def margin (line : String) : Nat := (line.toList.takeWhile (· == ' ')).length

theorem toList_treeLine (indent : Nat) (id : NodeId) :
    (treeLine indent id).toList = List.replicate (2 * indent) ' ' ++ (toString id).toList := by
  unfold treeLine
  rw [String.toList_append, String.toList_ofList]

theorem takeWhile_toString (id : NodeId) : (toString id).toList.takeWhile (· == ' ') = [] := by
  cases id with
  | ofNat n =>
    show (toString n).toList.takeWhile _ = []
    rw [Nat.toString_eq_ofList_toDigits, String.toList_ofList]
    cases hdigits : Nat.toDigits 10 n with
    | nil => rfl
    | cons c rest =>
      have hc : c.isDigit = true :=
        Nat.isDigit_of_mem_toDigits (by decide) (by decide) (hdigits ▸ List.mem_cons_self)
      refine List.takeWhile_cons_of_neg fun hblank => ?_
      rw [beq_iff_eq.1 hblank] at hc
      exact absurd hc (by decide)
  | negSucc n =>
    show ("-" ++ toString (n + 1)).toList.takeWhile _ = []
    rw [String.toList_append]
    rfl

theorem margin_treeLine (indent : Nat) (id : NodeId) : margin (treeLine indent id) = 2 * indent := by
  unfold margin
  rw [toList_treeLine, List.takeWhile_append_of_pos (by simp), takeWhile_toString, List.append_nil,
    List.length_replicate]

theorem treeLine_inj {indent : Nat} {a b : NodeId} (h : treeLine indent a = treeLine indent b) :
    a = b := by
  have hchars := congrArg String.toList h
  rw [toList_treeLine, toList_treeLine] at hchars
  exact Int.repr_inj.1 (String.toList_inj.1 (List.append_cancel_left hchars))

/-- No line of trees stands farther out than the trees. -/
theorem le_margin {indent : Nat} {trees : List DescendantTree} :
    ∀ line ∈ treeLines indent trees, 2 * indent ≤ margin line := by
  induction indent, trees using treeLines.induct with
  | case1 indent =>
    rw [treeLines]
    exact fun _ h => nomatch h
  | case2 indent id branches rest ihbranches ihrest =>
    intro line hline
    rw [treeLines] at hline
    rcases List.mem_append.1 hline with hline | hline
    · rcases List.mem_cons.1 hline with rfl | hline
      · rw [margin_treeLine]
      · have hbelow := ihbranches line hline
        omega
    · exact ihrest line hline

/-- The lines below a node end at the first one that stands as far out as the node. -/
theorem takeWhile_treeLines (indent : Nat) (branches rest : List DescendantTree) :
    (treeLines (indent + 1) branches ++ treeLines indent rest).takeWhile
      (fun line => 2 * indent < margin line) = treeLines (indent + 1) branches := by
  have hbelow : ∀ line ∈ treeLines (indent + 1) branches,
      decide (2 * indent < margin line) = true := by
    intro line hline
    have := le_margin line hline
    exact decide_eq_true (by omega)
  have hrest : (treeLines indent rest).takeWhile (fun line => 2 * indent < margin line) = [] := by
    match rest with
    | [] => rw [treeLines]; rfl
    | .node id others :: more =>
      rw [treeLines, List.cons_append]
      refine List.takeWhile_cons_of_neg ?_
      simp [margin_treeLine]
  rw [List.takeWhile_append_of_pos hbelow, hrest, List.append_nil]

/-- The lines tell trees apart. -/
theorem treeLines_inj {indent : Nat} {as bs : List DescendantTree}
    (h : treeLines indent as = treeLines indent bs) : as = bs := by
  induction indent, as using treeLines.induct generalizing bs with
  | case1 indent =>
    match bs with
    | [] => rfl
    | .node id branches :: rest => rw [treeLines, treeLines] at h; cases h
  | case2 indent id branches rest ihbranches ihrest =>
    match bs with
    | [] => rw [treeLines, treeLines] at h; cases h
    | .node id' branches' :: rest' =>
      rw [treeLines, treeLines, List.cons_append, List.cons_append] at h
      obtain ⟨hfirst, hothers⟩ := List.cons.inj h
      have hbranches := congrArg (List.takeWhile fun line => 2 * indent < margin line) hothers
      rw [takeWhile_treeLines, takeWhile_treeLines] at hbranches
      rw [hbranches] at hothers
      rw [treeLine_inj hfirst, ihbranches hbranches, ihrest (List.append_cancel_left hothers)]

end Program

end Lineage
