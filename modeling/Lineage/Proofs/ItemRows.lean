import Lineage.Proofs.StoredItems
import Mathlib.Data.List.Nodup

/-! # The rows of the item table

The table keeps its rows in ascending order of their ids, so that it is no more than the set
of them. What a change does is said by the rows that are there after it. -/

namespace Lineage

namespace ItemRow
variable {new row : ItemRow} {rows : List ItemRow}

/-- A row that tells its source takes nothing over from the one that it replaces. -/
theorem replacedBy_eq (hpath : new.sourcePath.isSome) (hhash : new.fileHash.isSome)
    (old : ItemRow) : old.replacedBy new = new := by
  obtain ⟨path, hpath⟩ := Option.isSome_iff_exists.1 hpath
  obtain ⟨hash, hhash⟩ := Option.isSome_iff_exists.1 hhash
  unfold replacedBy
  rw [hpath, hhash]
  show ({ new with sourcePath := some path, fileHash := some hash } : ItemRow) = new
  rw [← hpath, ← hhash]

theorem mem_put (hreplaced : ∀ old : ItemRow, old.replacedBy new = new)
    (hrows : rows.Pairwise fun a b => a.id < b.id) :
    row ∈ new.put rows ↔ row = new ∨ (row ∈ rows ∧ row.id ≠ new.id) := by
  induction rows with
  | nil => simp [put]
  | cons first rest ih =>
    obtain ⟨hfirst, hrest⟩ := List.pairwise_cons.1 hrows
    have hbehind : row ∈ rest → first.id < row.id := hfirst row
    unfold put
    by_cases hlt : new.id < first.id
    · rw [if_pos hlt, List.mem_cons, List.mem_cons]
      refine or_congr_right ⟨fun h => ⟨h, ?_⟩, And.left⟩
      rcases h with rfl | h
      · exact Int.ne_of_gt hlt
      · exact Int.ne_of_gt (Int.lt_trans hlt (hbehind h))
    · rw [if_neg hlt]
      by_cases heq : first.id = new.id
      · rw [if_pos heq, hreplaced, List.mem_cons, List.mem_cons]
        refine or_congr_right ⟨fun h => ⟨Or.inr h, ?_⟩, ?_⟩
        · exact heq ▸ Int.ne_of_gt (hbehind h)
        · rintro ⟨rfl | h, hne⟩
          · exact absurd heq hne
          · exact h
      · rw [if_neg heq, List.mem_cons, ih hrest, List.mem_cons]
        constructor
        · rintro (rfl | rfl | ⟨h, hne⟩)
          · exact Or.inr ⟨Or.inl rfl, heq⟩
          · exact Or.inl rfl
          · exact Or.inr ⟨Or.inr h, hne⟩
        · rintro (rfl | ⟨rfl | h, hne⟩)
          · exact Or.inr (Or.inl rfl)
          · exact Or.inl rfl
          · exact Or.inr (Or.inr ⟨h, hne⟩)

theorem text_put (new : ItemRow) (rows : List ItemRow) : ∃ row,
    (new.put rows).find? (fun row => row.id == new.id) = some row ∧ row.text = new.text := by
  induction rows with
  | nil => exact ⟨new, by simp [put], rfl⟩
  | cons first rest ih =>
    unfold put
    split
    · exact ⟨new, by simp, rfl⟩
    · split
      · exact ⟨first.replacedBy new, by simp, rfl⟩
      · rename_i hne
        obtain ⟨row, hfind, htext⟩ := ih
        exact ⟨row, by simp [hne, hfind], htext⟩

/-- Under the id of a row that was put there stands the row, with the source of the one that
stood there before if it has none of its own. -/
theorem find?_put_self (new : ItemRow) (hrows : rows.Pairwise fun a b => a.id < b.id) :
    (new.put rows).find? (fun row => row.id == new.id) =
      some (match rows.find? fun row => row.id == new.id with
        | some old => old.replacedBy new
        | none => new) := by
  induction rows with
  | nil => simp [put]
  | cons first rest ih =>
    obtain ⟨hfirst, hrest⟩ := List.pairwise_cons.1 hrows
    unfold put
    by_cases hlt : new.id < first.id
    · have hnone : (first :: rest).find? (fun row => row.id == new.id) = none := by
        refine List.find?_eq_none.2 fun row hrow => ?_
        have hbehind : new.id < row.id := by
          rcases List.mem_cons.1 hrow with rfl | hrow
          · exact hlt
          · exact Int.lt_trans hlt (hfirst row hrow)
        simpa using Int.ne_of_gt hbehind
      rw [if_pos hlt, hnone]
      simp
    · rw [if_neg hlt]
      by_cases heq : first.id = new.id
      · rw [if_pos heq]
        simp [heq]
      · rw [if_neg heq]
        simpa [heq] using ih hrest

end ItemRow

namespace ItemTable
variable {table s t : ItemTable} {row a b : ItemRow} {id : NodeId}

theorem nodup_ids (table : ItemTable) : (table.rows.map ItemRow.id).Nodup := by
  unfold List.Nodup
  rw [List.pairwise_map]
  exact table.ascending.imp Int.ne_of_lt

theorem eq_of_id_eq (ha : a ∈ table.rows) (hb : b ∈ table.rows) (h : a.id = b.id) : a = b :=
  List.inj_on_of_nodup_map table.nodup_ids ha hb h

theorem nodup_rows (table : ItemTable) : table.rows.Nodup :=
  table.ascending.imp fun hlt heq => Int.ne_of_lt hlt (congrArg ItemRow.id heq)

theorem ext_of_mem (h : ∀ row, row ∈ s.rows ↔ row ∈ t.rows) : s = t := by
  have hperm : s.rows.Perm t.rows :=
    (List.perm_ext_iff_of_nodup s.nodup_rows t.nodup_rows).2 h
  have hrows : s.rows = t.rows := hperm.eq_of_pairwise
    (fun a b _ _ hab hba => absurd (Int.lt_trans hab hba) (Int.lt_irrefl _))
    s.ascending t.ascending
  cases s
  cases t
  subst hrows
  rfl

theorem find?_eq_some_iff : table.find? id = some row ↔ row ∈ table.rows ∧ row.id = id := by
  constructor
  · intro h
    exact ⟨List.mem_of_find?_eq_some h, by simpa using List.find?_some h⟩
  · rintro ⟨hrow, rfl⟩
    unfold find?
    cases hfound : table.rows.find? fun r => r.id == row.id with
    | none => simpa using List.find?_eq_none.1 hfound row hrow
    | some found =>
      have hid : found.id = row.id := by simpa using List.find?_some hfound
      rw [eq_of_id_eq (List.mem_of_find?_eq_some hfound) hrow hid]

theorem mem_erase {ids : List NodeId} :
    row ∈ (table.erase ids).rows ↔ row ∈ table.rows ∧ row.id ∉ ids := by
  unfold erase
  rw [List.mem_filter]
  simp

theorem find?_erase_of_mem {ids : List NodeId} (h : id ∈ ids) (table : ItemTable) :
    (table.erase ids).find? id = none := by
  refine Option.eq_none_iff_forall_ne_some.2 fun row hrow => ?_
  obtain ⟨hkept, rfl⟩ := find?_eq_some_iff.1 hrow
  exact (mem_erase.1 hkept).2 h

theorem erase_nil (table : ItemTable) : table.erase [] = table :=
  ext_of_mem fun row => by simp [mem_erase]

theorem mem_erase_idsFrom {path : String} :
    row ∈ (table.erase (table.idsFrom path)).rows ↔
      row ∈ table.rows ∧ row.sourcePath ≠ some path := by
  rw [mem_erase]
  refine and_congr_right fun hrow => not_congr ⟨fun hid => ?_, fun hpath => ?_⟩
  · obtain ⟨other, hother, hpath, hsame⟩ := mem_idsFrom.1 hid
    rwa [← eq_of_id_eq hother hrow hsame]
  · exact mem_idsFrom.2 ⟨row, hrow, hpath, rfl⟩

/-- A row that tells its source takes the place of the one with its id. -/
theorem mem_put {new : ItemRow} (hpath : new.sourcePath.isSome) (hhash : new.fileHash.isSome) :
    row ∈ (table.put new).rows ↔ row = new ∨ (row ∈ table.rows ∧ row.id ≠ new.id) :=
  ItemRow.mem_put (ItemRow.replacedBy_eq hpath hhash) table.ascending

theorem find?_put_self (new : ItemRow) (table : ItemTable) :
    (table.put new).find? new.id = some (match table.find? new.id with
      | some old => old.replacedBy new
      | none => new) :=
  ItemRow.find?_put_self new table.ascending

end ItemTable

end Lineage
