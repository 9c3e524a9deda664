import Lineage.Database.Numbered

/-! # Rows by their numbers

What each operation on a numbered table does to its rows. Since numbers ascend
and none is given twice, a number picks out at most one row, also in a table that
has been changed since; a reader that has seen all rows up to a number can go on
after it, and finds there what no operation on an earlier row has touched. -/

namespace Lineage.Numbered
variable {α : Type}

theorem ext {s t : Numbered α} (hrows : s.rows = t.rows) (hlast : s.lastId = t.lastId) :
    s = t := by
  cases s; cases t
  subst hrows hlast
  rfl

theorem eq_of_ascending {a b : Row α} : ∀ {rows : List (Row α)},
    (rows.Pairwise fun r s => r.id < s.id) → a ∈ rows → b ∈ rows → a.id = b.id → a = b
  | [], _, ha, _, _ => nomatch ha
  | r :: rest, hasc, ha, hb, h => by
    obtain ⟨hr, hrest⟩ := List.pairwise_cons.1 hasc
    rcases List.mem_cons.1 ha with har | har <;> rcases List.mem_cons.1 hb with hbr | hbr
    · rw [har, hbr]
    · subst har
      exact absurd h (Int.ne_of_lt (hr b hbr))
    · subst hbr
      exact absurd h.symm (Int.ne_of_lt (hr a har))
    · exact eq_of_ascending hrest har hbr h

theorem eq_of_id_eq {table : Numbered α} {a b : Row α} (ha : a ∈ table.rows)
    (hb : b ∈ table.rows) (h : a.id = b.id) : a = b :=
  eq_of_ascending table.ascending ha hb h

theorem find?_eq_some {table : Numbered α} {row : Row α} (h : row ∈ table.rows) :
    table.find? row.id = some row.value := by
  unfold find?
  cases hf : table.rows.find? fun r => r.id == row.id with
  | none => simpa using List.find?_eq_none.1 hf row h
  | some r =>
    have hid : r.id = row.id := by simpa using List.find?_some hf
    rw [eq_of_id_eq (List.mem_of_find?_eq_some hf) h hid]
    rfl

theorem mem_of_find?_eq_some {table : Numbered α} {id : Int} {value : α}
    (h : table.find? id = some value) : ⟨id, value⟩ ∈ table.rows := by
  obtain ⟨row, hf, rfl⟩ := Option.map_eq_some_iff.1 h
  have hid : row.id = id := by simpa using List.find?_some hf
  subst hid
  exact List.mem_of_find?_eq_some hf

theorem id_ne_of_find?_eq_none {table : Numbered α} {row : Row α} {id : Int} (h : row ∈ table.rows)
    (hfind : table.find? id = none) : row.id ≠ id := by
  rintro rfl
  cases (find?_eq_some h).symm.trans hfind

theorem value_eq_of_find?_eq_some {table : Numbered α} {row : Row α} {value : α}
    (h : row ∈ table.rows) (hfind : table.find? row.id = some value) : row.value = value :=
  Option.some.inj ((find?_eq_some h).symm.trans hfind)

@[simp] theorem values_add (value : α) (table : Numbered α) :
    (table.add value).values = table.values ++ [value] := by
  simp [values, add]

theorem rows_addAll (values : List α) (table : Numbered α) :
    (table.addAll values).rows =
      table.rows ++ values.mapIdx fun i value => ⟨table.lastId + 1 + i, value⟩ := by
  induction values generalizing table with
  | nil => simp [addAll]
  | cons v rest ih =>
    have hstep : table.addAll (v :: rest) = (table.add v).addAll rest := rfl
    have hnum : ∀ i : Nat, table.lastId + 1 + 1 + (i : Int) = table.lastId + 1 + ((i + 1 : Nat) : Int) := by
      intro i
      omega
    rw [hstep, ih]
    simp [add, List.mapIdx_cons, hnum]

@[simp] theorem lastId_addAll (values : List α) (table : Numbered α) :
    (table.addAll values).lastId = table.lastId + values.length := by
  induction values generalizing table with
  | nil => simp [addAll]
  | cons v rest ih =>
    have hstep : table.addAll (v :: rest) = (table.add v).addAll rest := rfl
    rw [hstep, ih]
    simp only [add, List.length_cons]
    omega

@[simp] theorem values_addAll (values : List α) (table : Numbered α) :
    (table.addAll values).values = table.values ++ values := by
  induction values generalizing table with
  | nil => simp [addAll]
  | cons v rest ih =>
    have hstep : table.addAll (v :: rest) = (table.add v).addAll rest := rfl
    rw [hstep, ih, values_add, List.append_assoc]
    rfl

theorem addAll_append (values more : List α) (table : Numbered α) :
    table.addAll (values ++ more) = (table.addAll values).addAll more :=
  List.foldl_append

theorem mem_addAll {values : List α} {table : Numbered α} {row : Row α}
    (h : row ∈ (table.addAll values).rows) :
    row ∈ table.rows ∨ (table.lastId < row.id ∧ row.value ∈ values) := by
  rw [rows_addAll] at h
  rcases List.mem_append.1 h with h | h
  · exact Or.inl h
  · obtain ⟨i, hi, rfl⟩ := List.mem_mapIdx.1 h
    refine Or.inr ⟨?_, List.getElem_mem hi⟩
    show table.lastId < table.lastId + 1 + i
    omega

theorem mem_addAll_of_mem {values : List α} {table : Numbered α} {row : Row α}
    (h : row ∈ table.rows) : row ∈ (table.addAll values).rows := by
  rw [rows_addAll]
  exact List.mem_append_left _ h

theorem exists_mem_addAll {values : List α} (table : Numbered α) {value : α}
    (h : value ∈ values) :
    ∃ row ∈ (table.addAll values).rows, table.lastId < row.id ∧ row.value = value := by
  obtain ⟨i, hi, rfl⟩ := List.mem_iff_getElem.1 h
  refine ⟨⟨table.lastId + 1 + i, values[i]⟩, ?_, ?_, rfl⟩
  · rw [rows_addAll]
    exact List.mem_append_right _ (List.mem_mapIdx.2 ⟨i, hi, rfl⟩)
  · show table.lastId < table.lastId + 1 + i
    omega

theorem values_keep (p : α → Bool) (table : Numbered α) :
    (table.keep fun row => p row.value).values = table.values.filter p := by
  simp [values, keep, List.filter_map, Function.comp_def]

theorem mem_erase {id : Int} {table : Numbered α} {row : Row α} :
    row ∈ (table.erase id).rows ↔ row ∈ table.rows ∧ row.id ≠ id := by
  simp [erase, keep, List.mem_filter]

theorem find?_erase_self (id : Int) (table : Numbered α) : (table.erase id).find? id = none := by
  rw [Option.eq_none_iff_forall_ne_some]
  intro value hfind
  exact (mem_erase.1 (mem_of_find?_eq_some hfind)).2 rfl

theorem changed_of_ne {id : Int} {row : Row α} (h : row.id ≠ id) (change : α → α) :
    changed id change row = row := by
  unfold changed
  rw [if_neg (by simpa using h)]

theorem rows_modify (id : Int) (change : α → α) (table : Numbered α) :
    (table.modify id change).rows = table.rows.map (changed id change) := rfl

theorem find?_modify_self {table : Numbered α} {row : Row α} (h : row ∈ table.rows)
    (change : α → α) :
    (table.modify row.id change).find? row.id = some (change row.value) := by
  have hchanged : changed row.id change row = ⟨row.id, change row.value⟩ :=
    if_pos (beq_self_eq_true row.id)
  have hmem : ⟨row.id, change row.value⟩ ∈ (table.modify row.id change).rows := by
    rw [rows_modify, ← hchanged]
    exact List.mem_map_of_mem h
  exact find?_eq_some hmem

theorem modify_congr {table : Numbered α} {row : Row α} (h : row ∈ table.rows)
    {change change' : α → α} (hchange : change row.value = change' row.value) :
    table.modify row.id change = table.modify row.id change' := by
  refine ext (List.map_congr_left fun r hr => ?_) rfl
  unfold changed
  by_cases hid : r.id = row.id
  · rw [eq_of_id_eq hr h hid, hchange]
  · simp [hid]

section
variable {table : Numbered α} {row : Row α} {before later : List (Row α)}
variable (h : table.rows = before ++ row :: later)
include h

theorem ne_of_split : ∀ r, r ∈ before ∨ r ∈ later → r.id ≠ row.id := by
  have hasc := table.ascending
  rw [h] at hasc
  obtain ⟨-, hlater, hbefore⟩ := List.pairwise_append.1 hasc
  rintro r (hr | hr)
  · exact Int.ne_of_lt (hbefore r hr row List.mem_cons_self)
  · exact (Int.ne_of_lt ((List.pairwise_cons.1 hlater).1 r hr)).symm

theorem rows_erase_split : (table.erase row.id).rows = before ++ later := by
  have hne := ne_of_split h
  have hkeep : ∀ rows : List (Row α), (∀ r ∈ rows, r.id ≠ row.id) →
      rows.filter (fun r => r.id != row.id) = rows := by
    intro rows hrows
    rw [List.filter_eq_self]
    intro r hr
    simpa using hrows r hr
  unfold erase keep
  simp only [h, List.filter_append, List.filter_cons, bne_self_eq_false,
    hkeep before fun r hr => hne r (Or.inl hr), hkeep later fun r hr => hne r (Or.inr hr)]
  rfl

theorem rows_modify_split (change : α → α) : (table.modify row.id change).rows =
    before ++ ⟨row.id, change row.value⟩ :: later := by
  have hne := ne_of_split h
  have hsame : ∀ rows : List (Row α), (∀ r ∈ rows, r.id ≠ row.id) →
      rows.map (changed row.id change) = rows := by
    intro rows hrows
    exact (List.map_congr_left fun r hr => changed_of_ne (hrows r hr) change).trans
      (List.map_id rows)
  rw [rows_modify, h, List.map_append, List.map_cons, hsame before fun r hr => hne r (Or.inl hr),
    hsame later fun r hr => hne r (Or.inr hr)]
  simp [changed]

end

/-- A cursor stands between the rows that were seen and the rest. -/
structure CutAt (table : Numbered α) (cursor : Int) (seen rest : List (Row α)) : Prop where
  rows : table.rows = seen ++ rest
  seen : ∀ row ∈ seen, row.id ≤ cursor
  rest : ∀ row ∈ rest, cursor < row.id

namespace CutAt
variable {table : Numbered α} {cursor : Int} {seen rest : List (Row α)}

/-- Numbers start above zero, so that a cursor at zero has all rows before it. -/
theorem start (table : Numbered α) : table.CutAt 0 [] table.rows where
  rows := rfl
  seen := by
    intro row h
    cases h
  rest := fun row h => (table.inRange row h).1

theorem filter_eq (h : table.CutAt cursor seen rest) :
    table.rows.filter (fun row => decide (cursor < row.id)) = rest := by
  have hseen : seen.filter (fun row => decide (cursor < row.id)) = [] := by
    rw [List.filter_eq_nil_iff]
    intro row hrow
    simpa using h.seen row hrow
  have hrest : rest.filter (fun row => decide (cursor < row.id)) = rest := by
    rw [List.filter_eq_self]
    intro row hrow
    simpa using h.rest row hrow
  rw [h.rows, List.filter_append, hseen, hrest, List.nil_append]

/-- The cursor goes on to the last row of a batch, whatever rows of the batch are left. -/
theorem advance {left : Numbered α} {batch kept : List (Row α)} {last : Row α}
    (h : table.CutAt cursor seen (batch ++ rest)) (hlast : batch.getLast? = some last)
    (hleft : left.rows = seen ++ kept ++ rest)
    (hkept : ∀ row ∈ kept, ∃ old ∈ batch, old.id = row.id) :
    left.CutAt last.id (seen ++ kept) rest := by
  obtain ⟨first, rfl⟩ : ∃ first, batch = first ++ [last] := List.getLast?_eq_some_iff.1 hlast
  have hasc := table.ascending
  rw [h.rows] at hasc
  obtain ⟨-, hbatch, -⟩ := List.pairwise_append.1 hasc
  obtain ⟨hfirst, -, hrest⟩ := List.pairwise_append.1 hbatch
  have hle : ∀ old ∈ first ++ [last], old.id ≤ last.id := by
    intro old hold
    rcases List.mem_append.1 hold with hold | hold
    · exact Int.le_of_lt ((List.pairwise_append.1 hfirst).2.2 old hold last (by simp))
    · exact Int.le_of_eq (congrArg Row.id (List.mem_singleton.1 hold))
  refine ⟨hleft, fun row hrow => ?_, fun row hrow => hrest last (by simp) row hrow⟩
  rcases List.mem_append.1 hrow with hrow | hrow
  · have hcursor := h.rest last (by simp)
    have := h.seen row hrow
    omega
  · obtain ⟨old, hold, hid⟩ := hkept row hrow
    rw [← hid]
    exact hle old hold

end CutAt

end Lineage.Numbered
