import Lineage.Content
import Lineage.Proofs.Actions

/-! # What a filter selects

The conditions of a selection and the values for them are put together apart from each other.
For every filter they line up, so that it selects the rows that it accepts, and of these its
window: a number that is cut down to the largest one cuts no other rows off. The pages of one
size lie side by side in what is selected without a window, and whether the items of a page can
be read depends on its own rows alone. -/

namespace Lineage

namespace ContentFilter

/-- Whether a row is of one of the types, any if there are none, and published as asked for. -/
def accepts (filter : ContentFilter) (row : ItemRow) : Bool :=
  (filter.types.isEmpty || filter.types.contains row.contentType) &&
    filter.published.all (· == row.published)

/-- The rows of the window: the accepted ones, without the first `offset` of them, and
of the others at most `limit`. -/
def select (filter : ContentFilter) (rows : List ItemRow) : List ItemRow :=
  let accepted := (rows.filter filter.accepts).drop filter.offset
  match filter.limit with
  | some limit => accepted.take limit
  | none => accepted

/-- Every type, the choice by publication, the limit and the offset are given values. -/
def isStatable (filter : ContentFilter) : Bool :=
  filter.types.length + filter.published.toList.length + 2 ≤ boundValues

theorem conditionMarks_selection (filter : ContentFilter) :
    filter.selection.conditionMarks = filter.conditionValues.length := by
  obtain ⟨types, published, offset, limit⟩ := filter
  cases types <;> cases published <;>
    simp [selection, conditionValues, Selection.conditionMarks, Condition.marks]

theorem length_values (filter : ContentFilter) (most : Nat) :
    (filter.values most).length = filter.selection.marks := by
  rw [Selection.marks, filter.conditionMarks_selection, values, List.length_append]
  rfl

theorem isStatable_iff (filter : ContentFilter) :
    filter.isStatable = true ↔ filter.selection.marks ≤ boundValues := by
  rw [Selection.marks, filter.conditionMarks_selection]
  simp [isStatable, conditionValues]

theorem contains_type (types : List String) (row : ItemRow) :
    (types.map BoundValue.text).contains (.text row.contentType) =
      types.contains row.contentType := by
  rw [Bool.eq_iff_iff]
  simp

theorem contains_published (published : Bool) (row : ItemRow) :
    [BoundValue.integer published.toInt].contains (.integer row.published.toInt) =
      (published == row.published) := by
  cases published <;> cases row.published <;> rfl

/-- Each condition of a filter meets the values that were put together for it. -/
theorem allHold_selection (filter : ContentFilter) (row : ItemRow) (others : List BoundValue) :
    Condition.allHold row filter.selection.conditions (filter.conditionValues ++ others) =
      filter.accepts row := by
  have hpublished : Condition.allHold row (filter.published.toList.map fun _ => .publishedIs)
      (filter.published.toList.map (fun published => .integer published.toInt) ++ others) =
        filter.published.all (· == row.published) := by
    cases filter.published with
    | none => rfl
    | some published =>
      refine (Condition.allHold_cons_append row [] rfl others).trans ?_
      rw [Condition.allHold_nil, Bool.and_true]
      exact contains_published published row
  unfold selection conditionValues accepts
  cases htypes : filter.types with
  | nil => exact hpublished
  | cons type rest =>
    rw [List.append_assoc]
    refine (Condition.allHold_cons_append row _ (List.length_map _) _).trans ?_
    exact congr (congrArg and (contains_type (type :: rest) row)) hpublished

/-- Numbers beyond the length of a list cut it as its length does. -/
theorem window_values (limit : Option Nat) (offset : Nat) {most : Nat} {rows : List ItemRow}
    (h : rows.length ≤ most) :
    Selection.window (limit.elim (-1) fun limit => Int.ofNat (min limit most))
        (Int.ofNat (min offset most)) rows =
      match limit with
      | some limit => (rows.drop offset).take limit
      | none => rows.drop offset := by
  have hdrop : rows.drop (min offset most) = rows.drop offset := by
    rw [List.drop_eq_drop_iff]
    omega
  have htake : ∀ limit, (rows.drop offset).take (min limit most) = (rows.drop offset).take limit := by
    intro limit
    rw [List.take_eq_take_iff, List.length_drop]
    omega
  unfold Selection.window
  cases limit with
  | none => exact hdrop
  | some limit =>
    show (if Int.ofNat (min limit most) < 0 then rows.drop (min offset most)
      else (rows.drop (min offset most)).take (min limit most)) = _
    rw [if_neg (by simp), hdrop, htake]

theorem rows_selection (filter : ContentFilter) {most : Nat} {rows : List ItemRow}
    (h : rows.length ≤ most) :
    filter.selection.rows (filter.values most) rows = .ok (filter.select rows) := by
  have haccepted : (rows.filter fun row => Condition.allHold row filter.selection.conditions
      (filter.values most)) = rows.filter filter.accepts :=
    List.filter_congr fun row _ => filter.allHold_selection row _
  unfold Selection.rows
  rw [if_pos (filter.length_values most), haccepted, filter.conditionMarks_selection]
  unfold values
  rw [List.drop_left]
  exact congrArg Except.ok (window_values filter.limit filter.offset
    (Nat.le_trans (List.length_filter_le _ _) h))

theorem select_sublist (filter : ContentFilter) (rows : List ItemRow) :
    (filter.select rows).Sublist rows := by
  have haccepted : ((rows.filter filter.accepts).drop filter.offset).Sublist rows :=
    (List.drop_sublist _ _).trans List.filter_sublist
  unfold select
  cases filter.limit with
  | none => exact haccepted
  | some limit => exact (List.take_sublist _ _).trans haccepted

theorem ascending_select (filter : ContentFilter) (table : ItemTable) :
    ((filter.select table.rows).map ItemRow.id).Pairwise (· < ·) :=
  List.pairwise_map.2 (table.ascending.sublist (filter.select_sublist table.rows))

def unpaged (filter : ContentFilter) : ContentFilter :=
  { filter with offset := 0, limit := none }

theorem select_page (filter : ContentFilter) (offset limit : Nat) (rows : List ItemRow) :
    (filter.page offset limit).select rows =
      ((filter.unpaged.select rows).drop offset).take limit := rfl

/-- The first pages of one size are, side by side, the beginning of what they are pages of. -/
theorem flatten_pages (filter : ContentFilter) (rows : List ItemRow) (width count : Nat) :
    ((List.range count).map fun k => (filter.page (k * width) width).select rows).flatten =
      (filter.unpaged.select rows).take (count * width) := by
  induction count with
  | zero => rw [Nat.zero_mul, List.take_zero, List.range_zero, List.map_nil, List.flatten_nil]
  | succ count ih =>
    rw [List.range_succ, List.map_append, List.flatten_append, ih, List.map_singleton,
      List.flatten_singleton, select_page, Nat.succ_mul, List.take_add]

end ContentFilter

namespace ItemRow
variable {row : ItemRow} {rows : List ItemRow}

theorem mapM_item_eq_ok_iff {read : List Item} :
    rows.mapM item = .ok read ↔ rows.map (fun row => Item.ofText? row.text) = read.map some := by
  rw [mapM_eq_ok_iff, ← List.forall₂_eq_eq_eq, List.forall₂_map_left_iff,
    List.forall₂_map_right_iff]
  simp only [item_eq_ok_iff]

theorem mapM_item_eq_error_iff :
    (∃ detail, rows.mapM item = .error (.content detail)) ↔
      ∃ row ∈ rows, Item.ofText? row.text = none := by
  constructor
  · rintro ⟨detail, h⟩
    obtain ⟨before, bad, after, rfl, hbad, -⟩ := mapM_eq_error_iff.1 h
    exact ⟨bad, by simp, (item_eq_error_iff.1 hbad).1⟩
  · rintro ⟨bad, hbad, hnone⟩
    cases h : rows.mapM item with
    | ok read =>
      have hmem := List.mem_map_of_mem (f := fun row => Item.ofText? row.text) hbad
      rw [mapM_item_eq_ok_iff.1 h, hnone] at hmem
      simp at hmem
    | error e =>
      obtain ⟨before, first, after, -, hfirst, -⟩ := mapM_eq_error_iff.1 h
      obtain ⟨-, rfl⟩ := item_eq_error_iff.1 hfirst
      exact ⟨_, rfl⟩

end ItemRow

namespace Database
variable {db : Database} {items : ItemTable}

theorem perform_find (hitems : db.items = some items) (filter : ContentFilter) :
    db.perform (Content.find filter) =
      (if filter.isStatable then .ok (filter.select items.rows)
        else .error (.database "too many SQL variables"), db) := by
  unfold Content.find
  by_cases hstatable : filter.isStatable = true
  · have hrows : items.rows.length ≤ Content.largestNumber items := Nat.le_max_right _ _
    rw [if_pos hstatable, if_pos (filter.isStatable_iff.1 hstatable),
      perform_bind_ok (perform_items hitems), perform_ofExcept, filter.rows_selection hrows]
  · rw [if_neg hstatable, if_neg fun h => hstatable (filter.isStatable_iff.2 h)]
    rfl

theorem perform_findIds (hitems : db.items = some items) (filter : ContentFilter) :
    db.perform (Content.findIds filter) =
      (if filter.isStatable then .ok ((filter.select items.rows).map ItemRow.id)
        else .error (.database "too many SQL variables"), db) := by
  unfold Content.findIds
  rw [perform_bind, perform_find hitems]
  by_cases hstatable : filter.isStatable = true
  · rw [if_pos hstatable, if_pos hstatable]
    rfl
  · rw [if_neg hstatable, if_neg hstatable]

section
variable (hitems : db.items = some items) (filter : ContentFilter)
  (hfits : filter.isStatable = true)
include hitems hfits

theorem perform_ids : db.perform (Content.findIds filter) =
    (.ok ((filter.select items.rows).map ItemRow.id), db) := by
  rw [perform_findIds hitems, if_pos hfits]

theorem perform_readings : db.perform (Content.findItems filter) =
    ((filter.select items.rows).mapM ItemRow.item, db) := by
  have hfind := perform_find hitems filter
  rw [if_pos hfits] at hfind
  unfold Content.findItems
  rw [perform_bind_ok hfind, perform_mapM_ofExcept]

/-- A filter finds the rows of its window in the order of their ids. What it finds without a
window are its pages of one size, side by side. The items of the window are read one by one, and
that fails where, and only where, a row of the window holds no item. -/
theorem windows_are_exact :
    (db.perform (Content.findIds filter) =
        (.ok ((filter.select items.rows).map ItemRow.id), db) ∧
      ((filter.select items.rows).map ItemRow.id).Pairwise (· < ·)) ∧
    (∃ all, db.perform (Content.findIds filter.unpaged) = (.ok all, db) ∧
      all.Pairwise (· < ·) ∧ ∀ width count, ∃ pages,
        db.perform ((List.range count).mapM fun k =>
          Content.findIds (filter.page (k * width) width)) = (.ok pages, db) ∧
        pages.flatten = all.take (count * width) ∧
        (1 ≤ width → all.length ≤ count → pages.flatten = all)) ∧
    (∀ read, db.perform (Content.findItems filter) = (.ok read, db) ↔
      (filter.select items.rows).map (fun row => Item.ofText? row.text) = read.map some) ∧
    ((∃ detail, db.perform (Content.findItems filter) = (.error (.content detail), db)) ↔
      ∃ row ∈ filter.select items.rows, Item.ofText? row.text = none) := by
  refine ⟨⟨perform_ids hitems filter hfits, filter.ascending_select items⟩,
    ⟨_, perform_ids hitems filter.unpaged hfits, filter.unpaged.ascending_select items, ?_⟩,
    fun read => ?_, ?_⟩
  · intro width count
    have hpages : ((List.range count).map fun k =>
        ((filter.page (k * width) width).select items.rows).map ItemRow.id).flatten =
        ((filter.unpaged.select items.rows).map ItemRow.id).take (count * width) := by
      rw [← List.map_take, ← filter.flatten_pages, List.map_flatten, List.map_map]
      rfl
    refine ⟨_, perform_mapM_ok fun k _ => perform_ids hitems (filter.page (k * width) width) hfits,
      hpages, fun hwidth hcount => hpages.trans (List.take_of_length_le ?_)⟩
    exact Nat.le_trans hcount (Nat.le_mul_of_pos_right count hwidth)
  · rw [perform_readings hitems filter hfits, ← ItemRow.mapM_item_eq_ok_iff, Prod.mk.injEq]
    exact and_iff_left rfl
  · rw [perform_readings hitems filter hfits, ← ItemRow.mapM_item_eq_error_iff]
    simp

end

def bareText (id : String) : String := "\x7b\"id\":" ++ id ++ ",\"type\":\"page\"\x7d"

/-- Two published pages with a text that can be read, before them one without, and between them
rows that are not listed. -/
def shelf : ItemTable where
  rows :=
    [⟨1, "page", "", true, "", none, none⟩,
      ⟨2, "page", "", true, bareText "2", none, none⟩,
      ⟨3, "page", "", false, "", none, none⟩,
      ⟨4, "news", "", true, "", none, none⟩,
      ⟨7, "page", "", true, bareText "7", none, none⟩]
  ascending := by decide

def shelved : Database := { fresh with items := some shelf }

/-- All published pages but the first; the type is named twice and the limit is the largest. -/
def latePages : ContentFilter := ⟨["page", "page"], some true, 1, some Text.maxUnsigned64⟩

/-- What the late pages hold can be read, and with the first page among them nothing can. -/
theorem late_pages_are_found :
    (latePages.isStatable = true ∧ { latePages with offset := 0 }.isStatable = true) ∧
    shelved.perform (Content.findIds latePages) = (.ok [2, 7], shelved) ∧
    (∃ read, shelved.perform (Content.findItems latePages) = (.ok read, shelved) ∧
      read.map Item.id = [2, 7]) ∧
    ∃ detail, shelved.perform (Content.findItems { latePages with offset := 0 }) =
      (.error (.content detail), shelved) := by
  have hitems : shelved.items = some shelf := rfl
  obtain ⟨second, hsecond, hsecondId⟩ := Option.map_eq_some_iff.1
    (show (Item.ofText? (bareText "2")).map Item.id = some 2 by decide +kernel)
  obtain ⟨last, hlast, hlastId⟩ := Option.map_eq_some_iff.1
    (show (Item.ofText? (bareText "7")).map Item.id = some 7 by decide +kernel)
  have hunread : ∃ row ∈ { latePages with offset := 0 }.select shelf.rows,
      Item.ofText? row.text = none := ⟨_, List.mem_cons_self, by decide +kernel⟩
  have htexts : (latePages.select shelf.rows).map (fun row => Item.ofText? row.text) =
      [second, last].map some := by
    show [Item.ofText? (bareText "2"), Item.ofText? (bareText "7")] = [some second, some last]
    rw [hsecond, hlast]
  obtain ⟨⟨hids, -⟩, -, hread, -⟩ := windows_are_exact hitems latePages rfl
  obtain ⟨-, -, -, herror⟩ := windows_are_exact hitems { latePages with offset := 0 } rfl
  refine ⟨⟨rfl, rfl⟩, hids, ⟨_, (hread _).2 htexts, ?_⟩, herror.2 hunread⟩
  rw [List.map_cons, List.map_singleton, hsecondId, hlastId]

end Database

end Lineage
