import Lineage.Proofs.JsonText
import Lineage.Proofs.Readings

/-! # Items in the content store

A stored item is kept as its JSON text under its id. Every text that the library
writes is readable and names the id of its item, so a table in which only whole items
were put holds no text under a foreign id. The other operations on the table take
rows away; what they say about the rest is that it is untouched. -/

namespace Lineage

namespace Json

theorem int_readable (n : Int) : (int n).Readable := trivial

theorem str_readable (s : String) : (str s).Readable := trivial

theorem entriesReadable_append {as bs : List (String × Json)} (ha : EntriesReadable as)
    (hb : EntriesReadable bs) : EntriesReadable (as ++ bs) := by
  induction as with
  | nil => exact hb
  | cons e as ih => exact ⟨ha.1, ih ha.2⟩

theorem entry_readable {α : Type} {key : String} {write : α → Json}
    (h : ∀ a, (write a).Readable) (value : Option α) :
    EntriesReadable (Json.entry? key write value) := by
  cases value with
  | none => trivial
  | some a => exact ⟨h a, trivial⟩

end Json

open Json (Readable EntriesReadable EntryReadable ItemsReadable entriesReadable_append
  entry_readable)

mutual
theorem FieldValue.toJson_readable : ∀ v : FieldValue, v.toJson.Readable
  | ⟨target, uri, paragraph⟩ =>
    entriesReadable_append (entriesReadable_append (entry_readable Json.int_readable target)
      (entry_readable Json.str_readable uri)) (entityEntry_readable paragraph)
theorem entityEntry_readable : ∀ p : Option Paragraph, EntriesReadable (entityEntry p)
  | none => trivial
  | some p => ⟨Paragraph.toJson_readable p, trivial⟩
theorem Paragraph.toJson_readable : ∀ p : Paragraph, p.toJson.Readable
  | ⟨id, kind, fields⟩ =>
    entriesReadable_append (entriesReadable_append (entry_readable Json.int_readable id)
      (entry_readable Json.str_readable kind)) ⟨fieldEntries_readable fields, trivial⟩
theorem fieldEntries_readable : ∀ fields : List (String × List FieldValue),
    EntriesReadable (fieldEntries fields)
  | [] => trivial
  | field :: rest => ⟨fieldEntry_readable field, fieldEntries_readable rest⟩
theorem fieldEntry_readable : ∀ field : String × List FieldValue, EntryReadable (fieldEntry field)
  | (_, values) => valuesJson_readable values
theorem valuesJson_readable : ∀ values : List FieldValue, ItemsReadable (valuesJson values)
  | [] => trivial
  | v :: rest => ⟨v.toJson_readable, valuesJson_readable rest⟩
end

namespace Item

theorem toJson_readable (item : Item) : item.toJson.Readable := by
  unfold toJson
  refine entriesReadable_append (entriesReadable_append (entriesReadable_append
    (entriesReadable_append (entriesReadable_append ?_ ?_) ?_) ?_) ?_)
    ⟨fieldEntries_readable item.fields, trivial⟩
  · exact ⟨trivial, trivial, trivial, trivial, trivial⟩
  · exact entry_readable Json.str_readable item.path
  · exact entry_readable Json.str_readable item.moderationState
  · exact entry_readable (fun t => Json.str_readable t.toString) item.created
  · exact entry_readable (fun t => Json.str_readable t.toString) item.changed

/-- What a text is read as, is read from the JSON form of the item that was written. -/
theorem ofText_text (item : Item) : ofText? item.text = ofJson? item.toJson := by
  unfold ofText? text
  rw [Json.ofString_text item.toJson_readable]
  rfl

end Item

namespace Json

/-- Of entries that begin with a name, only the first can be the one with that name. -/
theorem only_cons {name : String} {v : Json} {entries : List (String × Json)} {found : Option Json}
    (h : only? ((name, v) :: entries) name = some found) : found = some v := by
  unfold only? at h
  rw [List.filter_cons_of_pos (by simp)] at h
  split at h
  · rename_i heq
    cases heq
  · rename_i heq
    obtain ⟨rfl, -⟩ := List.cons.inj heq
    exact (Option.some.inj h).symm
  · cases h

end Json

namespace Item

theorem id_of_ofJson {n : Int} {entries : List (String × Json)} {item : Item}
    (h : ofJson? (.obj (("id", .int n) :: entries)) = some item) : item.id = n := by
  unfold ofJson? at h
  split at h
  · rename_i id _ _ _ _ _ _ _ _ hrecord
    simp only [Json.record?, fieldNames, List.mapM_cons, Option.bind_eq_bind,
      Option.bind_eq_some_iff, Option.pure_def, Option.some.injEq, List.cons.injEq] at hrecord
    obtain ⟨found, hid, _, _, rfl, _⟩ := hrecord
    rw [Json.only_cons hid] at h
    simp only [Option.bind_eq_bind, Option.bind_eq_some_iff, Option.some.injEq] at h
    obtain ⟨m, hm, _, _, _, _, _, _, _, _, _, _, _, _, _, _, _, _, rfl⟩ := h
    simp only [Json.required, Json.int64?] at hm
    split at hm
    · exact (Option.some.inj hm).symm
    · cases hm
  · cases h

/-- A written item is not read as one with another id. -/
theorem id_of_ofText_text {item read : Item} (h : ofText? item.text = some read) :
    read.id = item.id := by
  rw [ofText_text] at h
  exact id_of_ofJson h

end Item

namespace ItemRow
variable {id : NodeId}

theorem find?_put_of_ne {new : ItemRow} (h : new.id ≠ id) (rows : List ItemRow) :
    (new.put rows).find? (fun row => row.id == id) = rows.find? fun row => row.id == id := by
  have hnew : (new.id == id) = false := by simpa using h
  induction rows with
  | nil => simp [put, hnew]
  | cons row rest ih =>
    unfold put
    split
    · simp [hnew]
    · split
      · rename_i heq
        have hrow : (row.id == id) = false := by simpa [heq] using h
        simp [hnew, hrow]
      · simp only [List.find?_cons, ih]

theorem text_of_mem_put {new row : ItemRow} {rows : List ItemRow} (h : row ∈ new.put rows) :
    (row.id = new.id ∧ row.text = new.text) ∨ row ∈ rows := by
  induction rows with
  | nil => exact Or.inl (by rw [List.mem_singleton.1 h]; exact ⟨rfl, rfl⟩)
  | cons r rest ih =>
    unfold put at h
    split at h
    · rcases List.mem_cons.1 h with rfl | h
      · exact Or.inl ⟨rfl, rfl⟩
      · exact Or.inr h
    · split at h
      · rcases List.mem_cons.1 h with rfl | h
        · exact Or.inl ⟨rfl, rfl⟩
        · exact Or.inr (List.mem_cons_of_mem _ h)
      · rcases List.mem_cons.1 h with rfl | h
        · exact Or.inr List.mem_cons_self
        · exact (ih h).imp_right (List.mem_cons_of_mem _)

end ItemRow

namespace ItemTable

theorem find?_put_of_ne {new : ItemRow} {id : NodeId} (h : new.id ≠ id) (table : ItemTable) :
    (table.put new).find? id = table.find? id :=
  ItemRow.find?_put_of_ne h table.rows

theorem find?_erase_of_not_mem {ids : List NodeId} {id : NodeId} (h : id ∉ ids)
    (table : ItemTable) : (table.erase ids).find? id = table.find? id := by
  unfold find? erase
  rw [List.find?_filter]
  congr 1
  funext row
  by_cases hrow : row.id = id
  · simp [hrow, h]
  · simp [hrow]

theorem mem_idsFrom {path : String} {id : NodeId} {table : ItemTable} :
    id ∈ table.idsFrom path ↔ ∃ row ∈ table.rows, row.sourcePath = some path ∧ row.id = id := by
  simp [idsFrom, and_assoc]

theorem othersFrom_erase (path : String) (id : NodeId) (table : ItemTable) :
    (table.erase (table.othersFrom path id)).othersFrom path id = [] := by
  rw [List.eq_nil_iff_forall_not_mem]
  intro other hother
  obtain ⟨hfrom, hne⟩ := List.mem_filter.1 hother
  obtain ⟨row, hrow, hpath, rfl⟩ := mem_idsFrom.1 hfrom
  obtain ⟨hold, hkept⟩ := List.mem_filter.1 hrow
  have hothers : row.id ∈ table.othersFrom path id :=
    List.mem_filter.2 ⟨mem_idsFrom.2 ⟨row, hold, hpath, rfl⟩, hne⟩
  simp [hothers] at hkept

/-- No text in the table is that of an item with an id other than its row's. -/
def OwnTexts (table : ItemTable) : Prop :=
  ∀ row ∈ table.rows, ∀ item, Item.ofText? row.text = some item → item.id = row.id

theorem ownTexts_empty : empty.OwnTexts := by
  intro row h
  cases h

theorem OwnTexts.put {table : ItemTable} (h : table.OwnTexts) (item : Item)
    (source : Option ItemSource) : (table.put (.ofItem item source)).OwnTexts := by
  intro row hrow read hread
  rcases ItemRow.text_of_mem_put hrow with ⟨hid, htext⟩ | hold
  · rw [htext] at hread
    exact (Item.id_of_ofText_text hread).trans hid.symm
  · exact h row hold read hread

theorem OwnTexts.erase {table : ItemTable} (h : table.OwnTexts) (ids : List NodeId) :
    (table.erase ids).OwnTexts :=
  fun row hrow => h row (List.mem_filter.1 hrow).1

end ItemTable

namespace Database

theorem id_of_stored {db : Database} {table : ItemTable} (htable : db.items = some table)
    (hown : table.OwnTexts) {id : NodeId} {item : Item} (h : db.stored id = .ok (some item)) :
    item.id = id := by
  rw [stored_of_items htable] at h
  cases hf : table.find? id with
  | none =>
    rw [hf] at h
    cases h
  | some row =>
    rw [hf] at h
    have hid : row.id = id := by simpa using List.find?_some hf
    have hread : Item.ofText? row.text = some item := by
      change some <$> row.item = .ok (some item) at h
      cases hitem : row.item with
      | error e =>
        rw [hitem] at h
        cases h
      | ok read =>
        rw [hitem] at h
        cases h
        exact ItemRow.item_eq_ok_iff.1 hitem
    exact (hown row (List.mem_of_find?_eq_some hf) item hread).trans hid

end Database

end Lineage
