import Lineage.Proofs.ItemText
import Lineage.Proofs.Provenance
import Lineage.Proofs.ReindexRuns

/-! # What holds of every content store

A row repeats columns of the item whose text it keeps, and is found under two keys, its id and
the path that it came from. Storing an item looks after the second key by itself: what stands
under the path with another id goes before the row is put. So no path is there twice, however
items were stored, moved to other files and deleted, and storing never fails on a path. -/

namespace Lineage

/-- The columns are those of the items that the texts hold, no id and no path is there twice, and
a path comes with a hash. -/
structure ItemTable.Consistent (table : ItemTable) : Prop where
  ids : (table.rows.map ItemRow.id).Nodup
  columns : ∀ row ∈ table.rows, ∃ item, Item.ofText? row.text = some item ∧ row.id = item.id ∧
    row.contentType = item.contentType ∧ row.title = item.title ∧ row.published = item.published
  paths : ∀ a ∈ table.rows, ∀ b ∈ table.rows, ∀ path,
    a.sourcePath = some path → b.sourcePath = some path → a = b
  sources : ∀ row ∈ table.rows, row.sourcePath.isSome = row.fileHash.isSome

namespace Content
variable {item : Item} {source : Option ItemSource} {removed : List NodeId}
variable {before after : ItemTable} {row : ItemRow}

/-- The row of an item after it was stored: a source that it was stored without is that of the
row which was there before. -/
def rowAfter (item : Item) (source : Option ItemSource) (before : ItemTable) : ItemRow :=
  { ItemRow.ofItem item source with
    sourcePath := source.map (·.path) <|> (before.find? item.id).bind ItemRow.sourcePath
    fileHash := source.map (·.hash) <|> (before.find? item.id).bind ItemRow.fileHash }

/-- Storing an item has removed the row that its path led to, if that was another one, and put
the row of the item. No other row was touched. -/
structure Saved (item : Item) (source : Option ItemSource) (removed : List NodeId)
    (before after : ItemTable) : Prop where
  atMostOne : removed.length ≤ 1
  mem_removed : ∀ id, id ∈ removed ↔ id ≠ item.id ∧ ∃ row ∈ before.rows, row.id = id ∧
    ∃ file, source = some file ∧ row.sourcePath = some file.path
  own : after.find? item.id = some (rowAfter item source before)
  gone : ∀ id ∈ removed, after.find? id = none
  others : ∀ id, id ≠ item.id → id ∉ removed → after.find? id = before.find? id

theorem mem_displaced {id : NodeId} : id ∈ displaced item source before ↔ id ≠ item.id ∧
    ∃ row ∈ before.rows, row.id = id ∧ ∃ file, source = some file ∧
      row.sourcePath = some file.path := by
  cases source with
  | none => simp [displaced]
  | some file =>
    unfold displaced ItemTable.othersFrom
    simp only [List.mem_filter, ItemTable.mem_idsFrom, bne_iff_ne, Option.some.injEq,
      exists_eq_left']
    rw [and_comm]
    simp only [and_comm]

example : displaced (Item.new 2 "page") (some ⟨"a.json", "new"⟩)
    (ItemTable.empty.put (.ofItem (Item.new 1 "page") (some ⟨"a.json", "old"⟩))) = [1] := by
  decide

theorem nodup_displaced : (displaced item source before).Nodup := by
  cases source with
  | none => exact List.nodup_nil
  | some file =>
    exact (List.filter_sublist.trans (List.filter_sublist.map ItemRow.id)).nodup before.nodup_ids

theorem length_displaced (h : before.Consistent) : (displaced item source before).length ≤ 1 := by
  have hsame : ∀ a ∈ displaced item source before, ∀ b ∈ displaced item source before, a = b := by
    intro a ha b hb
    obtain ⟨-, first, hfirst, rfl, file, rfl, hpath⟩ := mem_displaced.1 ha
    obtain ⟨-, second, hsecond, rfl, other, hother, hsamePath⟩ := mem_displaced.1 hb
    obtain rfl := Option.some.inj hother
    rw [h.paths first hfirst second hsecond file.path hpath hsamePath]
  have hnodup : (displaced item source before).Nodup := nodup_displaced
  match hlist : displaced item source before with
  | [] => exact Nat.zero_le 1
  | [_] => exact Nat.le_refl 1
  | a :: b :: rest =>
    rw [hlist] at hsame hnodup
    have hab : a = b := hsame a (by simp) b (by simp)
    simp [hab] at hnodup

theorem saved_stocked (h : before.Consistent) :
    Saved item source (displaced item source before) before (stocked item source before) where
  atMostOne := length_displaced h
  mem_removed := fun id => mem_displaced
  own := by
    have hkept : (before.erase (displaced item source before)).find? item.id =
        before.find? item.id :=
      ItemTable.find?_erase_of_not_mem (fun hid => (mem_displaced.1 hid).1 rfl) before
    have hput := ItemTable.find?_put_self (.ofItem item source)
      (before.erase (displaced item source before))
    refine hput.trans (congrArg some ?_)
    rw [show (ItemRow.ofItem item source).id = item.id from rfl, hkept]
    unfold rowAfter
    cases before.find? item.id with
    | none => cases source <;> rfl
    | some old => cases source <;> rfl
  gone := by
    intro id hid
    unfold stocked
    rw [ItemTable.find?_put_of_ne (Ne.symm (mem_displaced.1 hid).1),
      ItemTable.find?_erase_of_mem hid]
  others := by
    intro id hne hkept
    unfold stocked
    rw [ItemTable.find?_put_of_ne (by exact Ne.symm hne), ItemTable.find?_erase_of_not_mem hkept]

namespace Saved

/-- A row that is there afterwards is that of the item, or was there before and was neither
replaced nor removed. -/
theorem mem_after (h : Saved item source removed before after) (hrow : row ∈ after.rows) :
    row = rowAfter item source before ∨
      (row ∈ before.rows ∧ row.id ≠ item.id ∧ row.id ∉ removed) := by
  have hfind : after.find? row.id = some row := ItemTable.find?_eq_some_iff.2 ⟨hrow, rfl⟩
  by_cases hid : row.id = item.id
  · rw [hid, h.own] at hfind
    exact Or.inl (Option.some.inj hfind).symm
  · have hkept : row.id ∉ removed := fun hmem => by
      rw [h.gone row.id hmem] at hfind
      cases hfind
    rw [h.others row.id hid hkept] at hfind
    exact Or.inr ⟨(ItemTable.find?_eq_some_iff.1 hfind).1, hid, hkept⟩

theorem path_ne (h : Saved item source removed before after) (hbefore : before.Consistent)
    (hrow : row ∈ before.rows) (hid : row.id ≠ item.id) (hkept : row.id ∉ removed) {path : String}
    (hpath : (rowAfter item source before).sourcePath = some path) :
    row.sourcePath ≠ some path := by
  intro hsame
  cases source with
  | some file =>
    obtain rfl : file.path = path := Option.some.inj hpath
    exact hkept ((h.mem_removed row.id).2 ⟨hid, row, hrow, rfl, file, rfl, hsame⟩)
  | none =>
    obtain ⟨old, hold, holdPath⟩ := Option.bind_eq_some_iff.1 hpath
    obtain ⟨hmem, hown⟩ := ItemTable.find?_eq_some_iff.1 hold
    rw [hbefore.paths row hrow old hmem path hsame holdPath] at hid
    exact hid hown

theorem consistent (h : Saved item source removed before after) (hbefore : before.Consistent)
    (hread : Item.ofText? item.text = some item) : after.Consistent where
  ids := after.nodup_ids
  columns := by
    intro row hrow
    rcases h.mem_after hrow with rfl | ⟨hold, -⟩
    · exact ⟨item, hread, rfl, rfl, rfl, rfl⟩
    · exact hbefore.columns row hold
  paths := by
    intro a ha b hb path hpath hsame
    rcases h.mem_after ha with rfl | ⟨ha, haid, hakept⟩ <;>
      rcases h.mem_after hb with rfl | ⟨hb, hbid, hbkept⟩
    · rfl
    · exact absurd hsame (h.path_ne hbefore hb hbid hbkept hpath)
    · exact absurd hpath (h.path_ne hbefore ha haid hakept hsame)
    · exact hbefore.paths a ha b hb path hpath hsame
  sources := by
    intro row hrow
    rcases h.mem_after hrow with rfl | ⟨hold, -⟩
    · cases source with
      | some file => rfl
      | none =>
        show ((before.find? item.id).bind ItemRow.sourcePath).isSome =
          ((before.find? item.id).bind ItemRow.fileHash).isSome
        cases hold : before.find? item.id with
        | none => rfl
        | some old => exact hbefore.sources old (ItemTable.find?_eq_some_iff.1 hold).1
    · exact hbefore.sources row hold

end Saved

end Content

namespace ItemTable
variable {table fewer : ItemTable}

theorem consistent_empty : empty.Consistent where
  ids := List.nodup_nil
  columns := fun _ h => nomatch h
  paths := fun _ h => nomatch h
  sources := fun _ h => nomatch h

theorem Consistent.subset (h : table.Consistent) (hsub : ∀ row ∈ fewer.rows, row ∈ table.rows) :
    fewer.Consistent where
  ids := fewer.nodup_ids
  columns := fun row hrow => h.columns row (hsub row hrow)
  paths := fun a ha b hb => h.paths a (hsub a ha) b (hsub b hb)
  sources := fun row hrow => h.sources row (hsub row hrow)

end ItemTable

/-- What changes the content store: an item that was read from JSON is stored, one is deleted,
or the store follows files. -/
inductive StoreChange where
  | save (item : Item) (parsed : ∃ v, Item.ofJson? v = some item) (source : Option ItemSource)
  | delete (id : NodeId)
  | follow (change : ContentChange)

def StoreChange.apply (db : Database) : StoreChange → Database
  | save item _ source => (db.perform (Content.save item source)).2
  | delete id => (db.perform (Content.delete id)).2
  | follow change => change.apply db

namespace Database
variable {db : Database} {items : ItemTable}

/-- What a new database becomes by changes of its store, the first of which comes first. -/
def grownBy (changes : List StoreChange) : Database := changes.foldl StoreChange.apply migrated

theorem perform_delete (hitems : db.items = some items) (id : NodeId) :
    db.perform (Content.delete id) =
      (.ok (items.find? id).isSome, { db with items := some (items.erase [id]) }) := by
  unfold Content.delete
  rw [perform_bind_ok (perform_items hitems), perform_bind_ok (perform_setItems _ _)]
  rfl

theorem consistent_apply (h : db.StoreHas ItemTable.Consistent) (change : StoreChange) :
    (change.apply db).StoreHas ItemTable.Consistent := by
  have hsame := h
  obtain ⟨items, queue, hitems, hqueue, hconsistent⟩ := hsame
  cases change with
  | save item parsed source =>
    obtain ⟨v, hv⟩ := parsed
    have hread := (Item.ofText_text item).trans (Item.ofJson_toJson hv)
    show StoreHas ItemTable.Consistent (db.perform (Content.save item source)).2
    rw [perform_save hitems]
    exact ⟨_, queue, rfl, hqueue, (Content.saved_stocked hconsistent).consistent hconsistent hread⟩
  | delete id =>
    show StoreHas ItemTable.Consistent (db.perform (Content.delete id)).2
    rw [perform_delete hitems]
    exact ⟨_, queue, rfl, hqueue, hconsistent.subset fun row hrow =>
      (ItemTable.mem_erase.1 hrow).1⟩
  | follow change =>
    refine h.apply (fun hbefore _ hitem => ?_) fun hbefore hsub => hbefore.subset hsub
    exact (Content.saved_stocked hbefore).consistent hbefore
      (Item.ofText_text_of_read (Or.inr ⟨_, hitem⟩))

/-- A store is consistent after whatever has happened to it. -/
theorem consistent_grownBy (changes : List StoreChange) :
    (grownBy changes).StoreHas ItemTable.Consistent := by
  have hrun : ∀ db : Database, db.StoreHas ItemTable.Consistent →
      (changes.foldl StoreChange.apply db).StoreHas ItemTable.Consistent := by
    induction changes with
    | nil => exact fun db h => h
    | cons change rest ih => exact fun db h => ih _ (consistent_apply h change)
  exact hrun migrated ⟨.empty, .empty, by rw [migrated_eq], by rw [migrated_eq],
    ItemTable.consistent_empty⟩

/-- Every text stands under the id of its item, which is what reindexes rely on. -/
theorem ownTexts_grownBy (changes : List StoreChange) : (grownBy changes).OwnTexts := by
  obtain ⟨items, queue, hitems, -, hconsistent⟩ := consistent_grownBy changes
  intro table htable row hrow item hitem
  obtain rfl := Option.some.inj (hitems.symm.trans htable)
  obtain ⟨read, hread, hid, -⟩ := hconsistent.columns row hrow
  obtain rfl := Option.some.inj (hread.symm.trans hitem)
  exact hid.symm

/-- Whatever was stored, imported and deleted before, the store is consistent. So storing an
item succeeds, and it removes no row but the one that the path of the item led to. -/
theorem store_stays_consistent (changes : List StoreChange) :
    ∃ items, (grownBy changes).items = some items ∧ items.Consistent ∧
      ∀ (item : Item) (source : Option ItemSource), ∃ removed after,
        (grownBy changes).perform (Content.save item source) =
          (.ok removed, { grownBy changes with items := some after }) ∧
        Content.Saved item source removed items after := by
  obtain ⟨items, queue, hitems, -, hconsistent⟩ := consistent_grownBy changes
  refine ⟨items, hitems, hconsistent, fun item source => ?_⟩
  exact ⟨_, _, perform_save hitems item source, Content.saved_stocked hconsistent⟩

end Database

end Lineage
