import Lineage.Item.Basic

/-! The table of stored items, in ascending order of their ids and with each id once. -/

namespace Lineage

/-- A stored item. The text is the item itself; the other columns serve selection and
import, and a row that came from no file has neither path nor hash. -/
structure ItemRow where
  id : NodeId
  contentType : String
  title : String
  published : Bool
  text : String
  sourcePath : Option String
  fileHash : Option String
deriving DecidableEq, Repr

namespace ItemRow

/-- A row takes the columns of another one, except that a source which the other lacks
stays. -/
def replacedBy (old new : ItemRow) : ItemRow :=
  { new with
    sourcePath := new.sourcePath <|> old.sourcePath
    fileHash := new.fileHash <|> old.fileHash }

def put (new : ItemRow) : List ItemRow → List ItemRow
  | [] => [new]
  | row :: rest =>
    if new.id < row.id then new :: row :: rest
    else if row.id = new.id then row.replacedBy new :: rest
    else row :: put new rest

@[simp] theorem id_replacedBy (old new : ItemRow) : (old.replacedBy new).id = new.id := rfl

theorem id_mem_put {new row : ItemRow} {rows : List ItemRow} (h : row ∈ new.put rows) :
    row.id = new.id ∨ row ∈ rows := by
  induction rows with
  | nil => exact Or.inl (by rw [List.mem_singleton.1 h])
  | cons r rest ih =>
    unfold put at h
    split at h
    · rcases List.mem_cons.1 h with rfl | h
      · exact Or.inl rfl
      · exact Or.inr h
    · split at h
      · rcases List.mem_cons.1 h with rfl | h
        · exact Or.inl rfl
        · exact Or.inr (List.mem_cons_of_mem _ h)
      · rcases List.mem_cons.1 h with rfl | h
        · exact Or.inr List.mem_cons_self
        · exact (ih h).imp_right (List.mem_cons_of_mem _)

theorem ascending_put (new : ItemRow) {rows : List ItemRow}
    (h : rows.Pairwise fun a b => a.id < b.id) :
    (new.put rows).Pairwise fun a b => a.id < b.id := by
  induction rows with
  | nil => exact List.pairwise_singleton _ _
  | cons r rest ih =>
    obtain ⟨hr, hrest⟩ := List.pairwise_cons.1 h
    unfold put
    split
    · rename_i hlt
      refine List.pairwise_cons.2 ⟨fun b hb => ?_, h⟩
      rcases List.mem_cons.1 hb with rfl | hb
      · exact hlt
      · exact Int.lt_trans hlt (hr b hb)
    · split
      · rename_i heq
        exact List.pairwise_cons.2 ⟨fun b hb => by simpa [← heq] using hr b hb, hrest⟩
      · rename_i hlt hne
        refine List.pairwise_cons.2 ⟨fun b hb => ?_, ih hrest⟩
        rcases id_mem_put hb with hb | hb
        · rw [hb]
          exact Int.lt_iff_le_and_ne.2 ⟨Int.not_lt.1 hlt, hne⟩
        · exact hr b hb

end ItemRow

structure ItemTable where
  rows : List ItemRow
  ascending : rows.Pairwise fun a b => a.id < b.id
deriving DecidableEq

namespace ItemTable

def empty : ItemTable := ⟨[], .nil⟩

def find? (id : NodeId) (table : ItemTable) : Option ItemRow :=
  table.rows.find? fun row => row.id == id

/-- Inserts a row, or lets it replace the one with its id. -/
def put (row : ItemRow) (table : ItemTable) : ItemTable :=
  ⟨row.put table.rows, ItemRow.ascending_put row table.ascending⟩

def erase (ids : List NodeId) (table : ItemTable) : ItemTable :=
  ⟨table.rows.filter fun row => !ids.contains row.id, table.ascending.filter _⟩

/-- The row with another text in it, if it is the one with the id. -/
def retold (id : NodeId) (text : String) (row : ItemRow) : ItemRow :=
  if row.id == id then { row with text } else row

@[simp] theorem id_retold (id : NodeId) (text : String) (row : ItemRow) :
    (retold id text row).id = row.id := by
  unfold retold
  split <;> rfl

def setText (id : NodeId) (text : String) (table : ItemTable) : ItemTable where
  rows := table.rows.map (retold id text)
  ascending := by
    rw [List.pairwise_map]
    simpa using table.ascending

/-- The items that came from a file. -/
def idsFrom (path : String) (table : ItemTable) : List NodeId :=
  (table.rows.filter fun row => row.sourcePath == some path).map ItemRow.id

/-- The items other than `id` that came from a file. -/
def othersFrom (path : String) (id : NodeId) (table : ItemTable) : List NodeId :=
  (table.idsFrom path).filter (· != id)

end ItemTable

end Lineage
