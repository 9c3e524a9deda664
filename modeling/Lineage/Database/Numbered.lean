/-! Tables that number their rows. A number is one more than the largest that was ever
given, so rows stand in ascending order and no number is given twice. -/

namespace Lineage

structure Row (α : Type) where
  id : Int
  value : α
deriving DecidableEq, Repr

/-- Rows in the order of their insertion, and the last number that was given. -/
structure Numbered (α : Type) where
  rows : List (Row α)
  lastId : Int
  ascending : rows.Pairwise fun a b => a.id < b.id
  inRange : ∀ row ∈ rows, 0 < row.id ∧ row.id ≤ lastId
  fromZero : 0 ≤ lastId
deriving DecidableEq

namespace Numbered
variable {α : Type}

def empty : Numbered α := ⟨[], 0, .nil, by simp, Int.le_refl 0⟩

def values (table : Numbered α) : List α := table.rows.map Row.value

/-- Adds a row at the end under the next number. There always is one: that the numbers of 64 bits
run out is left out, as a full disk is. -/
def add (value : α) (table : Numbered α) : Numbered α where
  rows := table.rows ++ [⟨table.lastId + 1, value⟩]
  lastId := table.lastId + 1
  ascending := by
    refine List.pairwise_append.2 ⟨table.ascending, List.pairwise_singleton _ _, ?_⟩
    intro a ha b hb
    have := (table.inRange a ha).2
    simp only [List.mem_singleton] at hb
    subst hb
    show a.id < table.lastId + 1
    omega
  inRange := by
    intro row h
    have := table.fromZero
    rcases List.mem_append.1 h with h | h
    · have := table.inRange row h
      omega
    · simp only [List.mem_singleton] at h
      subst h
      show 0 < table.lastId + 1 ∧ table.lastId + 1 ≤ table.lastId + 1
      omega
  fromZero := by
    have := table.fromZero
    omega

def addAll (values : List α) (table : Numbered α) : Numbered α :=
  values.foldl (fun table value => table.add value) table

def keep (p : Row α → Bool) (table : Numbered α) : Numbered α where
  rows := table.rows.filter p
  lastId := table.lastId
  ascending := table.ascending.filter p
  inRange := fun row h => table.inRange row (List.mem_filter.1 h).1
  fromZero := table.fromZero

def erase (id : Int) (table : Numbered α) : Numbered α :=
  table.keep fun row => row.id != id

def find? (id : Int) (table : Numbered α) : Option α :=
  (table.rows.find? fun row => row.id == id).map Row.value

/-- Changes the value of one row, which keeps its number. -/
def changed (id : Int) (change : α → α) (row : Row α) : Row α :=
  if row.id == id then { row with value := change row.value } else row

@[simp] theorem id_changed (id : Int) (change : α → α) (row : Row α) :
    (changed id change row).id = row.id := by
  unfold changed
  split <;> rfl

def modify (id : Int) (change : α → α) (table : Numbered α) : Numbered α where
  rows := table.rows.map (changed id change)
  lastId := table.lastId
  ascending := by
    rw [List.pairwise_map]
    simpa using table.ascending
  inRange := by
    intro row h
    obtain ⟨old, hold, rfl⟩ := List.mem_map.1 h
    simpa using table.inRange old hold
  fromZero := table.fromZero

end Numbered

end Lineage
