import Lineage.Edges
import Lineage.Proofs.Actions

/-! # Actions that only read

An action that is put together from readings leaves the database as it is, whether it
succeeds or fails on what it finds. -/

namespace Lineage

namespace Action
variable {α β : Type}

/-- The action changes nothing, whatever the database. -/
def ReadsOnly (act : Action α) : Prop := ∀ db : Database, (db.perform act).2 = db

theorem readsOnly_pure (a : α) : ReadsOnly (pure a) := fun _ => rfl

theorem readsOnly_throw (e : Failure) : ReadsOnly (throw e : Action α) := fun _ => rfl

theorem readsOnly_ofExcept (result : Except Failure α) :
    ReadsOnly (MonadExcept.ofExcept result) := by
  intro db
  rw [Database.perform_ofExcept]

theorem readsOnly_bind {act : Action α} {next : α → Action β} (h : ReadsOnly act)
    (hnext : ∀ a, ReadsOnly (next a)) : ReadsOnly (act >>= next) := by
  intro db
  rcases Database.perform_cases db act with ⟨a, after, hact⟩ | ⟨e, after, hact⟩
  · rw [Database.perform_bind_ok hact, hnext a after, ← h db, hact]
  · rw [Database.perform_bind_error hact, ← h db, hact]

theorem readsOnly_mapM {f : α → Action β} (h : ∀ a, ReadsOnly (f a)) (as : List α) :
    ReadsOnly (as.mapM f) := by
  induction as with
  | nil => exact readsOnly_pure []
  | cons a rest ih =>
    rw [List.mapM_cons]
    exact readsOnly_bind (h a) fun _ => readsOnly_bind ih fun _ => readsOnly_pure _

/-- Every reading of a list is made on the same database, up to the first that fails. -/
theorem perform_mapM_cases {f : α → Action β} (h : ∀ a, ReadsOnly (f a)) (db : Database)
    (as : List α) :
    (∃ bs, bs.length = as.length ∧ (∀ b ∈ bs, ∃ a ∈ as, db.perform (f a) = (.ok b, db)) ∧
        db.perform (as.mapM f) = (.ok bs, db)) ∨
      ∃ a ∈ as, ∃ e, db.perform (f a) = (.error e, db) ∧
        db.perform (as.mapM f) = (.error e, db) := by
  induction as with
  | nil => exact Or.inl ⟨[], rfl, by simp, rfl⟩
  | cons a rest ih =>
    have hkept := h a db
    rw [List.mapM_cons]
    rcases Database.perform_cases db (f a) with ⟨b, after, hb⟩ | ⟨e, after, he⟩
    · obtain rfl : after = db := by rwa [hb] at hkept
      rw [Database.perform_bind_ok hb]
      rcases ih with ⟨bs, hlength, hmade, hrest⟩ | ⟨bad, hbad, e, he, hrest⟩
      · refine Or.inl ⟨b :: bs, congrArg Nat.succ hlength, List.forall_mem_cons.2 ⟨?_, ?_⟩, ?_⟩
        · exact ⟨a, List.mem_cons_self, hb⟩
        · intro c hc
          obtain ⟨made, hmem, hc⟩ := hmade c hc
          exact ⟨made, List.mem_cons_of_mem _ hmem, hc⟩
        · rw [Database.perform_bind_ok hrest]
          rfl
      · exact Or.inr ⟨bad, List.mem_cons_of_mem _ hbad, e, he,
          Database.perform_bind_error hrest _⟩
    · obtain rfl : after = db := by rwa [he] at hkept
      exact Or.inr ⟨a, List.mem_cons_self, e, he, Database.perform_bind_error he _⟩

theorem readsOnly_table (name : String) (get : Database → Option α) :
    ReadsOnly (table name get) := by
  intro db
  cases h : get db with
  | some rows => rw [Database.perform_table h]
  | none => rw [Database.perform_table_missing h]

end Action

open Lineage.Action (ReadsOnly readsOnly_bind readsOnly_pure)

namespace Content

theorem readsOnly_find (filter : ContentFilter) : ReadsOnly (find filter) := by
  unfold find
  split
  · exact readsOnly_bind (Action.readsOnly_table _ _) fun _ => Action.readsOnly_ofExcept _
  · exact Action.readsOnly_throw _

theorem readsOnly_findIds (filter : ContentFilter) : ReadsOnly (findIds filter) :=
  readsOnly_bind (readsOnly_find filter) fun _ => readsOnly_pure _

theorem readsOnly_findItems (filter : ContentFilter) : ReadsOnly (findItems filter) :=
  readsOnly_bind (readsOnly_find filter) fun rows =>
    Action.readsOnly_mapM (fun _ => Action.readsOnly_ofExcept _) rows

end Content

theorem Edges.readsOnly_descendants (start : NodeId) (format : DescendantFormat) (limit : Nat) :
    ReadsOnly (descendants start format limit) := by
  unfold descendants
  split
  · exact readsOnly_pure _
  · exact readsOnly_bind (Action.readsOnly_table _ _) fun _ => readsOnly_pure _

end Lineage
