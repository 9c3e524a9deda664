import Lineage.Database.Basic
import Mathlib.Data.List.Forall2

/-! # What actions do to a database

An action is carried out by `Database.perform`, which gives its outcome and the
database after it. The equations below take an action apart at its binds and say
what each of the few primitive actions does; with them no later proof opens the
monad. Two of them carry the weight of a failure: a transaction that fails leaves
the database as it was, and an attempt turns a failure into a value. -/

namespace Lineage

section
variable {α β ε : Type} {make : α → Except ε β}

/-- What fails is the first element of which nothing can be made. -/
theorem mapM_eq_error_iff {l : List α} {e : ε} : l.mapM make = .error e ↔
    ∃ before a after, l = before ++ a :: after ∧ make a = .error e ∧
      ∀ b ∈ before, ∃ made, make b = .ok made := by
  induction l with
  | nil =>
    refine iff_of_false (fun h => by cases h) ?_
    rintro ⟨before, a, after, hl, -⟩
    simp at hl
  | cons first rest ih =>
    have hcons : (first :: rest).mapM make = .error e ↔ make first = .error e ∨
        (∃ made, make first = .ok made) ∧ rest.mapM make = .error e := by
      rw [List.mapM_cons]
      cases make first with
      | error e => simp [bind, Except.bind]
      | ok made => cases rest.mapM make <;> simp [bind, Except.bind, pure, Except.pure]
    rw [hcons, ih]
    constructor
    · rintro (hfirst | ⟨hmade, before, a, after, rfl, ha, hbefore⟩)
      · exact ⟨[], first, rest, rfl, hfirst, by simp⟩
      · exact ⟨first :: before, a, after, rfl, ha, List.forall_mem_cons.2 ⟨hmade, hbefore⟩⟩
    · rintro ⟨before, a, after, hl, ha, hbefore⟩
      cases before with
      | nil =>
        obtain ⟨rfl, -⟩ := List.cons.inj hl
        exact Or.inl ha
      | cons b before =>
        obtain ⟨rfl, rfl⟩ := List.cons.inj hl
        obtain ⟨hmade, hbefore⟩ := List.forall_mem_cons.1 hbefore
        exact Or.inr ⟨hmade, before, a, after, rfl, ha, hbefore⟩

theorem mapM_eq_ok_iff {l : List α} {made : List β} :
    l.mapM make = .ok made ↔ List.Forall₂ (fun a b => make a = .ok b) l made := by
  induction l generalizing made with
  | nil => cases made <;> simp [pure, Except.pure]
  | cons a rest ih =>
    rw [List.mapM_cons, List.forall₂_cons_left_iff]
    cases ha : make a with
    | error e => exact iff_of_false (fun h => by cases h) (by rintro ⟨b, u, hb, -⟩; cases hb)
    | ok b =>
      cases hrest : rest.mapM make with
      | error e =>
        refine iff_of_false (fun h => by cases h) ?_
        rintro ⟨b', u, -, hu, -⟩
        rw [← ih, hrest] at hu
        cases hu
      | ok others =>
        constructor
        · intro h
          exact ⟨b, others, rfl, ih.1 hrest, (Except.ok.inj h).symm⟩
        · rintro ⟨b', u, hb, hu, rfl⟩
          cases hb
          rw [← ih, hrest] at hu
          cases hu
          rfl

theorem mapM_cases (make : α → Except ε β) (l : List α) :
    (∃ pairs : List (α × β), pairs.map Prod.fst = l ∧ (∀ p ∈ pairs, make p.1 = .ok p.2) ∧
        l.mapM make = .ok (pairs.map Prod.snd)) ∨
      ∃ a ∈ l, ∃ e, make a = .error e ∧ l.mapM make = .error e := by
  cases h : l.mapM make with
  | ok made =>
    obtain ⟨hlength, hmade⟩ := List.forall₂_iff_zip.1 (mapM_eq_ok_iff.1 h)
    refine Or.inl ⟨l.zip made, List.map_fst_zip (Nat.le_of_eq hlength), fun p hp => hmade hp, ?_⟩
    rw [List.map_snd_zip (Nat.le_of_eq hlength.symm)]
  | error e =>
    obtain ⟨before, a, after, rfl, ha, -⟩ := mapM_eq_error_iff.1 h
    exact Or.inr ⟨a, by simp, e, ha, rfl⟩

end

namespace Database
variable {α β : Type}

theorem perform_bind (db : Database) (act : Action α) (next : α → Action β) :
    db.perform (act >>= next) = match db.perform act with
      | (.ok a, after) => after.perform (next a)
      | (.error e, after) => (.error e, after) := by
  unfold perform ExceptT.run StateT.run
  simp only [bind, ExceptT.bind, ExceptT.mk, StateT.bind, ExceptT.bindCont]
  cases act db with
  | mk outcome after => cases outcome <;> rfl

theorem perform_bind_ok {db after : Database} {act : Action α} {a : α}
    (h : db.perform act = (.ok a, after)) (next : α → Action β) :
    db.perform (act >>= next) = after.perform (next a) := by
  rw [perform_bind, h]

theorem perform_bind_error {db after : Database} {act : Action α} {e : Failure}
    (h : db.perform act = (.error e, after)) (next : α → Action β) :
    db.perform (act >>= next) = (.error e, after) := by
  rw [perform_bind, h]

/-- An action in two parts that succeeds has gone through a database between them. -/
theorem of_perform_bind_ok {db after : Database} {act : Action α} {next : α → Action β} {b : β}
    (h : db.perform (act >>= next) = (.ok b, after)) :
    ∃ a mid, db.perform act = (.ok a, mid) ∧ mid.perform (next a) = (.ok b, after) := by
  rw [perform_bind] at h
  cases hact : db.perform act with
  | mk outcome mid =>
    rw [hact] at h
    cases outcome with
    | ok a => exact ⟨a, mid, rfl, h⟩
    | error e =>
      obtain ⟨herr, -⟩ := Prod.mk.inj h
      cases herr

theorem perform_map (db : Database) (f : α → β) (act : Action α) :
    db.perform (f <$> act) = match db.perform act with
      | (.ok a, after) => (.ok (f a), after)
      | (.error e, after) => (.error e, after) := by
  rw [map_eq_pure_bind, perform_bind]
  rfl

theorem perform_map_ok {db after : Database} {act : Action α} {a : α}
    (h : db.perform act = (.ok a, after)) (f : α → β) :
    db.perform (f <$> act) = (.ok (f a), after) := by
  rw [perform_map, h]

theorem of_perform_map_ok {db after : Database} {act : Action α} {f : α → β} {b : β}
    (h : db.perform (f <$> act) = (.ok b, after)) :
    ∃ a, db.perform act = (.ok a, after) ∧ f a = b := by
  rw [perform_map] at h
  split at h
  · rename_i a mid hact
    obtain ⟨hb, rfl⟩ := Prod.mk.inj h
    exact ⟨a, hact, Except.ok.inj hb⟩
  · cases h

theorem perform_map_after (db : Database) (f : α → β) (act : Action α) :
    (db.perform (f <$> act)).2 = (db.perform act).2 := by
  rw [perform_map]
  split <;> rename_i h <;> rw [h]

/-- Actions that leave the database as it is can be carried out one by one. -/
theorem perform_mapM_ok {db : Database} {act : α → Action β} {result : α → β} {as : List α}
    (h : ∀ a ∈ as, db.perform (act a) = (.ok (result a), db)) :
    db.perform (as.mapM act) = (.ok (as.map result), db) := by
  induction as with
  | nil => rfl
  | cons a rest ih =>
    rw [List.mapM_cons, perform_bind_ok (h a List.mem_cons_self),
      perform_bind_ok (ih fun b hb => h b (List.mem_cons_of_mem _ hb))]
    rfl

theorem perform_cases (db : Database) (act : Action α) :
    (∃ a after, db.perform act = (.ok a, after)) ∨
      ∃ e after, db.perform act = (.error e, after) := by
  cases h : db.perform act with
  | mk outcome after =>
    cases outcome with
    | ok a => exact Or.inl ⟨a, after, rfl⟩
    | error e => exact Or.inr ⟨e, after, rfl⟩

theorem perform_transaction_ok {db after : Database} {act : Action α} {a : α}
    (h : db.perform act = (.ok a, after)) :
    db.perform (Action.transaction act) = (.ok a, after) := by
  show (match db.perform act with
    | (.ok a, after) => (Except.ok a, after)
    | (.error e, _) => (Except.error e, db)) = _
  rw [h]

theorem perform_transaction_error {db after : Database} {act : Action α} {e : Failure}
    (h : db.perform act = (.error e, after)) :
    db.perform (Action.transaction act) = (.error e, db) := by
  show (match db.perform act with
    | (.ok a, after) => (Except.ok a, after)
    | (.error e, _) => (Except.error e, db)) = _
  rw [h]

/-- A transaction either does all that its body does, or fails and does nothing. -/
theorem transaction_cases (db : Database) (act : Action α) :
    (∃ a after, db.perform act = (.ok a, after) ∧
        db.perform (Action.transaction act) = (.ok a, after)) ∨
      ∃ e, db.perform (Action.transaction act) = (.error e, db) := by
  rcases perform_cases db act with ⟨a, after, h⟩ | ⟨e, after, h⟩
  · exact Or.inl ⟨a, after, h, perform_transaction_ok h⟩
  · exact Or.inr ⟨e, perform_transaction_error h⟩

theorem perform_attempt {db after : Database} {act : Action α} {outcome : Except Failure α}
    (h : db.perform act = (outcome, after)) :
    db.perform (Action.attempt act) = (.ok outcome, after) := by
  have hpair : db.perform (Action.attempt act) =
      (.ok (db.perform act).1, (db.perform act).2) := rfl
  rw [hpair, h]

theorem perform_ofExcept (db : Database) (result : Except Failure α) :
    db.perform (MonadExcept.ofExcept result) = (result, db) := by
  cases result <;> rfl

theorem perform_mapM_ofExcept (db : Database) (result : α → Except Failure β) (as : List α) :
    db.perform (as.mapM fun a => MonadExcept.ofExcept (result a)) = (as.mapM result, db) := by
  induction as with
  | nil => rfl
  | cons a rest ih =>
    rw [List.mapM_cons, List.mapM_cons, perform_bind, perform_ofExcept]
    cases result a with
    | error e => rfl
    | ok b =>
      dsimp only
      rw [perform_bind, ih]
      cases rest.mapM result <;> rfl

theorem perform_getThe (db : Database) :
    db.perform (getThe Database) = (.ok db, db) := rfl

theorem perform_table {db : Database} {name : String} {get : Database → Option α} {rows : α}
    (h : get db = some rows) : db.perform (Action.table name get) = (.ok rows, db) := by
  unfold Action.table
  rw [perform_bind_ok (perform_getThe db), h]
  rfl

theorem perform_table_missing {db : Database} {name : String} {get : Database → Option α}
    (h : get db = none) : db.perform (Action.table name get) =
      (.error (.database ("no such table: " ++ name)), db) := by
  unfold Action.table
  rw [perform_bind_ok (perform_getThe db), h]
  rfl

section
variable {db : Database}

theorem perform_items {table : ItemTable} (h : db.items = some table) :
    db.perform Action.items = (.ok table, db) := perform_table h

theorem perform_items_missing (h : db.items = none) :
    db.perform Action.items = (.error (.database "no such table: content_items"), db) :=
  perform_table_missing h

theorem perform_edges {table : Numbered Edge} (h : db.edges = some table) :
    db.perform Action.edges = (.ok table, db) := perform_table h

theorem perform_edges_missing (h : db.edges = none) :
    db.perform Action.edges = (.error (.database "no such table: descendant_relations"), db) :=
  perform_table_missing h

theorem perform_queue {table : Numbered QueueEntry} (h : db.queue = some table) :
    db.perform Action.queue = (.ok table, db) := perform_table h

theorem perform_queue_missing (h : db.queue = none) :
    db.perform Action.queue = (.error (.database "no such table: descendant_queue"), db) :=
  perform_table_missing h

end

theorem perform_setItems (db : Database) (table : ItemTable) :
    db.perform (Action.setItems table) = (.ok (), { db with items := some table }) := rfl

theorem perform_setQueue (db : Database) (table : Numbered QueueEntry) :
    db.perform (Action.setQueue table) = (.ok (), { db with queue := some table }) := rfl

end Database
end Lineage
