import Lineage.Proofs.Actions
import Lineage.Proofs.MigrationFiles

/-! # Runs of migrations

However often migrations are run on a database, from whatever folders and with whatever
failures in between, the tables are what the scripts of the applied migrations made of a new
database, one after the other, and the ledger has a record of each of them and of no other. The
names that are recorded are read once, before the first script, while the ledger tells versions
apart: a migration whose version is taken fails when it is recorded, after its script, and the
transaction takes the script back, as it takes back what a script had done before it failed. -/

namespace Lineage

namespace Migration
variable {σ : Type}

def toRecord (m : Migration σ) : MigrationRecord := ⟨m.version, m.name⟩

/-- The ledger has each version once, in ascending order. -/
abbrev Ascending (records : List MigrationRecord) : Prop :=
  records.Pairwise fun a b => a.version < b.version

theorem record_cases (m : Migration σ) {records : List MigrationRecord} (h : Ascending records) :
    (∃ after, m.record records = some after ∧ after.Perm (m.toRecord :: records) ∧
        Ascending after) ∨
      m.record records = none ∧ ∃ r ∈ records, r.version = m.version := by
  induction records with
  | nil => exact Or.inl ⟨[m.toRecord], rfl, List.Perm.refl _, List.pairwise_singleton _ _⟩
  | cons r rest ih =>
    obtain ⟨hfirst, hrest⟩ := List.pairwise_cons.1 h
    unfold record
    rcases Nat.lt_trichotomy m.version r.version with hlt | heq | hgt
    · rw [if_pos hlt]
      refine Or.inl ⟨_, rfl, List.Perm.refl _, List.pairwise_cons.2 ⟨?_, h⟩⟩
      intro b hb
      rcases List.mem_cons.1 hb with rfl | hb
      · exact hlt
      · exact hlt.trans (hfirst b hb)
    · rw [if_neg (by omega), if_pos heq]
      exact Or.inr ⟨rfl, r, List.mem_cons_self, heq.symm⟩
    · rw [if_neg (by omega), if_neg (by omega)]
      rcases ih hrest with ⟨after, hafter, hperm, hasc⟩ | ⟨hnone, r', hr', heq⟩
      · rw [hafter]
        refine Or.inl ⟨r :: after, rfl, ?_, List.pairwise_cons.2 ⟨?_, hasc⟩⟩
        · exact (hperm.cons r).trans (List.Perm.swap _ _ _)
        · intro b hb
          rcases List.mem_cons.1 (hperm.mem_iff.1 hb) with rfl | hb
          · exact hgt
          · exact hfirst b hb
      · rw [hnone]
        exact Or.inr ⟨rfl, r', List.mem_cons_of_mem _ hr', heq⟩

theorem distinct_names {records : List MigrationRecord} (h : Ascending records)
    (hnumbered : ∀ r ∈ records, ScriptFile.version? r.name = some r.version) :
    (records.map MigrationRecord.name).Nodup := by
  refine List.pairwise_map.2 (h.imp_of_mem fun {a b} ha hb hlt heq => ?_)
  have hversions : some a.version = some b.version := by
    rw [← hnumbered a ha, ← hnumbered b hb, heq]
  exact Nat.ne_of_lt hlt (Option.some.inj hversions)

end Migration

namespace Database
open Migration (Loads Unloadable Ascending)
variable {σ : Type} {exec : σ → Database → Except Database Database} {applied : List (Migration σ)}
  {db after : Database}

def records (db : Database) : List MigrationRecord := db.ledger.getD []

def withRecords (db : Database) (records : List MigrationRecord) : Database :=
  { db with ledger := some records }

theorem withRecords_records (h : db.ledger.isSome = true) : db.withRecords db.records = db := by
  obtain ⟨records, hrecords⟩ := Option.isSome_iff_exists.1 h
  unfold withRecords Database.records
  rw [hrecords, Option.getD_some, ← hrecords]

/-- A script reads and writes other tables than the ledger. What a script does that fails in the end
may be anything. -/
def SparesLedger (exec : σ → Database → Except Database Database) (script : σ) : Prop :=
  ∀ db records, (exec script (withRecords db records)).toOption =
    (exec script (db.withRecords [])).toOption.map (withRecords · records)

/-- The migrations of a folder spare the ledger. -/
def Sparing (exec : σ → Database → Except Database Database) (folder : ScriptFolder σ) : Prop :=
  ∀ files, folder = some files → ∀ file ∈ files, file.isMigration = true →
    ∀ script, file.script = some script → SparesLedger exec script

/-- The tables other than the ledger are what the scripts of some migrations make of a new
database, in turn, and the ledger records these migrations. -/
structure Built (exec : σ → Database → Except Database Database) (applied : List (Migration σ))
    (db : Database) : Prop where
  tables : applied.foldlM (fun db m => exec m.script db) (fresh.withRecords []) =
    .ok (db.withRecords [])
  recorded : db.records.Perm (applied.map Migration.toRecord)
  ascending : Ascending db.records
  numbered : ∀ r ∈ db.records, ScriptFile.version? r.name = some r.version
  distinct : (db.records.map MigrationRecord.name).Nodup

theorem built_fresh : Built exec [] fresh where
  tables := rfl
  recorded := List.Perm.refl _
  ascending := List.Pairwise.nil
  numbered := by simp [records, fresh]
  distinct := List.nodup_nil

/-- A migration cannot be applied: its script fails, or its version is taken. -/
def Refuses (exec : σ → Database → Except Database Database) (db : Database) (m : Migration σ) : Prop :=
  (∃ half, exec m.script db = .error half) ∨ ∃ r ∈ db.records, r.version = m.version

theorem Built.next (h : Built exec applied db) {m : Migration σ}
    (hnumber : ScriptFile.version? m.name = some m.version)
    (hexec : exec m.script (db.withRecords []) = .ok (after.withRecords []))
    (hperm : after.records.Perm (m.toRecord :: db.records)) (hasc : Ascending after.records) :
    Built exec (applied ++ [m]) after := by
  have hnumbered : ∀ r ∈ after.records, ScriptFile.version? r.name = some r.version := by
    intro r hr
    rcases List.mem_cons.1 (hperm.mem_iff.1 hr) with rfl | hr
    · exact hnumber
    · exact h.numbered r hr
  refine ⟨?_, ?_, hasc, hnumbered, Migration.distinct_names hasc hnumbered⟩
  · rw [List.foldlM_append, h.tables]
    show (exec m.script (db.withRecords []) >>= pure) = _
    rw [bind_pure, hexec]
  · rw [List.map_append]
    exact (hperm.trans (h.recorded.cons _)).trans (List.perm_append_singleton _ _).symm

theorem perform_ledger (db : Database) (records : List MigrationRecord) :
    (db.withRecords records).perform Action.ledger = (.ok records, db.withRecords records) :=
  perform_table rfl

theorem perform_carryOut_ok {m : Migration σ} (h : exec m.script db = .ok after) :
    db.perform (m.carryOut exec) = (.ok (), after) := by
  unfold Migration.carryOut
  rw [perform_bind_ok (perform_getThe db), h]
  rfl

theorem perform_carryOut_error {m : Migration σ} {half : Database}
    (h : exec m.script db = .error half) : db.perform (m.carryOut exec) =
      (.error (.config ("Failed to execute migration " ++ m.name)), half) := by
  unfold Migration.carryOut
  rw [perform_bind_ok (perform_getThe db), h]
  rfl

theorem perform_enter_ok {m : Migration σ} {records after : List MigrationRecord}
    (h : m.record records = some after) :
    (db.withRecords records).perform m.enter = (.ok (), db.withRecords after) := by
  unfold Migration.enter
  rw [perform_bind_ok (perform_ledger db records), h]
  rfl

theorem perform_enter_error {m : Migration σ} {records : List MigrationRecord}
    (h : m.record records = none) : (db.withRecords records).perform m.enter =
      (.error (.database "UNIQUE constraint failed: schema_migrations.version"),
        db.withRecords records) := by
  unfold Migration.enter
  rw [perform_bind_ok (perform_ledger db records), h]
  rfl

/-- A script that spares the ledger succeeds with it as it does without. -/
theorem SparesLedger.cases {script : σ} (h : SparesLedger exec script)
    (hledger : db.ledger.isSome = true) :
    (∃ next : Database, exec script (db.withRecords []) = .ok (next.withRecords []) ∧
        exec script db = .ok (next.withRecords db.records)) ∨
      ∃ half, exec script db = .error half := by
  have hthere := h db db.records
  have hempty := h db []
  rw [withRecords_records hledger] at hthere
  cases hexec : exec script db with
  | error half => exact Or.inr ⟨half, rfl⟩
  | ok after =>
    rw [hexec] at hthere
    cases hscript : exec script (db.withRecords []) with
    | error half => rw [hscript] at hthere; cases hthere
    | ok next =>
      rw [hscript] at hthere hempty
      obtain rfl := Option.some.inj hthere
      exact Or.inl ⟨next, congrArg Except.ok (Option.some.inj hempty), rfl⟩

/-- A migration comes about with its record, or nothing of it does. -/
theorem run_cases {m : Migration σ} (hspares : SparesLedger exec m.script)
    (hledger : db.ledger.isSome = true) (hasc : Ascending db.records) :
    (∃ after, db.perform (m.run exec) = (.ok (), after) ∧
        exec m.script (db.withRecords []) = .ok (after.withRecords []) ∧
        after.ledger.isSome = true ∧ after.records.Perm (m.toRecord :: db.records) ∧
        Ascending after.records) ∨
      ∃ e, db.perform (m.run exec) = (.error e, db) ∧ Refuses exec db m := by
  rcases hspares.cases hledger with ⟨next, hscript, hexec⟩ | ⟨half, hexec⟩
  · have hcarry := perform_bind_ok (perform_carryOut_ok hexec) fun _ => m.enter
    rcases m.record_cases hasc with ⟨records, hrecord, hperm, hasc'⟩ | ⟨hrecord, htaken⟩
    · rw [perform_enter_ok hrecord] at hcarry
      exact Or.inl ⟨_, perform_transaction_ok hcarry, hscript, rfl, hperm, hasc'⟩
    · rw [perform_enter_error hrecord] at hcarry
      exact Or.inr ⟨_, perform_transaction_error hcarry, Or.inr htaken⟩
  · -- the transaction takes back what the script had done
    have hrun := perform_bind_error (perform_carryOut_error hexec) fun _ => m.enter
    exact Or.inr ⟨_, perform_transaction_error hrun, Or.inl ⟨half, hexec⟩⟩

/-! ## One folder -/

/-- The migrations that the names do not name. -/
def pending (names : List String) (migrations : List (Migration σ)) : List (Migration σ) :=
  migrations.filter fun m => m.name ∉ names

section
variable {names : List String} {m : Migration σ}

theorem pending_cons_named (h : m.name ∈ names) (rest : List (Migration σ)) :
    pending names (m :: rest) = pending names rest :=
  List.filter_cons_of_neg (by simpa using h)

theorem pending_cons_new (h : m.name ∉ names) (rest : List (Migration σ)) :
    pending names (m :: rest) = m :: pending names rest :=
  List.filter_cons_of_pos (by simpa using h)

theorem runUnlessIn_named (h : m.name ∈ names) : m.runUnlessIn names exec = pure () := by
  unfold Migration.runUnlessIn
  rw [if_pos (List.contains_iff_mem.2 h)]

theorem runUnlessIn_new (h : m.name ∉ names) : m.runUnlessIn names exec = m.run exec := by
  unfold Migration.runUnlessIn
  rw [if_neg (by simpa using h)]

end

/-- The loop over the migrations of a folder applies those that are not named, up to the first
that cannot be applied. -/
theorem loop_cases (names : List String) {migrations : List (Migration σ)}
    (hspares : ∀ m ∈ migrations, SparesLedger exec m.script)
    (hnumbers : ∀ m ∈ migrations, ScriptFile.version? m.name = some m.version)
    (hledger : db.ledger.isSome = true) (hbuilt : Built exec applied db) :
    (∃ after, db.perform (migrations.forM (Migration.runUnlessIn names exec)) = (.ok (), after) ∧
        after.ledger.isSome = true ∧ Built exec (applied ++ pending names migrations) after) ∨
      ∃ before m later e after, pending names migrations = before ++ m :: later ∧
        db.perform (migrations.forM (Migration.runUnlessIn names exec)) = (.error e, after) ∧
        Built exec (applied ++ before) after ∧ Refuses exec after m := by
  induction migrations generalizing db applied with
  | nil => exact Or.inl ⟨db, rfl, hledger, by simpa [pending] using hbuilt⟩
  | cons m rest ih =>
    obtain ⟨hspare, hspares⟩ := List.forall_mem_cons.1 hspares
    obtain ⟨hnumber, hnumbers⟩ := List.forall_mem_cons.1 hnumbers
    simp only [List.forM]
    by_cases hname : m.name ∈ names
    · rw [pending_cons_named hname, runUnlessIn_named hname, pure_bind]
      exact ih hspares hnumbers hledger hbuilt
    · rw [pending_cons_new hname, runUnlessIn_new hname]
      rcases run_cases hspare hledger hbuilt.ascending with
        ⟨mid, hmid, hexec, hledger', hperm, hasc⟩ | ⟨e, he, hrefuses⟩
      · rw [perform_bind_ok hmid]
        have hnext := hbuilt.next hnumber hexec hperm hasc
        rcases ih hspares hnumbers hledger' hnext with ⟨after, hafter, hledger'', hbuilt'⟩ |
          ⟨before, m', later, e, after, hsplit, he, hbuilt', hr⟩
        · exact Or.inl ⟨after, hafter, hledger'', by simpa using hbuilt'⟩
        · exact Or.inr ⟨m :: before, m', later, e, after, by rw [hsplit]; rfl, he,
            by simpa using hbuilt', hr⟩
      · exact Or.inr ⟨[], m, _, e, db, rfl, perform_bind_error he _, by simpa using hbuilt,
          hrefuses⟩

theorem loop_named {names : List String} {migrations : List (Migration σ)}
    (h : ∀ m ∈ migrations, m.name ∈ names) :
    db.perform (migrations.forM (Migration.runUnlessIn names exec)) = (.ok (), db) := by
  induction migrations with
  | nil => rfl
  | cons m rest ih =>
    obtain ⟨hname, hrest⟩ := List.forall_mem_cons.1 h
    rw [List.forM, runUnlessIn_named hname, pure_bind]
    exact ih hrest

def recordedNames (db : Database) : List String := db.records.map MigrationRecord.name

theorem perform_migrateBy (exec : σ → Database → Except Database Database) (db : Database)
    (folder : ScriptFolder σ) :
    db.perform (migrateBy exec folder) = match Migration.load folder with
      | .ok migrations => (db.withRecords db.records).perform
          (migrations.forM (Migration.runUnlessIn db.recordedNames exec))
      | .error e => (.error e, db.withRecords db.records) := by
  have hledger : db.perform ensureLedger = (.ok (), db.withRecords db.records) := by
    show (Except.ok (), { db with ledger := db.ledger <|> some [] }) = _
    unfold withRecords records
    cases db.ledger <;> rfl
  have hnames : (db.withRecords db.records).perform appliedMigrations =
      (.ok db.recordedNames, db.withRecords db.records) := by
    unfold appliedMigrations
    rw [perform_bind_ok (perform_ledger db _)]
    rfl
  unfold migrateBy
  rw [perform_bind_ok hledger, perform_bind_ok hnames, perform_bind, perform_ofExcept]
  cases Migration.load folder <;> rfl

/-- How a run from a folder ends, and which migrations it applies. -/
inductive Ends (exec : σ → Database → Except Database Database) (db : Database)
    (folder : ScriptFolder σ) : List (Migration σ) → Prop where
  /-- All migrations of the folder are recorded, so that another run has nothing to do. -/
  | done {files : List (ScriptFile σ)} {entries : List (ScriptFile σ × Migration σ)}
      {after : Database} (hfolder : folder = some files) (hloads : Loads files entries)
      (hrun : db.perform (migrateBy exec folder) = (.ok (), after))
      (hnamed : ∀ entry ∈ entries, entry.2.name ∈ after.recordedNames)
      (hagain : after.perform (migrateBy exec folder) = (.ok (), after)) :
      Ends exec db folder (pending db.recordedNames (entries.map Prod.snd))
  /-- Nothing of the folder is applied; the ledger is there. -/
  | unloadable {e : Failure} (hfolder : Unloadable folder)
      (hrun : db.perform (migrateBy exec folder) = (.error e, db.withRecords db.records)) :
      Ends exec db folder []
  /-- A migration cannot be applied. What comes before it is, and what comes later is not. -/
  | refused {files : List (ScriptFile σ)} {entries : List (ScriptFile σ × Migration σ)}
      {before later : List (Migration σ)} {m : Migration σ} {e : Failure} {after : Database}
      (hfolder : folder = some files) (hloads : Loads files entries)
      (hsplit : pending db.recordedNames (entries.map Prod.snd) = before ++ m :: later)
      (hrun : db.perform (migrateBy exec folder) = (.error e, after))
      (hrefuses : Refuses exec after m) :
      Ends exec db folder before

theorem Built.withRecords (h : Built exec applied db) :
    Built exec applied (db.withRecords db.records) :=
  ⟨h.tables, h.recorded, h.ascending, h.numbered, h.distinct⟩

theorem Built.mem_recordedNames (h : Built exec applied db) {name : String} :
    name ∈ db.recordedNames ↔ ∃ m ∈ applied, m.name = name := by
  rw [recordedNames, List.mem_map]
  simp only [h.recorded.mem_iff, List.mem_map, exists_exists_and_eq_and]
  rfl

theorem Built.run (h : Built exec applied db) {folder : ScriptFolder σ}
    (hspares : Sparing exec folder) : ∃ batch, Ends exec db folder batch ∧
      Built exec (applied ++ batch) (db.perform (migrateBy exec folder)).2 := by
  have hrun := perform_migrateBy exec db folder
  rcases Migration.load_cases folder with ⟨files, entries, hfolder, hloads, hload⟩ | ⟨e, he, hun⟩
  · rw [hload] at hrun
    have hspares' : ∀ m ∈ entries.map Prod.snd, SparesLedger exec m.script := by
      intro m hm
      obtain ⟨-, file, hfile, hsql, hscript⟩ := hloads.spec hm
      exact hspares files hfolder file hfile hsql m.script hscript
    rcases loop_cases db.recordedNames hspares' (fun m hm => (hloads.spec hm).1) rfl
        h.withRecords with ⟨after, hafter, hledger, hbuilt⟩ |
      ⟨before, m, later, e, after, hsplit, he, hbuilt, hrefuses⟩
    · have hnamed : ∀ entry ∈ entries, entry.2.name ∈ after.recordedNames := by
        intro entry hentry
        refine hbuilt.mem_recordedNames.2 ?_
        by_cases hname : entry.2.name ∈ db.recordedNames
        · obtain ⟨m, hm, heq⟩ := h.mem_recordedNames.1 hname
          exact ⟨m, List.mem_append_left _ hm, heq⟩
        · refine ⟨entry.2, List.mem_append_right _ ?_, rfl⟩
          exact List.mem_filter.2 ⟨List.mem_map_of_mem hentry, by simpa using hname⟩
      have hagain : after.perform (migrateBy exec folder) = (.ok (), after) := by
        rw [perform_migrateBy, hload]
        dsimp only
        rw [withRecords_records hledger]
        refine loop_named fun m hm => ?_
        obtain ⟨entry, hentry, rfl⟩ := List.mem_map.1 hm
        exact hnamed entry hentry
      have hdone := hrun.trans hafter
      exact ⟨_, .done hfolder hloads hdone hnamed hagain, by rw [hdone]; exact hbuilt⟩
    · have hfailed := hrun.trans he
      exact ⟨_, .refused hfolder hloads hsplit hfailed hrefuses, by rw [hfailed]; exact hbuilt⟩
  · rw [he] at hrun
    exact ⟨[], .unloadable hun hrun, by rw [hrun, List.append_nil]; exact h.withRecords⟩

theorem apply_withRecords (change : SchemaChange) (db : Database)
    (records : List MigrationRecord) : change.apply (db.withRecords records) =
      (change.apply (db.withRecords [])).map (withRecords · records) := by
  cases change with
  | create name =>
    have hfree : SchemaChange.isFree name (db.withRecords records) =
        SchemaChange.isFree name (db.withRecords []) := rfl
    unfold SchemaChange.apply
    dsimp only
    rw [hfree]
    split <;> rfl
  | createMissing table =>
    have htable : (db.withRecords records).hasTable table =
        (db.withRecords []).hasTable table := by cases table <;> rfl
    unfold SchemaChange.apply
    dsimp only
    rw [htable]
    split
    · rfl
    · cases table <;> rfl
  | invalid => rfl

theorem sparesLedger_applyAll (script : List SchemaChange) :
    SparesLedger SchemaChange.applyAll script := by
  intro db records
  unfold SchemaChange.applyAll
  induction script generalizing db with
  | nil => rfl
  | cons change rest ih =>
    rw [List.foldlM_cons, List.foldlM_cons, apply_withRecords]
    cases hafter : change.apply (db.withRecords []) with
    | none => rfl
    | some after =>
      have hempty : after = after.withRecords [] := by
        have h := apply_withRecords change db []
        rw [hafter, Option.map_some] at h
        exact Option.some.inj h
      rw [hempty]
      exact ih after

/-! ## All runs -/

/-- A new database after migrations were run on it from some folders, in turn. -/
def migratedBy (exec : σ → Database → Except Database Database) (folders : List (ScriptFolder σ)) :
    Database :=
  folders.foldl (fun db folder => (db.perform (migrateBy exec folder)).2) fresh

/-- The runs on a new database, each with the migrations that it applied, tell at every time
what the database is built of. -/
structure Faithful (exec : σ → Database → Except Database Database)
    (history : List (ScriptFolder σ × List (Migration σ))) : Prop where
  built : ∀ past, past <+: history →
    Built exec (past.flatMap Prod.snd) (migratedBy exec (past.map Prod.fst))
  ends : ∀ past run, past ++ [run] <+: history →
    Ends exec (migratedBy exec (past.map Prod.fst)) run.1 run.2

theorem migratedBy_append (exec : σ → Database → Except Database Database)
    (folders : List (ScriptFolder σ)) (folder : ScriptFolder σ) :
    migratedBy exec (folders ++ [folder]) =
      ((migratedBy exec folders).perform (migrateBy exec folder)).2 :=
  List.foldl_append

/-- Migrations are applied once, in order, and as a whole with their records, over all runs. -/
theorem migrations_apply_once (exec : σ → Database → Except Database Database)
    (folders : List (ScriptFolder σ)) (hspares : ∀ folder ∈ folders, Sparing exec folder) :
    ∃ history : List (ScriptFolder σ × List (Migration σ)),
      history.map Prod.fst = folders ∧ Faithful exec history := by
  induction folders using List.reverseRecOn with
  | nil =>
    refine ⟨[], rfl, fun past hpast => ?_, fun past run hpast => ?_⟩
    · rw [List.prefix_nil.1 hpast]
      exact built_fresh
    · simp at hpast
  | append_singleton folders folder ih =>
    simp only [List.forall_mem_append, List.forall_mem_singleton] at hspares
    obtain ⟨history, rfl, hfaithful⟩ := ih hspares.1
    have hbuilt := hfaithful.built history (List.prefix_refl _)
    obtain ⟨batch, hends, hnext⟩ := hbuilt.run hspares.2
    refine ⟨history ++ [(folder, batch)], by simp, fun past hpast => ?_, fun past run hpast => ?_⟩
    · rcases List.prefix_concat_iff.1 hpast with rfl | hpast
      · rw [List.map_append, List.map_singleton, migratedBy_append]
        simpa using hnext
      · exact hfaithful.built past hpast
    · rcases List.prefix_concat_iff.1 hpast with heq | hpast
      · obtain ⟨rfl, hrun⟩ := List.append_inj' heq rfl
        cases hrun
        exact hends
      · exact hfaithful.ends past run hpast

/-- Two migrations of one version; the second of them comes first by name. -/
def oneVersionTwice : ScriptFolder (List SchemaChange) :=
  some [⟨Text.utf8 "1_b.sql", some [.createMissing .edges]⟩,
    ⟨Text.utf8 "1_a.sql", some [.createMissing .items]⟩]

/-- After a folder that was missing, one with a version that is taken twice. -/
theorem taken_version_rolls_back :
    (∀ folder ∈ [none, oneVersionTwice], Sparing SchemaChange.applyAll folder) ∧
      (∃ history : List (ScriptFolder (List SchemaChange) × List (Migration (List SchemaChange))),
        history.map Prod.fst = [none, oneVersionTwice] ∧
          Faithful SchemaChange.applyAll history) ∧
      migratedBy SchemaChange.applyAll [none, oneVersionTwice] =
        ⟨some .empty, none, none, some [⟨1, "1_a"⟩], []⟩ := by
  have hspares : ∀ folder ∈ [none, oneVersionTwice], Sparing SchemaChange.applyAll folder :=
    fun _ _ _ _ _ _ _ script _ => sparesLedger_applyAll script
  exact ⟨hspares, migrations_apply_once _ _ hspares, by cbv⟩

/-- A script that fails half way leaves no table. -/
example : migratedBy SchemaChange.applyAll
    [some [⟨Text.utf8 "1_a.sql", some [.createMissing .items, .invalid]⟩]] =
      fresh.withRecords [] := by
  cbv

end Database
end Lineage
