import Lineage.Proofs.Announcements
import Lineage.Proofs.Dictionaries
import Lineage.Proofs.Instants
import Lineage.Proofs.MigrationFiles
import Lineage.Proofs.Reindex

/-! # Items survive being stored

An item that was read from a text is written as one that is read again, as the same item.
The writer leaves out what has no value and always writes the fields, which the text may
have lacked, so that a paragraph may take one level more than it was read with. That level
is left: fields, their values and paragraphs take turns on the way down, and the last level
of all is never that of a paragraph. -/

namespace Lineage

section
variable {α β : Type} {read : α → Option β} {write : β → α}

theorem mapM_write {values : List β} (h : ∀ b ∈ values, read (write b) = some b) :
    (values.map write).mapM read = some values := by
  induction values with
  | nil => rfl
  | cons b rest ih =>
    obtain ⟨hb, hrest⟩ := List.forall_mem_cons.1 h
    rw [List.map_cons, List.mapM_cons, hb, ih hrest]
    rfl

theorem exists_of_mapM {sources : List α} {values : List β} (h : sources.mapM read = some values)
    {b : β} (hb : b ∈ values) : ∃ a ∈ sources, read a = some b := by
  induction sources generalizing values with
  | nil =>
    cases h
    cases hb
  | cons a rest ih =>
    rw [List.mapM_cons, Option.bind_eq_bind, Option.bind_eq_some_iff] at h
    obtain ⟨first, hfirst, h⟩ := h
    rw [Option.bind_eq_bind, Option.bind_eq_some_iff] at h
    obtain ⟨others, hothers, h⟩ := h
    cases h
    rcases List.mem_cons.1 hb with rfl | hb
    · exact ⟨a, List.mem_cons_self, hfirst⟩
    · obtain ⟨source, hsource, hread⟩ := ih hothers hb
      exact ⟨source, List.mem_cons_of_mem _ hsource, hread⟩

end

namespace Json

/-- The entries of a record whose names have these values, if they have one. -/
def entries : List String → List (Option Json) → List (String × Json)
  | name :: names, some v :: values => (name, v) :: entries names values
  | _ :: names, none :: values => entries names values
  | _, _ => []

theorem entries_cons {α : Type} (name : String) (write : α → Json) (a : Option α)
    (names : List String) (values : List (Option Json)) :
    entries (name :: names) (a.map write :: values) =
      entry? name write a ++ entries names values := by
  cases a <;> rfl

theorem name_mem_of_entries {names : List String} {values : List (Option Json)}
    {e : String × Json} (h : e ∈ entries names values) : e.1 ∈ names := by
  induction names generalizing values with
  | nil => cases h
  | cons name names ih =>
    match values with
    | [] => cases h
    | none :: values => exact List.mem_cons_of_mem _ (ih h)
    | some v :: values =>
      rcases List.mem_cons.1 h with rfl | h
      · exact List.mem_cons_self
      · exact List.mem_cons_of_mem _ (ih h)

theorem only?_append {name : String} {before : List (String × Json)}
    (h : ∀ e ∈ before, e.1 ≠ name) (rest : List (String × Json)) :
    only? (before ++ rest) name = only? rest name := by
  have hnone : before.filter (fun e => e.1 == name) = [] :=
    List.filter_eq_nil_iff.2 fun e he => by simpa using h e he
  unfold only?
  rw [List.filter_append, hnone, List.nil_append]

theorem only?_none {name : String} {rest : List (String × Json)} (h : ∀ e ∈ rest, e.1 ≠ name) :
    only? rest name = some none := by
  have happend := only?_append h []
  rwa [List.append_nil] at happend

theorem only?_cons {name : String} {rest : List (String × Json)} (h : ∀ e ∈ rest, e.1 ≠ name)
    (v : Json) : only? ((name, v) :: rest) name = some (some v) := by
  have hnone : rest.filter (fun e => e.1 == name) = [] :=
    List.filter_eq_nil_iff.2 fun e he => by simpa using h e he
  unfold only?
  rw [List.filter_cons_of_pos (by simp), hnone]

/-- The values of a record are those that its entries were made of. -/
theorem record?_entries {names : List String} {values : List (Option Json)}
    (hnames : names.Nodup) (hlength : names.length = values.length) :
    (obj (entries names values)).record? names = some values := by
  have hread : ∀ before : List (String × Json), (∀ e ∈ before, e.1 ∉ names) →
      names.mapM (only? (before ++ entries names values)) = some values := by
    induction names generalizing values with
    | nil =>
      intro before _
      rw [List.eq_nil_of_length_eq_zero hlength.symm]
      rfl
    | cons name names ih =>
      obtain ⟨hname, hnames⟩ := List.nodup_cons.1 hnames
      intro before hbefore
      have hfirst : ∀ e ∈ before, e.1 ≠ name := fun e he h =>
        hbefore e he (h ▸ List.mem_cons_self)
      have hlater : ∀ e ∈ before, e.1 ∉ names := fun e he h =>
        hbefore e he (List.mem_cons_of_mem _ h)
      match values with
      | [] => cases hlength
      | value :: values =>
        have hrest : ∀ e ∈ entries names values, e.1 ≠ name := fun e he h =>
          hname (h ▸ name_mem_of_entries he)
        have hrestLength : names.length = values.length := by simpa using hlength
        cases value with
        | none =>
          rw [List.mapM_cons, only?_append hfirst, entries, only?_none hrest,
            ih hnames hrestLength before hlater]
          rfl
        | some v =>
          have hnext : ∀ e ∈ before ++ [(name, v)], e.1 ∉ names := by
            intro e he
            rcases List.mem_append.1 he with he | he
            · exact hlater e he
            · rw [List.mem_singleton.1 he]
              exact hname
          have hagain := ih hnames hrestLength _ hnext
          rw [List.append_assoc] at hagain
          rw [List.mapM_cons, only?_append hfirst, entries, only?_cons hrest]
          show (names.mapM (only? (before ++ ([(name, v)] ++ entries names values)))).bind _ = _
          rw [hagain]
          rfl
  exact hread [] fun e he => nomatch he

/-- What is read is written so that it is read again. -/
def Kept {α : Type} (read : Json → Option α) (write : α → Json) : Prop :=
  ∀ v a, read v = some a → read (write a) = some a

theorem kept_int64 : Kept int64? .int := by
  intro v a h
  unfold int64? at h
  split at h
  · split at h
    · rename_i hrange
      cases h
      exact if_pos hrange
    · cases h
  · cases h

theorem kept_string : Kept string? .str := fun _ _ _ => rfl

theorem kept_bool : Kept bool? .bool := fun _ _ _ => rfl

section
variable {α : Type} {read : Json → Option α} {write : α → Json} {v : Option Json} {a default : α}

theorem Kept.optional (h : Kept read write) (hnull : ∀ a, write a ≠ .null) {a : Option α}
    (hread : Json.optional read v = some a) : Json.optional read (a.map write) = some a := by
  cases a with
  | none => rfl
  | some a =>
    have hsource : ∃ v, read v = some a := by
      unfold Json.optional at hread
      split at hread
      · cases hread
      · cases hread
      · rename_i v _
        obtain ⟨b, hb, hsame⟩ := Option.map_eq_some_iff.1 hread
        exact ⟨v, Option.some.inj hsame ▸ hb⟩
    obtain ⟨v, hv⟩ := hsource
    have hwrite : Json.optional read (some (write a)) = (read (write a)).map some := by
      unfold Json.optional
      split
      · rename_i hnone
        cases hnone
      · rename_i hwritten
        exact absurd (Option.some.inj hwritten) (hnull a)
      · rename_i hwritten
        rw [Option.some.inj hwritten]
    rw [Option.map_some, hwrite, h v a hv]
    rfl

theorem Kept.required (h : Kept read write) (hread : Json.required read v = some a) :
    Json.required read (some (write a)) = some a := by
  cases v with
  | none => cases hread
  | some v => exact h v a hread

theorem Kept.withDefault (h : Kept read write) (hdefault : read (write default) = some default)
    (hread : Json.withDefault default read v = some a) :
    Json.withDefault default read (some (write a)) = some a := by
  cases v with
  | none =>
    cases hread
    exact hdefault
  | some v => exact h v a hread

end

end Json

open Json (Kept)

/-! ## Levels -/

theorem valuesJson_eq (values : List FieldValue) :
    valuesJson values = values.map FieldValue.toJson := by
  induction values with
  | nil => rfl
  | cons v rest ih => rw [valuesJson, ih, List.map_cons]

theorem fieldEntries_eq (fields : List (String × List FieldValue)) :
    fieldEntries fields = fields.map fieldEntry := by
  induction fields with
  | nil => rfl
  | cons field rest ih => rw [fieldEntries, ih, List.map_cons]

namespace FieldValue

theorem toJson_eq (v : FieldValue) : v.toJson = .obj (Json.entries ["target_id", "uri", "entity"]
    [v.target.map .int, v.uri.map .str, v.paragraph.map Paragraph.toJson]) := by
  obtain ⟨target, uri, paragraph⟩ := v
  rw [Json.entries_cons, Json.entries_cons, toJson, List.append_assoc]
  cases paragraph <;> rfl

theorem toJson_ne_null (v : FieldValue) : v.toJson ≠ .null := by
  rw [toJson_eq]
  exact fun h => nomatch h

end FieldValue

namespace Paragraph

theorem toJson_eq (p : Paragraph) : p.toJson = .obj (Json.entries ["id", "type", "fields"]
    [p.id.map .int, p.kind.map .str, some (.obj (fieldEntries p.fields))]) := by
  obtain ⟨id, kind, fields⟩ := p
  rw [Json.entries_cons, Json.entries_cons, toJson, List.append_assoc]
  rfl

theorem toJson_ne_null (p : Paragraph) : p.toJson ≠ .null := by
  rw [toJson_eq]
  exact fun h => nomatch h

end Paragraph

section
variable {depth : Nat}

theorem kept_values (h : Kept (FieldValue.ofJson? depth) FieldValue.toJson) :
    Kept (valuesOfJson? (depth + 1)) fun values => .arr (valuesJson values) := by
  intro v values hread
  cases v with
  | arr items =>
    show (valuesJson values).mapM (fun v => FieldValue.ofJson? depth v) = some values
    rw [valuesJson_eq]
    refine mapM_write fun value hvalue => ?_
    obtain ⟨item, -, hitem⟩ := exists_of_mapM hread hvalue
    exact h item value hitem
  | _ => cases hread

/-- Fields are written in the order of their names, and each with the values that were read. -/
theorem kept_fields (h : Kept (valuesOfJson? depth) fun values => .arr (valuesJson values)) :
    Kept (fieldsOfJson? (depth + 1)) fun fields => .obj (fieldEntries fields) := by
  intro v fields hread
  cases v with
  | obj entries =>
    obtain ⟨pairs, hpairs, rfl⟩ := Option.map_eq_some_iff.1 hread
    have hwritten : ∀ field ∈ Dictionary.ofPairs pairs,
        (valuesOfJson? depth (fieldEntry field).2).map ((fieldEntry field).1, ·) = some field := by
      intro field hfield
      obtain ⟨e, -, he⟩ := exists_of_mapM hpairs (Dictionary.mem_of_mem_ofPairs hfield)
      obtain ⟨values, hvalues, rfl⟩ := Option.map_eq_some_iff.1 he
      show (valuesOfJson? depth (.arr (valuesJson values))).map (e.1, ·) = some (e.1, values)
      rw [h e.2 values hvalues]
      rfl
    show ((fieldEntries (Dictionary.ofPairs pairs)).mapM fun e : String × Json =>
      (valuesOfJson? depth e.2).map (e.1, ·)).map Dictionary.ofPairs = _
    rw [fieldEntries_eq, mapM_write hwritten, Option.map_some,
      Dictionary.ofPairs_eq_self (Dictionary.ascending_ofPairs pairs)]
  | _ => cases hread

/-- A paragraph is written with its fields even if it has none, and so needs a level where an
object can be read. -/
theorem kept_paragraph
    (h : Kept (fieldsOfJson? (depth + 1)) fun fields => .obj (fieldEntries fields)) :
    Kept (Paragraph.ofJson? (depth + 2)) Paragraph.toJson := by
  intro v p hread
  unfold Paragraph.ofJson? at hread
  split at hread
  · simp only [Option.bind_eq_bind, Option.bind_eq_some_iff, Option.some.injEq] at hread
    obtain ⟨id, hid, kind, hkind, fields, hfields, rfl⟩ := hread
    rw [Paragraph.toJson_eq, Paragraph.ofJson?, Json.record?_entries (by decide) rfl]
    simp only [Json.kept_int64.optional (fun _ h => nomatch h) hid,
      Json.kept_string.optional (fun _ h => nomatch h) hkind,
      h.withDefault rfl hfields, Option.bind_eq_bind, Option.bind_some]
  · cases hread

theorem kept_fieldValue (h : Kept (Paragraph.ofJson? depth) Paragraph.toJson) :
    Kept (FieldValue.ofJson? (depth + 1)) FieldValue.toJson := by
  intro v value hread
  unfold FieldValue.ofJson? at hread
  split at hread
  · simp only [Option.bind_eq_bind, Option.bind_eq_some_iff, Option.some.injEq] at hread
    obtain ⟨target, htarget, uri, huri, paragraph, hparagraph, rfl⟩ := hread
    rw [FieldValue.toJson_eq, FieldValue.ofJson?, Json.record?_entries (by decide) rfl]
    simp only [Json.kept_int64.optional (fun _ h => nomatch h) htarget,
      Json.kept_string.optional (fun _ h => nomatch h) huri,
      h.optional Paragraph.toJson_ne_null hparagraph, Option.bind_eq_bind, Option.bind_some]
  · cases hread

end

/-- Of every four levels one is that of fields. Nothing is read at level 0, and from there
the levels build on one another. -/
theorem kept_fields_level (k : Nat) :
    Kept (fieldsOfJson? (4 * k + 2)) fun fields => .obj (fieldEntries fields) := by
  have hvalue : Kept (FieldValue.ofJson? (4 * k)) FieldValue.toJson := by
    induction k with
    | zero => exact fun v value h => by simp [FieldValue.ofJson?] at h
    | succ k ih => exact kept_fieldValue (kept_paragraph (kept_fields (kept_values ih)))
  exact kept_fields (kept_values hvalue)

theorem Instant.kept : Kept Instant.ofJson? Instant.toJson := by
  intro v t h
  obtain ⟨s, -, hread⟩ := Option.bind_eq_some_iff.1 h
  show (some t.toString).bind Instant.read = some t
  rw [Option.bind_some]
  exact Instant.read_toString hread

namespace Item

theorem toJson_eq (item : Item) : item.toJson = .obj (Json.entries fieldNames
    [some (.int item.id), some (.str item.contentType), some (.str item.title),
      some (.bool item.published), item.path.map .str, item.moderationState.map .str,
      item.created.map Instant.toJson, item.changed.map Instant.toJson,
      some (.obj (fieldEntries item.fields))]) := by
  unfold toJson fieldNames
  simp only [Json.entries, Json.entries_cons, List.append_assoc, List.cons_append, List.nil_append]

theorem ofJson_toJson {v : Json} {item : Item} (h : ofJson? v = some item) :
    ofJson? item.toJson = some item := by
  unfold ofJson? at h
  split at h
  · simp only [Option.bind_eq_bind, Option.bind_eq_some_iff, Option.some.injEq] at h
    obtain ⟨id, hid, contentType, htype, title, htitle, published, hpublished, path, hpath,
      state, hstate, created, hcreated, changed, hchanged, fields, hfields, rfl⟩ := h
    have hlevel : Kept (fieldsOfJson? (nestingLimit - 1))
        fun fields => .obj (fieldEntries fields) := kept_fields_level 31
    rw [toJson_eq, ofJson?, Json.record?_entries (by decide) rfl]
    simp only [Json.kept_int64.required hid, Json.kept_string.required htype,
      Json.kept_string.withDefault rfl htitle, Json.kept_bool.withDefault rfl hpublished,
      Json.kept_string.optional (fun _ h => nomatch h) hpath,
      Json.kept_string.optional (fun _ h => nomatch h) hstate,
      Instant.kept.optional (fun _ h => nomatch h) hcreated,
      Instant.kept.optional (fun _ h => nomatch h) hchanged,
      hlevel.withDefault rfl hfields, Option.bind_eq_bind, Option.bind_some]
  · cases h

/-- What was read from a text or from a file is read again from the text that is stored. -/
theorem ofText_text_of_read {item : Item}
    (h : (∃ text, ofText? text = some item) ∨ ∃ bytes, ofBytes? bytes = some item) :
    ofText? item.text = some item := by
  have hread : ∃ v, ofJson? v = some item := by
    rcases h with ⟨text, h⟩ | ⟨bytes, h⟩
    · obtain ⟨v, -, hv⟩ := Option.bind_eq_some_iff.1 h
      exact ⟨v, hv⟩
    · obtain ⟨v, -, hv⟩ := Option.bind_eq_some_iff.1 h
      exact ⟨v, hv⟩
  obtain ⟨v, hv⟩ := hread
  rw [ofText_text]
  exact ofJson_toJson hv

end Item

/-! ## Storing and loading -/

namespace Database

def row? (db : Database) (id : NodeId) : Option ItemRow := db.items.bind (ItemTable.find? id)

theorem stored_of_row {db : Database} {id : NodeId} {row : ItemRow} {item : Item}
    (hrow : db.row? id = some row) (hitem : Item.ofText? row.text = some item) :
    db.stored id = .ok (some item) := by
  obtain ⟨table, htable, hfind⟩ := Option.bind_eq_some_iff.1 hrow
  exact stored_row htable hfind hitem

/-- An item that was read from a text or a file is not lost by being stored. Its own text
is read as the same item. After it was stored, with or without a source, and as long as
nothing replaces its row, it is loaded as it was, and a reindex finds it: that fails only
where there are no edges at all, and never because of what is stored. -/
theorem stored_item_is_kept {item : Item}
    (h : (∃ text, Item.ofText? text = some item) ∨ ∃ bytes, Item.ofBytes? bytes = some item) :
    Item.ofText? item.text = some item ∧
      ∀ (db : Database) (source : Option ItemSource), db.items.isSome →
        ∃ displaced after, db.perform (Content.save item source) = (.ok displaced, after) ∧
          ∀ later : Database, later.row? item.id = after.row? item.id →
            later.perform (Content.load? item.id) = (.ok (some item), later) ∧
            ∀ rules,
              (∀ detail, (later.perform (Edges.reindex rules item.id)).1 ≠
                .error (.content detail)) ∧
              (later.edges.isSome → ∃ outcome reindexed,
                later.perform (Edges.reindex rules item.id) = (.ok outcome, reindexed) ∧
                  outcome.found = true) := by
  have hkept := Item.ofText_text_of_read h
  refine ⟨hkept, fun db source hitems => ?_⟩
  obtain ⟨items, hitems⟩ := Option.isSome_iff_exists.1 hitems
  refine ⟨_, _, perform_save hitems item source, fun later hlater => ?_⟩
  obtain ⟨row, hrow, htext⟩ := ItemRow.text_put (.ofItem item source)
    (items.erase (Content.displaced item source items)).rows
  have hread : Item.ofText? row.text = some item := htext ▸ hkept
  have hstored : later.stored item.id = .ok (some item) :=
    stored_of_row (hlater.trans hrow) hread
  refine ⟨by rw [perform_load, hstored], fun rules => ?_⟩
  cases hedges : later.edges with
  | none =>
    rw [perform_reindex_missing hedges]
    exact ⟨fun _ herror => by simp at herror, fun hsome => by simp at hsome⟩
  | some edges =>
    rw [perform_reindex hedges hstored]
    refine ⟨fun detail herror => ?_, fun _ => ⟨_, _, rfl, rfl⟩⟩
    cases herror

/-- An item as an import may find it: with a date of another zone, a null key, an unknown key,
a value that is an array, and a paragraph of which nothing is told. -/
def terseText : String :=
  "\x7b\"changed\":\"2024-01-02T03:04:05.5+01:00\",\"id\":7,\"path\":null,\"rank\":1.5,\"type\":\"page\"," ++
    "\"fields\":\x7b\"b\":[[null,\"u\"]],\"a\":[\x7b\"entity\":[]\x7d]\x7d\x7d"

theorem terse_item_is_kept : ∃ item, Item.ofText? terseText = some item ∧
    Item.ofText? item.text = some item ∧ ∃ displaced after,
      migrated.perform (Content.save item none) = (.ok displaced, after) ∧
        after.perform (Content.load? item.id) = (.ok (some item), after) := by
  have hread : (Item.ofText? terseText).isSome = true := by decide +kernel
  obtain ⟨item, hitem⟩ := Option.isSome_iff_exists.1 hread
  obtain ⟨hkept, hstored⟩ := stored_item_is_kept (Or.inl ⟨terseText, hitem⟩)
  obtain ⟨displaced, after, hsave, hlater⟩ := hstored migrated none (by rw [migrated_eq]; rfl)
  exact ⟨item, hitem, hkept, displaced, after, hsave, (hlater after rfl).1⟩

end Database

end Lineage
