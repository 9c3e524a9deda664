import Lineage.Database.Migration

/-! The scripts of migration files. Those that make the standard tables are known; of others
only whether they ask for anything at all. -/

namespace Lineage

def StandardTable.script : StandardTable → String
  | items => "CREATE TABLE IF NOT EXISTS content_items (
    id INTEGER PRIMARY KEY,
    content_type TEXT NOT NULL,
    title TEXT NOT NULL DEFAULT '',
    published INTEGER NOT NULL DEFAULT 1,
    item_json TEXT NOT NULL,
    source_path TEXT UNIQUE,
    file_hash TEXT,
    updated_at TEXT NOT NULL
);

CREATE INDEX IF NOT EXISTS idx_content_items_type_published
    ON content_items(content_type, published);
"
  | edges => "CREATE TABLE IF NOT EXISTS descendant_relations (
    relation_id INTEGER PRIMARY KEY AUTOINCREMENT,
    reporter INTEGER NOT NULL,
    parent INTEGER NOT NULL,
    child INTEGER NOT NULL
);

CREATE INDEX IF NOT EXISTS idx_descendant_relations_reporter
    ON descendant_relations(reporter);

CREATE INDEX IF NOT EXISTS idx_descendant_relations_parent
    ON descendant_relations(parent, relation_id);
"
  | queue => "CREATE TABLE IF NOT EXISTS descendant_queue (
    queue_id INTEGER PRIMARY KEY AUTOINCREMENT,
    item_id INTEGER NOT NULL,
    enqueued_at TEXT NOT NULL,
    retry_count INTEGER NOT NULL DEFAULT 0,
    error_message TEXT,
    last_error_at TEXT
);

CREATE INDEX IF NOT EXISTS idx_descendant_queue_item
    ON descendant_queue(item_id);
"

namespace SchemaChange

def isScriptBlank (c : Char) : Bool :=
  c == ' ' || c == '\t' || c == '\n' || c == '\r' || c.toNat == 12 || c == ';'

/-- Whether nothing stands in a script but comments, which two dashes begin and the line
ends. -/
def isEmptyScript (inComment : Bool) : List Char → Bool
  | [] => true
  | '-' :: '-' :: rest => isEmptyScript true rest
  | c :: rest =>
    if inComment then isEmptyScript (c != '\n') rest
    else isScriptBlank c && isEmptyScript false rest

def ofScript (script : String) : List SchemaChange :=
  match StandardTable.all.find? fun table => table.script == script with
  | some table => [createMissing table]
  | none => if isEmptyScript false script.toList then [] else [invalid]

end SchemaChange

end Lineage
