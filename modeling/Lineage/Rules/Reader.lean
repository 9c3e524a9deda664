import Lineage.Failure
import Lineage.Rules.Basic
import Lineage.Toml.Parser

/-! Reading rule tables. A rule file is first read as it was declared; resolving the
declarations passes over kinds of rules that are not known and insists on the nested
field where a kind needs one. -/

namespace Lineage

structure RuleDeclaration where
  kind : String
  field : String
  nested : Option String
deriving DecidableEq, Repr

structure TypeDeclaration where
  parent : Option String
  children : List RuleDeclaration
deriving DecidableEq, Repr

abbrev DeclarationTable := Dictionary TypeDeclaration

namespace RuleDeclaration

/-- The nested field, or what to say about its absence. -/
def requireNested (contentType : String) (d : RuleDeclaration) : Except Failure String :=
  match d.nested with
  | some nested => .ok nested
  | none => .error (.config
      (contentType ++ ": child rule '" ++ d.kind ++ "' on " ++ d.field ++
        " needs paragraph_field"))

/-- The rule that is declared; a kind that is not known declares none. -/
def resolve (contentType : String) (d : RuleDeclaration) : Except Failure (Option ChildRule) :=
  if d.kind == "entity_reference" then .ok (some (.reference d.field))
  else if d.kind == "link" then .ok (some (.link d.field))
  else if d.kind == "field_on_paragraph" then
    (d.requireNested contentType).map fun nested => some (.nestedReference d.field nested)
  else if d.kind == "link_field_on_paragraph_from_paragraph" then
    (d.requireNested contentType).map fun nested => some (.nestedLinks d.field nested)
  else .ok none

def ofToml? (v : Toml) : Option RuleDeclaration :=
  match v.record? ["type", "field", "paragraph_field"] with
  | some [kind, field, nested] => do
    let kind ← Toml.required Toml.string? kind
    let field ← Toml.required Toml.string? field
    let nested ← Toml.optional Toml.string? nested
    some ⟨kind, field, nested⟩
  | _ => none

end RuleDeclaration

namespace TypeDeclaration

def resolve (contentType : String) (d : TypeDeclaration) : Except Failure TypeRules :=
  (d.children.mapM (RuleDeclaration.resolve contentType)).map fun rules =>
    ⟨d.parent, rules.filterMap id⟩

def ofToml? (v : Toml) : Option TypeDeclaration :=
  match v.record? ["parent", "child"] with
  | some [parent, children] => do
    let parent ← Toml.optional Toml.string? parent
    let children ← Toml.withDefault [] (Toml.list? RuleDeclaration.ofToml?) children
    some ⟨parent, children⟩
  | _ => none

end TypeDeclaration

namespace DeclarationTable

/-- The rules of every content type, in ascending order of the types. -/
def resolve (table : DeclarationTable) : Except Failure RuleTable :=
  table.mapM fun entry => (entry.2.resolve entry.1).map (entry.1, ·)

def ofToml? : Toml → Option DeclarationTable
  | .table entries =>
    (entries.mapM fun e => (TypeDeclaration.ofToml? e.2).map (e.1, ·)).map Dictionary.ofPairs
  | _ => none

end DeclarationTable

namespace ChildRule

def declaration (rule : ChildRule) : RuleDeclaration := ⟨rule.kind, rule.field, rule.nested?⟩

end ChildRule

namespace RuleTable

/-- The form in which a table is shown and can be read back. -/
def declarations (table : RuleTable) : DeclarationTable :=
  table.map fun (contentType, rules) =>
    (contentType, ⟨rules.parent, rules.children.map ChildRule.declaration⟩)

/-- A table from the text of a rule file. -/
def ofText (text : String) : Except Failure RuleTable :=
  match (Toml.parse? text).bind DeclarationTable.ofToml? with
  | none => .error (.config "invalid relationship rules")
  | some table => table.resolve

end RuleTable

end Lineage
