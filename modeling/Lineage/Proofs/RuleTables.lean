import Lineage.Proofs.ItemText
import Lineage.Rules.Reader

/-! # Rule tables as they are declared

A declared table is read entry by entry. An entry of a kind that reads a field of paragraphs
fails if it does not name that field, and reading stops there; an entry of a kind that is not
known is passed over. What a table that was read looks like in a file is written out here too:
written like that, a table is read as it was. -/

namespace Lineage

namespace RuleDeclaration
variable {d : RuleDeclaration} {rule : ChildRule} {contentType : String} {failure : Failure}

/-- The kinds that read a field of the item itself. -/
def plainKinds : List String := ["entity_reference", "link"]

/-- The kinds that read a field of paragraphs. -/
def paragraphKinds : List String :=
  ["field_on_paragraph", "link_field_on_paragraph_from_paragraph"]

def Known (d : RuleDeclaration) : Prop := d.kind ∈ plainKinds ++ paragraphKinds

instance (d : RuleDeclaration) : Decidable d.Known :=
  inferInstanceAs (Decidable (d.kind ∈ plainKinds ++ paragraphKinds))

/-- The entry reads a field of paragraphs and does not say which. -/
def Incomplete (d : RuleDeclaration) : Prop := d.kind ∈ paragraphKinds ∧ d.nested = none

/-- What reading says about an incomplete entry. -/
def complaint (contentType : String) (d : RuleDeclaration) : Failure :=
  .config (contentType ++ ": child rule '" ++ d.kind ++ "' on " ++ d.field ++
    " needs paragraph_field")

/-- The rule that an entry stands for. -/
inductive Declares : RuleDeclaration → ChildRule → Prop
  | reference (field : String) (nested : Option String) :
      Declares ⟨"entity_reference", field, nested⟩ (.reference field)
  | link (field : String) (nested : Option String) :
      Declares ⟨"link", field, nested⟩ (.link field)
  | nestedReference (field nested : String) :
      Declares ⟨"field_on_paragraph", field, some nested⟩ (.nestedReference field nested)
  | nestedLinks (field nested : String) :
      Declares ⟨"link_field_on_paragraph_from_paragraph", field, some nested⟩
        (.nestedLinks field nested)

theorem Declares.known (h : d.Declares rule) : d.Known := by
  cases h <;> simp [Known, plainKinds, paragraphKinds]

theorem Declares.complete (h : d.Declares rule) : ¬ d.Incomplete := by
  rintro ⟨hkind, hnested⟩
  cases h with
  | reference | link => simp [paragraphKinds] at hkind
  | nestedReference | nestedLinks => cases hnested

theorem Incomplete.known (h : d.Incomplete) : d.Known := List.mem_append_right _ h.1

/-- An entry of a known kind lacks its nested field or stands for a rule. -/
theorem Known.incomplete_or_declares (h : d.Known) : d.Incomplete ∨ ∃ rule, d.Declares rule := by
  obtain ⟨kind, field, nested⟩ := d
  have hkind : kind = "entity_reference" ∨ kind = "link" ∨ kind = "field_on_paragraph" ∨
      kind = "link_field_on_paragraph_from_paragraph" := by
    simpa [Known, plainKinds, paragraphKinds] using h
  rcases hkind with rfl | rfl | rfl | rfl
  · exact Or.inr ⟨_, .reference field nested⟩
  · exact Or.inr ⟨_, .link field nested⟩
  · cases nested with
    | none => exact Or.inl ⟨by simp [paragraphKinds], rfl⟩
    | some nested => exact Or.inr ⟨_, .nestedReference field nested⟩
  · cases nested with
    | none => exact Or.inl ⟨by simp [paragraphKinds], rfl⟩
    | some nested => exact Or.inr ⟨_, .nestedLinks field nested⟩

theorem resolve_of_declares (h : d.Declares rule) : d.resolve contentType = .ok (some rule) := by
  cases h <;> rfl

theorem resolve_of_incomplete (h : d.Incomplete) :
    d.resolve contentType = .error (d.complaint contentType) := by
  obtain ⟨kind, field, nested⟩ := d
  obtain ⟨hkind, rfl⟩ : kind ∈ paragraphKinds ∧ nested = none := h
  rcases List.mem_pair.1 hkind with rfl | rfl <;> rfl

theorem resolve_of_unknown (h : ¬ d.Known) : d.resolve contentType = .ok none := by
  have hkind : d.kind ≠ "entity_reference" ∧ d.kind ≠ "link" ∧ d.kind ≠ "field_on_paragraph" ∧
      d.kind ≠ "link_field_on_paragraph_from_paragraph" := by
    simpa [Known, plainKinds, paragraphKinds] using h
  obtain ⟨hreference, hlink, hnested, hlinks⟩ := hkind
  simp [resolve, hreference, hlink, hnested, hlinks]

theorem resolve_cases (contentType : String) (d : RuleDeclaration) :
    (d.Incomplete ∧ d.resolve contentType = .error (d.complaint contentType)) ∨
      (∃ rule, d.Declares rule ∧ d.resolve contentType = .ok (some rule)) ∨
      (¬ d.Known ∧ d.resolve contentType = .ok none) := by
  by_cases hknown : d.Known
  · rcases hknown.incomplete_or_declares with hincomplete | ⟨rule, hdeclares⟩
    · exact Or.inl ⟨hincomplete, resolve_of_incomplete hincomplete⟩
    · exact Or.inr (Or.inl ⟨rule, hdeclares, resolve_of_declares hdeclares⟩)
  · exact Or.inr (Or.inr ⟨hknown, resolve_of_unknown hknown⟩)

theorem resolve_eq_error_iff : d.resolve contentType = .error failure ↔
    d.Incomplete ∧ failure = d.complaint contentType := by
  rcases resolve_cases contentType d with ⟨hincomplete, hresolve⟩ | ⟨rule, hdeclares, hresolve⟩ |
    ⟨hunknown, hresolve⟩ <;> rw [hresolve]
  · rw [Except.error.injEq, and_iff_right hincomplete, eq_comm]
  · exact iff_of_false (by simp) fun h => hdeclares.complete h.1
  · exact iff_of_false (by simp) fun h => hunknown h.1.known

theorem resolves_iff : (∃ found, d.resolve contentType = .ok found) ↔ ¬ d.Incomplete := by
  rcases resolve_cases contentType d with ⟨hincomplete, hresolve⟩ | ⟨rule, hdeclares, hresolve⟩ |
    ⟨hunknown, hresolve⟩ <;> rw [hresolve]
  · exact iff_of_false (by simp) (not_not_intro hincomplete)
  · exact iff_of_true ⟨_, rfl⟩ hdeclares.complete
  · exact iff_of_true ⟨_, rfl⟩ fun h => hunknown h.known

/-- The field of paragraphs says nothing to a kind that reads the item itself. -/
theorem resolve_bare (hkind : d.kind ∈ plainKinds) :
    RuleDeclaration.resolve contentType { d with nested := none } = d.resolve contentType := by
  obtain ⟨kind, field, nested⟩ := d
  rcases List.mem_pair.1 hkind with rfl | rfl <;> rfl

end RuleDeclaration

namespace TypeDeclaration
open RuleDeclaration (Declares Known)
variable {declared : TypeDeclaration} {contentType : String} {failure : Failure}
  {d : RuleDeclaration} {ds es : List RuleDeclaration}

/-- The rules that entries stand for, one after another. -/
def rulesOf (contentType : String) (ds : List RuleDeclaration) : Except Failure (List ChildRule) :=
  (ds.mapM (RuleDeclaration.resolve contentType)).map fun rules => rules.filterMap id

theorem resolve_eq (contentType : String) (declared : TypeDeclaration) :
    declared.resolve contentType =
      (rulesOf contentType declared.children).map fun rules => ⟨declared.parent, rules⟩ := by
  unfold resolve rulesOf
  cases declared.children.mapM (RuleDeclaration.resolve contentType) <;> rfl

theorem rulesOf_cons (contentType : String) (d : RuleDeclaration) (ds : List RuleDeclaration) :
    rulesOf contentType (d :: ds) = (d.resolve contentType).bind fun rule =>
      (rulesOf contentType ds).map fun rules => rule.toList ++ rules := by
  unfold rulesOf
  rw [List.mapM_cons]
  cases d.resolve contentType with
  | error e => rfl
  | ok rule =>
    cases ds.mapM (RuleDeclaration.resolve contentType) with
    | error e => rfl
    | ok rules => cases rule <;> rfl

theorem rulesOf_eq_ok_iff {rules : List ChildRule} : rulesOf contentType ds = .ok rules ↔
    (∀ d ∈ ds, ¬ d.Incomplete) ∧ List.Forall₂ Declares (ds.filter Known) rules := by
  induction ds generalizing rules with
  | nil =>
    rw [List.filter_nil, List.forall₂_nil_left_iff]
    exact ⟨fun h => ⟨by simp, (Except.ok.inj h).symm⟩, fun h => congrArg _ h.2.symm⟩
  | cons d rest ih =>
    rw [rulesOf_cons, List.forall_mem_cons]
    -- only a rule is seen on both sides; an unknown entry drops out on both
    rcases RuleDeclaration.resolve_cases contentType d with ⟨hincomplete, hresolve⟩ |
      ⟨rule, hdeclares, hresolve⟩ | ⟨hunknown, hresolve⟩ <;> rw [hresolve]
    · exact iff_of_false (fun h => by cases h) fun h => h.1.1 hincomplete
    · rw [List.filter_cons_of_pos (by simpa using hdeclares.known), List.forall₂_cons_left_iff,
        and_iff_right hdeclares.complete]
      constructor
      · intro h
        cases hrest : rulesOf contentType rest with
        | error e =>
          rw [hrest] at h
          cases h
        | ok others =>
          rw [hrest] at h
          obtain ⟨hcomplete, hothers⟩ := ih.1 hrest
          exact ⟨hcomplete, rule, others, hdeclares, hothers, (Except.ok.inj h).symm⟩
      · rintro ⟨hcomplete, rule', others, hdeclares', hothers, rfl⟩
        have hsame := (RuleDeclaration.resolve_of_declares hdeclares').symm.trans hresolve
        obtain rfl := Option.some.inj (Except.ok.inj hsame)
        rw [ih.2 ⟨hcomplete, hothers⟩]
        rfl
    · rw [List.filter_cons_of_neg (by simpa using hunknown),
        and_iff_right fun h : d.Incomplete => hunknown h.known, ← ih]
      cases rulesOf contentType rest <;> rfl

theorem rulesOf_eq_error_iff : rulesOf contentType ds = .error failure ↔
    ∃ before d after, ds = before ++ d :: after ∧
      (d.Incomplete ∧ failure = d.complaint contentType) ∧ ∀ b ∈ before, ¬ b.Incomplete := by
  have hmap : rulesOf contentType ds = .error failure ↔
      ds.mapM (RuleDeclaration.resolve contentType) = .error failure := by
    unfold rulesOf
    cases ds.mapM (RuleDeclaration.resolve contentType) <;> simp [Except.map]
  rw [hmap, mapM_eq_error_iff]
  simp only [RuleDeclaration.resolve_eq_error_iff, RuleDeclaration.resolves_iff]

/-- The type is read with its parent and its rules. -/
def Yields (declared : TypeDeclaration) (rules : TypeRules) : Prop :=
  rules.parent = declared.parent ∧
    List.Forall₂ Declares (declared.children.filter Known) rules.children

theorem resolve_eq_ok_iff (contentType : String) {rules : TypeRules} :
    declared.resolve contentType = .ok rules ↔
      (∀ d ∈ declared.children, ¬ d.Incomplete) ∧ declared.Yields rules := by
  obtain ⟨parent, children⟩ := rules
  unfold Yields
  rw [resolve_eq, and_left_comm, ← rulesOf_eq_ok_iff]
  cases rulesOf contentType declared.children with
  | error e => simp [Except.map]
  | ok found => simp [Except.map, eq_comm]

theorem resolve_eq_error_iff : declared.resolve contentType = .error failure ↔
    rulesOf contentType declared.children = .error failure := by
  rw [resolve_eq]
  cases rulesOf contentType declared.children <;> simp [Except.map]

theorem resolves_iff (contentType : String) :
    (∃ rules, declared.resolve contentType = .ok rules) ↔
      ∀ d ∈ declared.children, ¬ d.Incomplete := by
  constructor
  · rintro ⟨rules, h⟩
    exact ((resolve_eq_ok_iff contentType).1 h).1
  · intro hcomplete
    cases h : declared.resolve contentType with
    | ok rules => exact ⟨rules, rfl⟩
    | error failure =>
      obtain ⟨before, d, after, hsplit, ⟨hincomplete, -⟩, -⟩ :=
        rulesOf_eq_error_iff.1 (resolve_eq_error_iff.1 h)
      exact absurd hincomplete (hcomplete d (by simp [hsplit]))

/-- What is left of entries when some that are of no use go: those of kinds that are not known,
and the field of paragraphs from those that do not read it. -/
inductive Trims : List RuleDeclaration → List RuleDeclaration → Prop
  | nil : Trims [] []
  | keep (d : RuleDeclaration) {ds es : List RuleDeclaration} (rest : Trims ds es) :
      Trims (d :: ds) (d :: es)
  | drop {d : RuleDeclaration} {ds es : List RuleDeclaration} (unknown : ¬ d.Known)
      (rest : Trims ds es) : Trims (d :: ds) es
  | bare {d : RuleDeclaration} {ds es : List RuleDeclaration}
      (plain : d.kind ∈ RuleDeclaration.plainKinds) (rest : Trims ds es) :
      Trims (d :: ds) ({ d with nested := none } :: es)

theorem Trims.rulesOf_eq (h : Trims ds es) (contentType : String) :
    rulesOf contentType es = rulesOf contentType ds := by
  induction h with
  | nil => rfl
  | keep d _ ih => rw [rulesOf_cons, rulesOf_cons, ih]
  | @drop d ds _ unknown _ ih =>
    rw [ih, rulesOf_cons, RuleDeclaration.resolve_of_unknown unknown]
    show _ = (rulesOf contentType ds).map id
    cases rulesOf contentType ds <;> rfl
  | bare plain _ ih => rw [rulesOf_cons, rulesOf_cons, RuleDeclaration.resolve_bare plain, ih]

/-- Entries with all of that gone. -/
def essentials : List RuleDeclaration → List RuleDeclaration
  | [] => []
  | d :: ds =>
    if d.kind ∈ RuleDeclaration.plainKinds then { d with nested := none } :: essentials ds
    else if d.Known then d :: essentials ds
    else essentials ds

theorem trims_essentials (ds : List RuleDeclaration) : Trims ds (essentials ds) := by
  induction ds with
  | nil => exact .nil
  | cons d ds ih =>
    unfold essentials
    split_ifs with hplain hknown
    · exact .bare hplain ih
    · exact .keep d ih
    · exact .drop hknown ih

end TypeDeclaration

/-! ## Whole tables -/

namespace DeclarationTable
variable {table : DeclarationTable} {failure : Failure}

/-- The first incomplete entry: of the first type that has such entries, in the order of types,
the one declared first. -/
def FirstIncomplete (table : DeclarationTable) (contentType : String) (d : RuleDeclaration) :
    Prop :=
  ∃ declared before after, (contentType, declared) ∈ table ∧
    declared.children = before ++ d :: after ∧ d.Incomplete ∧
    (∀ b ∈ before, ¬ b.Incomplete) ∧
    ∀ entry ∈ table, entry.1 < contentType → ∀ other ∈ entry.2.children, ¬ other.Incomplete

theorem resolve_eq_error_iff (hascending : table.Ascending) : table.resolve = .error failure ↔
    ∃ contentType d, table.FirstIncomplete contentType d ∧
      failure = d.complaint contentType := by
  have hentry : ∀ entry : String × TypeDeclaration,
      (entry.2.resolve entry.1).map (entry.1, ·) = .error failure ↔
        TypeDeclaration.rulesOf entry.1 entry.2.children = .error failure := fun entry => by
    rw [← TypeDeclaration.resolve_eq_error_iff]
    cases entry.2.resolve entry.1 <;> simp [Except.map]
  have hcomplete : ∀ entry : String × TypeDeclaration,
      (∃ made, (entry.2.resolve entry.1).map (entry.1, ·) = .ok made) ↔
        ∀ d ∈ entry.2.children, ¬ d.Incomplete := fun entry => by
    rw [← TypeDeclaration.resolves_iff entry.1]
    cases entry.2.resolve entry.1 <;> simp [Except.map]
  unfold resolve
  rw [mapM_eq_error_iff]
  simp only [hentry, hcomplete, TypeDeclaration.rulesOf_eq_error_iff]
  constructor
  · rintro ⟨entries, ⟨contentType, declared⟩, others, rfl, ⟨before, d, after, hsplit,
      ⟨hincomplete, hfailure⟩, hbefore⟩, hentries⟩
    refine ⟨contentType, d, ⟨declared, before, after, by simp, hsplit, hincomplete, hbefore,
      fun entry hmem hlt => ?_⟩, hfailure⟩
    -- in a table in order, the types below this one are those that were read before it
    obtain ⟨-, hothers, -⟩ := List.pairwise_append.1 hascending
    rcases List.mem_append.1 hmem with hmem | hmem
    · exact hentries entry hmem
    · rcases List.mem_cons.1 hmem with rfl | hmem
      · exact absurd hlt (lt_irrefl _)
      · exact absurd hlt (lt_asymm ((List.pairwise_cons.1 hothers).1 entry hmem))
  · rintro ⟨contentType, d, ⟨declared, before, after, hmem, hsplit, hincomplete, hbefore, hfirst⟩,
      hfailure⟩
    obtain ⟨entries, others, rfl⟩ := List.append_of_mem hmem
    obtain ⟨-, -, hlt⟩ := List.pairwise_append.1 hascending
    exact ⟨entries, (contentType, declared), others, rfl,
      ⟨before, d, after, hsplit, ⟨hincomplete, hfailure⟩, hbefore⟩, fun entry hentry =>
        hfirst entry (List.mem_append_left _ hentry) (hlt entry hentry _ List.mem_cons_self)⟩

/-- Every type is there with what its declaration yields. -/
def Yields (table : DeclarationTable) (rules : RuleTable) : Prop :=
  List.Forall₂ (fun entry read => read.1 = entry.1 ∧ entry.2.Yields read.2) table rules

theorem resolve_eq_ok_iff {rules : RuleTable} : table.resolve = .ok rules ↔
    (∀ entry ∈ table, ∀ d ∈ entry.2.children, ¬ d.Incomplete) ∧ table.Yields rules := by
  unfold resolve Yields
  rw [mapM_eq_ok_iff, ← List.forall₂_and_left]
  have hentry : ∀ (entry : String × TypeDeclaration) (read : String × TypeRules),
      (entry.2.resolve entry.1).map (entry.1, ·) = .ok read ↔
        (∀ d ∈ entry.2.children, ¬ d.Incomplete) ∧ read.1 = entry.1 ∧
          entry.2.Yields read.2 := by
    rintro ⟨contentType, declared⟩ ⟨name, rules⟩
    rw [and_left_comm, ← TypeDeclaration.resolve_eq_ok_iff contentType]
    cases declared.resolve contentType <;> simp [Except.map, eq_comm]
  simp only [hentry]

theorem fails_iff (hascending : table.Ascending) : (∃ failure, table.resolve = .error failure) ↔
    ∃ entry ∈ table, ∃ d ∈ entry.2.children, d.Incomplete := by
  constructor
  · rintro ⟨failure, h⟩
    obtain ⟨contentType, d, ⟨declared, before, after, hmem, hsplit, hincomplete, -⟩, -⟩ :=
      (resolve_eq_error_iff hascending).1 h
    exact ⟨_, hmem, d, by simp [hsplit], hincomplete⟩
  · rintro ⟨entry, hmem, d, hd, hincomplete⟩
    cases h : table.resolve with
    | error failure => exact ⟨failure, rfl⟩
    | ok rules => exact absurd hincomplete ((resolve_eq_ok_iff.1 h).1 entry hmem d hd)

/-- What is left of a table when some entries and fields that are of no use go. -/
def Trims (table trimmed : DeclarationTable) : Prop :=
  List.Forall₂ (fun entry left => left.1 = entry.1 ∧ left.2.parent = entry.2.parent ∧
    TypeDeclaration.Trims entry.2.children left.2.children) table trimmed

theorem Trims.resolve_eq {trimmed : DeclarationTable} (h : table.Trims trimmed) :
    trimmed.resolve = table.resolve := by
  unfold Trims at h
  unfold resolve
  induction h with
  | nil => rfl
  | @cons entry left table trimmed hentry _ ih =>
    obtain ⟨hname, hparent, hchildren⟩ := hentry
    rw [List.mapM_cons, List.mapM_cons, ih, hname, TypeDeclaration.resolve_eq,
      TypeDeclaration.resolve_eq, hparent, hchildren.rulesOf_eq]

/-- The table with all of that gone. -/
def essentials (table : DeclarationTable) : DeclarationTable :=
  table.map fun entry => (entry.1, ⟨entry.2.parent, TypeDeclaration.essentials entry.2.children⟩)

theorem trims_essentials (table : DeclarationTable) : table.Trims table.essentials := by
  unfold Trims essentials
  rw [List.forall₂_map_right_iff, List.forall₂_same]
  exact fun entry _ => ⟨rfl, rfl, TypeDeclaration.trims_essentials _⟩

end DeclarationTable

/-! ## The shape of a rule file -/

/-- An entry as it is written: its kind, its field, and the field of paragraphs if there is one. -/
def RuleDeclaration.toToml (d : RuleDeclaration) : Toml :=
  .table ([("type", .string d.kind), ("field", .string d.field)] ++
    d.nested.toList.map fun nested => ("paragraph_field", .string nested))

def TypeDeclaration.toToml (declared : TypeDeclaration) : Toml :=
  .table (declared.parent.toList.map (fun parent => ("parent", .string parent)) ++
    [("child", .array (declared.children.map RuleDeclaration.toToml))])

def DeclarationTable.toToml (table : DeclarationTable) : Toml :=
  .table (table.map fun entry => (entry.1, entry.2.toToml))

theorem RuleDeclaration.ofToml?_toToml (d : RuleDeclaration) : ofToml? d.toToml = some d := by
  obtain ⟨kind, field, nested⟩ := d
  cases nested <;> rfl

theorem TypeDeclaration.ofToml?_toToml (declared : TypeDeclaration) :
    ofToml? declared.toToml = some declared := by
  obtain ⟨parent, children⟩ := declared
  have hchildren : (children.map RuleDeclaration.toToml).mapM RuleDeclaration.ofToml? =
      some children := mapM_write fun d _ => d.ofToml?_toToml
  have hread : ofToml? (toToml ⟨parent, children⟩) =
      ((children.map RuleDeclaration.toToml).mapM RuleDeclaration.ofToml?).bind
        fun children => some ⟨parent, children⟩ := by
    cases parent <;> rfl
  rw [hread, hchildren]
  rfl

/-- A declared table is read as it was written. -/
theorem DeclarationTable.ofToml?_toToml {table : DeclarationTable}
    (hascending : table.Ascending) : ofToml? table.toToml = some table := by
  have hentries : (table.map fun entry : String × TypeDeclaration =>
      (entry.1, entry.2.toToml)).mapM (fun e => (TypeDeclaration.ofToml? e.2).map (e.1, ·)) =
        some table :=
    mapM_write fun entry _ => by rw [TypeDeclaration.ofToml?_toToml, Option.map_some]
  calc ofToml? table.toToml
      = (some table).map Dictionary.ofPairs := congrArg (Option.map Dictionary.ofPairs) hentries
    _ = some table := congrArg some (Dictionary.ofPairs_eq_self hascending)

/-- What is read from a file has its types in order. -/
theorem DeclarationTable.exists_pairs {v : Toml} {table : DeclarationTable}
    (h : ofToml? v = some table) : ∃ pairs, table = Dictionary.ofPairs pairs := by
  cases v with
  | table entries =>
    obtain ⟨pairs, -, rfl⟩ := Option.map_eq_some_iff.1 h
    exact ⟨pairs, rfl⟩
  | _ => cases h

theorem ChildRule.declares_declaration (rule : ChildRule) : rule.declaration.Declares rule := by
  cases rule <;> constructor

namespace RuleTable

theorem ascending_declarations {rules : RuleTable} (hascending : rules.Ascending) :
    Dictionary.Ascending rules.declarations :=
  List.pairwise_map.2 hascending

theorem resolve_declarations (rules : RuleTable) : rules.declarations.resolve = .ok rules := by
  have hknown : ∀ children : List ChildRule, (children.map ChildRule.declaration).filter
      RuleDeclaration.Known = children.map ChildRule.declaration := fun children => by
    rw [List.filter_eq_self]
    intro d hd
    obtain ⟨rule, -, rfl⟩ := List.mem_map.1 hd
    exact decide_eq_true rule.declares_declaration.known
  rw [DeclarationTable.resolve_eq_ok_iff]
  constructor
  · intro entry hentry d hd
    obtain ⟨⟨contentType, read⟩, -, rfl⟩ := List.mem_map.1 hentry
    obtain ⟨rule, -, rfl⟩ := List.mem_map.1 hd
    exact rule.declares_declaration.complete
  · unfold DeclarationTable.Yields declarations
    rw [List.forall₂_map_left_iff, List.forall₂_same]
    rintro ⟨contentType, read⟩ -
    refine ⟨rfl, rfl, ?_⟩
    rw [hknown, List.forall₂_map_left_iff, List.forall₂_same]
    exact fun rule _ => rule.declares_declaration

theorem ofText_of_toml {text : String} {table : DeclarationTable}
    (h : (Toml.parse? text).bind DeclarationTable.ofToml? = some table) :
    ofText text = table.resolve := by
  unfold ofText
  rw [h]

/-- Reading is exact. A declared table fails exactly if one of its entries is incomplete, and
the message names the first of them; else every type is read with its parent and with the rules
that its entries of known kinds stand for. Entries of other kinds, and a field of paragraphs where
none is read, change nothing. A table of rules that is written in the shape of a file is read as
it was. -/
theorem reading_is_exact :
    (∀ text table, (Toml.parse? text).bind DeclarationTable.ofToml? = some table →
      ofText text = table.resolve ∧ ∃ pairs, table = Dictionary.ofPairs pairs) ∧
    (∀ pairs : List (String × TypeDeclaration),
      ((∃ failure, DeclarationTable.resolve (.ofPairs pairs) = .error failure) ↔
        ∃ entry ∈ Dictionary.ofPairs pairs, ∃ d ∈ entry.2.children, d.Incomplete) ∧
      (∀ failure, DeclarationTable.resolve (.ofPairs pairs) = .error failure ↔
        ∃ contentType d, DeclarationTable.FirstIncomplete (.ofPairs pairs) contentType d ∧
          failure = .config (contentType ++ ": child rule '" ++ d.kind ++ "' on " ++ d.field ++
            " needs paragraph_field")) ∧
      ∀ rules, DeclarationTable.resolve (.ofPairs pairs) = .ok rules ↔
        (∀ entry ∈ Dictionary.ofPairs pairs, ∀ d ∈ entry.2.children, ¬ d.Incomplete) ∧
          DeclarationTable.Yields (.ofPairs pairs) rules) ∧
    (∀ table : DeclarationTable, table.Trims table.essentials ∧
      ∀ trimmed, table.Trims trimmed → trimmed.resolve = table.resolve) ∧
    ∀ inserts : List (String × TypeRules),
      (DeclarationTable.ofToml? (declarations (.ofPairs inserts)).toToml).map
          DeclarationTable.resolve = some (.ok (.ofPairs inserts)) := by
  refine ⟨fun text table h => ?_, fun pairs => ?_, fun table => ?_, fun inserts => ?_⟩
  · obtain ⟨v, -, hv⟩ := Option.bind_eq_some_iff.1 h
    exact ⟨ofText_of_toml h, DeclarationTable.exists_pairs hv⟩
  · have hascending := Dictionary.ascending_ofPairs pairs
    exact ⟨DeclarationTable.fails_iff hascending,
      fun _ => DeclarationTable.resolve_eq_error_iff hascending,
      fun _ => DeclarationTable.resolve_eq_ok_iff⟩
  · exact ⟨table.trims_essentials, fun _ htrims => htrims.resolve_eq⟩
  · rw [DeclarationTable.ofToml?_toToml
      (ascending_declarations (Dictionary.ascending_ofPairs inserts)), Option.map_some,
      resolve_declarations]

example : DeclarationTable.resolve (.ofPairs [
    ("page", ⟨none, [⟨"field_on_paragraph", "cards", none⟩]⟩),
    ("event", ⟨none, [⟨"taxonomy_term", "topics", none⟩, ⟨"link", "actions", some "cards"⟩,
      ⟨"field_on_paragraph", "places", none⟩]⟩)]) =
    .error (.config "event: child rule 'field_on_paragraph' on places needs paragraph_field") := by
  rfl

end RuleTable

end Lineage
