import Lineage.Dictionary

/-! Relationship rules: which fields of which content types point at parents and at
children. A table has rules for each content type that takes part. -/

namespace Lineage

/-- How children are found through one field. -/
inductive ChildRule where
  /-- Every reference in the field is a child. -/
  | reference (field : String)
  /-- The field holds paragraphs; in each of them the first value of `nested` refers
  to a child. -/
  | nestedReference (field nested : String)
  /-- Every internal link in the field leads to a child. -/
  | link (field : String)
  /-- The field holds paragraphs; in each of them every internal link in `nested`
  leads to a child. -/
  | nestedLinks (field nested : String)
deriving DecidableEq, Repr

namespace ChildRule

def field : ChildRule → String
  | reference field | nestedReference field _ | link field | nestedLinks field _ => field

/-- The field that is read in each paragraph. -/
def nested? : ChildRule → Option String
  | nestedReference _ nested | nestedLinks _ nested => some nested
  | _ => none

/-- The name of the kind of rule in a rule file. -/
def kind : ChildRule → String
  | reference _ => "entity_reference"
  | nestedReference _ _ => "field_on_paragraph"
  | link _ => "link"
  | nestedLinks _ _ => "link_field_on_paragraph_from_paragraph"

end ChildRule

/-- The rules for one content type; the targets of the parent field are parents. -/
structure TypeRules where
  parent : Option String
  children : List ChildRule
deriving DecidableEq, Repr

abbrev RuleTable := Dictionary TypeRules

namespace RuleTable

def childOf (field : String) : TypeRules := ⟨some field, []⟩

/-- The rules that apply when no table is given. -/
def builtin : RuleTable := Dictionary.ofPairs [
  ("advisory", childOf "field_advisory_ref_organization"),
  ("decision", childOf "field_decision_ref_organization"),
  ("event", childOf "field_event_ref_parents"),
  ("executive_order", childOf "field_executive_order_ref_org"),
  ("location", ⟨none,
    [.nestedReference "field_location_activity_detail" "field_ref_location_details_page"]⟩),
  ("org_page", ⟨some "field_ref_actions_6", [.reference "field_org_ref_locations"]⟩),
  ("regulation", childOf "field_regulation_ref_org"),
  ("service_page", ⟨none,
    [.reference "field_service_eligibility_info",
     .reference "field_service_ref_locations",
     .reference "field_service_ref_guide_page_1",
     .link "field_service_ref_actions",
     .link "field_service_ref_actions_2"]⟩),
  ("topic_page", ⟨none,
    [.nestedLinks "field_topic_content_cards" "field_content_card_link_cards"]⟩)]

end RuleTable

end Lineage
