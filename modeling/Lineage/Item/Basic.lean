import Lineage.Dictionary
import Lineage.Instant

/-! Content items: an identity, what listings show, and fields of many values. A
value may refer to an item, carry a link, or hold a paragraph, which has fields in
turn. -/

namespace Lineage

/-- Items are known by 64-bit signed numbers; the readers check the range. -/
abbrev NodeId := Int

mutual
structure FieldValue where
  target : Option NodeId
  uri : Option String
  paragraph : Option Paragraph
/-- A sub-item that is stored inside the value that refers to it. -/
structure Paragraph where
  id : Option Int
  kind : Option String
  fields : List (String × List FieldValue)
end

abbrev Fields := Dictionary (List FieldValue)

namespace FieldValue

def empty : FieldValue := ⟨none, none, none⟩
def reference (target : NodeId) : FieldValue := { empty with target := some target }
def link (uri : String) : FieldValue := { empty with uri := some uri }
def holding (paragraph : Paragraph) : FieldValue := { empty with paragraph := some paragraph }

end FieldValue

/-- The values of a field; a field that is not there has none. -/
def Fields.values (fields : Fields) (name : String) : List FieldValue :=
  (Dictionary.find? fields name).getD []

namespace Paragraph

def empty : Paragraph := ⟨none, none, []⟩

def values (p : Paragraph) (name : String) : List FieldValue := Fields.values p.fields name

def withField (p : Paragraph) (name : String) (values : List FieldValue) : Paragraph :=
  { p with fields := Dictionary.insert name values p.fields }

end Paragraph

structure Item where
  id : NodeId
  contentType : String
  title : String
  published : Bool
  /-- The address under which the site shows the item, when it has one of its own. -/
  path : Option String
  moderationState : Option String
  created : Option Instant
  changed : Option Instant
  fields : Fields

namespace Item

def new (id : NodeId) (contentType : String) : Item :=
  ⟨id, contentType, "", true, none, none, none, none, []⟩

def withTitle (item : Item) (title : String) : Item := { item with title }
def unpublished (item : Item) : Item := { item with published := false }

def withField (item : Item) (name : String) (values : List FieldValue) : Item :=
  { item with fields := Dictionary.insert name values item.fields }

def values (item : Item) (name : String) : List FieldValue := Fields.values item.fields name

/-- An item without an address of its own is shown under its number. -/
def nodePath (item : Item) : String :=
  item.path.getD ("/node/" ++ toString item.id)

end Item

end Lineage
