import Lineage.Relationships
import Mathlib

/-! # The edges that an item declares

Each rule looks at the values of one field, and some at the values of a field in the paragraphs
that these hold. A child thus stands at a place: a rule, a value of its field and, where the
rule goes into paragraphs, a value there. The edges of an item are what stands at the places
that exist, in ascending order, and nothing else; and since a place is looked at with regard to
one key only, items whose places agree in that key declare the same edges. -/

namespace Lineage

/-- The list shows what stands at the places, in ascending order of these. -/
def InOrder {κ α : Type} (before : κ → κ → Prop) (stands : κ → α → Prop) (xs : List α) : Prop :=
  ∃ found : List (κ × α), found.map Prod.snd = xs ∧
    found.Pairwise (fun first second => before first.1 second.1) ∧
    ∀ place a, (place, a) ∈ found ↔ stands place a

namespace InOrder
variable {κ α β : Type} {before : κ → κ → Prop}

theorem congr {stands other : κ → α → Prop} {xs : List α} (h : InOrder before stands xs)
    (hsame : ∀ place a, stands place a ↔ other place a) : InOrder before other xs := by
  obtain ⟨found, hxs, hbefore, hmem⟩ := h
  exact ⟨found, hxs, hbefore, fun place a => (hmem place a).trans (hsame place a)⟩

theorem map {stands : κ → α → Prop} {xs : List α} (h : InOrder before stands xs) (f : α → β) :
    InOrder before (fun place b => ∃ a, stands place a ∧ f a = b) (xs.map f) := by
  obtain ⟨found, rfl, hbefore, hmem⟩ := h
  refine ⟨found.map fun pair => (pair.1, f pair.2), ?_, ?_, fun place b => ?_⟩
  · rw [List.map_map, List.map_map]
    rfl
  · rw [List.pairwise_map]
    exact hbefore
  · simp [← hmem]

theorem pairwise_zipIdx (xs : List α) : xs.zipIdx.Pairwise fun a b => a.2 < b.2 := by
  rw [← List.pairwise_map, List.zipIdx_map_snd]
  exact List.pairwise_lt_range'

/-- What follows from the values of a list, in the order of these and for each of them in its
own order. -/
theorem flatMap {stands : α → κ → β → Prop} {f : α → List β}
    (h : ∀ a, InOrder before (stands a) (f a)) (xs : List α) :
    InOrder (Prod.Lex (· < ·) before)
      (fun (place : Nat × κ) b => ∃ a, xs[place.1]? = some a ∧ stands a place.2 b)
      (xs.flatMap f) := by
  choose found hfound hbefore hmem using h
  refine ⟨xs.zipIdx.flatMap fun a => (found a.1).map fun pair => ((a.2, pair.1), pair.2),
    ?_, ?_, fun place b => ?_⟩
  · have hvalues : ∀ a : α × Nat, ((found a.1).map fun pair => ((a.2, pair.1), pair.2)).map
        Prod.snd = f a.1 := by
      intro a
      rw [List.map_map, ← hfound a.1]
      rfl
    simp only [List.map_flatMap, hvalues]
    rw [← List.flatMap_map Prod.fst f, List.zipIdx_map_fst]
  · rw [List.pairwise_flatMap]
    constructor
    · intro a _
      rw [List.pairwise_map]
      refine (hbefore a.1).imp fun hlt => ?_
      exact .right a.2 hlt
    · refine (pairwise_zipIdx xs).imp fun {a b} hlt first hfirst second hsecond => ?_
      obtain ⟨x, -, rfl⟩ := List.mem_map.1 hfirst
      obtain ⟨y, -, rfl⟩ := List.mem_map.1 hsecond
      exact .left _ _ hlt
  · simp only [List.mem_flatMap, List.mem_map, ← hmem]
    constructor
    · rintro ⟨⟨a, i⟩, ha, ⟨k, c⟩, hc, heq⟩
      obtain ⟨rfl, rfl⟩ := Prod.mk.inj heq
      exact ⟨a, List.mem_zipIdx_iff_getElem?.1 ha, hc⟩
    · rintro ⟨a, ha, hb⟩
      exact ⟨(a, place.1), List.mem_zipIdx_iff_getElem?.2 ha, (place.2, b), hb, rfl⟩

/-- What follows from the values of a list, where from each of them at most one thing does. -/
theorem filterMap (f : α → Option β) (xs : List α) :
    InOrder (· < ·) (fun (place : Nat) b => ∃ a, xs[place]? = some a ∧ f a = some b)
      (xs.filterMap f) := by
  refine ⟨xs.zipIdx.filterMap fun a => (f a.1).map fun b => (a.2, b), ?_, ?_, fun place b => ?_⟩
  · have hvalue : ∀ a : α × Nat, ((f a.1).map fun b => (a.2, b)).map Prod.snd = f a.1 := by
      intro a
      rw [Option.map_map]
      exact congrFun Option.map_id (f a.1)
    have hfirst : xs.zipIdx.filterMap (f ∘ Prod.fst) = xs.filterMap f := by
      rw [← List.filterMap_map, List.zipIdx_map_fst]
    simp only [List.map_filterMap, hvalue]
    exact hfirst
  · rw [List.pairwise_filterMap]
    refine (pairwise_zipIdx xs).imp fun {a b} hlt first hfirst second hsecond => ?_
    obtain ⟨x, -, rfl⟩ := Option.map_eq_some_iff.1 hfirst
    obtain ⟨y, -, rfl⟩ := Option.map_eq_some_iff.1 hsecond
    exact hlt
  · simp only [List.mem_filterMap, Option.map_eq_some_iff]
    constructor
    · rintro ⟨⟨a, i⟩, ha, c, hc, heq⟩
      obtain ⟨rfl, rfl⟩ := Prod.mk.inj heq
      exact ⟨a, List.mem_zipIdx_iff_getElem?.1 ha, hc⟩
    · rintro ⟨a, ha, hb⟩
      exact ⟨(a, place), List.mem_zipIdx_iff_getElem?.2 ha, b, hb, rfl⟩

theorem toList (found : Option α) :
    InOrder (· < ·) (fun (place : Nat) a => place = 0 ∧ found = some a) found.toList := by
  cases found with
  | none => exact ⟨[], rfl, .nil, by simp⟩
  | some a => exact ⟨[(0, a)], rfl, by simp, by simp [eq_comm]⟩

end InOrder

/-! ## What a rule finds -/

namespace ChildRule

/-- A rule finds a child in a value of its field: by a key of the value itself, by the first of
the nested values, or by the one at some place among them. -/
inductive FindsIn : ChildRule → FieldValue → Nat → NodeId → Prop where
  | reference {field : String} {value : FieldValue} {child : NodeId}
      (htarget : value.target = some child) : FindsIn (.reference field) value 0 child
  | nestedReference {field nested : String} {value first : FieldValue} {p : Paragraph}
      {child : NodeId} (hparagraph : value.paragraph = some p)
      (hfirst : (p.values nested).head? = some first) (htarget : first.target = some child) :
      FindsIn (.nestedReference field nested) value 0 child
  | link {field : String} {value : FieldValue} {uri : String} {child : NodeId}
      (huri : value.uri = some uri) (hlink : NodeLink.target? uri = some child) :
      FindsIn (.link field) value 0 child
  | nestedLink {field nested : String} {value inner : FieldValue} {p : Paragraph} {place : Nat}
      {uri : String} {child : NodeId} (hparagraph : value.paragraph = some p)
      (hinner : (p.values nested)[place]? = some inner) (huri : inner.uri = some uri)
      (hlink : NodeLink.target? uri = some child) :
      FindsIn (.nestedLinks field nested) value place child

/-- How often a rule finds a child in a value of its field. -/
def timesIn (child : NodeId) : ChildRule → FieldValue → Nat
  | reference _, value => if value.target = some child then 1 else 0
  | nestedReference _ nested, value =>
    if value.paragraph.any fun p =>
      (p.values nested).head?.any fun first => first.target == some child then 1 else 0
  | link _, value => if value.uri.any fun uri => NodeLink.target? uri == some child then 1 else 0
  | nestedLinks _ nested, value =>
    (value.paragraph.map fun p => (p.values nested).countP fun inner =>
      inner.uri.any fun uri => NodeLink.target? uri == some child).getD 0

/-- Two values agree in what a rule reads of them. -/
def Same : ChildRule → FieldValue → FieldValue → Prop
  | reference _, value, other => value.target = other.target
  | nestedReference _ nested, value, other =>
    value.paragraph.map (fun p => (p.values nested).head?.map FieldValue.target) =
      other.paragraph.map fun p => (p.values nested).head?.map FieldValue.target
  | link _, value, other => value.uri = other.uri
  | nestedLinks _ nested, value, other =>
    value.paragraph.map (fun p => (p.values nested).map FieldValue.uri) =
      other.paragraph.map fun p => (p.values nested).map FieldValue.uri

/-- What a rule finds in one value. -/
def found : ChildRule → FieldValue → List NodeId
  | reference _, value => value.target.toList
  | nestedReference _ nested, value =>
    (value.paragraph.bind fun p => (p.values nested).head?.bind (·.target)).toList
  | link _, value => (value.uri.bind NodeLink.target?).toList
  | nestedLinks _ nested, value =>
    value.paragraph.toList.flatMap fun p =>
      (p.values nested).filterMap fun inner => inner.uri.bind NodeLink.target?

theorem children_eq (rule : ChildRule) (item : Item) :
    rule.children item = (item.values rule.field).flatMap rule.found := by
  cases rule with
  | reference field => exact List.filterMap_eq_flatMap_toList _ _
  | nestedReference field nested => exact List.filterMap_eq_flatMap_toList _ _
  | link field => exact List.filterMap_eq_flatMap_toList _ _
  | nestedLinks field nested =>
    show ((item.values field).filterMap (·.paragraph)).flatMap _ = _
    rw [List.filterMap_eq_flatMap_toList, List.flatMap_assoc]
    rfl

theorem found_inOrder (rule : ChildRule) (value : FieldValue) :
    InOrder (· < ·) (rule.FindsIn value) (rule.found value) := by
  cases rule with
  | reference field =>
    refine (InOrder.toList value.target).congr fun place child => ⟨?_, fun h => ?_⟩
    · rintro ⟨rfl, htarget⟩
      exact .reference htarget
    · cases h with
      | reference htarget => exact ⟨rfl, htarget⟩
  | nestedReference field nested =>
    refine (InOrder.toList _).congr fun place child => ⟨?_, fun h => ?_⟩
    · rintro ⟨rfl, hfound⟩
      obtain ⟨p, hparagraph, hfound⟩ := Option.bind_eq_some_iff.1 hfound
      obtain ⟨first, hfirst, htarget⟩ := Option.bind_eq_some_iff.1 hfound
      exact .nestedReference hparagraph hfirst htarget
    · cases h with
      | nestedReference hparagraph hfirst htarget => simp [hparagraph, hfirst, htarget]
  | link field =>
    refine (InOrder.toList _).congr fun place child => ⟨?_, fun h => ?_⟩
    · rintro ⟨rfl, hfound⟩
      obtain ⟨uri, huri, hlink⟩ := Option.bind_eq_some_iff.1 hfound
      exact .link huri hlink
    · cases h with
      | link huri hlink => simp [huri, hlink]
  | nestedLinks field nested =>
    cases hvalue : value.paragraph with
    | none =>
      refine ⟨[], ?_, .nil, fun place child => ⟨nofun, fun h => ?_⟩⟩
      · simp [found, hvalue]
      · cases h with
        | nestedLink hparagraph => simp [hvalue] at hparagraph
    | some p =>
      have hfound : found (.nestedLinks field nested) value =
          (p.values nested).filterMap fun inner => inner.uri.bind NodeLink.target? := by
        simp [found, hvalue]
      rw [hfound]
      refine (InOrder.filterMap _ _).congr fun place child => ⟨?_, fun h => ?_⟩
      · rintro ⟨inner, hinner, hlink⟩
        obtain ⟨uri, huri, hlink⟩ := Option.bind_eq_some_iff.1 hlink
        exact .nestedLink hvalue hinner huri hlink
      · cases h with
        | nestedLink hparagraph hinner huri hlink =>
          obtain rfl := Option.some.inj (hvalue.symm.trans hparagraph)
          exact ⟨_, hinner, by rw [huri]; exact hlink⟩

theorem count_toList (found : Option NodeId) (child : NodeId) :
    found.toList.count child = if found = some child then 1 else 0 := by
  cases found <;> simp [List.count_singleton]

theorem count_found (rule : ChildRule) (value : FieldValue) (child : NodeId) :
    (rule.found value).count child = rule.timesIn child value := by
  cases rule with
  | reference field => exact count_toList _ _
  | nestedReference field nested =>
    refine (count_toList _ _).trans ?_
    cases hvalue : value.paragraph with
    | none => simp [timesIn, hvalue]
    | some p => cases hfirst : (p.values nested).head? <;> simp [timesIn, hvalue, hfirst]
  | link field =>
    refine (count_toList _ _).trans ?_
    cases huri : value.uri <;> simp [timesIn, huri]
  | nestedLinks field nested =>
    cases hvalue : value.paragraph with
    | none => simp [found, timesIn, hvalue]
    | some p =>
      simp only [found, timesIn, hvalue, Option.toList_some, List.flatMap_singleton,
        Option.map_some, Option.getD_some, List.count_filterMap]
      refine List.countP_congr fun inner _ => ?_
      cases inner.uri <;> simp

theorem Same.found_eq {rule : ChildRule} {value other : FieldValue} (h : rule.Same value other) :
    rule.found other = rule.found value := by
  cases rule with
  | reference field => exact congrArg Option.toList h.symm
  | nestedReference field nested =>
    -- what is found depends on the targets of the first nested values alone
    have hread : ∀ v : FieldValue, found (.nestedReference field nested) v =
        ((v.paragraph.map fun p => (p.values nested).head?.map FieldValue.target).bind
          fun first => first.bind id).toList := by
      intro v
      simp only [found, Option.bind_map]
      cases v.paragraph with
      | none => rfl
      | some p => cases hfirst : (p.values nested).head? <;> simp [hfirst]
    rw [hread, hread, ← h]
  | link field => exact congrArg (fun uri => (Option.bind uri NodeLink.target?).toList) h.symm
  | nestedLinks field nested =>
    have hread : ∀ v : FieldValue, found (.nestedLinks field nested) v =
        (v.paragraph.map fun p => (p.values nested).map FieldValue.uri).toList.flatMap
          fun uris => uris.filterMap fun uri => uri.bind NodeLink.target? := by
      intro v
      simp only [found]
      cases v.paragraph with
      | none => rfl
      | some p => simp
    rw [hread, hread, ← h]

/-- A rule finds a child in an item at a place: the number of a value in its field and that of
a value in the paragraph there. -/
def Finds (rule : ChildRule) (item : Item) (place : Nat × Nat) (child : NodeId) : Prop :=
  ∃ value, (item.values rule.field)[place.1]? = some value ∧ rule.FindsIn value place.2 child

/-- How often a rule finds a child in an item. -/
def times (rule : ChildRule) (item : Item) (child : NodeId) : Nat :=
  ((item.values rule.field).map (rule.timesIn child)).sum

theorem children_inOrder (rule : ChildRule) (item : Item) :
    InOrder (Prod.Lex (· < ·) (· < ·)) (rule.Finds item) (rule.children item) := by
  rw [children_eq]
  exact InOrder.flatMap rule.found_inOrder _

theorem count_children (rule : ChildRule) (item : Item) (child : NodeId) :
    (rule.children item).count child = rule.times item child := by
  rw [children_eq, List.count_flatMap]
  exact congrArg List.sum (List.map_congr_left fun value _ => rule.count_found value child)

theorem children_congr {rule : ChildRule} {item other : Item}
    (h : List.Forall₂ rule.Same (item.values rule.field) (other.values rule.field)) :
    rule.children other = rule.children item := by
  rw [children_eq, children_eq]
  generalize item.values rule.field = values, other.values rule.field = others at h
  induction h with
  | nil => rfl
  | cons hsame _ ih => rw [List.flatMap_cons, List.flatMap_cons, hsame.found_eq, ih]

end ChildRule

/-! ## The edges of an item -/

namespace TypeRules
variable {rules : TypeRules} {item : Item}

/-- An edge to a parent stands at the number of a value of the parent field. -/
def AssertsParent (rules : TypeRules) (item : Item) (place : Nat) (e : Edge) : Prop :=
  ∃ field value parent, rules.parent = some field ∧ (item.values field)[place]? = some value ∧
    value.target = some parent ∧ e = ⟨item.id, parent, item.id⟩

/-- An edge to a child stands at the number of a rule and the place at which this finds it. -/
def AssertsChild (rules : TypeRules) (item : Item) (place : Nat × Nat × Nat) (e : Edge) : Prop :=
  ∃ rule child, rules.children[place.1]? = some rule ∧ rule.Finds item place.2 child ∧
    e = ⟨item.id, item.id, child⟩

/-- How many values of the parent field refer to a parent. -/
def parentTimes (rules : TypeRules) (item : Item) (parent : NodeId) : Nat :=
  match rules.parent with
  | some field => (item.values field).countP fun value => value.target == some parent
  | none => 0

/-- How often the rules, each as often as it stands in the table, find a child. -/
def childTimes (rules : TypeRules) (item : Item) (child : NodeId) : Nat :=
  (rules.children.map fun rule => rule.times item child).sum

/-- The edges are the ones that the rules find in the item, in the order of their places: those
to parents by the values of the parent field, those to children by the rules, the values of
their fields and the values in the paragraphs. -/
structure Declares (rules : TypeRules) (item : Item) (shown : Relationships) : Prop where
  parentsOnly : ∀ e ∈ shown.parentEdges, ∃ parent, e = ⟨item.id, parent, item.id⟩
  parentCount : ∀ parent,
    shown.parentEdges.count ⟨item.id, parent, item.id⟩ = rules.parentTimes item parent
  parentOrder : InOrder (· < ·) (rules.AssertsParent item) shown.parentEdges
  childrenOnly : ∀ e ∈ shown.childEdges, ∃ child, e = ⟨item.id, item.id, child⟩
  childCount : ∀ child,
    shown.childEdges.count ⟨item.id, item.id, child⟩ = rules.childTimes item child
  childOrder : InOrder (Prod.Lex (· < ·) (Prod.Lex (· < ·) (· < ·))) (rules.AssertsChild item)
    shown.childEdges

theorem parents_inOrder (rules : TypeRules) (item : Item) : InOrder (· < ·)
    (rules.AssertsParent item)
    ((rules.parents item).map fun parent => Edge.mk item.id parent item.id) := by
  unfold parents
  cases hparent : rules.parent with
  | none => exact ⟨[], rfl, .nil, fun place e => by simp [AssertsParent, hparent]⟩
  | some field =>
    refine ((InOrder.filterMap _ _).map _).congr fun place e => ?_
    simp only [AssertsParent, hparent, Option.some.injEq]
    constructor
    · rintro ⟨parent, ⟨value, hvalue, htarget⟩, rfl⟩
      exact ⟨field, value, parent, rfl, hvalue, htarget, rfl⟩
    · rintro ⟨field, value, parent, rfl, hvalue, htarget, rfl⟩
      exact ⟨parent, ⟨value, hvalue, htarget⟩, rfl⟩

theorem children_inOrder (rules : TypeRules) (item : Item) :
    InOrder (Prod.Lex (· < ·) (Prod.Lex (· < ·) (· < ·))) (rules.AssertsChild item)
      ((rules.children.flatMap fun rule => rule.children item).map fun child =>
        Edge.mk item.id item.id child) := by
  refine ((InOrder.flatMap (fun rule => rule.children_inOrder item) rules.children).map
    _).congr fun place e => ?_
  constructor
  · rintro ⟨child, ⟨rule, hrule, hfinds⟩, rfl⟩
    exact ⟨rule, child, hrule, hfinds, rfl⟩
  · rintro ⟨rule, child, hrule, hfinds, rfl⟩
    exact ⟨child, ⟨rule, hrule, hfinds⟩, rfl⟩

theorem declares (rules : TypeRules) (item : Item) : rules.Declares item
    { parentEdges := (rules.parents item).map fun parent => ⟨item.id, parent, item.id⟩
      childEdges := (rules.children.flatMap fun rule => rule.children item).map fun child =>
        ⟨item.id, item.id, child⟩ } where
  parentsOnly := by
    intro e he
    obtain ⟨parent, -, rfl⟩ := List.mem_map.1 he
    exact ⟨parent, rfl⟩
  parentCount := by
    intro parent
    have hinjective : Function.Injective fun p => Edge.mk item.id p item.id :=
      fun p q h => (Edge.mk.inj h).2.1
    refine (List.count_map_of_injective _ _ hinjective parent).trans ?_
    unfold parents parentTimes
    cases rules.parent with
    | none => rfl
    | some field => exact List.count_filterMap
  parentOrder := rules.parents_inOrder item
  childrenOnly := by
    intro e he
    obtain ⟨child, -, rfl⟩ := List.mem_map.1 he
    exact ⟨child, rfl⟩
  childCount := by
    intro child
    have hinjective : Function.Injective fun c => Edge.mk item.id item.id c :=
      fun c d h => (Edge.mk.inj h).2.2
    refine (List.count_map_of_injective _ _ hinjective child).trans ?_
    rw [List.count_flatMap]
    exact congrArg List.sum (List.map_congr_left fun rule _ => rule.count_children item child)
  childOrder := rules.children_inOrder item

end TypeRules

namespace Item

/-- Two items, each with a table, agree in what the rules for their type read: the fields that
these rules name have the same number of values, and these agree in what the rule reads of them.
All else may differ. -/
structure DeclaresAlike (item : Item) (table : RuleTable) (other : Item) (changed : RuleTable) :
    Prop where
  id : other.id = item.id
  contentType : other.contentType = item.contentType
  rules : changed.find? item.contentType = table.find? item.contentType
  parent : ∀ rules field, table.find? item.contentType = some rules → rules.parent = some field →
    List.Forall₂ (ChildRule.reference field).Same (item.values field) (other.values field)
  children : ∀ rules, table.find? item.contentType = some rules → ∀ rule ∈ rules.children,
    List.Forall₂ rule.Same (item.values rule.field) (other.values rule.field)

/-- Items under the same rules have the same edges if these rules find the same in them. -/
theorem relationships_congr {item other : Item} {table changed : RuleTable}
    (hid : other.id = item.id) (htype : other.contentType = item.contentType)
    (hrules : changed.find? item.contentType = table.find? item.contentType)
    (hparents : ∀ rules, table.find? item.contentType = some rules →
      rules.parents other = rules.parents item)
    (hchildren : ∀ rules, table.find? item.contentType = some rules →
      ∀ rule ∈ rules.children, rule.children other = rule.children item) :
    other.relationships changed = item.relationships table := by
  unfold relationships
  rw [htype, hrules, hid]
  cases hfind : table.find? item.contentType with
  | none => rfl
  | some rules =>
    have hfound : (rules.children.flatMap fun rule => rule.children other) =
        rules.children.flatMap fun rule => rule.children item :=
      congrArg List.flatten (List.map_congr_left (hchildren rules hfind))
    dsimp only
    rw [hparents rules hfind, hfound]

theorem DeclaresAlike.relationships_eq {item other : Item} {table changed : RuleTable}
    (h : item.DeclaresAlike table other changed) :
    other.relationships changed = item.relationships table := by
  refine relationships_congr h.id h.contentType h.rules (fun rules hrules => ?_)
    fun rules hrules rule hrule => ChildRule.children_congr (h.children rules hrules rule hrule)
  unfold TypeRules.parents
  cases hparent : rules.parent with
  | none => rfl
  | some field =>
    show (ChildRule.reference field).children other = (ChildRule.reference field).children item
    exact ChildRule.children_congr (h.parent rules field hrules hparent)

/-- An item has no edges without rules for its type. With them it has exactly the edges that
they find in it, each as often as they find it and in the order of the places; and nothing
counts for these but what the rules read. -/
theorem relationships_are_declared (item : Item) (table : RuleTable) :
    (table.find? item.contentType = none → item.relationships table = ⟨[], []⟩) ∧
    (∀ rules, table.find? item.contentType = some rules →
      rules.Declares item (item.relationships table)) ∧
    ∀ other changed, item.DeclaresAlike table other changed →
      other.relationships changed = item.relationships table := by
  refine ⟨fun hnone => ?_, fun rules hrules => ?_, fun other changed h => h.relationships_eq⟩
  · unfold relationships
    rw [hnone]
    rfl
  · unfold relationships
    rw [hrules]
    exact rules.declares item

/-- Rules that name one field twice, and that go into paragraphs in two ways. -/
def pageRules : TypeRules :=
  ⟨some "up", [.reference "refs", .nestedLinks "cards" "links", .nestedReference "cards" "details",
    .reference "refs"]⟩

/-- A card with two links and two references. -/
def card : Paragraph :=
  (Paragraph.empty.withField "links" [.link "entity:node/8", .link "entity:node/9#top"]).withField
    "details" [.reference 5, .reference 6]

def page : Item :=
  (((Item.new 4 "page").withField "up" [.reference 1]).withField "refs"
    [.reference 7, .empty]).withField "cards" [.holding card]

/-- The same page with another title and further keys, none of which a rule reads. -/
def pageAgain : Item :=
  ((((Item.new 4 "page").withTitle "Again").unpublished.withField "up"
    [⟨some 1, some "entity:node/2", some card⟩]).withField "refs"
    [.reference 7, .link "entity:node/3"]).withField "cards"
    [⟨some 9, none, some { card with id := some 1, kind := some "card" }⟩]

/-- Each reference of a field that two rules name is an edge for each of them, and what no rule
reads changes nothing. -/
theorem page_edges :
    page.DeclaresAlike [("page", pageRules)] pageAgain
      [("event", RuleTable.childOf "refs"), ("page", pageRules)] ∧
    (pageAgain.relationships [("event", RuleTable.childOf "refs"), ("page", pageRules)]).edges =
      [⟨4, 1, 4⟩, ⟨4, 4, 7⟩, ⟨4, 4, 8⟩, ⟨4, 4, 9⟩, ⟨4, 4, 5⟩, ⟨4, 4, 7⟩] ∧
    pageRules.childTimes page 7 = 2 := by
  have halike : page.DeclaresAlike [("page", pageRules)] pageAgain
      [("event", RuleTable.childOf "refs"), ("page", pageRules)] := by
    refine ⟨rfl, rfl, rfl, ?_, ?_⟩
    · rintro rules field ⟨⟩ ⟨⟩
      exact .cons rfl .nil
    · rintro rules ⟨⟩
      simp only [pageRules, List.forall_mem_cons, List.not_mem_nil, false_imp_iff, implies_true,
        and_true]
      exact ⟨.cons rfl (.cons rfl .nil), .cons rfl .nil, .cons rfl .nil,
        .cons rfl (.cons rfl .nil)⟩
  obtain ⟨-, hdeclared, hsame⟩ := relationships_are_declared page [("page", pageRules)]
  refine ⟨halike, ?_, ?_⟩
  · rw [hsame _ _ halike]
    decide +kernel
  · rw [← (hdeclared pageRules rfl).childCount]
    decide +kernel

end Item

end Lineage
