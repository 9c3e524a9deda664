import Lineage.Proofs.DeclaredEdges
import Lineage.Proofs.Instants

/-! # Addresses that name a node

A node is named by the mark, its number in ASCII digits, and no further digit. An address that
begins so names that node. The search for the mark does not stop at the beginning, though, and
an address of another site names a node when it quotes such a link somewhere. Where the mark and
a digit stand nowhere but at the beginning, an address that does not name a node is as good as
none, in whatever item and under whatever rules it stands. -/

namespace Lineage

namespace NodeLink
variable {cs ds rest : List Char} {uri : String} {node : NodeId}

/-- The text begins with the mark and a digit of some script. -/
def Marked (cs : List Char) : Prop :=
  ∃ d rest, cs = mark ++ d :: rest ∧ Text.isDecimal d = true

/-- The text begins with the mark, then come ASCII digits that denote the node, and these are all
digits that stand there. -/
def Names (cs : List Char) (node : NodeId) : Prop :=
  ∃ ds rest, cs = mark ++ ds ++ rest ∧ ds ≠ [] ∧ (∀ d ∈ ds, d.isDigit = true) ∧
    (∀ c, rest.head? = some c → Text.isDecimal c = false) ∧
    node = Nat.ofDigitChars 10 ds 0 ∧ Nat.ofDigitChars 10 ds 0 < 2 ^ 63

theorem digitsAfterMark_append (cs : List Char) :
    digitsAfterMark (mark ++ cs) = cs.takeWhile Text.isDecimal := by
  unfold digitsAfterMark
  rw [if_pos (List.isPrefixOf_iff_prefix.2 (List.prefix_append mark cs)), List.drop_left]

theorem digitsAfterMark_ne_nil_iff : digitsAfterMark cs ≠ [] ↔ Marked cs := by
  constructor
  · intro h
    unfold digitsAfterMark at h
    split at h
    · rename_i hmark
      obtain ⟨rest, rfl⟩ := List.isPrefixOf_iff_prefix.1 hmark
      rw [List.drop_left] at h
      cases rest with
      | nil => exact absurd rfl h
      | cons d rest =>
        refine ⟨d, rest, rfl, ?_⟩
        by_contra hd
        exact h (List.takeWhile_cons_of_neg hd)
    · exact absurd rfl h
  · rintro ⟨d, rest, rfl, hd⟩
    rw [digitsAfterMark_append, List.takeWhile_cons_of_pos hd]
    exact List.cons_ne_nil _ _

theorem digits_of_marked (h : Marked cs) : digits cs = digitsAfterMark cs := by
  have hsome := digitsAfterMark_ne_nil_iff.2 h
  cases cs with
  | nil => exact absurd rfl hsome
  | cons c cs =>
    rw [digits]
    exact if_neg (by simpa using hsome)

theorem digits_of_not_marked {c : Char} (h : ¬ Marked (c :: cs)) : digits (c :: cs) = digits cs := by
  have hnone : digitsAfterMark (c :: cs) = [] := by
    by_contra hsome
    exact h (digitsAfterMark_ne_nil_iff.1 hsome)
  rw [digits, hnone]
  rfl

theorem exists_marked (h : digits cs ≠ []) :
    ∃ before rest, cs = before ++ rest ∧ Marked rest ∧ digits cs = digitsAfterMark rest := by
  induction cs with
  | nil => exact absurd rfl h
  | cons c cs ih =>
    by_cases hmarked : Marked (c :: cs)
    · exact ⟨[], c :: cs, rfl, hmarked, digits_of_marked hmarked⟩
    · rw [digits_of_not_marked hmarked] at h ⊢
      obtain ⟨before, rest, rfl, hrest⟩ := ih h
      exact ⟨c :: before, rest, rfl, hrest⟩

/-- A node is named exactly by ASCII digits with a value in the range of the ids. -/
theorem target?_eq_some_iff : target? uri = some node ↔
    digits uri.toList ≠ [] ∧ (∀ d ∈ digits uri.toList, d.isDigit = true) ∧
      node = Nat.ofDigitChars 10 (digits uri.toList) 0 ∧
      Nat.ofDigitChars 10 (digits uri.toList) 0 < 2 ^ 63 := by
  unfold target?
  simp only [Option.map_eq_some_iff, Option.filter_eq_some_iff, Text.natural?_eq_some_iff,
    decide_eq_true_eq]
  have hrange : ∀ n : Nat, n ≤ Text.maxSigned64 ↔ n < 2 ^ 63 := by
    intro n
    unfold Text.maxSigned64
    omega
  constructor
  · rintro ⟨n, ⟨⟨hne, hdigits, rfl⟩, hn⟩, rfl⟩
    exact ⟨hne, hdigits, rfl, (hrange _).1 hn⟩
  · rintro ⟨hne, hdigits, rfl, hn⟩
    exact ⟨_, ⟨⟨hne, hdigits, rfl⟩, (hrange _).2 hn⟩, rfl⟩

/-- The digits after the mark end where something else follows. -/
theorem digits_mark_append (hne : ds ≠ []) (hdigits : ∀ d ∈ ds, Text.isDecimal d = true)
    (hrest : ∀ c, rest.head? = some c → Text.isDecimal c = false) :
    digits (mark ++ ds ++ rest) = ds := by
  have hmarked : Marked (mark ++ ds ++ rest) := by
    cases ds with
    | nil => exact absurd rfl hne
    | cons d ds => exact ⟨d, ds ++ rest, by simp, hdigits d List.mem_cons_self⟩
  have hend : rest.takeWhile Text.isDecimal = [] := by
    cases rest with
    | nil => rfl
    | cons c rest => exact List.takeWhile_cons_of_neg (by simp [hrest c rfl])
  rw [digits_of_marked hmarked, List.append_assoc, digitsAfterMark_append,
    List.takeWhile_append_of_pos hdigits, hend, List.append_nil]

theorem target?_of_names (h : Names uri.toList node) : target? uri = some node := by
  obtain ⟨ds, rest, huri, hne, hdigits, hrest, hnode, hrange⟩ := h
  have hfound : digits uri.toList = ds := by
    rw [huri]
    exact digits_mark_append hne
      (fun d hd => by rw [Text.isDecimal, hdigits d hd, Bool.true_or]) hrest
  rw [target?_eq_some_iff, hfound]
  exact ⟨hne, hdigits, hnode, hrange⟩

theorem names_of_marked (hmarked : Marked cs) (hfound : digits uri.toList = digitsAfterMark cs)
    (h : target? uri = some node) : Names cs node := by
  obtain ⟨hne, hdigits, hnode, hrange⟩ := target?_eq_some_iff.1 h
  obtain ⟨d, tail, rfl, -⟩ := hmarked
  rw [digitsAfterMark_append] at hfound
  rw [hfound] at hne hdigits hnode hrange
  refine ⟨_, (d :: tail).dropWhile Text.isDecimal, ?_, hne, hdigits, fun c hc => ?_, hnode, hrange⟩
  · rw [List.append_assoc, List.takeWhile_append_dropWhile]
  · have hstop := List.head?_dropWhile_not Text.isDecimal (d :: tail)
    rw [hc] at hstop
    exact hstop

end NodeLink

mutual
/-- The value without the address, wherever in it that stands. -/
def FieldValue.forget (uri : String) : FieldValue → FieldValue
  | ⟨target, link, paragraph⟩ =>
    ⟨target, if link = some uri then none else link, forgetInParagraph uri paragraph⟩
def forgetInParagraph (uri : String) : Option Paragraph → Option Paragraph
  | none => none
  | some p => some (p.forget uri)
def Paragraph.forget (uri : String) : Paragraph → Paragraph
  | ⟨id, kind, fields⟩ => ⟨id, kind, forgetInFields uri fields⟩
def forgetInFields (uri : String) :
    List (String × List FieldValue) → List (String × List FieldValue)
  | [] => []
  | field :: rest => forgetInField uri field :: forgetInFields uri rest
def forgetInField (uri : String) : String × List FieldValue → String × List FieldValue
  | (name, values) => (name, forgetInValues uri values)
def forgetInValues (uri : String) : List FieldValue → List FieldValue
  | [] => []
  | value :: rest => value.forget uri :: forgetInValues uri rest
end

def Item.forget (uri : String) (item : Item) : Item :=
  { item with fields := forgetInFields uri item.fields }

section
variable (uri : String)

theorem forgetInValues_eq (values : List FieldValue) :
    forgetInValues uri values = values.map (FieldValue.forget uri) := by
  induction values with
  | nil => rw [forgetInValues, List.map_nil]
  | cons value rest ih => rw [forgetInValues, ih, List.map_cons]

theorem values_forgetInFields (fields : Fields) (name : String) :
    Fields.values (forgetInFields uri fields) name =
      (Fields.values fields name).map (FieldValue.forget uri) := by
  unfold Fields.values Dictionary.find?
  induction fields with
  | nil => rw [forgetInFields]; rfl
  | cons field rest ih =>
    obtain ⟨key, values⟩ := field
    rw [forgetInFields, forgetInField, List.find?_cons, List.find?_cons]
    by_cases hkey : key = name
    · simp [hkey, forgetInValues_eq]
    · have hother : (key == name) = false := by simpa using hkey
      rw [hother]
      exact ih

theorem Paragraph.values_forget (p : Paragraph) (name : String) :
    (p.forget uri).values name = (p.values name).map (FieldValue.forget uri) := by
  cases p
  rw [Paragraph.forget]
  exact values_forgetInFields uri _ name

theorem Item.values_forget (item : Item) (name : String) :
    (item.forget uri).values name = (item.values name).map (FieldValue.forget uri) :=
  values_forgetInFields uri item.fields name

theorem FieldValue.target_forget (value : FieldValue) : (value.forget uri).target = value.target := by
  cases value
  rw [FieldValue.forget]

theorem FieldValue.paragraph_forget (value : FieldValue) :
    (value.forget uri).paragraph = value.paragraph.map (Paragraph.forget uri) := by
  obtain ⟨target, link, paragraph⟩ := value
  rw [FieldValue.forget]
  cases paragraph <;> rw [forgetInParagraph] <;> rfl

variable {uri}
variable (hnone : NodeLink.target? uri = none)
include hnone

theorem FieldValue.link_forget (value : FieldValue) :
    (value.forget uri).uri.bind NodeLink.target? = value.uri.bind NodeLink.target? := by
  obtain ⟨target, link, paragraph⟩ := value
  rw [FieldValue.forget]
  dsimp only
  by_cases hlink : link = some uri
  · rw [if_pos hlink, hlink]
    exact hnone.symm
  · rw [if_neg hlink]

theorem ChildRule.found_forget (rule : ChildRule) (value : FieldValue) :
    rule.found (value.forget uri) = rule.found value := by
  cases rule with
  | reference field => exact congrArg Option.toList (value.target_forget uri)
  | nestedReference field nested =>
    have hfirst : ∀ p : Paragraph, ((p.forget uri).values nested).head?.bind (·.target) =
        (p.values nested).head?.bind (·.target) := by
      intro p
      rw [p.values_forget, List.head?_map, Option.bind_map]
      exact congrArg _ (funext fun first => first.target_forget uri)
    unfold found
    dsimp only
    rw [value.paragraph_forget, Option.bind_map]
    exact congrArg (fun read => (value.paragraph.bind read).toList) (funext hfirst)
  | link field => exact congrArg Option.toList (value.link_forget hnone)
  | nestedLinks field nested =>
    have hlinks : ∀ p : Paragraph, ((p.forget uri).values nested).filterMap
        (fun inner => inner.uri.bind NodeLink.target?) =
        (p.values nested).filterMap fun inner => inner.uri.bind NodeLink.target? := by
      intro p
      rw [p.values_forget, List.filterMap_map]
      exact congrArg (List.filterMap · _) (funext fun inner => inner.link_forget hnone)
    unfold found
    dsimp only
    rw [value.paragraph_forget]
    cases value.paragraph with
    | none => rfl
    | some p => simpa using hlinks p

theorem ChildRule.children_forget (rule : ChildRule) (item : Item) :
    rule.children (item.forget uri) = rule.children item := by
  rw [children_eq, children_eq, item.values_forget, List.flatMap_map]
  exact congrArg (List.flatMap · _) (funext fun value => rule.found_forget hnone value)

/-- An address that names no node can be left out of every item. -/
theorem Item.relationships_forget (item : Item) (table : RuleTable) :
    (item.forget uri).relationships table = item.relationships table := by
  refine relationships_congr rfl rfl rfl (fun rules _ => ?_)
    fun rules _ rule _ => rule.children_forget hnone item
  unfold TypeRules.parents
  cases rules.parent with
  | none => rfl
  | some field => exact (ChildRule.reference field).children_forget hnone item

end

namespace NodeLink

/-- An address that names a node leads to it, and one that leads to a node names it at some place.
Where the mark and a digit stand nowhere but at its beginning, it names the node there; and if it
names none, it makes no edge: every item has, under every table, the edges that it has without
this address. -/
theorem address_names_node (uri : String) :
    (∀ node, Names uri.toList node → target? uri = some node) ∧
    (∀ node, target? uri = some node →
      ∃ before rest, uri.toList = before ++ rest ∧ Names rest node) ∧
    ((∀ before rest, uri.toList = before ++ rest → Marked rest → Marked uri.toList) →
      (∀ node, target? uri = some node → Names uri.toList node) ∧
      ((∀ node, ¬ Names uri.toList node) → ∀ (item : Item) (table : RuleTable),
        (item.forget uri).relationships table = item.relationships table)) := by
  have hplace : ∀ node, target? uri = some node → ∃ before rest, uri.toList = before ++ rest ∧
      Marked rest ∧ Names rest node := by
    intro node h
    obtain ⟨before, rest, huri, hmarked, hfound⟩ := exists_marked (target?_eq_some_iff.1 h).1
    exact ⟨before, rest, huri, hmarked, names_of_marked hmarked hfound h⟩
  refine ⟨fun node h => target?_of_names h, fun node h => ?_, fun honly => ?_⟩
  · obtain ⟨before, rest, huri, -, hnames⟩ := hplace node h
    exact ⟨before, rest, huri, hnames⟩
  · have hbegin : ∀ node, target? uri = some node → Names uri.toList node := by
      intro node h
      obtain ⟨before, rest, huri, hrest, -⟩ := hplace node h
      have hmarked := honly before rest huri hrest
      exact names_of_marked hmarked (digits_of_marked hmarked) h
    refine ⟨hbegin, fun hnames item table => ?_⟩
    cases htarget : target? uri with
    | none => exact item.relationships_forget htarget table
    | some node => exact absurd (hbegin node htarget) (hnames node)

/-- A link whose number is too large for an id, before one that is not. -/
def tooLarge : String := "entity:node/9223372036854775808/entity:node/4"

/-- A number that is too large names no node and makes no edge, whatever stands behind it. -/
theorem too_large_makes_no_edge :
    Marked tooLarge.toList ∧ (∀ node, ¬ Names tooLarge.toList node) ∧
    ∀ (item : Item) (table : RuleTable),
      (item.forget tooLarge).relationships table = item.relationships table := by
  have hmarked : Marked tooLarge.toList :=
    ⟨'9', "223372036854775808/entity:node/4".toList, by decide, by decide⟩
  obtain ⟨hfound, -, hplaced⟩ := address_names_node tooLarge
  have hnames : ∀ node, ¬ Names tooLarge.toList node := by
    intro node h
    have hnone : target? tooLarge = none := by decide +kernel
    rw [hfound node h] at hnone
    cases hnone
  obtain ⟨-, hforget⟩ := hplaced fun _ _ _ _ => hmarked
  exact ⟨hmarked, hnames, hforget hnames⟩

/-- The address of another site that quotes a link. -/
def quoting : String := "https://example.com/?next=entity:node/40"

/-- An address that only quotes a link is taken for it, and makes an edge. -/
theorem quoted_link_is_followed :
    (¬ ∀ (uri : String) (node : NodeId), target? uri = some node → Names uri.toList node) ∧
    ¬ ∀ (uri : String), (∀ node, ¬ Names uri.toList node) → ∀ (item : Item) (table : RuleTable),
      (item.forget uri).relationships table = item.relationships table := by
  have hnames : ∀ node, ¬ Names quoting.toList node := by
    rintro node ⟨ds, rest, huri, -⟩
    have hbegin := congrArg (List.take mark.length) huri
    rw [List.append_assoc, List.take_left] at hbegin
    exact absurd hbegin (by decide)
  have htarget : target? quoting = some 40 := by decide +kernel
  refine ⟨fun h => hnames 40 (h quoting 40 htarget), fun h => ?_⟩
  have hedges := congrArg Relationships.edges
    (h quoting hnames ((Item.new 1 "page").withField "links" [.link quoting])
      [("page", ⟨none, [.link "links"]⟩)])
  exact absurd hedges (by decide +kernel)

end NodeLink

end Lineage
