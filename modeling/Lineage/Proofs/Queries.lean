import Lineage.Proofs.NumberTexts

/-! # What queries are taken

A query is read from its parameters one after another, and the first that cannot be read decides.
Whether a query is taken can be said without its reader, though: every number that it looks at is
left out or spelled, the depth is in the range that the configuration gives, and a listing by type
names its type. All else is bad input. -/

namespace Lineage

theorem of_bind_ok {α β ε : Type} {first : Except ε α} {next : α → Except ε β} {b : β}
    (h : first >>= next = .ok b) : ∃ a, first = .ok a ∧ next a = .ok b := by
  cases first with
  | error e => cases h
  | ok a => exact ⟨a, rfl, h⟩

/-- What is valid is read, and whatever else is there is bad input. -/
def Judged {α : Type} (result : Except Failure α) (valid : Prop) : Prop :=
  (valid ∧ ∃ a, result = .ok a) ∨ (¬ valid ∧ ∃ detail, result = .error (.invalidInput detail))

namespace Judged
variable {α β : Type} {result : Except Failure α} {valid other : Prop}

theorem pure (a : α) (h : valid) : Judged (Pure.pure a) valid := Or.inl ⟨h, a, rfl⟩

theorem bind {next : α → Except Failure β} (h : Judged result valid)
    (hnext : ∀ a, result = .ok a → Judged (next a) other) :
    Judged (result >>= next) (valid ∧ other) := by
  rcases h with ⟨hvalid, a, ha⟩ | ⟨hinvalid, detail, he⟩
  · rcases hnext a ha with ⟨hother, b, hb⟩ | ⟨hother, detail, he⟩
    · exact Or.inl ⟨⟨hvalid, hother⟩, b, by rw [ha]; exact hb⟩
    · exact Or.inr ⟨fun h => hother h.2, detail, by rw [ha]; exact he⟩
  · exact Or.inr ⟨fun h => hinvalid h.1, detail, by rw [he]; rfl⟩

theorem congr (h : Judged result valid) (hsame : valid ↔ other) : Judged result other := by
  unfold Judged
  rwa [← hsame]

theorem exists_ok_iff (h : Judged result valid) : (∃ a, result = .ok a) ↔ valid := by
  rcases h with ⟨hvalid, hok⟩ | ⟨hinvalid, detail, he⟩
  · exact iff_of_true hok hvalid
  · exact iff_of_false (by simp [he]) hinvalid

end Judged

def NodeId.Named (segment : String) : Prop :=
  ∃ n : Nat, Text.Spells segment n ∧ 1 ≤ n ∧ n ≤ Text.maxSigned64

theorem NodeId.judged_read (segment : String) : Judged (NodeId.read segment) (Named segment) := by
  rcases NodeId.read_cases segment with ⟨id, hid⟩ | he
  · obtain ⟨n, hspells, hone, hmost, -⟩ := NodeId.read_eq_ok_iff.1 hid
    exact Or.inl ⟨⟨n, hspells, hone, hmost⟩, id, hid⟩
  · refine Or.inr ⟨fun ⟨n, hspells, hone, hmost⟩ => ?_, _, he⟩
    rw [NodeId.read_eq_ok_iff.2 ⟨n, hspells, hone, hmost, rfl⟩] at he
    cases he

/-- A numeric parameter that is left out or gives a number. -/
def Parameters.Legible (params : Parameters) (key : String) : Prop :=
  params.Omits key ∨ ∃ n, params.Gives key n

theorem Parameters.judged_number? (params : Parameters) (key : String) :
    Judged (params.number? key) (params.Legible key) := by
  rcases params.number?_cases key with ⟨h, hread⟩ | ⟨n, h, hread⟩ | ⟨homits, h, detail, hread⟩
  · exact Or.inl ⟨Or.inl h, none, hread⟩
  · exact Or.inl ⟨Or.inr ⟨n, h⟩, some n, hread⟩
  · refine Or.inr ⟨?_, detail, hread⟩
    rintro (hleft | ⟨n, hgives⟩)
    · exact homits hleft
    · exact h n hgives

namespace TraversalConfig
variable {t : TraversalConfig} {requested : Option Nat} {limit : Nat}

/-- The limits that may be asked for. -/
def Permits (t : TraversalConfig) (limit : Nat) : Prop := 1 ≤ limit ∧ limit ≤ t.maxLimit

theorem resolve_some_cases (t : TraversalConfig) (limit : Nat) :
    (t.Permits limit ∧ t.resolve (some limit) = .ok limit) ∨
      (¬ t.Permits limit ∧ ∃ detail, t.resolve (some limit) = .error (.invalidInput detail)) := by
  unfold resolve Permits
  dsimp only
  by_cases hzero : limit = 0
  · rw [if_pos (by simpa using hzero)]
    exact Or.inr ⟨by omega, _, rfl⟩
  · rw [if_neg (by simpa using hzero)]
    by_cases hmost : t.maxLimit < limit
    · rw [if_pos hmost]
      exact Or.inr ⟨by omega, _, rfl⟩
    · rw [if_neg hmost]
      exact Or.inl ⟨by omega, rfl⟩

/-- Where the default may be asked for, every limit that a request gets may be. -/
theorem permits_of_resolve (hdefault : t.Permits t.defaultLimit)
    (h : t.resolve requested = .ok limit) : t.Permits limit := by
  cases requested with
  | none =>
    obtain rfl : t.defaultLimit = limit := Except.ok.inj h
    exact hdefault
  | some asked =>
    rcases t.resolve_some_cases asked with ⟨hpermits, hok⟩ | ⟨-, detail, he⟩
    · obtain rfl : asked = limit := Except.ok.inj (hok.symm.trans h)
      exact hpermits
    · rw [he] at h
      cases h

end TraversalConfig

namespace DescendantQuery
variable {t : TraversalConfig} {params : Parameters} {query : DescendantQuery}

/-- The depth is left out or may be asked for. -/
def Taken (t : TraversalConfig) (params : Parameters) : Prop :=
  params.Omits "depth_limit" ∨ ∃ n, params.Gives "depth_limit" n ∧ t.Permits n

theorem judged_read (t : TraversalConfig) (params : Parameters) :
    Judged (read t params) (Taken t params) := by
  unfold read
  rcases params.number?_cases "depth_limit" with
    ⟨h, hread⟩ | ⟨n, h, hread⟩ | ⟨homits, h, detail, hread⟩ <;> rw [hread]
  · exact Or.inl ⟨Or.inl h, _, rfl⟩
  · rcases t.resolve_some_cases n with ⟨hpermits, hok⟩ | ⟨hforbids, detail, he⟩
    · refine Or.inl ⟨Or.inr ⟨n, h, hpermits⟩, ⟨.ofParameter (params.find? "format"), n⟩, ?_⟩
      show (t.resolve (some n) >>= _) = _
      rw [hok]
      rfl
    · refine Or.inr ⟨?_, detail, ?_⟩
      · rintro (homits | ⟨m, hgives, hpermits⟩)
        · exact h.not_omits homits
        · exact hforbids (h.eq hgives ▸ hpermits)
      · show (t.resolve (some n) >>= _) = _
        rw [he]
        rfl
  · refine Or.inr ⟨?_, detail, rfl⟩
    rintro (hleft | ⟨n, hgives, -⟩)
    · exact homits hleft
    · exact h n hgives

theorem of_read (h : read t params = .ok query) :
    ∃ requested, t.resolve requested = .ok query.depthLimit := by
  unfold read at h
  obtain ⟨requested, -, h⟩ := of_bind_ok h
  obtain ⟨limit, hresolve, h⟩ := of_bind_ok h
  obtain rfl := Except.ok.inj h
  exact ⟨requested, hresolve⟩

end DescendantQuery

namespace TypeQuery
variable {t : TraversalConfig} {api : ApiConfig} {params : Parameters} {query : TypeQuery}

/-- The type is named, and each number is left out or given. -/
structure Taken (t : TraversalConfig) (params : Parameters) : Prop where
  named : ¬ params.Omits "content_type"
  limit : params.Legible "limit"
  depth : DescendantQuery.Taken t params
  offset : params.Legible "offset"

theorem read_eq (t : TraversalConfig) (api : ApiConfig) (params : Parameters) :
    read t api params =
      (if (((params.find? "content_type").map Text.trim).getD "").isEmpty then
        .error (.invalidInput "content_type is required")
      else do
        let limit ← params.number? "limit"
        let descendants ← DescendantQuery.read t params
        let offset ← params.number? "offset"
        pure ⟨((params.find? "content_type").map Text.trim).getD "", descendants,
          min (limit.getD defaultPageSize) api.maxPageSize, offset.getD 0⟩) := by
  unfold read
  dsimp only
  split
  · rfl
  · rfl

theorem omits_type_iff : params.Omits "content_type" ↔
    (((params.find? "content_type").map Text.trim).getD "").isEmpty = true := by
  cases hfind : params.find? "content_type" with
  | none => exact iff_of_true (fun text htext => by rw [hfind] at htext; cases htext) rfl
  | some text => exact Parameters.omits_iff hfind

theorem judged_read (t : TraversalConfig) (api : ApiConfig) (params : Parameters) :
    Judged (read t api params) (Taken t params) := by
  rw [read_eq]
  by_cases hnamed : params.Omits "content_type"
  · rw [if_pos (omits_type_iff.1 hnamed)]
    exact Or.inr ⟨fun h => h.named hnamed, _, rfl⟩
  · rw [if_neg fun h => hnamed (omits_type_iff.2 h)]
    refine Judged.congr ((params.judged_number? "limit").bind fun _ _ =>
      (DescendantQuery.judged_read t params).bind fun _ _ =>
        (params.judged_number? "offset").bind fun _ _ => .pure _ trivial) ?_
    exact ⟨fun ⟨hlimit, hdepth, hoffset, _⟩ => ⟨hnamed, hlimit, hdepth, hoffset⟩,
      fun h => ⟨h.limit, h.depth, h.offset, trivial⟩⟩

theorem of_read (h : read t api params = .ok query) :
    DescendantQuery.read t params = .ok query.descendants ∧ query.limit ≤ api.maxPageSize := by
  rw [read_eq] at h
  split at h
  · cases h
  · obtain ⟨limit, -, h⟩ := of_bind_ok h
    obtain ⟨descendants, hdescendants, h⟩ := of_bind_ok h
    obtain ⟨offset, -, h⟩ := of_bind_ok h
    obtain rfl := Except.ok.inj h
    exact ⟨hdescendants, Nat.min_le_right _ _⟩

end TypeQuery

namespace MetadataQuery
variable {api : ApiConfig} {params : Parameters} {query : MetadataQuery}

structure Taken (params : Parameters) : Prop where
  limit : params.Legible "limit"
  offset : params.Legible "offset"

theorem judged_read (api : ApiConfig) (params : Parameters) :
    Judged (read api params) (Taken params) := by
  unfold read
  refine Judged.congr ((params.judged_number? "limit").bind fun _ _ =>
    (params.judged_number? "offset").bind fun _ _ => .pure _ trivial) ?_
  exact ⟨fun ⟨hlimit, hoffset, _⟩ => ⟨hlimit, hoffset⟩, fun h => ⟨h.limit, h.offset, trivial⟩⟩

theorem of_read (h : read api params = .ok query) :
    query.contentTypes = ((params.find? "content_types").map names).getD [] ∧
      query.limit ≤ api.maxPageSize := by
  unfold read at h
  obtain ⟨limit, -, h⟩ := of_bind_ok h
  obtain ⟨offset, -, h⟩ := of_bind_ok h
  obtain rfl := Except.ok.inj h
  exact ⟨rfl, Nat.min_le_right _ _⟩

end MetadataQuery

end Lineage
