import Lineage.Api.Query
import Lineage.Proofs.Instants
import Mathlib.Data.List.TakeWhile

/-! # Texts that spell numbers

A number may be typed with a plus sign before its digits and with blanks around it. The readers
of node ids and of parameters trim a text first, and since neither digits nor the sign are blank,
trimming leaves what spells the number and nothing else. So each of them takes exactly the texts
that spell a number of its range, and whatever it does not take is bad input. -/

namespace Lineage

namespace Text
variable {cs inner before after : List Char} {text : String} {n most : Nat}

def Blank (cs : List Char) : Prop := ∀ c ∈ cs, isBlank c = true

theorem skipBlank_append (h : Blank before) (rest : List Char) :
    skipBlank (before ++ rest) = skipBlank rest :=
  List.dropWhile_append_of_pos h

theorem skipBlank_of_begins (h : ∀ c ∈ inner, isBlank c = false) (hne : inner ≠ [])
    (rest : List Char) : skipBlank (inner ++ rest) = inner ++ rest := by
  cases inner with
  | nil => exact absurd rfl hne
  | cons c cs => exact skipBlank_of_ne (h c List.mem_cons_self) _

theorem exists_trimChars (cs : List Char) :
    ∃ before after, cs = before ++ trimChars cs ++ after ∧ Blank before ∧ Blank after := by
  have hskip : ∀ ds : List Char, ds = ds.takeWhile isBlank ++ skipBlank ds ∧
      Blank (ds.takeWhile isBlank) := fun ds =>
    ⟨List.takeWhile_append_dropWhile.symm, fun c hc => List.mem_takeWhile_imp hc⟩
  obtain ⟨hfront, hbefore⟩ := hskip cs
  obtain ⟨hback, hafter⟩ := hskip (skipBlank cs).reverse
  refine ⟨_, ((skipBlank cs).reverse.takeWhile isBlank).reverse, ?_, hbefore,
    fun c hc => hafter c (List.mem_reverse.1 hc)⟩
  unfold trimChars
  rw [List.append_assoc, ← List.reverse_append, ← hback, List.reverse_reverse]
  exact hfront

theorem trimChars_append (hbefore : Blank before) (hafter : Blank after)
    (hinner : ∀ c ∈ inner, isBlank c = false) :
    trimChars (before ++ inner ++ after) = inner := by
  have hreverse : Blank after.reverse := fun c hc => hafter c (List.mem_reverse.1 hc)
  unfold trimChars
  rw [List.append_assoc, skipBlank_append hbefore]
  by_cases hne : inner = []
  · subst hne
    have hnone : skipBlank (after ++ []) = skipBlank [] := skipBlank_append hafter []
    rw [List.append_nil] at hnone
    rw [List.nil_append, hnone]
    rfl
  · have hback : skipBlank (inner.reverse ++ []) = inner.reverse ++ [] :=
      skipBlank_of_begins (fun c hc => hinner c (List.mem_reverse.1 hc)) (by simpa using hne) []
    rw [List.append_nil] at hback
    rw [skipBlank_of_begins hinner hne, List.reverse_append, skipBlank_append hreverse, hback,
      List.reverse_reverse]

theorem trimChars_eq_nil_iff : trimChars cs = [] ↔ Blank cs := by
  constructor
  · intro h
    obtain ⟨before, after, hcs, hbefore, hafter⟩ := exists_trimChars cs
    rw [h, List.append_nil] at hcs
    rw [hcs]
    exact List.forall_mem_append.2 ⟨hbefore, hafter⟩
  · intro h
    have hnone : trimChars (cs ++ [] ++ []) = [] :=
      trimChars_append h (by simp [Blank]) (by simp)
    rwa [List.append_nil, List.append_nil] at hnone

/-- Digits, with a plus sign before them or without one, and the number that they denote. -/
inductive Numeral : List Char → Nat → Prop where
  | plain {ds : List Char} (hne : ds ≠ []) (hdigits : ∀ d ∈ ds, d.isDigit = true) :
    Numeral ds (Nat.ofDigitChars 10 ds 0)
  | signed {ds : List Char} (hne : ds ≠ []) (hdigits : ∀ d ∈ ds, d.isDigit = true) :
    Numeral ('+' :: ds) (Nat.ofDigitChars 10 ds 0)

/-- A numeral with blanks around it. -/
def Spells (text : String) (n : Nat) : Prop :=
  ∃ before numeral after, text.toList = before ++ numeral ++ after ∧
    Blank before ∧ Blank after ∧ Numeral numeral n

theorem Numeral.ne_nil (h : Numeral cs n) : cs ≠ [] := by
  cases h with
  | plain hne _ => exact hne
  | signed _ _ => exact List.cons_ne_nil _ _

theorem Numeral.not_blank (h : Numeral cs n) : ∀ c ∈ cs, isBlank c = false := by
  cases h with
  | plain _ hdigits => exact fun c hc => isBlank_of_isDigit (hdigits c hc)
  | signed _ hdigits =>
    exact List.forall_mem_cons.2 ⟨by decide, fun c hc => isBlank_of_isDigit (hdigits c hc)⟩

theorem spells_iff : Spells text n ↔ Numeral (trimChars text.toList) n := by
  constructor
  · rintro ⟨before, numeral, after, htext, hbefore, hafter, hnumeral⟩
    rwa [htext, trimChars_append hbefore hafter hnumeral.not_blank]
  · intro h
    obtain ⟨before, after, htext, hbefore, hafter⟩ := exists_trimChars text.toList
    exact ⟨before, _, after, htext, hbefore, hafter, h⟩

theorem Spells.not_blank (h : Spells text n) : ¬ Blank text.toList :=
  fun hblank => (spells_iff.1 h).ne_nil (trimChars_eq_nil_iff.2 hblank)

theorem numeral_plus_iff : Numeral ('+' :: cs) n ↔ natural? cs = some n := by
  rw [natural?_eq_some_iff]
  constructor
  · intro h
    cases h with
    | plain hne hdigits => exact absurd (hdigits '+' List.mem_cons_self) (by decide)
    | signed hne hdigits => exact ⟨hne, hdigits, rfl⟩
  · rintro ⟨hne, hdigits, rfl⟩
    exact .signed hne hdigits

theorem numeral_iff_of_ne (h : ∀ rest, cs ≠ '+' :: rest) : Numeral cs n ↔ natural? cs = some n := by
  rw [natural?_eq_some_iff]
  constructor
  · intro hnumeral
    cases hnumeral with
    | plain hne hdigits => exact ⟨hne, hdigits, rfl⟩
    | signed hne hdigits => exact absurd rfl (h _)
  · rintro ⟨hne, hdigits, rfl⟩
    exact .plain hne hdigits

theorem countUpTo?_eq_some_iff : countUpTo? most cs = some n ↔ Numeral cs n ∧ n ≤ most := by
  unfold countUpTo?
  rw [Option.filter_eq_some_iff, decide_eq_true_eq]
  split
  · rw [numeral_plus_iff]
  · rename_i hplain
    rw [numeral_iff_of_ne hplain]

theorem filter_natural?_eq_some_iff {id : Int} :
    (((natural? cs).map Int.ofNat).filter inSigned64).filter (0 < ·) = some id ↔
      ∃ n : Nat, natural? cs = some n ∧ 1 ≤ n ∧ n ≤ maxSigned64 ∧ id = n := by
  have hrange : ∀ n : Nat, inSigned64 n = true ∧ 0 < (n : Int) ↔ 1 ≤ n ∧ n ≤ maxSigned64 := by
    intro n
    simp only [inSigned64, maxSigned64, Bool.and_eq_true, decide_eq_true_eq]
    omega
  simp only [Option.filter_eq_some_iff, Option.map_eq_some_iff, decide_eq_true_eq]
  constructor
  · rintro ⟨⟨⟨n, hn, rfl⟩, hsigned⟩, hpositive⟩
    obtain ⟨hone, hmost⟩ := (hrange n).1 ⟨hsigned, hpositive⟩
    exact ⟨n, hn, hone, hmost, rfl⟩
  · rintro ⟨n, hn, hone, hmost, rfl⟩
    obtain ⟨hsigned, hpositive⟩ := (hrange n).2 ⟨hone, hmost⟩
    exact ⟨⟨⟨n, hn, rfl⟩, hsigned⟩, hpositive⟩

/-- Of the signed numbers, those above zero have no minus sign. -/
theorem signed64?_filter_eq_some_iff {id : Int} :
    (signed64? cs).filter (0 < ·) = some id ↔
      ∃ n : Nat, Numeral cs n ∧ 1 ≤ n ∧ n ≤ maxSigned64 ∧ id = n := by
  have hread : ∀ (ds : List Char) (value : Option Int),
      value = (natural? ds).map Int.ofNat → ((value.filter inSigned64).filter (0 < ·) = some id ↔
        ∃ n : Nat, natural? ds = some n ∧ 1 ≤ n ∧ n ≤ maxSigned64 ∧ id = n) := by
    rintro ds value rfl
    exact filter_natural?_eq_some_iff
  unfold signed64?
  dsimp only
  split
  case h_1 rest =>
    -- behind a minus sign stands no number above zero, and no digit is a minus sign
    have hminus : ∀ n, ¬ Numeral ('-' :: rest) n := by
      intro n hnumeral
      cases hnumeral with
      | plain _ hdigits => exact absurd (hdigits '-' List.mem_cons_self) (by decide)
    refine iff_of_false (fun h => ?_) fun ⟨n, hnumeral, _⟩ => hminus n hnumeral
    cases hvalue : natural? rest with
    | none => simp [hvalue] at h
    | some n =>
      simp [hvalue, Option.filter_eq_some_iff] at h
      omega
  case h_2 rest =>
    simp only [numeral_plus_iff]
    exact hread rest _ (by cases natural? rest <;> rfl)
  case h_3 _ hplus =>
    simp only [numeral_iff_of_ne hplus]
    exact hread cs _ (by cases natural? cs <;> rfl)

end Text

theorem NodeId.read_eq_ok_iff {segment : String} {id : NodeId} : NodeId.read segment = .ok id ↔
    ∃ n : Nat, Text.Spells segment n ∧ 1 ≤ n ∧ n ≤ Text.maxSigned64 ∧ id = n := by
  simp only [Text.spells_iff, ← Text.signed64?_filter_eq_some_iff]
  unfold NodeId.read Text.trim
  rw [String.toList_ofList]
  cases (Text.signed64? (Text.trimChars segment.toList)).filter (0 < ·) <;> simp

/-- What names no node is bad input, and the message quotes it. -/
theorem NodeId.read_cases (segment : String) : (∃ id, NodeId.read segment = .ok id) ∨
    NodeId.read segment = .error (.invalidInput ("invalid node id '" ++ segment ++ "'")) := by
  unfold NodeId.read
  split
  · exact Or.inl ⟨_, rfl⟩
  · exact Or.inr rfl

namespace Parameters
variable {params : Parameters} {key : String} {n : Nat}

/-- The parameter is not there or has nothing but blanks for its value. -/
def Omits (params : Parameters) (key : String) : Prop :=
  ∀ text, params.find? key = some text → Text.Blank text.toList

/-- The parameter spells a number that a machine word can hold. -/
def Gives (params : Parameters) (key : String) (n : Nat) : Prop :=
  ∃ text, params.find? key = some text ∧ Text.Spells text n ∧ n ≤ Text.maxUnsigned64

section
variable {text : String} (hfind : params.find? key = some text)
include hfind

theorem omits_iff : params.Omits key ↔ (Text.trim text).isEmpty = true := by
  have hblank : (Text.trim text).isEmpty = true ↔ Text.Blank text.toList := by
    rw [← Text.trimChars_eq_nil_iff]
    simp [Text.trim]
  rw [hblank]
  constructor
  · exact fun h => h text hfind
  · intro h other hother
    obtain rfl : text = other := Option.some.inj (hfind.symm.trans hother)
    exact h

theorem gives_iff : params.Gives key n ↔
    Text.countUpTo? Text.maxUnsigned64 (Text.trim text).toList = some n := by
  unfold Text.trim
  rw [String.toList_ofList, Text.countUpTo?_eq_some_iff, ← Text.spells_iff]
  constructor
  · rintro ⟨other, hother, h⟩
    obtain rfl : text = other := Option.some.inj (hfind.symm.trans hother)
    exact h
  · exact fun h => ⟨text, hfind, h⟩

end

/-- What a parameter gives is read, and whatever else is there is bad input. -/
theorem number?_cases (params : Parameters) (key : String) :
    (params.Omits key ∧ params.number? key = .ok none) ∨
      (∃ n, params.Gives key n ∧ params.number? key = .ok (some n)) ∨
      (¬ params.Omits key ∧ (∀ n, ¬ params.Gives key n) ∧
        ∃ detail, params.number? key = .error (.invalidInput detail)) := by
  unfold number?
  cases hfind : params.find? key with
  | none => exact Or.inl ⟨fun text htext => (by rw [hfind] at htext; cases htext), rfl⟩
  | some text =>
    rw [Option.map_some]
    dsimp only
    by_cases hempty : (Text.trim text).isEmpty = true
    · rw [if_pos hempty]
      exact Or.inl ⟨(omits_iff hfind).2 hempty, rfl⟩
    · have homits : ¬ params.Omits key := fun h => hempty ((omits_iff hfind).1 h)
      rw [if_neg hempty]
      cases hcount : Text.countUpTo? Text.maxUnsigned64 (Text.trim text).toList with
      | some n => exact Or.inr (Or.inl ⟨n, (gives_iff hfind).2 hcount, rfl⟩)
      | none =>
        refine Or.inr (Or.inr ⟨homits, fun n hn => ?_, _, rfl⟩)
        rw [(gives_iff hfind).1 hn] at hcount
        cases hcount

theorem Gives.not_omits (h : params.Gives key n) : ¬ params.Omits key := by
  obtain ⟨text, hfind, hspells, -⟩ := h
  exact fun homits => hspells.not_blank (homits text hfind)

theorem Gives.eq {m : Nat} (h : params.Gives key n) (hm : params.Gives key m) : n = m := by
  obtain ⟨text, hfind, -⟩ := id h
  exact Option.some.inj (((gives_iff hfind).1 h).symm.trans ((gives_iff hfind).1 hm))

theorem number?_eq_none_iff : params.number? key = .ok none ↔ params.Omits key := by
  rcases number?_cases params key with ⟨h, hread⟩ | ⟨n, h, hread⟩ | ⟨h, -, detail, hread⟩ <;>
    rw [hread]
  · exact iff_of_true rfl h
  · exact iff_of_false (by simp) h.not_omits
  · exact iff_of_false (by simp) h

theorem number?_eq_some_iff : params.number? key = .ok (some n) ↔ params.Gives key n := by
  rcases number?_cases params key with ⟨h, hread⟩ | ⟨m, h, hread⟩ | ⟨-, h, detail, hread⟩ <;>
    rw [hread]
  · exact iff_of_false (by simp) fun hgives => hgives.not_omits h
  · simp only [Except.ok.injEq, Option.some.injEq]
    exact ⟨fun hsame => hsame ▸ h, fun hgives => h.eq hgives⟩
  · exact iff_of_false (by simp) (h n)

end Parameters

end Lineage
