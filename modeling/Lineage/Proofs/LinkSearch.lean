import Lineage.Proofs.NodeLinks

/-! # The one place that a link is read from

Of all places of a text where digits follow the mark, the search looks at the first and at the
whole run of digits there. Digits of every script belong to the run, so that a digit that is not
ASCII spoils it instead of ending it. What is wrong with the first run is not made up for by a
later one: if the run is no number, or too large a number, the text names no node. -/

namespace Lineage.NodeLink
variable {cs before run after before' run' after' : List Char} {c : Char} {uri : String}

/-- The first place of a text where digits follow the mark: what stands before the mark, all the
digits behind it, and what comes after them. -/
structure Candidate (cs before run after : List Char) : Prop where
  text : cs = before ++ mark ++ run ++ after
  nonempty : run ≠ []
  decimal : ∀ d ∈ run, Text.isDecimal d = true
  ends : ∀ c, after.head? = some c → Text.isDecimal c = false
  first : ∀ earlier rest, cs = earlier ++ rest → earlier.length < before.length → ¬ Marked rest

/-- Where the digits end is seen from the text behind the mark. -/
theorem Candidate.takeWhile_eq (h : Candidate cs before run after) :
    (run ++ after).takeWhile Text.isDecimal = run := by
  have hend : after.takeWhile Text.isDecimal = [] := by
    cases after with
    | nil => rfl
    | cons c rest => exact List.takeWhile_cons_of_neg (by simp [h.ends c rfl])
  rw [List.takeWhile_append_of_pos h.decimal, hend, List.append_nil]

theorem Candidate.marked (h : Candidate cs before run after) : Marked (mark ++ (run ++ after)) := by
  cases hrun : run with
  | nil => exact absurd hrun h.nonempty
  | cons d ds => exact ⟨d, ds ++ after, rfl, h.decimal d (hrun ▸ List.mem_cons_self)⟩

theorem Candidate.split (h : Candidate cs before run after) :
    cs = before ++ (mark ++ (run ++ after)) := by
  rw [h.text, List.append_assoc, List.append_assoc]

theorem Candidate.length_le (h : Candidate cs before run after)
    (h' : Candidate cs before' run' after') : before'.length ≤ before.length := by
  by_contra hlater
  exact h'.first before _ h.split (Nat.lt_of_not_le hlater) h.marked

theorem Candidate.unique (h : Candidate cs before run after)
    (h' : Candidate cs before' run' after') :
    before = before' ∧ run = run' ∧ after = after' := by
  have hlength : before.length = before'.length :=
    Nat.le_antisymm (h'.length_le h) (h.length_le h')
  obtain ⟨hbefore, hrest⟩ := List.append_inj (h.split.symm.trans h'.split) hlength
  have hbehind : run ++ after = run' ++ after' := List.append_cancel_left hrest
  have hrun : run = run' := by
    rw [← h.takeWhile_eq, hbehind, h'.takeWhile_eq]
  refine ⟨hbefore, hrun, ?_⟩
  rw [hrun] at hbehind
  exact List.append_cancel_left hbehind

theorem candidate_of_marked (h : Marked cs) :
    ∃ after, Candidate cs [] (digitsAfterMark cs) after := by
  have hsome := digitsAfterMark_ne_nil_iff.2 h
  obtain ⟨d, rest, rfl, -⟩ := h
  rw [digitsAfterMark_append] at hsome ⊢
  refine ⟨(d :: rest).dropWhile Text.isDecimal, ?_, hsome, fun c hc => List.mem_takeWhile_imp hc,
    fun c hc => ?_, fun _ _ _ hlength => absurd hlength (Nat.not_lt_zero _)⟩
  · rw [List.nil_append, List.append_assoc, List.takeWhile_append_dropWhile]
  · have hstop := List.head?_dropWhile_not Text.isDecimal (d :: rest)
    rw [hc] at hstop
    exact hstop

/-- A place of the rest is the first of the whole if the whole does not begin with one. -/
theorem Candidate.cons (h : Candidate cs before run after) (hc : ¬ Marked (c :: cs)) :
    Candidate (c :: cs) (c :: before) run after where
  text := congrArg (c :: ·) h.text
  nonempty := h.nonempty
  decimal := h.decimal
  ends := h.ends
  first := by
    intro earlier rest hsplit hlength
    cases earlier with
    | nil =>
      rw [List.nil_append] at hsplit
      exact hsplit ▸ hc
    | cons e earlier =>
      obtain ⟨-, hrest⟩ := List.cons.inj hsplit
      exact h.first earlier rest hrest (Nat.lt_of_succ_lt_succ hlength)

/-- The search ends with the run of the candidate, or with nothing where no place is marked. -/
theorem search_cases (cs : List Char) :
    (∃ before after, Candidate cs before (digits cs) after) ∨
      (digits cs = [] ∧ ∀ before rest, cs = before ++ rest → ¬ Marked rest) := by
  have hunmarked : ¬ Marked [] := fun h => digitsAfterMark_ne_nil_iff.2 h rfl
  induction cs with
  | nil =>
    refine Or.inr ⟨rfl, fun before rest hsplit => ?_⟩
    obtain ⟨-, rfl⟩ := List.append_eq_nil_iff.1 hsplit.symm
    exact hunmarked
  | cons c cs ih =>
    by_cases hmarked : Marked (c :: cs)
    · rw [digits_of_marked hmarked]
      obtain ⟨after, hcandidate⟩ := candidate_of_marked hmarked
      exact Or.inl ⟨[], after, hcandidate⟩
    · -- the search goes on behind `c`, and what is first there is first here
      rw [digits_of_not_marked hmarked]
      rcases ih with ⟨before, after, hcandidate⟩ | ⟨hnone, hrest⟩
      · exact Or.inl ⟨c :: before, after, hcandidate.cons hmarked⟩
      · refine Or.inr ⟨hnone, fun before rest hsplit => ?_⟩
        cases before with
        | nil =>
          rw [List.nil_append] at hsplit
          exact hsplit ▸ hmarked
        | cons b before => exact hrest before rest (List.cons.inj hsplit).2

theorem Candidate.digits_eq (h : Candidate cs before run after) : digits cs = run := by
  rcases search_cases cs with ⟨before', after', hfound⟩ | ⟨-, hnone⟩
  · exact (hfound.unique h).2.1
  · exact absurd h.marked (hnone before _ h.split)

theorem exists_candidate_iff : (∃ before run after, Candidate cs before run after) ↔
    ∃ before rest, cs = before ++ rest ∧ Marked rest := by
  constructor
  · rintro ⟨before, run, after, h⟩
    exact ⟨before, _, h.split, h.marked⟩
  · rintro ⟨before, rest, hsplit, hmarked⟩
    rcases search_cases cs with ⟨before, after, hfound⟩ | ⟨-, hnone⟩
    · exact ⟨before, _, after, hfound⟩
    · exact absurd hmarked (hnone before rest hsplit)

/-- A link is read from its candidate: the first place where digits follow the mark, of which
there is one as soon as digits follow the mark anywhere. The text names a node exactly if all
digits of the candidate's run are ASCII digits and their number is one of 64 bits with a sign, and
the number is the node. Without a candidate, and when its run has another digit or too large a
number, the text names none, whatever comes after the run. -/
theorem link_is_read_from_candidate (uri : String) :
    ((∃ before run after, Candidate uri.toList before run after) ↔
      ∃ before rest, uri.toList = before ++ rest ∧ Marked rest) ∧
    (∀ before run after before' run' after', Candidate uri.toList before run after →
      Candidate uri.toList before' run' after' →
        before = before' ∧ run = run' ∧ after = after') ∧
    (∀ node, target? uri = some node ↔ ∃ before run after,
      Candidate uri.toList before run after ∧ (∀ d ∈ run, d.isDigit = true) ∧
        node = Nat.ofDigitChars 10 run 0 ∧ Nat.ofDigitChars 10 run 0 ≤ 2 ^ 63 - 1) ∧
    ((∀ before run after, ¬ Candidate uri.toList before run after) → target? uri = none) ∧
    ∀ before run after, Candidate uri.toList before run after →
      (∃ d ∈ run, d.isDigit = false) ∨ 2 ^ 63 - 1 < Nat.ofDigitChars 10 run 0 →
        target? uri = none := by
  have hsome : ∀ node, target? uri = some node ↔ ∃ before run after,
      Candidate uri.toList before run after ∧ (∀ d ∈ run, d.isDigit = true) ∧
        node = Nat.ofDigitChars 10 run 0 ∧ Nat.ofDigitChars 10 run 0 ≤ 2 ^ 63 - 1 := by
    intro node
    rw [target?_eq_some_iff]
    constructor
    · rintro ⟨hne, hdigits, hnode, hrange⟩
      rcases search_cases uri.toList with ⟨before, after, hfound⟩ | ⟨hnil, -⟩
      · exact ⟨before, _, after, hfound, hdigits, hnode, by omega⟩
      · exact absurd hnil hne
    · rintro ⟨before, run, after, hcandidate, hdigits, hnode, hrange⟩
      rw [hcandidate.digits_eq]
      exact ⟨hcandidate.nonempty, hdigits, hnode, by omega⟩
  refine ⟨exists_candidate_iff, fun _ _ _ _ _ _ h h' => h.unique h', hsome, fun hnone => ?_,
    fun before run after hcandidate hbad => ?_⟩
  · rw [Option.eq_none_iff_forall_ne_some]
    intro node hnode
    obtain ⟨before, run, after, hcandidate, -⟩ := (hsome node).1 hnode
    exact hnone before run after hcandidate
  · rw [Option.eq_none_iff_forall_ne_some]
    intro node hnode
    obtain ⟨-, hdigits, -, hrange⟩ := target?_eq_some_iff.1 hnode
    rw [hcandidate.digits_eq] at hdigits hrange
    rcases hbad with ⟨d, hd, hother⟩ | hlarge
    · rw [hdigits d hd] at hother
      cases hother
    · omega

/-- A later link is not looked at when the first has a digit of another script in its run. -/
example : target? "entity:node/4\u0665 entity:node/4" = none := by decide +kernel

end Lineage.NodeLink
