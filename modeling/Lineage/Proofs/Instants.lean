import Lineage.Instant
import Lineage.Item.Reader

/-! # Dates are read as they were written

An instant that was read is a date of the calendar with a time of day in UTC, whatever the
spelling and the offset were. It is written in one form, and that form is read as the same
instant: every number has the width that its reader takes, and what stands behind a number
is no digit. -/

namespace Lineage

namespace Text

theorem toNat_of_isDigit {c : Char} (h : c.isDigit = true) : 48 ≤ c.toNat ∧ c.toNat ≤ 57 := by
  simp only [Char.isDigit, Bool.and_eq_true, decide_eq_true_eq] at h
  exact ⟨UInt32.le_iff_toNat_le.1 h.1, UInt32.le_iff_toNat_le.1 h.2⟩

theorem isBlank_of_isDigit {c : Char} (h : c.isDigit = true) : isBlank c = false := by
  have hrange := toNat_of_isDigit h
  simp only [isBlank, Bool.or_eq_false_iff, Bool.and_eq_false_iff, decide_eq_false_iff_not,
    beq_eq_false_iff_ne]
  omega

theorem skipBlank_of_ne {c : Char} (h : isBlank c = false) (rest : List Char) :
    skipBlank (c :: rest) = c :: rest := by
  rw [skipBlank, List.dropWhile_cons_of_neg (by simp [h])]

theorem natural?_of_digits {cs : List Char} (hne : cs ≠ []) (h : ∀ c ∈ cs, c.isDigit = true) :
    natural? cs = some (Nat.ofDigitChars 10 cs 0) := by
  have hall : cs.all Char.isDigit = true := List.all_eq_true.2 h
  simp [natural?, hne, hall]

theorem natural?_eq_some_iff {cs : List Char} {n : Nat} : natural? cs = some n ↔
    cs ≠ [] ∧ (∀ c ∈ cs, c.isDigit = true) ∧ n = Nat.ofDigitChars 10 cs 0 := by
  constructor
  · intro h
    unfold natural? at h
    split at h
    · cases h
    · rename_i hsome
      simp only [Bool.or_eq_true, not_or, Bool.not_eq_true', Bool.not_eq_false,
        List.isEmpty_iff, List.all_eq_true] at hsome
      exact ⟨hsome.1, hsome.2, (Option.some.inj h).symm⟩
  · rintro ⟨hne, hdigits, rfl⟩
    exact natural?_of_digits hne hdigits

theorem of_natural? {cs : List Char} {n : Nat} (h : natural? cs = some n) :
    n = Nat.ofDigitChars 10 cs 0 := (natural?_eq_some_iff.1 h).2.2

end Text

open Text (skipBlank_of_ne isBlank_of_isDigit natural?_of_digits)

theorem ofDigitChars_lt (cs : List Char) (h : ∀ c ∈ cs, c.isDigit = true) (init : Nat) :
    Nat.ofDigitChars 10 cs init < (init + 1) * Nat.pow 10 cs.length := by
  induction cs generalizing init with
  | nil => simp [Nat.ofDigitChars]
  | cons c rest ih =>
    obtain ⟨hc, hrest⟩ := List.forall_mem_cons.1 h
    have hdigit : c.toNat - '0'.toNat ≤ 9 := Nat.sub_le_of_le_add (Text.toNat_of_isDigit hc).2
    rw [Nat.ofDigitChars_cons]
    calc Nat.ofDigitChars 10 rest (10 * init + (c.toNat - '0'.toNat))
        < (10 * init + (c.toNat - '0'.toNat) + 1) * Nat.pow 10 rest.length := ih hrest _
      _ ≤ ((init + 1) * 10) * Nat.pow 10 rest.length :=
          Nat.mul_le_mul_right _ (by omega)
      _ = (init + 1) * Nat.pow 10 (c :: rest).length := by
          rw [List.length_cons, Nat.pow_eq, Nat.pow_eq, Nat.pow_succ, Nat.mul_assoc,
            Nat.mul_comm 10]

namespace Instant
variable {width most n : Nat} {ds rest : List Char}

theorem isDigit_of_mem_padded {c : Char} (h : c ∈ padded width n) : c.isDigit = true := by
  unfold padded at h
  rcases List.mem_append.1 h with h | h
  · rw [List.eq_of_mem_replicate h]
    rfl
  · exact Nat.isDigit_of_mem_toDigits (by decide) (by decide) h

theorem padded_ne_nil (width n : Nat) : padded width n ≠ [] := by
  unfold padded
  exact List.append_ne_nil_of_right_ne_nil _ Nat.toDigits_ne_nil

/-- Zeros in front do not count. -/
theorem ofDigitChars_padded (width n : Nat) : Nat.ofDigitChars 10 (padded width n) 0 = n := by
  have hzeros : ∀ k, Nat.ofDigitChars 10 (List.replicate k '0') 0 = 0 := by
    intro k
    induction k with
    | zero => rfl
    | succ k ih =>
      rw [List.replicate_succ, Nat.ofDigitChars_cons]
      exact ih
  unfold padded
  rw [Nat.ofDigitChars_append, hzeros, Nat.ofDigitChars_ten_toDigits]

theorem length_padded (hwidth : 0 < width) (h : n < Nat.pow 10 width) :
    (padded width n).length = width := by
  have hlength : (Nat.toDigits 10 n).length ≤ width :=
    (Nat.length_toDigits_le_iff (by decide) hwidth).2 h
  unfold padded
  rw [List.length_append, List.length_replicate]
  omega

theorem natural?_padded (width n : Nat) : Text.natural? (padded width n) = some n := by
  rw [natural?_of_digits (padded_ne_nil width n) fun c hc => isDigit_of_mem_padded hc,
    ofDigitChars_padded]

theorem padded_eq_cons (width n : Nat) :
    ∃ c cs, padded width n = c :: cs ∧ c.isDigit = true := by
  obtain ⟨c, cs, h⟩ := List.exists_cons_of_ne_nil (padded_ne_nil width n)
  exact ⟨c, cs, h, isDigit_of_mem_padded (h ▸ List.mem_cons_self)⟩

/-- A list does not begin with a digit. -/
def EndsNumber : List Char → Prop
  | [] => True
  | c :: _ => c.isDigit = false

/-- A number ends where no more digits are taken or where there is no digit. -/
theorem takeDigits_append (hds : ∀ c ∈ ds, c.isDigit = true) (hlength : ds.length ≤ most)
    (hrest : ds.length = most ∨ EndsNumber rest) : takeDigits most (ds ++ rest) = (ds, rest) := by
  induction ds generalizing most with
  | nil =>
    cases most with
    | zero => rfl
    | succ most =>
      have hends : EndsNumber rest := hrest.resolve_left (by simp)
      cases rest with
      | nil => rfl
      | cons c rest =>
        have hc : c.isDigit = false := hends
        rw [List.nil_append, takeDigits, hc]
        rfl
  | cons d ds ih =>
    obtain ⟨hd, hmore⟩ := List.forall_mem_cons.1 hds
    cases most with
    | zero => simp at hlength
    | succ most =>
      have hread : takeDigits most (ds ++ rest) = (ds, rest) :=
        ih hmore (by simpa using hlength) (by simpa using hrest)
      rw [List.cons_append, takeDigits, if_pos hd, hread]

theorem takeDigits_spec (most : Nat) (cs : List Char) :
    (takeDigits most cs).1.length ≤ most ∧ ∀ c ∈ (takeDigits most cs).1, c.isDigit = true := by
  induction most generalizing cs with
  | zero => exact ⟨Nat.le_refl 0, fun c hc => nomatch hc⟩
  | succ most ih =>
    cases cs with
    | nil => exact ⟨Nat.zero_le _, fun c hc => nomatch hc⟩
    | cons c cs =>
      unfold takeDigits
      by_cases hc : c.isDigit = true
      · rw [if_pos hc]
        exact ⟨Nat.succ_le_succ (ih cs).1, List.forall_mem_cons.2 ⟨hc, (ih cs).2⟩⟩
      · rw [if_neg hc]
        exact ⟨Nat.zero_le _, fun c hc => nomatch hc⟩

/-- A number of full width is read whatever follows it. -/
theorem readNumber_padded (hwidth : 0 < width) (h : n < Nat.pow 10 width) (rest : List Char) :
    readNumber width (padded width n ++ rest) = some (n, rest) := by
  obtain ⟨c, cs, hcons, hc⟩ := padded_eq_cons width n
  have hskip : Text.skipBlank (padded width n ++ rest) = padded width n ++ rest := by
    rw [hcons, List.cons_append]
    exact skipBlank_of_ne (isBlank_of_isDigit hc) _
  have htake : takeDigits width (padded width n ++ rest) = (padded width n, rest) :=
    takeDigits_append (fun c hc => isDigit_of_mem_padded hc)
      (Nat.le_of_eq (length_padded hwidth h)) (Or.inl (length_padded hwidth h))
  unfold readNumber
  rw [hskip, htake]
  simp only [natural?_padded, Option.map_some]

theorem readSeparator_self {c : Char} (h : Text.isBlank c = false) (rest : List Char) :
    readSeparator c (c :: rest) = some rest := by
  unfold readSeparator
  rw [skipBlank_of_ne h]
  exact if_pos (by simp)

theorem readSigned_padded (width n : Nat) (hrest : EndsNumber rest) :
    readYear.readSigned (padded width n ++ rest) = some (n, rest) := by
  have hall : ∀ c ∈ padded width n, c.isDigit = true := fun c hc => isDigit_of_mem_padded hc
  have htake : rest.takeWhile Char.isDigit = [] := by
    cases rest with
    | nil => rfl
    | cons c rest =>
      have hc : c.isDigit = false := hrest
      simp [hc]
  have hdrop : rest.dropWhile Char.isDigit = rest := by
    cases rest with
    | nil => rfl
    | cons c rest =>
      have hc : c.isDigit = false := hrest
      simp [hc]
  unfold readYear.readSigned
  rw [List.takeWhile_append_of_pos hall, List.dropWhile_append_of_pos hall, htake, hdrop,
    List.append_nil]
  simp only [natural?_padded, Option.map_some]

theorem readYear_yearChars (year : Int) (hrest : EndsNumber rest) :
    readYear (yearChars year ++ rest) = some (year, rest) := by
  unfold yearChars
  by_cases hplain : 0 ≤ year ∧ year ≤ 9999
  · rw [if_pos (by simpa using hplain)]
    obtain ⟨c, cs, hcons, hc⟩ := padded_eq_cons 4 year.toNat
    have hskip : Text.skipBlank (padded 4 year.toNat ++ rest) = padded 4 year.toNat ++ rest := by
      rw [hcons, List.cons_append]
      exact skipBlank_of_ne (isBlank_of_isDigit hc) _
    have hnumber : readNumber 4 (padded 4 year.toNat ++ rest) = some (year.toNat, rest) :=
      readNumber_padded (by decide) (by show year.toNat < 10000; omega) rest
    have hyear : ((year.toNat : Nat) : Int) = year := Int.toNat_of_nonneg hplain.1
    unfold readYear
    rw [hskip]
    split
    · rename_i heq
      rw [hcons] at heq
      obtain ⟨rfl, -⟩ := List.cons.inj heq
      cases hc
    · rename_i heq
      rw [hcons] at heq
      obtain ⟨rfl, -⟩ := List.cons.inj heq
      cases hc
    · simp only [hnumber, Option.map_some, hyear]
  · rw [if_neg (by simpa using hplain), List.cons_append]
    unfold readYear
    by_cases hneg : year < 0
    · have hyear : -((year.natAbs : Nat) : Int) = year := by omega
      rw [if_pos hneg, skipBlank_of_ne (by decide)]
      simp only [readSigned_padded 4 year.natAbs hrest, Option.map_some, hyear]
    · have hyear : ((year.natAbs : Nat) : Int) = year := by omega
      rw [if_neg hneg, skipBlank_of_ne (by decide)]
      simp only [readSigned_padded 4 year.natAbs hrest, Option.map_some, hyear]

theorem readFraction_fractionChars {nano : Nat} (h : nano < Nat.pow 10 9)
    (hrest : EndsNumber rest) (hpoint : ∀ cs, rest ≠ '.' :: cs) :
    readFraction (fractionChars nano ++ rest) = some (nano, rest) := by
  have hgroup : ∀ k, 0 < k → k ≤ 9 → nano % Nat.pow 10 (9 - k) = 0 →
      nano / Nat.pow 10 (9 - k) < Nat.pow 10 k →
      readFraction ('.' :: padded k (nano / Nat.pow 10 (9 - k)) ++ rest) = some (nano, rest) := by
    intro k hk hle hzero hlt
    have hall : ∀ c ∈ padded k (nano / Nat.pow 10 (9 - k)), c.isDigit = true :=
      fun c hc => isDigit_of_mem_padded hc
    have hlength := length_padded hk hlt
    have htake : takeDigits 9 (padded k (nano / Nat.pow 10 (9 - k)) ++ rest) =
        (padded k (nano / Nat.pow 10 (9 - k)), rest) :=
      takeDigits_append hall (by omega) (Or.inr hrest)
    have hdrop : rest.dropWhile Char.isDigit = rest := by
      cases rest with
      | nil => rfl
      | cons c rest =>
        have hc : c.isDigit = false := hrest
        simp [hc]
    have hvalue : nano / Nat.pow 10 (9 - k) * Nat.pow 10 (9 - k) = nano :=
      Nat.div_mul_cancel (Nat.dvd_of_mod_eq_zero hzero)
    rw [List.cons_append, readFraction, htake]
    simp only [natural?_padded, Option.map_some, hlength, hvalue, hdrop]
  unfold fractionChars
  by_cases hnone : nano = 0
  · subst hnone
    rw [if_pos (by rfl), List.nil_append]
    cases rest with
    | nil => rfl
    | cons c rest =>
      unfold readFraction
      split
      · rename_i heq
        exact absurd heq (hpoint _)
      · rfl
  · rw [if_neg (by simpa using hnone)]
    have hlt : nano < 1000000000 := h
    by_cases hmilli : nano % 1000000 = 0
    · rw [if_pos (by simpa using hmilli)]
      exact hgroup 3 (by decide) (by decide) hmilli (by show nano / 1000000 < 1000; omega)
    · rw [if_neg (by simpa using hmilli)]
      by_cases hmicro : nano % 1000 = 0
      · rw [if_pos (by simpa using hmicro)]
        exact hgroup 6 (by decide) (by decide) hmicro (by show nano / 1000 < 1000000; omega)
      · rw [if_neg (by simpa using hmicro)]
        have hall := hgroup 9 (by decide) (by decide) (Nat.mod_one nano)
          (by show nano / 1 < 1000000000; omega)
        rwa [show nano / Nat.pow 10 (9 - 9) = nano from Nat.div_one nano] at hall

/-- A date of the calendar and a time of day; a second may be a leap second. -/
structure Valid (t : Instant) : Prop where
  date : isDate t.year t.month t.day = true
  hour : t.hour < 24
  minute : t.minute < 60
  second : t.second ≤ 60
  nano : t.nano < Nat.pow 10 9

theorem isDate_iff {year : Int} {month day : Nat} : isDate year month day = true ↔
    yearInRange year = true ∧ 1 ≤ month ∧ month ≤ 12 ∧ 1 ≤ day ∧ day ≤ daysInMonth year month := by
  unfold isDate
  simp [and_assoc]

theorem daysInMonth_pos (year : Int) (month : Nat) : 1 ≤ daysInMonth year month := by
  unfold daysInMonth
  split <;> split <;> omega

/-- The day before is a date, unless its year cannot be represented. -/
theorem isDate_previousDate {year : Int} {month day : Nat} (h : isDate year month day = true)
    (hyear : yearInRange (previousDate year month day).1 = true) :
    isDate (previousDate year month day).1 (previousDate year month day).2.1
      (previousDate year month day).2.2 = true := by
  obtain ⟨-, hmonth, htwelve, hday, hlast⟩ := isDate_iff.1 h
  rw [isDate_iff]
  refine ⟨hyear, ?_⟩
  unfold previousDate
  split
  · exact ⟨hmonth, htwelve, by simp only; omega, by simp only; omega⟩
  · split
    · exact ⟨by simp only; omega, by simp only; omega, daysInMonth_pos _ _, Nat.le_refl _⟩
    · have htwelve : daysInMonth (year - 1) 12 = 31 := rfl
      exact ⟨by simp only; omega, Nat.le_refl 12, by simp only; omega, Nat.le_of_eq htwelve.symm⟩

theorem isDate_nextDate {year : Int} {month day : Nat} (h : isDate year month day = true)
    (hyear : yearInRange (nextDate year month day).1 = true) :
    isDate (nextDate year month day).1 (nextDate year month day).2.1
      (nextDate year month day).2.2 = true := by
  obtain ⟨-, hmonth, htwelve, hday, hlast⟩ := isDate_iff.1 h
  rw [isDate_iff]
  refine ⟨hyear, ?_⟩
  unfold nextDate
  split
  · exact ⟨hmonth, htwelve, by simp only; omega, by simp only; omega⟩
  · split
    · exact ⟨by simp only; omega, by simp only; omega, Nat.le_refl 1, daysInMonth_pos _ _⟩
    · exact ⟨Nat.le_refl 1, by simp only; omega, Nat.le_refl 1, daysInMonth_pos _ _⟩

theorem valid_fromLocal? {t u : Instant} {offset : Int} (h : fromLocal? t offset = some u)
    (hdate : isDate t.year t.month t.day = true) (hsecond : t.second ≤ 60)
    (hnano : t.nano < Nat.pow 10 9) : u.Valid := by
  have hvalid : ∀ (year : Int) (month day ofDay : Nat), isDate year month day = true →
      ofDay < 1440 → Valid { t with year, month, day, hour := ofDay / 60, minute := ofDay % 60 } :=
    fun year month day ofDay hdate hday =>
      ⟨hdate, by show ofDay / 60 < 24; omega, by show ofDay % 60 < 60; omega, hsecond, hnano⟩
  unfold fromLocal? at h
  obtain ⟨minutes, hminutes⟩ : ∃ minutes : Int, minutes = (60 * t.hour + t.minute : Int) - offset :=
    ⟨_, rfl⟩
  have hofDay : (minutes % 1440).toNat < 1440 := by omega
  simp only [← hminutes] at h
  by_cases hbefore : minutes < 0
  · simp only [if_pos hbefore] at h
    split at h
    · rename_i hyear
      cases h
      exact hvalid _ _ _ _ (isDate_previousDate hdate hyear) hofDay
    · cases h
  · by_cases hafter : 1440 ≤ minutes
    · simp only [if_neg hbefore, if_pos hafter] at h
      split at h
      · rename_i hyear
        cases h
        exact hvalid _ _ _ _ (isDate_nextDate hdate hyear) hofDay
      · cases h
    · simp only [if_neg hbefore, if_neg hafter] at h
      split at h
      · cases h
        exact hvalid _ _ _ _ hdate hofDay
      · cases h

theorem nano_of_readFraction {cs rest : List Char} (h : readFraction cs = some (n, rest)) :
    n < Nat.pow 10 9 := by
  unfold readFraction at h
  split at h
  · rename_i digits
    obtain ⟨hlength, hdigits⟩ := takeDigits_spec 9 digits
    obtain ⟨m, hm, heq⟩ := Option.map_eq_some_iff.1 h
    obtain ⟨rfl, -⟩ := Prod.mk.inj heq
    have hlt := ofDigitChars_lt _ hdigits 0
    rw [← Text.of_natural? hm, Nat.zero_add, Nat.one_mul] at hlt
    calc m * Nat.pow 10 (9 - (takeDigits 9 digits).1.length)
        < Nat.pow 10 (takeDigits 9 digits).1.length *
            Nat.pow 10 (9 - (takeDigits 9 digits).1.length) :=
          Nat.mul_lt_mul_of_pos_right hlt (Nat.pow_pos (by decide))
      _ = Nat.pow 10 9 := by
          rw [Nat.pow_eq, Nat.pow_eq, Nat.pow_eq, ← Nat.pow_add, Nat.add_sub_cancel' hlength]
  · obtain ⟨rfl, -⟩ := Prod.mk.inj (Option.some.inj h)
    decide

theorem valid_of_readChars {cs : List Char} {t : Instant} (h : readChars cs = some t) :
    t.Valid := by
  unfold readChars at h
  obtain ⟨⟨year, cs⟩, -, h⟩ := Option.bind_eq_some_iff.1 h
  obtain ⟨cs, -, h⟩ := Option.bind_eq_some_iff.1 h
  obtain ⟨⟨month, cs⟩, -, h⟩ := Option.bind_eq_some_iff.1 h
  obtain ⟨cs, -, h⟩ := Option.bind_eq_some_iff.1 h
  obtain ⟨⟨day, cs⟩, -, h⟩ := Option.bind_eq_some_iff.1 h
  dsimp only at h
  split at h
  · split at h
    · obtain ⟨cs, -, h⟩ := Option.bind_eq_some_iff.1 h
      obtain ⟨⟨hour, cs⟩, -, h⟩ := Option.bind_eq_some_iff.1 h
      obtain ⟨cs, -, h⟩ := Option.bind_eq_some_iff.1 h
      obtain ⟨⟨minute, cs⟩, -, h⟩ := Option.bind_eq_some_iff.1 h
      obtain ⟨cs, -, h⟩ := Option.bind_eq_some_iff.1 h
      obtain ⟨⟨second, cs⟩, -, h⟩ := Option.bind_eq_some_iff.1 h
      obtain ⟨⟨nano, cs⟩, hnano, h⟩ := Option.bind_eq_some_iff.1 h
      obtain ⟨⟨offset, cs⟩, -, h⟩ := Option.bind_eq_some_iff.1 h
      dsimp only at h
      split at h
      · rename_i hcond
        simp only [Bool.and_eq_true, decide_eq_true_eq] at hcond
        obtain ⟨⟨⟨⟨⟨⟨hdate, -⟩, -⟩, hsecond⟩, -⟩, -⟩, -⟩ := hcond
        exact valid_fromLocal? h hdate hsecond (nano_of_readFraction hnano)
      · cases h
    · cases h
  · cases h

/-! ## Reading what was written -/

/-- An instant in UTC is the one that its local time reads. -/
theorem Valid.fromLocal?_zero {t : Instant} (h : t.Valid) : fromLocal? t 0 = some t := by
  have hhour := h.hour
  have hminute := h.minute
  have hyear := (isDate_iff.1 h.date).1
  obtain ⟨minutes, hminutes⟩ : ∃ minutes : Int, minutes = (60 * t.hour + t.minute : Int) - 0 :=
    ⟨_, rfl⟩
  have hbefore : ¬ minutes < 0 := by omega
  have hafter : ¬ 1440 ≤ minutes := by omega
  have hofHour : (minutes % 1440).toNat / 60 = t.hour := by omega
  have hofMinute : (minutes % 1440).toNat % 60 = t.minute := by omega
  unfold fromLocal?
  simp only [← hminutes, if_neg hbefore, if_neg hafter, hyear, hofHour, hofMinute, if_true]

theorem bind_of_eq_some {α β : Type} {x : Option α} {a : α} (h : x = some a)
    (f : α → Option β) : (x >>= f) = f a := by
  rw [h]
  rfl

theorem readZone_utc : readZone ['Z'] = some (0, []) := by
  decide

theorem readChars_toChars {t : Instant} (h : t.Valid) : readChars t.toChars = some t := by
  obtain ⟨-, -, hmonth, -, hday⟩ := isDate_iff.1 h.date
  have hdays : daysInMonth t.year t.month ≤ 31 := by
    unfold daysInMonth
    split <;> split <;> omega
  have hsecond := h.second
  have hhour := h.hour
  have hminute := h.minute
  have hyear : ∀ rest, readYear (yearChars t.year ++ '-' :: rest) = some (t.year, '-' :: rest) :=
    fun rest => readYear_yearChars t.year rfl
  have htwo : ∀ n rest, n < 100 → readNumber 2 (padded 2 n ++ rest) = some (n, rest) :=
    fun n rest hn => readNumber_padded (by decide) hn rest
  have hdash : ∀ rest, readSeparator '-' ('-' :: rest) = some rest :=
    readSeparator_self (by decide)
  have hcolon : ∀ rest, readSeparator ':' (':' :: rest) = some rest :=
    readSeparator_self (by decide)
  have hfraction : readFraction (fractionChars t.nano ++ ['Z']) = some (t.nano, ['Z']) :=
    readFraction_fractionChars h.nano (show 'Z'.isDigit = false from rfl)
      (fun cs hcs => by cases hcs)
  have hcond : (isDate t.year t.month t.day && decide (t.hour < 24) && decide (t.minute < 60) &&
      decide (t.second ≤ 60) && decide (-1440 < (0 : Int)) && decide ((0 : Int) < 1440) &&
      (Text.skipBlank []).isEmpty) = true := by
    simp [h.date, hhour, hminute, hsecond, Text.skipBlank]
  unfold readChars toChars
  simp only [List.append_assoc, List.cons_append]
  rw [bind_of_eq_some (hyear _), bind_of_eq_some (hdash _),
    bind_of_eq_some (htwo t.month _ (by omega)), bind_of_eq_some (hdash _),
    bind_of_eq_some (htwo t.day _ (by omega))]
  -- behind the date stands the mark of the time
  show (readNumber 2 _ >>= _) = _
  rw [bind_of_eq_some (htwo t.hour _ (by omega)), bind_of_eq_some (hcolon _),
    bind_of_eq_some (htwo t.minute _ (by omega)), bind_of_eq_some (hcolon _),
    bind_of_eq_some (htwo t.second _ (by omega)), bind_of_eq_some hfraction,
    bind_of_eq_some readZone_utc]
  rw [if_pos hcond]
  exact h.fromLocal?_zero

/-- A date that was read is written so that it is read again. -/
theorem read_toString {s : String} {t : Instant} (h : read s = some t) :
    read t.toString = some t := by
  unfold read toString
  rw [String.toList_ofList]
  exact readChars_toChars (valid_of_readChars h)

end Instant

end Lineage
