import Lineage.Json.Parser

/-! # Reading what was written

The text of a JSON value is read back as that value, whatever stands behind the text
as long as it cannot carry on a number. The reader spends fuel on each step down and
the text is long enough to pay for all of them. Only `unreadable`, which is never
written, is excepted. -/

namespace Lineage.Json
open Lineage.Text (Symbol)

def input (cs : List Char) : Input := cs.map some

@[simp] theorem input_nil : input [] = [] := rfl

@[simp] theorem input_cons (c : Char) (cs : List Char) : input (c :: cs) = some c :: input cs := rfl

@[simp] theorem input_append (as bs : List Char) : input (as ++ bs) = input as ++ input bs :=
  List.map_append

theorem joinPieces_symbol (s : Symbol) (more : List Piece) :
    joinPieces (.symbol s :: more) = s :: joinPieces more := by
  rw [joinPieces]

theorem joinPieces_unit {n : Nat} (h : n < 0xD800) (more : List Piece) :
    joinPieces (.unit n :: more) = some (Char.ofNat n) :: joinPieces more := by
  have hhigh : isHighSurrogate n = false := by
    simp only [isHighSurrogate, Bool.and_eq_false_iff, decide_eq_false_iff_not]
    omega
  have hlow : isLowSurrogate n = false := by
    simp only [isLowSurrogate, Bool.and_eq_false_iff, decide_eq_false_iff_not]
    omega
  match more with
  | [] => simp [joinPieces, hhigh, hlow]
  | .symbol s :: more => simp [joinPieces, hhigh, hlow]
  | .unit m :: more => simp [joinPieces, hhigh, hlow]

theorem hexValue_digitChar : ∀ d, d < 16 → Text.hexValue? (Nat.digitChar d) = some d := by
  decide

theorem unit_control {n : Nat} (h : n < 32) :
    unit? [some '0', some '0', some (Nat.digitChar (n / 16)), some (Nat.digitChar (n % 16))] =
      some n := by
  have hzero : Text.hexValue? '0' = some 0 := by decide
  have hhigh := hexValue_digitChar (n / 16) (by omega)
  have hlow := hexValue_digitChar (n % 16) (by omega)
  simp only [unit?, List.mapM_cons, List.mapM_nil, id, Option.bind_eq_bind, Option.bind_some,
    Option.pure_def, Text.hexNumber?, List.foldl_cons, List.foldl_nil, hzero, hhigh, hlow,
    Option.map_some]
  congr 1
  omega

theorem pieces_short {e c : Char} (h : shortEscape? e = some c) (rest : Input) :
    pieces? (some '\\' :: some e :: rest) =
      (pieces? rest).map fun (more, rest) => (.symbol (some c) :: more, rest) := by
  have hu : e ≠ 'u' := by
    rintro rfl
    simp [shortEscape?] at h
  rw [pieces?, h]
  · cases pieces? rest <;> rfl
  · simp [hu]

theorem pieces_control {n : Nat} (h : n < 32) (rest : Input) :
    pieces? (some '\\' :: some 'u' :: some '0' :: some '0' :: some (Nat.digitChar (n / 16)) ::
        some (Nat.digitChar (n % 16)) :: rest) =
      (pieces? rest).map fun (more, rest) => (.unit n :: more, rest) := by
  rw [pieces?, unit_control h]
  cases pieces? rest <;> rfl

theorem pieces_plain {c : Char} (hquote : c ≠ '"') (hslash : c ≠ '\\') (h : ¬ c.toNat < 32)
    (rest : Input) : pieces? (some c :: rest) =
      (pieces? rest).map fun (more, rest) => (.symbol (some c) :: more, rest) := by
  rw [pieces?, if_neg h]
  · exact hquote
  · simp [hslash]
  · simp [hslash]
  · simp [hslash]

/-- A written character is read as one piece that stands for it. -/
theorem pieces_escaped (c : Char) (rest : Input) :
    ∃ p, pieces? (input (escaped c) ++ rest) =
        (pieces? rest).map (fun (more, rest) => (p :: more, rest)) ∧
      ∀ more, joinPieces (p :: more) = some c :: joinPieces more := by
  unfold escaped
  split
  · rename_i h
    obtain rfl : c = '"' := by simpa using h
    exact ⟨_, pieces_short (by decide) rest, joinPieces_symbol _⟩
  split
  · rename_i h
    obtain rfl : c = '\\' := by simpa using h
    exact ⟨_, pieces_short (by decide) rest, joinPieces_symbol _⟩
  split
  · rename_i h
    obtain rfl : c = Char.ofNat 8 := by simpa using congrArg Char.ofNat (by simpa using h : c.toNat = 8)
    exact ⟨_, pieces_short (by decide) rest, joinPieces_symbol _⟩
  split
  · rename_i h
    obtain rfl : c = Char.ofNat 12 := by simpa using congrArg Char.ofNat (by simpa using h : c.toNat = 12)
    exact ⟨_, pieces_short (by decide) rest, joinPieces_symbol _⟩
  split
  · rename_i h
    obtain rfl : c = '\n' := by simpa using h
    exact ⟨_, pieces_short (by decide) rest, joinPieces_symbol _⟩
  split
  · rename_i h
    obtain rfl : c = '\r' := by simpa using h
    exact ⟨_, pieces_short (by decide) rest, joinPieces_symbol _⟩
  split
  · rename_i h
    obtain rfl : c = '\t' := by simpa using h
    exact ⟨_, pieces_short (by decide) rest, joinPieces_symbol _⟩
  split
  · rename_i h
    refine ⟨.unit c.toNat, pieces_control h rest, fun more => ?_⟩
    rw [joinPieces_unit (by omega), Char.ofNat_toNat]
  · rename_i hquote hslash _ _ _ _ _ h
    exact ⟨_, pieces_plain (by simpa using hquote) (by simpa using hslash) h rest,
      joinPieces_symbol _⟩

theorem pieces_chars (cs : List Char) (rest : Input) :
    ∃ ps, pieces? (input (cs.flatMap escaped ++ ['"']) ++ rest) = some (ps, rest) ∧
      joinPieces ps = input cs := by
  induction cs with
  | nil => exact ⟨[], by simp [pieces?], rfl⟩
  | cons c cs ih =>
    obtain ⟨ps, hps, hjoin⟩ := ih
    obtain ⟨p, hp, hpj⟩ := pieces_escaped c (input (cs.flatMap escaped ++ ['"']) ++ rest)
    refine ⟨p :: ps, ?_, by rw [hpj, hjoin, input_cons]⟩
    rw [List.flatMap_cons, List.append_assoc, input_append, List.append_assoc, hp, hps]
    rfl

theorem mapM_id_input (cs : List Char) : (input cs).mapM id = some cs := by
  induction cs with
  | nil => rfl
  | cons c cs ih => simp [List.mapM_cons, ih]

/-- A written string is read back after its opening quotation mark. -/
theorem stringBody_chars (s : String) (rest : Input) :
    stringBody? (input (s.toList.flatMap escaped ++ ['"']) ++ rest) = some (some s, rest) := by
  obtain ⟨ps, hps, hjoin⟩ := pieces_chars s.toList rest
  unfold stringBody?
  rw [hps]
  simp [hjoin, mapM_id_input]

/-- What may stand behind a value inside a text: nothing, or a mark that ends it. -/
def Ends : Input → Prop
  | [] => True
  | s :: _ => s = some ',' ∨ s = some ']' ∨ s = some '\x7d'

theorem spanDigits_append {ds : List Char} (hds : ∀ c ∈ ds, c.isDigit = true) {rest : Input}
    (hrest : Ends rest) : spanDigits (input ds ++ rest) = (ds, rest) := by
  induction ds with
  | nil =>
    match rest with
    | [] => rfl
    | s :: rest =>
      rcases hrest with rfl | rfl | rfl <;> rfl
  | cons d ds ih =>
    have hd := hds d (by simp)
    rw [input_cons, List.cons_append, spanDigits, if_pos hd,
      ih fun c hc => hds c (by simp [hc])]

theorem digits_toDigits (n : Nat) {rest : Input} (hrest : Ends rest) :
    digits? (input (Nat.toDigits 10 n) ++ rest) = some (Nat.toDigits 10 n, rest) := by
  have hds : ∀ c ∈ Nat.toDigits 10 n, c.isDigit = true :=
    fun c hc => Nat.isDigit_of_mem_toDigits (by decide) (by decide) hc
  unfold digits?
  rw [spanDigits_append hds hrest]
  cases h : Nat.toDigits 10 n with
  | nil => exact absurd h Nat.toDigits_ne_nil
  | cons d ds => rfl

theorem digitChar_ne_zero : ∀ d, d < 10 → 0 < d → Nat.digitChar d ≠ '0' := by
  decide

/-- No number but zero is written with a zero in front. -/
theorem head_toDigits {n : Nat} (h : 0 < n) : (Nat.toDigits 10 n).head? ≠ some '0' := by
  induction n using Nat.strongRecOn with
  | ind n ih =>
    by_cases hn : n < 10
    · rw [Nat.toDigits_of_lt_base hn]
      simpa using digitChar_ne_zero n hn h
    · have hfront := ih (n / 10) (by omega) (by omega)
      rw [Nat.toDigits_of_base_le (by decide) (by omega)]
      cases hd : Nat.toDigits 10 (n / 10) with
      | nil => exact absurd hd Nat.toDigits_ne_nil
      | cons d ds => simpa [hd] using hfront

theorem fraction_ends {rest : Input} (h : Ends rest) : fraction? rest = some (false, rest) := by
  match rest with
  | [] => rfl
  | s :: rest => rcases h with rfl | rfl | rfl <;> rfl

theorem exponent_ends {rest : Input} (h : Ends rest) : exponent? rest = some (false, rest) := by
  match rest with
  | [] => rfl
  | s :: rest => rcases h with rfl | rfl | rfl <;> rfl

/-- The digits of a number are read back, with the sign that was read before them. -/
theorem number_toDigits (negative : Bool) (n : Nat) (hsign : negative = true → 0 < n)
    {rest : Input} (hrest : Ends rest) :
    number? negative (input (Nat.toDigits 10 n) ++ rest) =
      some (.int (if negative then -(n : Int) else n), rest) := by
  have hzero : ((Nat.toDigits 10 n).head? == some '0' &&
      (Nat.toDigits 10 n).length != 1) = false := by
    by_cases hn : 0 < n
    · have := head_toDigits hn
      simp_all
    · obtain rfl : n = 0 := by omega
      decide
  have hnegzero : (negative && n == 0) = false := by
    cases negative with
    | false => rfl
    | true => simpa using Nat.ne_of_gt (hsign rfl)
  unfold number?
  simp only [digits_toDigits n hrest, Option.bind_eq_bind, Option.bind_some, hzero,
    Bool.false_eq_true, if_false, fraction_ends hrest, exponent_ends hrest,
    Nat.ofDigitChars_ten_toDigits, hnegzero, Bool.or_self]

/-! ## Values -/

mutual
/-- Whether a value is one that a text can be read as. -/
def Readable : Json → Prop
  | .arr items => ItemsReadable items
  | .obj entries => EntriesReadable entries
  | .unreadable => False
  | _ => True
def ItemsReadable : List Json → Prop
  | [] => True
  | v :: rest => v.Readable ∧ ItemsReadable rest
def EntriesReadable : List (String × Json) → Prop
  | [] => True
  | e :: rest => EntryReadable e ∧ EntriesReadable rest
def EntryReadable : String × Json → Prop
  | (_, v) => v.Readable
end

mutual
/-- The fuel that suffices to read a value. -/
def fuelFor : Json → Nat
  | .arr items => 1 + itemsFuel items
  | .obj entries => 1 + entriesFuel entries
  | _ => 1
def itemsFuel : List Json → Nat
  | [] => 0
  | v :: rest => 1 + fuelFor v + itemsFuel rest
def entriesFuel : List (String × Json) → Nat
  | [] => 0
  | e :: rest => 1 + entryFuel e + entriesFuel rest
def entryFuel : String × Json → Nat
  | (_, v) => fuelFor v
end

theorem skipSpace_of_ne {c : Char} (h : isSpace c = false) (rest : Input) :
    skipSpace (some c :: rest) = some c :: rest := by
  rw [skipSpace, h]
  rfl

/-- No written value begins like a blank or like the end of a list. -/
theorem chars_begin {v : Json} (h : v.Readable) :
    ∃ c cs, v.chars = c :: cs ∧ isSpace c = false ∧ c ≠ ']' ∧ c ≠ '\x7d' := by
  have hdigit : ∀ c : Char, c.isDigit = true → isSpace c = false ∧ c ≠ ']' ∧ c ≠ '\x7d' := by
    intro c hc
    refine ⟨?_, ?_, ?_⟩
    · simp only [isSpace, Bool.or_eq_false_iff, beq_eq_false_iff_ne, ne_eq]
      refine ⟨⟨⟨?_, ?_⟩, ?_⟩, ?_⟩ <;> (rintro rfl; revert hc; decide)
    · rintro rfl; revert hc; decide
    · rintro rfl; revert hc; decide
  cases v with
  | null => exact ⟨_, _, rfl, by decide, by decide, by decide⟩
  | bool b => cases b <;> exact ⟨_, _, rfl, by decide, by decide, by decide⟩
  | str s => exact ⟨_, _, rfl, by decide, by decide, by decide⟩
  | arr items => cases items <;> exact ⟨_, _, rfl, by decide, by decide, by decide⟩
  | obj entries => cases entries <;> exact ⟨_, _, rfl, by decide, by decide, by decide⟩
  | unreadable => exact absurd h (by simp [Readable])
  | int n =>
    simp only [chars, intChars]
    split
    · exact ⟨_, _, rfl, by decide, by decide, by decide⟩
    · cases hd : Nat.toDigits 10 n.natAbs with
      | nil => exact absurd hd Nat.toDigits_ne_nil
      | cons d ds =>
        have hmem : d ∈ Nat.toDigits 10 n.natAbs := by rw [hd]; exact List.mem_cons_self
        exact ⟨d, ds, rfl, hdigit d (Nat.isDigit_of_mem_toDigits (by decide) (by decide) hmem)⟩

theorem value_number {c : Char} (h : c.isDigit = true) (fuel : Nat) (rest : Input) :
    value? (fuel + 1) (some c :: rest) = number? false (some c :: rest) := by
  have hspace : isSpace c = false := by
    simp only [isSpace, Bool.or_eq_false_iff, beq_eq_false_iff_ne, ne_eq]
    refine ⟨⟨⟨?_, ?_⟩, ?_⟩, ?_⟩ <;> (rintro rfl; revert h; decide)
  rw [value?, skipSpace_of_ne hspace]
  split <;> simp_all

theorem value_int (n : Int) (fuel : Nat) {rest : Input} (hrest : Ends rest) :
    value? (fuel + 1) (input (intChars n) ++ rest) = some (.int n, rest) := by
  unfold intChars
  split
  · rename_i hn
    rw [input_cons, List.cons_append, value?]
    rw [skipSpace_of_ne (by decide)]
    show number? true (input (Nat.toDigits 10 n.natAbs) ++ rest) = _
    rw [number_toDigits true n.natAbs (fun _ => by omega) hrest, if_pos rfl]
    congr 3
    omega
  · rename_i hn
    have hread := number_toDigits false n.natAbs (fun h => by cases h) hrest
    cases hd : Nat.toDigits 10 n.natAbs with
    | nil => exact absurd hd Nat.toDigits_ne_nil
    | cons d ds =>
      have hmem : d ∈ Nat.toDigits 10 n.natAbs := by rw [hd]; exact List.mem_cons_self
      have hdigit := Nat.isDigit_of_mem_toDigits (by decide) (by decide) hmem
      rw [hd] at hread
      rw [input_cons, List.cons_append, value_number hdigit, ← List.cons_append, ← input_cons, hread]
      congr 3
      simp only [Bool.false_eq_true, if_false]
      omega

theorem value_str (s : String) (fuel : Nat) (rest : Input) :
    value? (fuel + 1) (input (stringChars s) ++ rest) = some (.str s, rest) := by
  unfold stringChars
  rw [List.cons_append, input_cons, List.cons_append, value?, skipSpace_of_ne (by decide)]
  show (stringBody? (input (s.toList.flatMap escaped ++ ['"']) ++ rest)).map _ = _
  rw [stringBody_chars]
  rfl

theorem ends_items (items : List Json) (rest : Input) :
    Ends (input (itemsChars ',' items) ++ rest) := by
  cases items with
  | nil => exact Or.inr (Or.inl rfl)
  | cons v items => exact Or.inl rfl

theorem ends_entries (entries : List (String × Json)) (rest : Input) :
    Ends (input (entriesChars ',' entries) ++ rest) := by
  cases entries with
  | nil => exact Or.inr (Or.inr rfl)
  | cons e entries => exact Or.inl rfl

theorem object_of_keys (entries : List (String × Json)) :
    object (entries.map fun e => (some e.1, e.2)) = .obj entries := by
  have hkeys : ∀ pair : Option String × Json → Option (String × Json),
      (∀ key v, pair (some key, v) = some (key, v)) →
        (entries.map fun e => (some e.1, e.2)).mapM pair = some entries := by
    intro pair hpair
    induction entries with
    | nil => rfl
    | cons e entries ih => simp [List.mapM_cons, hpair, ih]
  unfold object
  rw [hkeys _ fun _ _ => rfl]

/-- An array is read if its elements are. -/
theorem value_chars_arr {v : Json} {items : List Json} {fuel : Nat} {rest : Input} (h : v.Readable)
    (hread : items? fuel (input (v.chars ++ itemsChars ',' items) ++ rest) =
      some (v :: items, rest)) :
    value? (fuel + 1) (input (chars (.arr (v :: items))) ++ rest) =
      some (.arr (v :: items), rest) := by
  obtain ⟨c, cs, hc, hspace, hclose, -⟩ := chars_begin h
  rw [hc] at hread
  rw [chars, itemsChars, hc, value?]
  simp only [input_cons, List.cons_append] at hread ⊢
  rw [skipSpace_of_ne (by decide)]
  simp only [skipSpace_of_ne hspace]
  split
  · simp_all
  · rw [hread]
    rfl

theorem value_chars_obj {e : String × Json} {entries : List (String × Json)} {fuel : Nat} {rest : Input}
    (hread : entries? fuel (input (entryChars e ++ entriesChars ',' entries) ++ rest) =
      some ((e :: entries).map fun e => (some e.1, e.2), rest)) :
    value? (fuel + 1) (input (chars (.obj (e :: entries))) ++ rest) =
      some (.obj (e :: entries), rest) := by
  obtain ⟨cs, hc⟩ : ∃ cs, entryChars e = '"' :: cs := by
    cases e
    exact ⟨_, rfl⟩
  rw [hc] at hread
  rw [chars, entriesChars, hc, value?]
  simp only [input_cons, List.cons_append] at hread ⊢
  rw [skipSpace_of_ne (by decide)]
  simp only [skipSpace_of_ne (show isSpace '"' = false by decide)]
  refine (congrArg (Option.map _) hread).trans ?_
  exact congrArg (fun v => some (v, rest)) (object_of_keys (e :: entries))

theorem items_chars_cons {v : Json} {items : List Json} {fuel : Nat} {rest : Input}
    (hv : value? fuel (input v.chars ++ (input (itemsChars ',' items) ++ rest)) =
      some (v, input (itemsChars ',' items) ++ rest))
    (hrest : ∀ w others, items = w :: others →
      items? fuel (input (w.chars ++ itemsChars ',' others) ++ rest) = some (items, rest)) :
    items? (fuel + 1) (input (v.chars ++ itemsChars ',' items) ++ rest) =
      some (v :: items, rest) := by
  rw [items?, input_append, List.append_assoc, hv]
  simp only [Option.bind_eq_bind, Option.bind_some]
  cases items with
  | nil => rfl
  | cons w others =>
    rw [itemsChars, List.cons_append, input_cons, List.cons_append, skipSpace_of_ne (by decide)]
    simp only [hrest w others rfl, Option.map_some]

theorem entries_chars_cons {key : String} {v : Json} {entries : List (String × Json)} {fuel : Nat}
    {rest : Input} (hv : value? fuel (input v.chars ++ (input (entriesChars ',' entries) ++ rest)) =
      some (v, input (entriesChars ',' entries) ++ rest))
    (hrest : ∀ e others, entries = e :: others →
      entries? fuel (input (entryChars e ++ entriesChars ',' others) ++ rest) =
        some (entries.map fun e => (some e.1, e.2), rest)) :
    entries? (fuel + 1) (input (entryChars (key, v) ++ entriesChars ',' entries) ++ rest) =
      some (((key, v) :: entries).map fun e => (some e.1, e.2), rest) := by
  have hkey := stringBody_chars key
    (some ':' :: (input v.chars ++ (input (entriesChars ',' entries) ++ rest)))
  rw [entries?]
  simp only [entryChars, stringChars, input_append, input_cons, input_nil, List.append_assoc,
    List.cons_append, List.nil_append] at hkey ⊢
  rw [skipSpace_of_ne (by decide)]
  simp only [after?, beq_self_eq_true, if_true, Option.bind_eq_bind, Option.bind_some, hkey,
    skipSpace_of_ne (show isSpace ':' = false by decide), hv]
  cases entries with
  | nil => rfl
  | cons e others =>
    rw [entriesChars, List.cons_append, input_cons, List.cons_append, skipSpace_of_ne (by decide)]
    simp only [hrest e others rfl, Option.map_some]
    rfl

mutual
theorem value_chars : ∀ (v : Json) (fuel : Nat) (rest : Input), v.Readable → fuelFor v ≤ fuel →
    Ends rest → value? fuel (input v.chars ++ rest) = some (v, rest)
  | v, 0, _, _, hfuel, _ => by
    cases v <;> simp [fuelFor] at hfuel
  | .null, fuel + 1, rest, _, _, _ => rfl
  | .bool true, fuel + 1, rest, _, _, _ => rfl
  | .bool false, fuel + 1, rest, _, _, _ => rfl
  | .int n, fuel + 1, rest, _, _, hrest => value_int n fuel hrest
  | .str s, fuel + 1, rest, _, _, _ => value_str s fuel rest
  | .arr [], fuel + 1, rest, _, _, _ => rfl
  | .arr (v :: items), fuel + 1, rest, h, hfuel, _ =>
    value_chars_arr h.1 (items_chars v items fuel rest h (by rw [fuelFor] at hfuel; omega))
  | .obj [], fuel + 1, rest, _, _, _ => rfl
  | .obj (e :: entries), fuel + 1, rest, h, hfuel, _ =>
    value_chars_obj (entries_chars e entries fuel rest h (by rw [fuelFor] at hfuel; omega))
  | .unreadable, _ + 1, _, h, _, _ => by simp [Readable] at h
theorem items_chars : ∀ (v : Json) (items : List Json) (fuel : Nat) (rest : Input),
    ItemsReadable (v :: items) → itemsFuel (v :: items) ≤ fuel →
    items? fuel (input (v.chars ++ itemsChars ',' items) ++ rest) = some (v :: items, rest)
  | v, items, 0, _, _, hfuel => by
    simp only [itemsFuel] at hfuel
    omega
  | v, items, fuel + 1, rest, h, hfuel => by
    simp only [itemsFuel] at hfuel
    refine items_chars_cons (value_chars v fuel _ h.1 (by omega) (ends_items items rest)) ?_
    intro w others hitems
    subst hitems
    exact items_chars w others fuel rest h.2 (by omega)
theorem entries_chars : ∀ (e : String × Json) (entries : List (String × Json)) (fuel : Nat)
    (rest : Input), EntriesReadable (e :: entries) → entriesFuel (e :: entries) ≤ fuel →
    entries? fuel (input (entryChars e ++ entriesChars ',' entries) ++ rest) =
      some ((e :: entries).map fun e => (some e.1, e.2), rest)
  | _, _, 0, _, _, hfuel => by
    simp only [entriesFuel] at hfuel
    omega
  | (key, v), entries, fuel + 1, rest, h, hfuel => by
    simp only [entriesFuel, entryFuel] at hfuel
    refine entries_chars_cons (value_chars v fuel _ h.1 (by omega) (ends_entries entries rest)) ?_
    intro e others hentries
    subst hentries
    exact entries_chars e others fuel rest h.2 (by omega)
end

/-! ## Fuel -/

mutual
theorem fuelFor_le : ∀ v : Json, fuelFor v ≤ 2 * v.chars.length + 1
  | .null | .bool _ | .int _ | .str _ | .unreadable => by simp [fuelFor]
  | .arr [] | .obj [] => by simp [fuelFor, itemsFuel, entriesFuel]
  | .arr (v :: items) => by
    have := fuelFor_le v
    have := itemsFuel_le items
    simp only [fuelFor, itemsFuel, chars, itemsChars, List.length_cons, List.cons_append,
      List.length_append]
    omega
  | .obj (e :: entries) => by
    have := entryFuel_le e
    have := entriesFuel_le entries
    simp only [fuelFor, entriesFuel, chars, entriesChars, List.length_cons, List.cons_append,
      List.length_append]
    omega
theorem itemsFuel_le : ∀ items : List Json, itemsFuel items ≤ 2 * (itemsChars ',' items).length
  | [] => by simp [itemsFuel]
  | v :: items => by
    have := fuelFor_le v
    have := itemsFuel_le items
    simp only [itemsFuel, itemsChars, List.length_cons, List.cons_append, List.length_append]
    omega
theorem entriesFuel_le : ∀ entries : List (String × Json),
    entriesFuel entries ≤ 2 * (entriesChars ',' entries).length
  | [] => by simp [entriesFuel]
  | e :: entries => by
    have := entryFuel_le e
    have := entriesFuel_le entries
    simp only [entriesFuel, entriesChars, List.length_cons, List.cons_append,
      List.length_append]
    omega
theorem entryFuel_le : ∀ e : String × Json, entryFuel e ≤ 2 * (entryChars e).length + 1
  | (key, v) => by
    have := fuelFor_le v
    simp only [entryFuel, entryChars, List.length_cons, List.length_append]
    omega
end

/-- The text of a readable value is read back as that value. -/
theorem ofString_text {v : Json} (h : v.Readable) : ofString? v.text = some v := by
  have hfuel : fuelFor v ≤ 2 * (input v.chars).length + 2 := by
    have := fuelFor_le v
    simp only [input, List.length_map]
    omega
  have hread := value_chars v _ [] h hfuel trivial
  rw [List.append_nil] at hread
  unfold ofString? text parse?
  rw [String.toList_ofList]
  show (value? (2 * (input v.chars).length + 2) (input v.chars)).bind _ = _
  rw [hread]
  rfl

end Lineage.Json
