import Lineage.Http.Server
import Lineage.Proofs.Dictionaries
import Lineage.Proofs.Selections
import Mathlib

/-! # What a request has room for

A target has a largest size in bytes, and nothing that is read from it takes up more room than it
did there: an escape stands for one byte and every character takes up one at least. So there is a
bound on how many types a request for items can name, and it is below that on the values which a
selection can be given. -/

namespace Lineage

namespace Text

def size (cs : List Char) : Nat := (cs.map Char.utf8Size).sum

theorem size_cons (c : Char) (cs : List Char) : size (c :: cs) = c.utf8Size + size cs := rfl

theorem size_append (cs ds : List Char) : size (cs ++ ds) = size cs + size ds := by
  unfold size
  rw [List.map_append, List.sum_append]

theorem size_le_of_sublist {cs ds : List Char} (h : cs.Sublist ds) : size cs ≤ size ds := by
  induction h with
  | slnil => exact Nat.le_refl 0
  | cons d _ ih =>
    rw [size_cons]
    omega
  | cons_cons d _ ih =>
    rw [size_cons, size_cons]
    omega

theorem utf8ByteSize_ofList (cs : List Char) : (String.ofList cs).utf8ByteSize = size cs := by
  induction cs with
  | nil => rfl
  | cons c rest ih =>
    rw [String.ofList_cons, String.utf8ByteSize_append, String.utf8ByteSize_singleton, ih,
      size_cons]

theorem length_utf8 (cs : List Char) : (utf8 (String.ofList cs)).length = size cs := by
  unfold utf8
  rw [String.toList_ofList]
  induction cs with
  | nil => rfl
  | cons c rest ih =>
    rw [List.flatMap_cons, List.length_append, String.length_utf8EncodeChar, ih, size_cons]

theorem length_percentDecode_le (bytes : List UInt8) :
    (percentDecode bytes).length ≤ bytes.length := by
  induction bytes using percentDecode.induct with
  | case1 sign high low rest b hescape ih =>
    rw [percentDecode, hescape]
    simp only [List.length_cons]
    omega
  | case2 sign high low rest hescape ih =>
    rw [percentDecode, hescape]
    simpa using ih
  | case3 short hshort =>
    rw [percentDecode]
    exact hshort

theorem length_finishChar_le (need bits low high : Nat) (bytes : List UInt8) :
    (finishChar need bits low high bytes).2.length ≤ bytes.length := by
  induction need, bits, low, high, bytes using finishChar.induct with
  | case1 => exact Nat.le_refl _
  | case2 => exact Nat.le_refl _
  | case3 need bits low high b rest six hsix ih =>
    rw [finishChar, hsix]
    exact Nat.le_succ_of_le ih
  | case4 need bits low high b rest hnone =>
    rw [finishChar, hnone]

theorem length_symbolsWithin_le (fuel : Nat) (bytes : List UInt8) :
    (symbolsWithin fuel bytes).length ≤ bytes.length := by
  induction fuel, bytes using symbolsWithin.induct with
  | case1 => simp [symbolsWithin]
  | case2 bytes hsome => simp [symbolsWithin]
  | case3 fuel b rest hlead ih =>
    rw [symbolsWithin, hlead]
    exact Nat.succ_le_succ ih
  | case4 fuel b rest need bits low high hlead symbol others hfinish ih =>
    have hothers := length_finishChar_le need bits low high rest
    rw [hfinish] at hothers
    rw [symbolsWithin, hlead]
    simp only [hfinish]
    exact Nat.succ_le_succ (ih.trans hothers)

theorem length_formValue_le (cs : List Char) : (formValue cs).toList.length ≤ size cs := by
  have hsize : size (cs.map fun c => if c == '+' then ' ' else c) = size cs := by
    unfold size
    rw [List.map_map]
    congr 1
    refine List.map_congr_left fun c _ => ?_
    by_cases hc : c = '+'
    · subst hc
      rfl
    · simp [hc]
  unfold formValue lossyText
  rw [String.toList_ofList, List.length_map, ← hsize, ← length_utf8]
  exact (length_symbolsWithin_le _ _).trans (length_percentDecode_le _)

theorem sublist_intercalate_of_mem (sep : Char) {part : List Char} {parts : List (List Char)}
    (h : part ∈ parts) : part.Sublist ([sep].intercalate parts) := by
  induction parts with
  | nil => cases h
  | cons first rest ih =>
    cases rest with
    | nil =>
      obtain rfl := List.mem_singleton.1 h
      simp
    | cons next rest =>
      rw [List.intercalate_cons_cons]
      rcases List.mem_cons.1 h with rfl | hrest
      · rw [List.append_assoc]
        exact List.sublist_append_left _ _
      · exact (ih hrest).trans (List.sublist_append_right _ _)

theorem sublist_of_mem_splitOn {sep : Char} {cs part : List Char} (h : part ∈ cs.splitOn sep) :
    part.Sublist cs := by
  have hwhole := sublist_intercalate_of_mem sep h
  rwa [List.intercalate_splitOn] at hwhole

/-- Between two parts that are not empty stands a separator. -/
theorem length_filter_parts_le (sep : Char) (keep : List Char → Bool) (hkeep : keep [] = false)
    (parts : List (List Char)) :
    2 * (parts.filter keep).length ≤ ([sep].intercalate parts).length + 1 := by
  have hone : ∀ part : List Char, 2 * (if keep part = true then 1 else 0) ≤ part.length + 1 := by
    intro part
    split
    · rename_i hpart
      have hsome : part ≠ [] := fun h => by rw [h, hkeep] at hpart; cases hpart
      have := List.length_pos_of_ne_nil hsome
      omega
    · exact Nat.zero_le _
  induction parts with
  | nil => exact Nat.zero_le _
  | cons part rest ih =>
    have hpart := hone part
    rw [← List.countP_eq_length_filter] at ih ⊢
    rw [List.countP_cons]
    cases rest with
    | nil =>
      rw [List.countP_nil, Nat.zero_add, List.intercalate_singleton]
      exact hpart
    | cons next rest =>
      rw [List.intercalate_cons_cons, List.length_append, List.length_append, List.length_singleton]
      omega

/-- A pair of form data has room in its part, the equals sign apart. -/
theorem length_of_mem_formPairs {query : String} {pair : String × String}
    (h : pair ∈ formPairs query) :
    pair.1.toList.length + pair.2.toList.length ≤ size query.toList := by
  obtain ⟨part, hpart, rfl⟩ := List.mem_map.1 h
  have hwhole : size part ≤ size query.toList :=
    size_le_of_sublist (sublist_of_mem_splitOn (List.mem_filter.1 hpart).1)
  have hsplit : part.takeWhile (· != '=') ++ part.drop (part.takeWhile (· != '=')).length = part :=
    List.prefix_iff_eq_append.1 (List.takeWhile_prefix _)
  have hsizes := size_append (part.takeWhile (· != '='))
    (part.drop (part.takeWhile (· != '=')).length)
  rw [hsplit] at hsizes
  have hvalue : size ((part.drop (part.takeWhile (· != '=')).length).drop 1) ≤
      size (part.drop (part.takeWhile (· != '=')).length) :=
    size_le_of_sublist (List.drop_sublist 1 _)
  have hkeyLength := length_formValue_le (part.takeWhile (· != '='))
  have hvalueLength :=
    length_formValue_le ((part.drop (part.takeWhile (· != '=')).length).drop 1)
  dsimp only
  omega

end Text

namespace Http.Target
open Text (size size_le_of_sublist)

theorem query_sublist {cs : List Char} {target : Target} (h : pathAndQuery? cs = some target) :
    target.query.toList.Sublist cs := by
  unfold pathAndQuery? at h
  dsimp only at h
  split at h
  · obtain rfl := Option.some.inj h
    rw [String.toList_ofList]
    exact ((List.drop_sublist _ _).trans (List.drop_sublist _ _)).trans
      (List.takeWhile_sublist _)
  · cases h

theorem query_sublist_of_full {cs : List Char} {target : Target} (h : full? cs = some target) :
    target.query.toList.Sublist cs := by
  unfold full? at h
  split at h
  · split at h
    · cases h
    · dsimp only at h
      split at h
      · cases h
      · exact (query_sublist h).trans ((List.drop_sublist _ _).trans (List.drop_sublist _ _))
  · split at h
    · obtain rfl := Option.some.inj h
      exact List.nil_sublist _
    · cases h

theorem size_query_le {text : String} {target : Target} (h : read? text = some target) :
    size target.query.toList ≤ maxBytes := by
  unfold read? at h
  split at h
  · cases h
  · rename_i hfits
    have hbytes : size text.toList ≤ maxBytes := by
      have hsize := Text.utf8ByteSize_ofList text.toList
      rw [String.ofList_toList] at hsize
      rw [← hsize]
      simp only [Bool.or_eq_true, decide_eq_true_eq, not_or, Nat.not_lt] at hfits
      exact hfits.2
    suffices hquery : target.query.toList.Sublist text.toList from
      (size_le_of_sublist hquery).trans hbytes
    split at h
    · obtain rfl := Option.some.inj h
      exact List.nil_sublist _
    · rename_i rest hslash
      rw [hslash]
      exact query_sublist h
    · exact query_sublist_of_full h

end Http.Target

namespace MetadataQuery

theorem length_names_le (text : String) :
    2 * (names text).length ≤ text.toList.length + 1 := by
  have hparts := Text.length_filter_parts_le ','
    (fun part => !(String.ofList (Text.trimChars part)).isEmpty) (by decide)
    (text.toList.splitOn ',')
  rw [List.intercalate_splitOn] at hparts
  unfold names
  rw [List.filter_map, List.length_map]
  exact hparts

/-- A request cannot name more types than a selection can be given. -/
theorem isStatable_of_request {method uri : String} {headers : List (String × String)}
    {r : Http.Request} (hmade : Http.Request.make? method uri headers = some r)
    (published : Option Bool) (offset limit : Nat) :
    ContentFilter.isStatable
      ⟨(((Http.Server.parameters r).find? "content_types").map names).getD [], published, offset,
        some limit⟩ = true := by
  have hquery : Text.size r.target.query.toList ≤ Http.Target.maxBytes := by
    unfold Http.Request.make? at hmade
    split at hmade
    · obtain ⟨target, htarget, rfl⟩ := Option.map_eq_some_iff.1 hmade
      exact Http.Target.size_query_le htarget
    · cases hmade
  have hfew : 2 * ((((Http.Server.parameters r).find? "content_types").map names).getD []).length +
      13 ≤ Http.Target.maxBytes + 1 := by
    cases hfind : (Http.Server.parameters r).find? "content_types" with
    | none => simp [Http.Target.maxBytes]
    | some text =>
      obtain ⟨pair, hpair, rfl⟩ := Option.map_eq_some_iff.1 hfind
      have hkey : pair.1 = "content_types" := by simpa using List.find?_some hpair
      have hroom := Text.length_of_mem_formPairs
        (Dictionary.mem_of_mem_ofPairs (List.mem_of_find?_eq_some hpair))
      have hnames := length_names_le pair.2
      have hlength : pair.1.toList.length = 13 := by rw [hkey]; rfl
      rw [Option.map_some, Option.getD_some]
      omega
  have hpublished : published.toList.length ≤ 1 := by cases published <;> simp
  unfold ContentFilter.isStatable ContentFilter.boundValues
  unfold Http.Target.maxBytes at hfew
  simp only [decide_eq_true_eq]
  omega

end MetadataQuery

end Lineage
