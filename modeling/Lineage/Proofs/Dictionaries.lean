import Lineage.Dictionary
import Mathlib.Data.List.Induction
import Mathlib.Data.String.Basic

/-! # Dictionaries as sorted lists

A dictionary that was made of pairs has its keys in ascending order, and pairs that are in
that order are a dictionary already. What stands under a key is the value that came last. -/

namespace Lineage.Dictionary
variable {α : Type}

/-- Keys ascend, so that each stands there once. -/
def Ascending (d : Dictionary α) : Prop := d.Pairwise fun a b => a.1 < b.1

theorem find?_insert (key name : String) (value : α) (d : Dictionary α) :
    find? (insert key value d) name = if key = name then some value else find? d name := by
  induction d with
  | nil => by_cases h : key = name <;> simp [insert, find?, h]
  | cons pair rest ih =>
    obtain ⟨k, v⟩ := pair
    unfold insert
    by_cases hlt : key < k
    · rw [if_pos hlt]
      by_cases h : key = name <;> simp [find?, h]
    · rw [if_neg hlt]
      by_cases hkey : key = k
      · subst hkey
        by_cases h : key = name <;> simp [find?, h]
      · rw [if_neg (by simpa using hkey)]
        unfold find? at ih ⊢
        by_cases hk : k = name
        · have hne : key ≠ name := fun h => hkey (h.trans hk.symm)
          simp [hk, hne]
        · simp [hk, ih]

theorem ofPairs_append (pairs : List (String × α)) (pair : String × α) :
    ofPairs (pairs ++ [pair]) = insert pair.1 pair.2 (ofPairs pairs) := by
  unfold ofPairs
  rw [List.foldl_append]
  rfl

theorem find?_ofPairs_iff {pairs : List (String × α)} (h : (pairs.map Prod.fst).Nodup)
    {key : String} {value : α} :
    find? (ofPairs pairs) key = some value ↔ (key, value) ∈ pairs := by
  induction pairs using List.reverseRecOn with
  | nil => simp [ofPairs, find?]
  | append_singleton pairs pair ih =>
    obtain ⟨k, v⟩ := pair
    rw [List.map_append, List.nodup_append] at h
    obtain ⟨hpairs, -, hnew⟩ := h
    rw [ofPairs_append, find?_insert, List.mem_append, List.mem_singleton]
    by_cases hk : k = key
    · subst hk
      have hold : (k, value) ∉ pairs := fun hmem =>
        hnew k (List.mem_map_of_mem hmem) k (by simp) rfl
      simp [hold, eq_comm]
    · rw [if_neg hk, ih hpairs]
      simp [Ne.symm hk]

theorem mem_of_mem_insert {key : String} {value : α} {d : Dictionary α} {pair : String × α}
    (h : pair ∈ insert key value d) : pair = (key, value) ∨ pair ∈ d := by
  induction d with
  | nil => exact Or.inl (List.mem_singleton.1 h)
  | cons first rest ih =>
    obtain ⟨k, v⟩ := first
    unfold insert at h
    split at h
    · exact List.mem_cons.1 h
    · split at h
      · exact (List.mem_cons.1 h).imp_right (List.mem_cons_of_mem _)
      · rcases List.mem_cons.1 h with rfl | h
        · exact Or.inr List.mem_cons_self
        · exact (ih h).imp_right (List.mem_cons_of_mem _)

/-- A dictionary has no pairs but those that it was made of. -/
theorem mem_of_mem_ofPairs {pairs : List (String × α)} {pair : String × α}
    (h : pair ∈ ofPairs pairs) : pair ∈ pairs := by
  induction pairs using List.reverseRecOn with
  | nil => exact h
  | append_singleton pairs last ih =>
    rw [ofPairs_append] at h
    rcases mem_of_mem_insert h with rfl | h
    · exact List.mem_append_right _ List.mem_cons_self
    · exact List.mem_append_left _ (ih h)

theorem Ascending.insert {d : Dictionary α} (h : d.Ascending) (key : String) (value : α) :
    (d.insert key value).Ascending := by
  induction d with
  | nil => exact List.pairwise_singleton _ _
  | cons first rest ih =>
    obtain ⟨k, v⟩ := first
    obtain ⟨hfirst, hrest⟩ := List.pairwise_cons.1 h
    unfold Dictionary.insert
    by_cases hlt : key < k
    · rw [if_pos hlt]
      refine List.pairwise_cons.2 ⟨fun pair hpair => ?_, h⟩
      rcases List.mem_cons.1 hpair with rfl | hpair
      · exact hlt
      · exact lt_trans hlt (hfirst pair hpair)
    · rw [if_neg hlt]
      by_cases hkey : key = k
      · subst hkey
        rw [if_pos (by simp)]
        exact List.pairwise_cons.2 ⟨hfirst, hrest⟩
      · rw [if_neg (by simpa using hkey)]
        refine List.pairwise_cons.2 ⟨fun pair hpair => ?_, ih hrest⟩
        rcases mem_of_mem_insert hpair with rfl | hpair
        · exact lt_of_le_of_ne (not_lt.1 hlt) (Ne.symm hkey)
        · exact hfirst pair hpair

theorem ascending_ofPairs (pairs : List (String × α)) : (ofPairs pairs).Ascending := by
  induction pairs using List.reverseRecOn with
  | nil => exact .nil
  | append_singleton pairs pair ih =>
    rw [ofPairs_append]
    exact ih.insert pair.1 pair.2

theorem insert_above {d : Dictionary α} {key : String} (h : ∀ pair ∈ d, pair.1 < key)
    (value : α) : insert key value d = d ++ [(key, value)] := by
  induction d with
  | nil => rfl
  | cons first rest ih =>
    obtain ⟨k, v⟩ := first
    have hk : k < key := h (k, v) List.mem_cons_self
    unfold insert
    rw [if_neg (lt_asymm hk), if_neg (by simpa using ne_of_gt hk),
      ih fun pair hpair => h pair (List.mem_cons_of_mem _ hpair)]
    rfl

/-- Pairs in ascending order are a dictionary as they stand. -/
theorem ofPairs_eq_self {d : Dictionary α} (h : d.Ascending) : ofPairs d = d := by
  induction d using List.reverseRecOn with
  | nil => rfl
  | append_singleton d pair ih =>
    obtain ⟨hd, -, hlast⟩ := List.pairwise_append.1 h
    rw [ofPairs_append, ih hd]
    exact insert_above (fun other hother => hlast other hother pair (by simp)) pair.2

end Lineage.Dictionary
