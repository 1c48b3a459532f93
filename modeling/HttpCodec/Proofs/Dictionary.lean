import Mathlib.Tactic
import HttpCodec.Dictionary

set_option autoImplicit false

/-! # The keys of dictionaries

A new key is put behind those that are there (`keys_put`), and erasing takes one away
(`keys_erase`). While each key is there once, the keys in their order and what is looked up under
them are all that a dictionary is (`eq_map_keys`).
-/

namespace HttpCodec

/-! ## First occurrences -/

section FirstOccurrences

variable {α : Type} [BEq α] [LawfulBEq α]

/-- An element at the end counts only if it did not occur before. -/
theorem eraseDups_concat (l : List α) (a : α) :
    (l ++ [a]).eraseDups = if a ∈ l then l.eraseDups else l.eraseDups ++ [a] := by
  rw [List.eraseDups_append]
  by_cases ha : a ∈ l <;> simp [List.removeAll, ha, List.eraseDups_cons]

theorem nodup_eraseDups (l : List α) : l.eraseDups.Nodup := by
  induction l using List.reverseRecOn with
  | nil => exact List.nodup_nil
  | append_singleton l a ih =>
      rw [eraseDups_concat]
      split_ifs with ha
      · exact ih
      · refine ih.append (List.nodup_singleton a) fun b hb hba => ?_
        rw [List.mem_singleton.mp hba] at hb
        exact ha (List.mem_eraseDups.mp hb)

theorem eraseDups_filter (p : α → Bool) (l : List α) :
    (l.filter p).eraseDups = l.eraseDups.filter p := by
  induction l using List.reverseRecOn with
  | nil => rfl
  | append_singleton l a ih =>
      rw [eraseDups_concat, List.filter_append]
      cases hp : p a with
      | true =>
          rw [List.filter_cons_of_pos hp, List.filter_nil, eraseDups_concat, ih]
          by_cases ha : a ∈ l <;> simp [ha, hp]
      | false =>
          rw [List.filter_cons_of_neg (by simp [hp]), List.filter_nil, List.append_nil, ih]
          by_cases ha : a ∈ l <;> simp [ha, hp]

end FirstOccurrences

namespace Dictionary

variable {κ υ : Type}

/-- The keys of a dictionary, in their order. -/
def keys (d : Dictionary κ υ) : List κ := d.map (·.1)

@[simp] theorem keys_nil : keys ([] : Dictionary κ υ) = [] := rfl

@[simp] theorem keys_cons (entry : κ × υ) (d : Dictionary κ υ) :
    keys (entry :: d) = entry.1 :: keys d := rfl

variable [DecidableEq κ]

theorem keys_put (key : κ) (value : υ) (d : Dictionary κ υ) :
    (put key value d).keys = if key ∈ d.keys then d.keys else d.keys ++ [key] := by
  induction d with
  | nil => rfl
  | cons entry d ih =>
      by_cases hentry : entry.1 = key
      · simp [put, hentry]
      · by_cases hkey : key ∈ keys d <;> simp [put, hentry, ih, hkey, Ne.symm hentry]

/-- A new entry stands behind those that are there. -/
theorem put_of_not_mem {key : κ} {d : Dictionary κ υ} (h : key ∉ d.keys) (value : υ) :
    put key value d = d ++ [(key, value)] := by
  induction d with
  | nil => rfl
  | cons entry d ih =>
      obtain ⟨hentry, hd⟩ := List.ne_and_not_mem_of_not_mem_cons h
      rw [put, if_neg (Ne.symm hentry), ih hd]
      rfl

theorem get?_eq_none_iff {key : κ} {d : Dictionary κ υ} : d.get? key = none ↔ key ∉ d.keys := by
  simp only [get?, keys, Option.map_eq_none_iff, List.find?_eq_none, List.mem_map,
    decide_eq_true_eq, not_exists, not_and]

/-- In a dictionary of the values of a function, the value under a key is that of the function. -/
theorem get?_map_eq_some_iff {f : κ → υ} {keys : List κ} {key : κ} {value : υ} :
    get? key (keys.map fun k => (k, f k)) = some value ↔ key ∈ keys ∧ value = f key := by
  induction keys with
  | nil => simp [get?]
  | cons k keys ih =>
      by_cases hk : k = key
      · simp [get?, hk, eq_comm]
      · simpa [get?, hk, Ne.symm hk] using ih

theorem keys_erase (key : κ) (d : Dictionary κ υ) :
    (erase key d).keys = d.keys.filter (· ≠ key) := by
  unfold keys erase
  rw [List.filter_map]
  rfl

/-- **A dictionary is its keys with what is looked up under them.** -/
theorem eq_map_keys {d : Dictionary κ υ} (h : d.keys.Nodup) {f : κ → υ}
    (hf : ∀ key ∈ d.keys, d.get? key = some (f key)) : d = d.keys.map fun key => (key, f key) := by
  induction d with
  | nil => rfl
  | cons entry d ih =>
      obtain ⟨hnot, hnodup⟩ := List.nodup_cons.mp h
      have hvalue : entry.2 = f entry.1 := by simpa [get?] using hf entry.1 List.mem_cons_self
      have hrest : ∀ key ∈ keys d, get? key d = some (f key) := by
        intro key hkey
        have hne : entry.1 ≠ key := by
          rintro rfl
          exact hnot hkey
        simpa [get?, hne] using hf key (List.mem_cons_of_mem _ hkey)
      calc entry :: d = (entry.1, f entry.1) :: d := by rw [← hvalue]
        _ = (entry.1, f entry.1) :: (keys d).map fun key => (key, f key) := by
            rw [← ih hnodup hrest]

/-! ## Dictionaries of pairs -/

theorem ofPairs_concat (pairs : List (κ × υ)) (pair : κ × υ) :
    ofPairs (pairs ++ [pair]) = (ofPairs pairs).put pair.1 pair.2 := by
  simp [ofPairs, List.foldl_append]

/-- **A key keeps its first place.** -/
theorem keys_ofPairs [BEq κ] [LawfulBEq κ] (pairs : List (κ × υ)) :
    (ofPairs pairs).keys = (pairs.map (·.1)).eraseDups := by
  induction pairs using List.reverseRecOn with
  | nil => rfl
  | append_singleton pairs pair ih =>
      have hmem : pair.1 ∈ (ofPairs pairs).keys ↔ pair.1 ∈ pairs.map (·.1) := by
        rw [ih, List.mem_eraseDups]
      rw [ofPairs_concat, keys_put, List.map_append, List.map_singleton, eraseDups_concat, ih]
      by_cases h : pair.1 ∈ pairs.map (·.1)
      · rw [if_pos h, if_pos (ih ▸ hmem.mpr h)]
      · rw [if_neg h, if_neg (ih ▸ fun hkey => h (hmem.mp hkey))]

/-- **A key has its last value.** -/
theorem get?_ofPairs (pairs : List (κ × υ)) (key : κ) :
    (ofPairs pairs).get? key = (pairs.filter (·.1 = key)).getLast?.map (·.2) := by
  induction pairs using List.reverseRecOn with
  | nil => rfl
  | append_singleton pairs pair ih =>
      rw [ofPairs_concat, get?_put, List.filter_append]
      by_cases h : pair.1 = key
      · simp [h]
      · simp [h, Ne.symm h, ih]

end Dictionary

end HttpCodec
