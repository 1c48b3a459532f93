set_option autoImplicit false

/-! # Dictionaries

A dictionary lists its entries in the order in which their keys were first put. Putting a key
again changes its value and leaves it in its place.
-/

namespace HttpCodec

/-- Keys with their values, each key once. -/
abbrev Dictionary (κ υ : Type) := List (κ × υ)

namespace Dictionary

variable {κ υ : Type} [DecidableEq κ]

/-- The dictionary with `value` under `key`. -/
def put (key : κ) (value : υ) : Dictionary κ υ → Dictionary κ υ
  | [] => [(key, value)]
  | entry :: d => if entry.1 = key then (key, value) :: d else entry :: put key value d

/-- The value under a key. -/
def get? (key : κ) (d : Dictionary κ υ) : Option υ :=
  (d.find? (·.1 = key)).map (·.2)

/-- The dictionary without a key. -/
def erase (key : κ) (d : Dictionary κ υ) : Dictionary κ υ := d.filter (·.1 ≠ key)

/-- The dictionary that results from putting pairs one after the other. -/
def ofPairs (pairs : List (κ × υ)) : Dictionary κ υ :=
  pairs.foldl (fun d (key, value) => d.put key value) []

theorem get?_put (key k : κ) (value : υ) (d : Dictionary κ υ) :
    get? k (put key value d) = if k = key then some value else get? k d := by
  induction d with
  | nil =>
      by_cases h : key = k
      · simp [get?, put, h]
      · simp [get?, put, h, Ne.symm h]
  | cons entry d ih =>
      simp only [put]
      split
      next he =>
        by_cases h : key = k
        · simp [get?, h]
        · have : entry.1 ≠ k := he ▸ h
          simp [get?, h, this, Ne.symm h]
      next he =>
        by_cases hk : entry.1 = k
        · have : k ≠ key := hk ▸ he
          simp [get?, hk, this]
        · have := ih
          simp only [get?, List.find?_cons, hk, decide_false] at this ⊢
          exact this

theorem get?_erase (key k : κ) (d : Dictionary κ υ) :
    get? k (erase key d) = if k = key then none else get? k d := by
  induction d with
  | nil => simp [get?, erase]
  | cons entry d ih =>
      simp only [get?, erase] at ih ⊢
      by_cases he : entry.1 = key
      · by_cases hk : k = key
        · simp [hk]
        · have : entry.1 ≠ k := fun h => hk (h ▸ he)
          simpa [List.filter_cons, List.find?_cons, he, hk, this, Ne.symm hk] using ih
      · by_cases hk : entry.1 = k
        · have : k ≠ key := hk ▸ he
          simp [hk, this]
        · simpa [List.filter_cons, List.find?_cons, he, hk] using ih

end Dictionary

end HttpCodec
