import HttpCodec.Fields
import HttpCodec.Proofs.Field

set_option autoImplicit false

/-! # Field lists that were filled

`Fields.Filled` are the field lists that adding, setting and removing make of an empty one. All of
their fields are sound and fit the limit of the list, and their index lists the values of each name
in the order of the fields (`Filled.sound`). So what is looked up is a function of the fields alone
(`Indexed.getAll_eq`).
-/

namespace HttpCodec.Fields

open LetterCase (lower)

/-- The values of the fields whose name has a certain lower case. -/
def valuesOf (fields : List Field) (key : Text) : List Text :=
  (fields.filter (lower ·.name = key)).map (·.value)

theorem valuesOf_append (fields more : List Field) (key : Text) :
    valuesOf (fields ++ more) key = valuesOf fields key ++ valuesOf more key := by
  simp [valuesOf]

theorem valuesOf_singleton (f : Field) (key : Text) :
    valuesOf [f] key = if lower f.name = key then [f.value] else [] := by
  by_cases h : lower f.name = key <;> simp [valuesOf, h]

theorem valuesOf_eq_nil_iff {fields : List Field} {key : Text} :
    valuesOf fields key = [] ↔ ∀ f ∈ fields, lower f.name ≠ key := by
  simp [valuesOf, List.filter_eq_nil_iff]

/-- Of sound fields none of which has a known name, there are no values of that name. -/
theorem valuesOf_eq_nil_of_ne {fields : List Field} {known : Text} (h : ∀ f ∈ fields, f.Sound)
    (hknown : FieldName.normalize known = known) (hne : ∀ f ∈ fields, f.name ≠ known) :
    valuesOf fields (lower known) = [] :=
  valuesOf_eq_nil_iff.mpr fun f hf hlower =>
    hne f hf (((h f hf).name_eq_iff hknown).mpr hlower)

/-- Removing the fields of a name leaves the values of all others. -/
theorem valuesOf_filter (fields : List Field) (key k : Text) :
    valuesOf (fields.filter (lower ·.name ≠ key)) k = if k = key then [] else valuesOf fields k := by
  unfold valuesOf
  rw [List.filter_filter]
  split_ifs with hk
  · subst hk
    simp
  · refine congrArg _ (List.filter_congr fun f _ => ?_)
    by_cases hf : lower f.name = k
    · simp [hf, hk]
    · simp [hf]

/-- The index lists the values of each name in the order of the fields. -/
def Indexed (fs : Fields) : Prop :=
  ∀ key, fs.index.get? key =
    if valuesOf fs.fields key = [] then none else some (valuesOf fs.fields key)

theorem Indexed.getD_eq {fs : Fields} (h : fs.Indexed) (key : Text) :
    (fs.index.get? key).getD [] = valuesOf fs.fields key := by
  rw [h key]
  split_ifs with hnil
  · exact hnil.symm
  · rfl

/-- **What is looked up are the values of the fields with the name.** -/
theorem Indexed.getAll_eq {fs : Fields} (h : fs.Indexed) (name : Text) :
    fs.getAll name = valuesOf fs.fields (lower name) :=
  h.getD_eq (lower name)

theorem Indexed.has_eq {fs : Fields} (h : fs.Indexed) (name : Text) :
    fs.has name = !(valuesOf fs.fields (lower name)).isEmpty := by
  unfold has
  rw [h]
  cases valuesOf fs.fields (lower name) <;> simp

theorem Indexed.getAll_eq_nil_iff {fs : Fields} (h : fs.Indexed) {name : Text} :
    fs.getAll name = [] ↔ fs.has name = false := by
  rw [h.getAll_eq, h.has_eq]
  simp

theorem indexed_empty (join : Bool) (limit : Int) : Indexed { join, limit } := fun _ => rfl

theorem Indexed.append {fs : Fields} (h : fs.Indexed) (f : Field) : (fs.append f).Indexed := by
  intro key
  show (fs.index.put (lower f.name) ((fs.index.get? (lower f.name)).getD [] ++ [f.value])).get? key =
    if valuesOf (fs.fields ++ [f]) key = [] then none else some (valuesOf (fs.fields ++ [f]) key)
  rw [Dictionary.get?_put, h.getD_eq, valuesOf_append, valuesOf_singleton]
  by_cases hkey : key = lower f.name
  · simp [hkey]
  · rw [if_neg hkey, if_neg (Ne.symm hkey), List.append_nil]
    exact h key

theorem Indexed.remove {fs : Fields} (h : fs.Indexed) (name : Text) : (fs.remove name).Indexed := by
  unfold Fields.remove
  dsimp only
  split_ifs with hsome
  · intro key
    show (fs.index.erase (lower name)).get? key =
      if valuesOf (fs.fields.filter (lower ·.name ≠ lower name)) key = [] then none
      else some (valuesOf (fs.fields.filter (lower ·.name ≠ lower name)) key)
    rw [Dictionary.get?_erase, valuesOf_filter]
    by_cases hkey : key = lower name
    · simp [hkey]
    · rw [if_neg hkey, if_neg hkey]
      exact h key
  · exact h

/-- No field that is left has a name that was removed. -/
theorem Indexed.fields_remove {fs : Fields} (h : fs.Indexed) (name : Text) :
    (fs.remove name).fields = fs.fields.filter (lower ·.name ≠ lower name) := by
  unfold Fields.remove
  dsimp only
  split_ifs with hsome
  · rfl
  · -- a name that is not in the index is the name of no field
    symm
    rw [List.filter_eq_self]
    intro f hf
    have hnone : valuesOf fs.fields (lower name) = [] := by
      by_contra hne
      exact hsome (by rw [h, if_neg hne]; rfl)
    exact decide_eq_true (valuesOf_eq_nil_iff.mp hnone f hf)

/-! ## Lists that were filled -/

/-- The field lists that are made of an empty one. -/
inductive Filled : Fields → Prop
  | empty (join : Bool) (limit : Int) : Filled { join, limit }
  | add {fs gs : Fields} {name : Text} {value : FieldValue} (h : Filled fs)
      (hadd : fs.add name value = .ok gs) : Filled gs
  | set {fs gs : Fields} {name : Text} {value : FieldValue} (h : Filled fs)
      (hset : fs.set name value = .ok gs) : Filled gs
  | remove {fs : Fields} (h : Filled fs) (name : Text) : Filled (fs.remove name)

theorem Filled.addAll {fs gs : Fields} {pairs : List (Scalar × FieldValue)} (h : Filled fs)
    (hadd : fs.addAll pairs = .ok gs) : Filled gs := by
  induction pairs generalizing fs with
  | nil =>
      cases hadd
      exact h
  | cons pair pairs ih =>
      obtain ⟨name, _, hname⟩ := bind_eq_ok_iff.mp hadd
      obtain ⟨next, hnext, hrest⟩ := bind_eq_ok_iff.mp hname
      exact ih (h.add hnext) hrest

/-- What holds of field lists that were filled. -/
structure Sound (fs : Fields) : Prop where
  fields : ∀ f ∈ fs.fields, f.Sound
  sizes : ∀ f ∈ fs.fields, f.size ≤ fs.limit
  indexed : fs.Indexed

theorem Sound.append {fs : Fields} (h : fs.Sound) {f : Field} (hf : f.Sound)
    (hsize : f.size ≤ fs.limit) : (fs.append f).Sound := by
  refine ⟨fun g hg => ?_, fun g hg => ?_, h.indexed.append f⟩
  · rcases List.mem_append.mp hg with hg | hg
    · exact h.fields g hg
    · rw [List.mem_singleton.mp hg]
      exact hf
  · rcases List.mem_append.mp hg with hg | hg
    · exact h.sizes g hg
    · rw [List.mem_singleton.mp hg]
      exact hsize

theorem limit_remove (fs : Fields) (name : Text) : (fs.remove name).limit = fs.limit := by
  simp only [remove]
  split_ifs <;> rfl

theorem Sound.remove {fs : Fields} (h : fs.Sound) (name : Text) : (fs.remove name).Sound := by
  have hmem : ∀ f ∈ (fs.remove name).fields, f ∈ fs.fields := by
    intro f hf
    rw [h.indexed.fields_remove] at hf
    exact List.mem_of_mem_filter hf
  refine ⟨fun f hf => h.fields f (hmem f hf), fun f hf => ?_, h.indexed.remove name⟩
  rw [limit_remove]
  exact h.sizes f (hmem f hf)

/-- Setting a field is removing its name and appending it. -/
theorem set_eq_append {fs : Fields} (h : fs.Sound) (name : Text) (value : FieldValue) :
    fs.set name value =
      (Field.check fs.limit name value).map fun f => (fs.remove f.name).append f := by
  unfold set
  cases hcheck : Field.check fs.limit name value with
  | error cause => rfl
  | ok f =>
      have hnone : (fs.remove f.name).index.get? (lower f.name) = none := by
        rw [h.indexed.remove f.name, if_pos]
        rw [h.indexed.fields_remove, valuesOf_filter, if_pos rfl]
      simp [Except.map, append, hnone]

theorem Sound.add {fs gs : Fields} {name : Text} {value : FieldValue} (h : fs.Sound)
    (hadd : fs.add name value = .ok gs) : gs.Sound := by
  obtain ⟨f, hcheck, rfl⟩ := map_eq_ok_iff.mp hadd
  obtain ⟨hf, hsize, _⟩ := Field.sound_of_check hcheck
  exact h.append hf hsize

theorem Sound.set {fs gs : Fields} {name : Text} {value : FieldValue} (h : fs.Sound)
    (hset : fs.set name value = .ok gs) : gs.Sound := by
  rw [set_eq_append h] at hset
  obtain ⟨f, hcheck, rfl⟩ := map_eq_ok_iff.mp hset
  obtain ⟨hf, hsize, _⟩ := Field.sound_of_check hcheck
  exact (h.remove f.name).append hf (by rwa [limit_remove])

theorem sound_empty (join : Bool) (limit : Int) : Sound { join, limit } :=
  ⟨fun _ hf => absurd hf List.not_mem_nil, fun _ hf => absurd hf List.not_mem_nil,
    indexed_empty join limit⟩

/-- **Field lists that were filled are sound.** -/
theorem Filled.sound {fs : Fields} (h : fs.Filled) : fs.Sound := by
  induction h with
  | empty join limit => exact sound_empty join limit
  | add h hadd ih => exact ih.add hadd
  | set h hset ih => exact ih.set hset
  | remove h name ih => exact ih.remove name

/-! ## Appending many -/

/-- The list with more fields at the end. -/
def appendAll (fs : Fields) (more : List Field) : Fields := more.foldl append fs

theorem fields_appendAll (fs : Fields) (more : List Field) :
    (fs.appendAll more).fields = fs.fields ++ more := by
  induction more generalizing fs with
  | nil => simp [appendAll]
  | cons f more ih =>
      show ((fs.append f).appendAll more).fields = fs.fields ++ f :: more
      rw [ih]
      simp [append]

theorem Indexed.appendAll {fs : Fields} (h : fs.Indexed) (more : List Field) :
    (fs.appendAll more).Indexed := by
  induction more generalizing fs with
  | nil => exact h
  | cons f more ih => exact ih (h.append f)

end HttpCodec.Fields
