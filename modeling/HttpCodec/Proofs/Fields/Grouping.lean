import HttpCodec.Proofs.Dictionary
import HttpCodec.Proofs.Fields

set_option autoImplicit false

/-! # The index of a field list

The index of a field list that was filled says nothing that the fields do not say. It is the grouping
of the fields by their names in lower case: a group for each name that occurs, in the order in which
the names first occur, with the values in the order of the fields (`Filled.index_eq`).
-/

namespace HttpCodec.Fields

open LetterCase (lower)

/-- The names that occur, in lower case and in the order in which they first occur. -/
def names (fields : List Field) : List Text := (fields.map (lower ·.name)).eraseDups

/-- The values of fields, grouped by their names. -/
def grouping (fields : List Field) : Dictionary Text (List Text) :=
  (names fields).map fun key => (key, valuesOf fields key)

theorem mem_names {fields : List Field} {key : Text} :
    key ∈ names fields ↔ valuesOf fields key ≠ [] := by
  unfold names
  rw [List.mem_eraseDups, Ne, valuesOf_eq_nil_iff]
  simp

theorem names_append (fields : List Field) (f : Field) :
    names (fields ++ [f]) =
      if lower f.name ∈ names fields then names fields else names fields ++ [lower f.name] := by
  unfold names
  rw [List.map_append, List.map_singleton, eraseDups_concat]
  by_cases h : lower f.name ∈ fields.map (lower ·.name) <;> simp [h]

theorem names_filter (fields : List Field) (key : Text) :
    names (fields.filter (lower ·.name ≠ key)) = (names fields).filter (· ≠ key) := by
  unfold names
  rw [← eraseDups_filter, List.filter_map]
  rfl

/-! ## The keys of the index -/

/-- The keys of the index are the names that occur. -/
def Keyed (fs : Fields) : Prop := fs.index.keys = names fs.fields

theorem Keyed.append {fs : Fields} (h : fs.Keyed) (f : Field) : (fs.append f).Keyed := by
  unfold Keyed at h ⊢
  show (fs.index.put (lower f.name) _).keys = names (fs.fields ++ [f])
  rw [Dictionary.keys_put, names_append, h]
  split_ifs <;> rfl

theorem Keyed.remove {fs : Fields} (h : fs.Keyed) (name : Text) : (fs.remove name).Keyed := by
  unfold Fields.remove
  dsimp only
  split_ifs
  · show (fs.index.erase (lower name)).keys = names (fs.fields.filter (lower ·.name ≠ lower name))
    rw [Dictionary.keys_erase, names_filter, h]
  · exact h

theorem Filled.keyed {fs : Fields} (h : fs.Filled) : fs.Keyed := by
  induction h with
  | empty join limit => rfl
  | add h hadd ih =>
      obtain ⟨f, _, rfl⟩ := map_eq_ok_iff.mp hadd
      exact ih.append f
  | set h hset ih =>
      rw [set_eq_append h.sound] at hset
      obtain ⟨f, _, rfl⟩ := map_eq_ok_iff.mp hset
      exact (ih.remove f.name).append f
  | remove h name ih => exact ih.remove name

/-- **The index is the grouping of the fields.** -/
theorem Filled.index_eq {fs : Fields} (h : fs.Filled) : fs.index = grouping fs.fields := by
  have hkeys : fs.index.keys = names fs.fields := h.keyed
  have hnodup : fs.index.keys.Nodup := by
    rw [hkeys]
    exact nodup_eraseDups (fs.fields.map (lower ·.name))
  calc fs.index = fs.index.keys.map fun key => (key, valuesOf fs.fields key) :=
        Dictionary.eq_map_keys hnodup fun key hkey => by
          rw [hkeys, mem_names] at hkey
          rw [h.sound.indexed key, if_neg hkey]
    _ = grouping fs.fields := by rw [hkeys, grouping]

end HttpCodec.Fields
