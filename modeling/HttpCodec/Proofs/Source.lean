import HttpCodec.Source
import Mathlib.Tactic

set_option autoImplicit false

/-! # The blocks of a source

A source that hands out at least one octet at a time hands out all of its data, in order.
-/

namespace HttpCodec.Source

theorem read_eq_none_iff (s : Source) : s.read = none ↔ s.block = [] := by
  unfold read
  split_ifs with hempty
  · simpa using hempty
  · simpa using hempty

/-- A block and what is left after it make up the data. -/
theorem block_append_drop (s : Source) : s.block ++ s.unread.drop s.block.length = s.unread := by
  unfold block
  cases s.size with
  | none => simp
  | some n =>
      simp only [List.length_take]
      rcases Nat.le_total n s.unread.length with h | h
      · rw [Nat.min_eq_left h, List.take_append_drop]
      · rw [Nat.min_eq_right h, List.drop_length, List.append_nil, List.take_of_length_le h]

/-- A source that reads at least one octet at a time stops at the end of the data only. -/
theorem unread_eq_nil_of_block {s : Source} (hsize : s.size ≠ some 0) (h : s.block = []) :
    s.unread = [] := by
  unfold block at h
  cases hs : s.size with
  | none => rwa [hs] at h
  | some n =>
      rw [hs] at h hsize
      rcases List.take_eq_nil_iff.mp h with hn | hu
      · exact absurd (congrArg some hn) hsize
      · exact hu

/-- **The blocks of a source make up its data.** -/
theorem flatten_blocks {s : Source} (hsize : s.size ≠ some 0) : s.blocks.flatten = s.unread := by
  induction s using blocks.induct with
  | case1 s hread =>
      rw [blocks, hread]
      exact (unread_eq_nil_of_block hsize ((read_eq_none_iff s).mp hread)).symm
  | case2 s block t hread ih =>
      rw [blocks, hread]
      simp only [List.flatten_cons]
      unfold read at hread
      split_ifs at hread with hempty
      cases hread
      rw [ih hsize, block_append_drop]

end HttpCodec.Source
