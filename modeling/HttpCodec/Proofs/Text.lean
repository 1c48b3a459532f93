import HttpCodec.Text
import Mathlib.Data.List.TakeWhile
import Mathlib.Tactic

set_option autoImplicit false

/-! # Cutting and trimming undone

What is put together with separators comes apart at them again, and a text that is trimmed already
stays as it is.
-/

namespace HttpCodec

variable {α : Type}

/-! ## Cutting -/

/-- What stands in a list that was put together stands in a separator or in a part. -/
theorem mem_intercalate {sep : List α} {parts : List (List α)} {a : α}
    (h : a ∈ sep.intercalate parts) : a ∈ sep ∨ ∃ part ∈ parts, a ∈ part := by
  induction parts with
  | nil => cases h
  | cons part parts ih =>
      cases parts with
      | nil => exact Or.inr ⟨part, List.mem_cons_self, by simpa [List.intercalate] using h⟩
      | cons next parts =>
          simp only [List.intercalate, List.intersperse, List.flatten_cons, List.mem_append] at h ih
          rcases h with h | h | h
          · exact Or.inr ⟨part, List.mem_cons_self, h⟩
          · exact Or.inl h
          · rcases ih h with h | ⟨p, hp, ha⟩
            · exact Or.inl h
            · exact Or.inr ⟨p, List.mem_cons_of_mem part hp, ha⟩

section

variable [DecidableEq α] {sep : α}

/-- Cutting at a separator gives what was put before and after it. -/
theorem cut_append {a : List α} (ha : sep ∉ a) (b : List α) : cut sep (a ++ sep :: b) = (a, b) := by
  have hpos : ∀ c ∈ a, decide (c ≠ sep) = true := fun c hc => decide_eq_true fun h => ha (h ▸ hc)
  unfold cut
  rw [List.takeWhile_append_of_pos hpos, List.dropWhile_append_of_pos hpos]
  simp

theorem cut_of_not_mem {a : List α} (ha : sep ∉ a) : cut sep a = (a, []) := by
  have hpos : ∀ c ∈ a, decide (c ≠ sep) = true := fun c hc => decide_eq_true fun h => ha (h ▸ hc)
  have htake : a.takeWhile (· ≠ sep) = a := List.takeWhile_eq_self_iff.mpr hpos
  have hdrop : a.dropWhile (· ≠ sep) = [] := List.dropWhile_eq_nil_iff.mpr hpos
  unfold cut
  rw [htake, hdrop]
  rfl

/-- A list with a separator is cut at the first. -/
theorem eq_cut_of_mem {l : List α} (h : sep ∈ l) : l = (cut sep l).1 ++ sep :: (cut sep l).2 := by
  obtain ⟨a, b, rfl, ha⟩ := List.eq_append_cons_of_mem h
  rw [cut_append ha]

/-- A list is cut at a separator, or it has none. -/
theorem eq_cut (sep : α) (l : List α) :
    l = (cut sep l).1 ++ sep :: (cut sep l).2 ∨ l = (cut sep l).1 ∧ (cut sep l).2 = [] := by
  by_cases h : sep ∈ l
  · exact .inl (eq_cut_of_mem h)
  · exact .inr (by simp only [cut_of_not_mem h, and_self])

theorem splitOn_append {a : List α} (ha : sep ∉ a) (b : List α) :
    splitOn sep (a ++ sep :: b) = a :: splitOn sep b := by
  induction a with
  | nil => simp [splitOn]
  | cons c a ih =>
      have hc : c ≠ sep := fun h => ha (h ▸ List.mem_cons_self)
      have ih := ih fun h => ha (List.mem_cons_of_mem c h)
      simp only [List.cons_append, splitOn, if_neg hc, ih]

/-- **What was put together with separators comes apart at them.** -/
theorem splitOn_intercalate {parts : List (List α)} (hne : parts ≠ [])
    (h : ∀ part ∈ parts, sep ∉ part) : splitOn sep ([sep].intercalate parts) = parts := by
  induction parts with
  | nil => exact absurd rfl hne
  | cons part parts ih =>
      have hpart := h part List.mem_cons_self
      cases parts with
      | nil => simpa [List.intercalate] using splitOn_eq_singleton hpart
      | cons next parts =>
          have hrest := ih (List.cons_ne_nil _ _) fun p hp => h p (List.mem_cons_of_mem part hp)
          have hsplit : [sep].intercalate (part :: next :: parts) =
              part ++ sep :: [sep].intercalate (next :: parts) := by
            simp [List.intercalate]
          rw [hsplit, splitOn_append hpart, hrest]

/-- What stands in a part of a list stands in the list. -/
theorem mem_of_mem_splitOn {a part : List α} {c : α} (hpart : part ∈ splitOn sep a)
    (hc : c ∈ part) : c ∈ a := by
  induction a generalizing part with
  | nil =>
      rw [List.mem_singleton.mp hpart] at hc
      cases hc
  | cons d a ih =>
      simp only [splitOn] at hpart
      split_ifs at hpart with hd
      · rcases List.mem_cons.mp hpart with rfl | hpart
        · cases hc
        · exact List.mem_cons_of_mem d (ih hpart hc)
      · split at hpart
        next hnil => exact absurd hnil (splitOn_ne_nil sep a)
        next first parts hsplit =>
          rw [hsplit] at ih
          rcases List.mem_cons.mp hpart with rfl | hpart
          · rcases List.mem_cons.mp hc with rfl | hc
            · exact List.mem_cons_self
            · exact List.mem_cons_of_mem d (ih List.mem_cons_self hc)
          · exact List.mem_cons_of_mem d (ih (List.mem_cons_of_mem first hpart) hc)

/-- What follows the last separator stands in the list. -/
theorem mem_of_mem_afterLast {a : List α} {c : α} (hc : c ∈ afterLast sep a) : c ∈ a :=
  List.mem_reverse.mp (List.takeWhile_subset _ (List.mem_reverse.mp hc))

/-- What follows the last separator is what was put after it. -/
theorem afterLast_append (a : List α) {b : List α} (hb : sep ∉ b) :
    afterLast sep (a ++ sep :: b) = b := by
  have hpos : ∀ c ∈ b.reverse, decide (c ≠ sep) = true := fun c hc =>
    decide_eq_true fun h => hb (h ▸ List.mem_reverse.mp hc)
  unfold afterLast
  rw [List.reverse_append, List.reverse_cons, List.append_assoc,
    List.takeWhile_append_of_pos hpos]
  simp

end

/-! ## Trimming -/

/-- Tells that a list neither starts nor ends with an element that is trimmed. -/
def Trimmed (p : α → Bool) (l : List α) : Prop :=
  (∀ a ∈ l.head?, p a = false) ∧ ∀ a ∈ l.getLast?, p a = false

theorem dropWhile_of_head {p : α → Bool} {l : List α} (h : ∀ a ∈ l.head?, p a = false) :
    l.dropWhile p = l := by
  cases l with
  | nil => rfl
  | cons a l => rw [List.dropWhile_cons_of_neg (by simp [h a (by simp)])]

theorem head_dropWhile (p : α → Bool) (l : List α) :
    ∀ a ∈ (l.dropWhile p).head?, p a = false := by
  intro a ha
  cases hdrop : l.dropWhile p with
  | nil => simp [hdrop] at ha
  | cons b tail =>
      have hb := List.head_dropWhile_not p (l := l) (by rw [hdrop]; simp)
      simp only [hdrop, List.head_cons] at hb
      simp only [hdrop, List.head?_cons, Option.mem_some_iff] at ha
      exact ha ▸ hb

theorem trim_of_trimmed {p : α → Bool} {l : List α} (h : Trimmed p l) : trim p l = l := by
  have hlast : l.reverse.dropWhile p = l.reverse :=
    dropWhile_of_head fun a ha => h.2 a (by rwa [List.head?_reverse] at ha)
  rw [trim, dropWhile_of_head h.1, trimEnd, hlast, List.reverse_reverse]

/-- Trimming leaves nothing to be trimmed. -/
theorem trimmed_trim (p : α → Bool) (l : List α) : Trimmed p (trim p l) := by
  constructor
  · -- what is trimmed at the end leaves the beginning alone
    intro a ha
    refine head_dropWhile p l a ?_
    have hprefix : trim p l <+: l.dropWhile p := by
      rw [trim, trimEnd, ← List.reverse_suffix, List.reverse_reverse]
      exact List.dropWhile_suffix p
    obtain ⟨more, hmore⟩ := hprefix
    rw [← hmore]
    cases htrim : trim p l with
    | nil => simp [htrim] at ha
    | cons b tail => simpa [htrim] using ha
  · intro a ha
    rw [trim, trimEnd, List.getLast?_reverse] at ha
    exact head_dropWhile p _ a ha

/-- What is trimmed does not matter in front. -/
theorem trim_cons {p : α → Bool} {a : α} (ha : p a = true) (l : List α) :
    trim p (a :: l) = trim p l := by
  rw [trim, trim, List.dropWhile_cons_of_pos ha]

/-- What is trimmed at the end stands after what is left. -/
theorem exists_eq_append_trimEnd (p : α → Bool) (l : List α) :
    ∃ after, l = trimEnd p l ++ after ∧ ∀ a ∈ after, p a = true := by
  refine ⟨(l.reverse.takeWhile p).reverse, ?_, fun a ha => ?_⟩
  · have hafter := congrArg List.reverse
      (List.takeWhile_append_dropWhile (p := p) (l := l.reverse))
    rw [List.reverse_append, List.reverse_reverse] at hafter
    exact hafter.symm
  · exact List.mem_takeWhile_imp (List.mem_reverse.mp ha)

/-- What is trimmed at the ends stands before and after what is left. -/
theorem exists_eq_append_trim (p : α → Bool) (l : List α) :
    ∃ before after, l = before ++ trim p l ++ after ∧ (∀ a ∈ before, p a = true) ∧
      ∀ a ∈ after, p a = true := by
  obtain ⟨after, hafter, hall⟩ := exists_eq_append_trimEnd p (l.dropWhile p)
  refine ⟨l.takeWhile p, after, ?_, fun a ha => List.mem_takeWhile_imp ha, hall⟩
  rw [List.append_assoc, trim, ← hafter, List.takeWhile_append_dropWhile]

/-- What is trimmed at the end is taken off, up to what is not. -/
theorem trimEnd_append {p : α → Bool} {l after : List α} (hl : ∀ a ∈ l.getLast?, p a = false)
    (hafter : ∀ a ∈ after, p a = true) : trimEnd p (l ++ after) = l := by
  have hreverse : ∀ a ∈ after.reverse, p a = true := fun a ha => hafter a (List.mem_reverse.mp ha)
  have hlast : l.reverse.dropWhile p = l.reverse :=
    dropWhile_of_head fun a ha => hl a (by rwa [List.head?_reverse] at ha)
  rw [trimEnd, List.reverse_append, List.dropWhile_append_of_pos hreverse, hlast,
    List.reverse_reverse]

/-- What is trimmed is taken off both ends, up to what is not. -/
theorem trim_append {p : α → Bool} {before l after : List α} (hbefore : ∀ a ∈ before, p a = true)
    (hl : Trimmed p l) (hafter : ∀ a ∈ after, p a = true) : trim p (before ++ l ++ after) = l := by
  rw [trim, List.append_assoc, List.dropWhile_append_of_pos hbefore]
  by_cases hnil : l = []
  · subst hnil
    rw [List.nil_append, List.dropWhile_eq_nil_iff.mpr hafter]
    rfl
  · have hhead : (l ++ after).dropWhile p = l ++ after :=
      dropWhile_of_head fun a ha => hl.1 a (by rwa [List.head?_append_of_ne_nil _ hnil] at ha)
    rw [hhead, trimEnd_append hl.2 hafter]

theorem mem_of_mem_trim {p : α → Bool} {l : List α} {a : α} (ha : a ∈ trim p l) : a ∈ l := by
  obtain ⟨before, after, hl, -⟩ := exists_eq_append_trim p l
  rw [hl]
  exact List.mem_append_left after (List.mem_append_right before ha)

/-- Trimming less first makes no difference. -/
theorem trim_trim {p q : α → Bool} (hpq : ∀ a, p a = true → q a = true) (l : List α) :
    trim q (trim p l) = trim q l := by
  obtain ⟨before, after, hl, hbefore, hafter⟩ := exists_eq_append_trim p l
  obtain ⟨before', after', ht, hbefore', hafter'⟩ := exists_eq_append_trim q (trim p l)
  have hwhole : l = (before ++ before') ++ trim q (trim p l) ++ (after' ++ after) := by
    calc l = before ++ trim p l ++ after := hl
      _ = before ++ (before' ++ trim q (trim p l) ++ after') ++ after := by rw [← ht]
      _ = (before ++ before') ++ trim q (trim p l) ++ (after' ++ after) := by
          simp only [List.append_assoc]
  have htrim : trim q ((before ++ before') ++ trim q (trim p l) ++ (after' ++ after)) =
      trim q (trim p l) := by
    refine trim_append (fun a ha => ?_) (trimmed_trim q _) fun a ha => ?_
    · rcases List.mem_append.mp ha with ha | ha
      · exact hpq a (hbefore a ha)
      · exact hbefore' a ha
    · rcases List.mem_append.mp ha with ha | ha
      · exact hafter' a ha
      · exact hpq a (hafter a ha)
  rw [← hwhole] at htrim
  exact htrim.symm

/-- Only the elements of a list decide what is trimmed off it. -/
theorem trim_congr {p q : α → Bool} {l : List α} (h : ∀ a ∈ l, p a = q a) : trim p l = trim q l := by
  obtain ⟨before, after, hl, hbefore, hafter⟩ := exists_eq_append_trim p l
  have hmem : ∀ {a}, a ∈ before ∨ a ∈ trim p l ∨ a ∈ after → a ∈ l := by
    intro a ha
    rw [hl]
    simpa [or_assoc] using ha
  have htrimmed : Trimmed q (trim p l) := by
    refine ⟨fun a ha => ?_, fun a ha => ?_⟩
    · rw [← h a (hmem (.inr (.inl (List.mem_of_mem_head? ha))))]
      exact (trimmed_trim p l).1 a ha
    · rw [← h a (hmem (.inr (.inl (List.mem_of_mem_getLast? ha))))]
      exact (trimmed_trim p l).2 a ha
  have htrim : trim q (before ++ trim p l ++ after) = trim p l := by
    refine trim_append (fun a ha => ?_) htrimmed fun a ha => ?_
    · rw [← h a (hmem (.inl ha))]
      exact hbefore a ha
    · rw [← h a (hmem (.inr (.inr ha)))]
      exact hafter a ha
  rw [← hl] at htrim
  exact htrim.symm

theorem length_trim_le (p : α → Bool) (l : List α) : (trim p l).length ≤ l.length := by
  unfold trim trimEnd
  calc ((l.dropWhile p).reverse.dropWhile p).reverse.length
      ≤ (l.dropWhile p).reverse.length := by
        rw [List.length_reverse]
        exact (List.dropWhile_suffix p).length_le
    _ ≤ l.length := by
        rw [List.length_reverse]
        exact (List.dropWhile_suffix p).length_le

theorem trimmed_of_forall {p : α → Bool} {l : List α} (h : ∀ a ∈ l, p a = false) : Trimmed p l :=
  ⟨fun a ha => h a (List.mem_of_mem_head? ha), fun a ha => h a (List.mem_of_mem_getLast? ha)⟩

end HttpCodec
