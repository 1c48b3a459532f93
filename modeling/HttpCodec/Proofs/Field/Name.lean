import HttpCodec.Field.Name
import HttpCodec.Proofs.Text
import HttpCodec.Proofs.Text.Latin

set_option autoImplicit false

/-! # Normal forms of field names

The normal form of an ASCII name has capitals at its start and behind hyphens, and no others
(`normalize_eq_kebab`). The normal form of a token has the same lower case as the token
(`lower_normalize`), so it is the same name, and equal names have equal normal forms
(`normalize_eq_iff`). Hence a name in normal form is a certain name exactly if its lower case is
(`eq_iff_lower_eq`).
-/

namespace HttpCodec.FieldName

open LetterCase

/-! ## Letter case in ASCII -/

theorem toNat_toLower_lt {c : Char} (hc : c.toNat < 0x80) : c.toLower.toNat < 0x80 :=
  Latin.forall_ascii (P := fun c => c.toLower.toNat < 0x80) (by decide) hc

theorem toLower_toLower {c : Char} (hc : c.toNat < 0x80) : c.toLower.toLower = c.toLower :=
  Latin.forall_ascii (P := fun c => c.toLower.toLower = c.toLower) (by decide) hc

theorem toLower_toUpper {c : Char} (hc : c.toNat < 0x80) : c.toUpper.toLower = c.toLower :=
  Latin.forall_ascii (P := fun c => c.toUpper.toLower = c.toLower) (by decide) hc

theorem toUpper_toLower {c : Char} (hc : c.toNat < 0x80) : c.toLower.toUpper = c.toUpper :=
  Latin.forall_ascii (P := fun c => c.toLower.toUpper = c.toUpper) (by decide) hc

theorem toLower_eq_hyphen_iff {c : Char} (hc : c.toNat < 0x80) : c.toLower = '-' ↔ c = '-' :=
  Latin.forall_ascii (P := fun c => c.toLower = '-' ↔ c = '-') (by decide) hc

theorem toNat_toUpper_lt {c : Char} (hc : c.toNat < 0x80) : c.toUpper.toNat < 0x80 :=
  Latin.forall_ascii (P := fun c => c.toUpper.toNat < 0x80) (by decide) hc

/-- ASCII in title case: the first character is a capital. -/
theorem capitalize_of_ascii {c : Char} {t : Text} (h : ∀ d ∈ c :: t, d.toNat < 0x80) :
    capitalize (c :: t) = c.toUpper :: t.map Char.toLower := by
  have hc : c.toNat < 0x80 := h c List.mem_cons_self
  have ht : ∀ d ∈ t, d.toNat < 0x80 := fun d hd => h d (List.mem_cons_of_mem c hd)
  simp only [capitalize, titleChar, if_pos hc, lowerFrom_eq_map_toLower ht, List.singleton_append]

/-! ## Capitals -/

/-- A text in lower case but for a capital where a part begins: behind each hyphen, and at the
start or not. -/
def kebab (atStart : Bool) : Text → Text
  | [] => []
  | c :: t => (if atStart then c.toUpper else c.toLower) :: kebab (c = '-') t

theorem ascii_kebab {t : Text} (h : ∀ c ∈ t, c.toNat < 0x80) (atStart : Bool) :
    ∀ c ∈ kebab atStart t, c.toNat < 0x80 := by
  induction t generalizing atStart with
  | nil => exact h
  | cons c t ih =>
      obtain ⟨hc, ht⟩ := List.forall_mem_cons.mp h
      refine List.forall_mem_cons.mpr ⟨?_, ih ht (c = '-')⟩
      cases atStart with
      | false => exact toNat_toLower_lt hc
      | true => exact toNat_toUpper_lt hc

/-- Capitals do not change the lower case. -/
theorem map_toLower_kebab {t : Text} (h : ∀ c ∈ t, c.toNat < 0x80) (atStart : Bool) :
    (kebab atStart t).map Char.toLower = t.map Char.toLower := by
  induction t generalizing atStart with
  | nil => rfl
  | cons c t ih =>
      obtain ⟨hc, ht⟩ := List.forall_mem_cons.mp h
      rw [kebab, List.map_cons, List.map_cons, ih ht]
      cases atStart with
      | false => exact congrArg (· :: _) (toLower_toLower hc)
      | true => exact congrArg (· :: _) (toLower_toUpper hc)

/-- The parts of an ASCII name in lower case are ASCII in lower case. -/
theorem lower_of_mem_splitOn {t part : Text} (h : ∀ c ∈ t, c.toNat < 0x80)
    (hpart : part ∈ splitOn '-' (t.map Char.toLower)) :
    (∀ c ∈ part, c.toNat < 0x80) ∧ part.map Char.toLower = part := by
  have hmem : ∀ c ∈ part, ∃ d ∈ t, d.toLower = c := fun c hc =>
    List.mem_map.mp (mem_of_mem_splitOn hpart hc)
  constructor
  · intro c hc
    obtain ⟨d, hd, rfl⟩ := hmem c hc
    exact toNat_toLower_lt (h d hd)
  · refine (List.map_congr_left fun c hc => ?_).trans (List.map_id part)
    obtain ⟨d, hd, rfl⟩ := hmem c hc
    exact toLower_toLower (h d hd)

/-- Joining the parts of a name in lower case, each with a capital, gives capitals behind the
hyphens. The first part has one if a part begins with the text. -/
theorem kebab_eq_intercalate {t first : Text} {parts : List Text} (h : ∀ c ∈ t, c.toNat < 0x80)
    (hsplit : splitOn '-' (t.map Char.toLower) = first :: parts) (atStart : Bool) :
    kebab atStart t =
      ("-" : Text).intercalate
        ((if atStart then capitalize first else first) :: parts.map capitalize) := by
  induction t generalizing first parts atStart with
  | nil =>
      obtain ⟨rfl, rfl⟩ := List.cons.inj hsplit
      cases atStart <;> rfl
  | cons c t ih =>
      obtain ⟨hc, ht⟩ := List.forall_mem_cons.mp h
      obtain ⟨next, rest, hrest⟩ :=
        List.exists_cons_of_ne_nil (splitOn_ne_nil '-' (t.map Char.toLower))
      rw [List.map_cons, splitOn, hrest] at hsplit
      by_cases hhyphen : c = '-'
      · -- an empty part ends here, and the next part begins
        subst hhyphen
        rw [if_pos (by decide)] at hsplit
        obtain ⟨rfl, rfl⟩ := List.cons.inj hsplit
        rw [kebab, ih ht hrest]
        cases atStart <;> simp [List.intercalate, capitalize]
      · rw [if_neg (mt (toLower_eq_hyphen_iff hc).mp hhyphen)] at hsplit
        obtain ⟨rfl, rfl⟩ := List.cons.inj hsplit
        rw [kebab, ih ht hrest, decide_eq_false hhyphen]
        cases atStart with
        | false => simp
        | true =>
            obtain ⟨hascii, hlower⟩ := lower_of_mem_splitOn ht (hrest ▸ List.mem_cons_self)
            have hpart : ∀ d ∈ c.toLower :: next, d.toNat < 0x80 :=
              List.forall_mem_cons.mpr ⟨toNat_toLower_lt hc, hascii⟩
            have hcapital : capitalize (c.toLower :: next) = c.toUpper :: next := by
              rw [capitalize_of_ascii hpart, toUpper_toLower hc, hlower]
            simp [hcapital]

/-- **The normal form has capitals at the start and behind hyphens**, and nowhere else. -/
theorem normalize_eq_kebab {t : Text} (h : ∀ c ∈ t, c.toNat < 0x80) :
    normalize t = kebab true t := by
  obtain ⟨first, parts, hsplit⟩ :=
    List.exists_cons_of_ne_nil (splitOn_ne_nil '-' (t.map Char.toLower))
  calc normalize t = ofLower (t.map Char.toLower) := by rw [normalize, lower_eq_map_toLower h]
    _ = ("-" : Text).intercalate ((first :: parts).map capitalize) := by rw [ofLower, hsplit]
    _ = kebab true t := (kebab_eq_intercalate h hsplit true).symm

/-! ## Normal forms -/

/-- The characters of a token are ASCII. -/
theorem toNat_lt_of_isTokenChar {c : Char} (h : isTokenChar c = true) : c.toNat < 0x80 := by
  unfold isTokenChar at h
  rcases Bool.or_eq_true_iff.mp h with h | h
  · exact Latin.toNat_lt_of_isAlphanum h
  · have hall : ("!#$%&'*+-.^_`|~" : Text).all (fun d => d.toNat < 0x80) = true := by decide
    simpa using List.all_eq_true.mp hall c (by simpa using h)

theorem isTokenChar_toLower {c : Char} (hc : c.toNat < 0x80) :
    isTokenChar c.toLower = isTokenChar c :=
  Latin.forall_ascii (P := fun c => isTokenChar c.toLower = isTokenChar c) (by decide) hc

theorem ascii_of_isToken {t : Text} (h : isToken t = true) : ∀ c ∈ t, c.toNat < 0x80 := by
  unfold isToken at h
  simp only [Bool.and_eq_true, List.all_eq_true] at h
  exact fun c hc => toNat_lt_of_isTokenChar (h.2 c hc)

/-- A token holds the characters of tokens alone. -/
theorem not_mem_of_isToken {t : Text} (h : isToken t = true) {c : Char}
    (hc : isTokenChar c = false) : c ∉ t := by
  intro hmem
  unfold isToken at h
  simp only [Bool.and_eq_true, List.all_eq_true] at h
  rw [h.2 c hmem] at hc
  cases hc

theorem ascii_normalize {t : Text} (h : ∀ c ∈ t, c.toNat < 0x80) :
    ∀ c ∈ normalize t, c.toNat < 0x80 := by
  rw [normalize_eq_kebab h]
  exact ascii_kebab h true

/-- Each letter of a name keeps its lower case. -/
theorem map_toLower_normalize {t : Text} (h : ∀ c ∈ t, c.toNat < 0x80) :
    (normalize t).map Char.toLower = t.map Char.toLower := by
  rw [normalize_eq_kebab h]
  exact map_toLower_kebab h true

/-- **The normal form is the same name.** -/
theorem lower_normalize {t : Text} (h : isToken t = true) : lower (normalize t) = lower t := by
  have hascii := ascii_of_isToken h
  rw [lower_eq_map_toLower (ascii_normalize hascii), lower_eq_map_toLower hascii,
    map_toLower_normalize hascii]

theorem normalize_normalize {t : Text} (h : isToken t = true) :
    normalize (normalize t) = normalize t :=
  congrArg ofLower (lower_normalize h)

theorem length_normalize {t : Text} (h : isToken t = true) : (normalize t).length = t.length := by
  have hlen := congrArg List.length (map_toLower_normalize (ascii_of_isToken h))
  rwa [List.length_map, List.length_map] at hlen

/-- Whether ASCII is a token does not depend on letter case. -/
theorem isToken_map_toLower {t : Text} (h : ∀ c ∈ t, c.toNat < 0x80) :
    isToken (t.map Char.toLower) = isToken t := by
  unfold isToken
  rw [List.isEmpty_map, List.all_map]
  congr 1
  exact Bool.eq_iff_iff.mpr (by
    simp only [List.all_eq_true, Function.comp_apply]
    exact forall₂_congr fun c hc => by rw [isTokenChar_toLower (h c hc)])

theorem isToken_normalize {t : Text} (h : isToken t = true) : isToken (normalize t) = true := by
  have hascii := ascii_of_isToken h
  rw [← isToken_map_toLower (ascii_normalize hascii), map_toLower_normalize hascii,
    isToken_map_toLower hascii, h]

/-- **Tokens have one normal form exactly if they have one lower case.** -/
theorem normalize_eq_iff {a b : Text} (ha : isToken a = true) (hb : isToken b = true) :
    normalize a = normalize b ↔ lower a = lower b := by
  constructor
  · intro h
    calc lower a = lower (normalize a) := (lower_normalize ha).symm
      _ = lower (normalize b) := by rw [h]
      _ = lower b := lower_normalize hb
  · intro h
    exact congrArg ofLower h

/-- **A name in normal form is known by its lower case.** -/
theorem eq_iff_lower_eq {name known : Text} (hname : normalize name = name)
    (hknown : normalize known = known) : name = known ↔ lower name = lower known := by
  refine ⟨congrArg lower, fun hlower => ?_⟩
  calc name = ofLower (lower name) := hname.symm
    _ = ofLower (lower known) := by rw [hlower]
    _ = known := hknown

theorem normalize_contentLength : normalize contentLength = contentLength := by
  decide

theorem normalize_transferEncoding : normalize transferEncoding = transferEncoding := by
  decide

end HttpCodec.FieldName
