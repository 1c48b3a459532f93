import HttpCodec.Proofs.Dictionary
import HttpCodec.Proofs.Field

set_option autoImplicit false

/-! # The cache of field names

A cache that was filled by calls holds the normal forms of some keys (`NameCache.ofKeys`). Whichever
they are, a call answers with the normal form of its name, and all that it does to the cache is to put
a new key behind the others while there is room (`normalize_ofKeys`). So after any calls the cache
holds the keys that occurred first (`foldl_keysAfter`), and it never changes an answer. The main
statement is `normal_forms_of_calls`.
-/

namespace HttpCodec.NameCache

open LetterCase (lower)

/-! ## Caches of normal forms -/

/-- The cache of the normal forms of certain keys. -/
def ofKeys (keys : List Text) : NameCache := ⟨keys.map fun key => (key, FieldName.ofLower key)⟩

theorem keys_ofKeys (keys : List Text) : (ofKeys keys).entries.keys = keys := by
  simp [ofKeys, Dictionary.keys, Function.comp_def]

theorem length_ofKeys (keys : List Text) : (ofKeys keys).entries.length = keys.length :=
  List.length_map _

theorem get?_ofKeys {keys : List Text} {key normal : Text} :
    (ofKeys keys).entries.get? key = some normal ↔ key ∈ keys ∧ normal = FieldName.ofLower key :=
  Dictionary.get?_map_eq_some_iff

theorem put_ofKeys {keys : List Text} {key : Text} (h : key ∉ keys) :
    (ofKeys keys).entries.put key (FieldName.ofLower key) = (ofKeys (keys ++ [key])).entries := by
  rw [Dictionary.put_of_not_mem (by rwa [keys_ofKeys])]
  simp [ofKeys]

/-! ## One call -/

/-- The keys after a name was normalized: a new key stands last, while there is room. -/
def keysAfter (keys : List Text) (name : Text) : List Text :=
  if lower name ∈ keys ∨ capacity ≤ keys.length then keys else keys ++ [lower name]

/-- **A call answers with the normal form**, whatever is cached, and leaves a cache of normal
forms. -/
theorem normalize_ofKeys (keys : List Text) (name : Text) :
    (ofKeys keys).normalize name = (FieldName.normalize name, ofKeys (keysAfter keys name)) := by
  unfold normalize keysAfter
  by_cases hkey : lower name ∈ keys
  · have hsome := get?_ofKeys.mpr ⟨hkey, rfl⟩
    simp only [hsome, if_pos (Or.inl hkey)]
    rfl
  · have hnone : (ofKeys keys).entries.get? (lower name) = none := by
      rwa [Dictionary.get?_eq_none_iff, keys_ofKeys]
    simp only [hnone, length_ofKeys, put_ofKeys hkey]
    by_cases hfull : capacity ≤ keys.length
    · rw [if_neg (by omega), if_pos (Or.inr hfull)]
      rfl
    · rw [if_pos (by omega), if_neg (not_or.mpr ⟨hkey, hfull⟩)]
      rfl

theorem prefix_keysAfter (keys : List Text) (name : Text) : keys <+: keysAfter keys name := by
  unfold keysAfter
  split_ifs
  · exact List.prefix_refl keys
  · exact List.prefix_append keys [lower name]

/-! ## Many calls -/

/-- **Calls answer with the normal forms**, each of them, and take their keys one after the other. -/
theorem normalizeAll_ofKeys (keys names : List Text) :
    (ofKeys keys).normalizeAll names =
      (names.map FieldName.normalize, ofKeys (names.foldl keysAfter keys)) := by
  induction names generalizing keys with
  | nil => rfl
  | cons name names ih =>
      simp only [normalizeAll, normalize_ofKeys, ih, List.map_cons, List.foldl_cons]

/-- No key is lost. -/
theorem prefix_foldl_keysAfter (keys names : List Text) : keys <+: names.foldl keysAfter keys := by
  induction names generalizing keys with
  | nil => exact List.prefix_refl keys
  | cons name names ih => exact (prefix_keysAfter keys name).trans (ih (keysAfter keys name))

/-- **The keys are those that occurred first**, as many as there is room for. -/
theorem foldl_keysAfter (names : List Text) :
    names.foldl keysAfter [] = (names.map lower).eraseDups.take capacity := by
  induction names using List.reverseRecOn with
  | nil => rfl
  | append_singleton names name ih =>
      rw [List.foldl_append, List.foldl_cons, List.foldl_nil, ih, List.map_append,
        List.map_singleton, eraseDups_concat, keysAfter]
      have hmem : lower name ∈ (names.map lower).eraseDups ↔ lower name ∈ names.map lower :=
        List.mem_eraseDups
      generalize (names.map lower).eraseDups = keys at hmem ⊢
      have hlength : (keys.take capacity).length = min capacity keys.length := List.length_take
      by_cases hfull : capacity ≤ keys.length
      · rw [if_pos (Or.inr (by omega))]
        split_ifs
        · rfl
        · rw [List.take_append_of_le_length hfull]
      · -- all keys that occurred are kept, and there is room for one more
        have hall : keys.take capacity = keys := List.take_of_length_le (by omega)
        rw [hall]
        by_cases hname : lower name ∈ names.map lower
        · rw [if_pos (Or.inl (hmem.mpr hname)), if_pos hname, hall]
        · have hmore : (keys ++ [lower name]).length ≤ capacity := by
            rw [List.length_append, List.length_singleton]
            omega
          rw [if_neg (not_or.mpr ⟨fun h => hname (hmem.mp h), hfull⟩), if_neg hname,
            List.take_of_length_le hmore]

/-! ## Calls on an empty cache -/

/-- **Normalizing names with a cache.** Whatever names were normalized, starting with an empty cache,
the cache holds the normal forms of the first 1000 names that differ in more than letter case, and
keeps each of them whatever is normalized next. It changes no answer: any name has the normal form
that an empty cache gives it, and a field that is checked has that name. The normal form of a token is
a token of the same length and the same lower case, with capitals at the start and behind hyphens; it
is its own normal form, and two tokens share it exactly if they differ in letter case only. -/
theorem normal_forms_of_calls (names : List Text) :
    let cache := (({} : NameCache).normalizeAll names).2
    cache = ofKeys ((names.map lower).eraseDups.take 1000) ∧
    cache.entries.length ≤ 1000 ∧
    (∀ more key normal, cache.entries.get? key = some normal →
      (cache.normalizeAll more).2.entries.get? key = some normal) ∧
    (∀ name, (cache.normalize name).1 = (({} : NameCache).normalize name).1) ∧
    (∀ limit name value f, Field.check limit name value = .ok f →
      f.name = (cache.normalize name).1) ∧
    (∀ name, FieldName.isToken name = true →
      let normal := (cache.normalize name).1
      FieldName.isToken normal = true ∧ normal.length = name.length ∧ lower normal = lower name ∧
        normal = FieldName.kebab true name ∧
        ((cache.normalize name).2.normalize normal).1 = normal) ∧
    (∀ a b, FieldName.isToken a = true → FieldName.isToken b = true →
      ((cache.normalize a).1 = ((cache.normalize a).2.normalize b).1 ↔ lower a = lower b)) := by
  intro cache
  have hcache : cache = ofKeys ((names.map lower).eraseDups.take 1000) := by
    calc cache = ofKeys (names.foldl keysAfter []) :=
          congrArg Prod.snd (normalizeAll_ofKeys [] names)
      _ = ofKeys ((names.map lower).eraseDups.take 1000) := congrArg ofKeys (foldl_keysAfter names)
  have hlength : ((names.map lower).eraseDups.take 1000).length ≤ 1000 := List.length_take_le 1000 _
  refine ⟨hcache, ?_⟩
  -- from here on it matters only that there are some keys, and not too many
  generalize (names.map lower).eraseDups.take 1000 = keys at hcache hlength
  rw [hcache]
  refine ⟨by rwa [length_ofKeys], ?_, ?_, ?_, ?_, ?_⟩
  · intro more key normal hkey
    obtain ⟨hmem, hnormal⟩ := get?_ofKeys.mp hkey
    rw [normalizeAll_ofKeys]
    exact get?_ofKeys.mpr ⟨(prefix_foldl_keysAfter keys more).subset hmem, hnormal⟩
  · intro name
    have hempty : ({} : NameCache).normalize name = _ := normalize_ofKeys [] name
    rw [normalize_ofKeys, hempty]
  · intro limit name value f hcheck
    obtain ⟨-, -, hname, -⟩ := Field.sound_of_check hcheck
    rw [normalize_ofKeys]
    exact hname
  · intro name hname
    simp only [normalize_ofKeys]
    exact ⟨FieldName.isToken_normalize hname, FieldName.length_normalize hname,
      FieldName.lower_normalize hname,
      FieldName.normalize_eq_kebab (FieldName.ascii_of_isToken hname),
      FieldName.normalize_normalize hname⟩
  · intro a b ha hb
    simp only [normalize_ofKeys]
    exact FieldName.normalize_eq_iff ha hb

/-- Three spellings of two names, one of which has an empty part, and a field and a name that starts
with a hyphen after them. -/
theorem normal_forms_of_calls_of_spellings :
    let cache := (({} : NameCache).normalizeAll ["x--REQUEST-id", "etag", "X--Request-ID"]).2
    (cache.entries.get? ("x--request-id" : Text) = some "X--Request-Id" ∧
      Field.check 7 "eTAG" (.text "a") = .ok ⟨"Etag", "a"⟩ ∧
      FieldName.isToken "-a" = true ∧ FieldName.isToken "-A" = true) ∧
    cache.entries.length = 2 ∧
    (cache.normalizeAll ["-a"]).2.entries.get? ("x--request-id" : Text) = some "X--Request-Id" ∧
    (cache.normalize "eTAG").1 = "Etag" ∧ (cache.normalize "-a").1 = "-A" ∧
    ((cache.normalize "-a").2.normalize "-A").1 = "-A" := by
  intro cache
  obtain ⟨hcache, -, hkeeps, -, hchecked, htoken, hsame⟩ :=
    normal_forms_of_calls ["x--REQUEST-id", "etag", "X--Request-ID"]
  have hkept : cache.entries.get? ("x--request-id" : Text) = some "X--Request-Id" := by decide +kernel
  have hcheck : Field.check 7 "eTAG" (.text "a") = .ok ⟨"Etag", "a"⟩ := by decide +kernel
  have hlower : FieldName.isToken "-a" = true := by decide
  have hupper : FieldName.isToken "-A" = true := by decide
  obtain ⟨-, -, -, hkebab, hagain⟩ := htoken "-a" hlower
  have hnormal : (cache.normalize "-a").1 = "-A" := hkebab.trans (by decide)
  refine ⟨⟨hkept, hcheck, hlower, hupper⟩, ?_, hkeeps ["-a"] _ _ hkept,
    (hchecked _ _ _ _ hcheck).symm, hnormal, ?_⟩
  · rw [show cache = _ from hcache]
    decide +kernel
  · exact ((hsame "-a" "-A" hlower hupper).mpr (by decide)).symm.trans hnormal

end HttpCodec.NameCache
