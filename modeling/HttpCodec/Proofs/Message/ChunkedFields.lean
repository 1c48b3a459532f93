import HttpCodec.Message.Wire
import HttpCodec.Proofs.Fields

set_option autoImplicit false

/-! # The header fields of a chunked body

The fields that are written for a chunked body (`Message.chunkedFields`) are those of the message
without any length, the last coding made to end in the chunked one (`Reframed`). They declare that
coding last and no length, whatever the message declares (`Reframed.isChunked`,
`Reframed.contentLength`).
-/

namespace HttpCodec

theorem TransferCoding.isChunked_append (value : Text) :
    isChunked (value ++ ", " ++ chunked) = true := by
  have hlast : afterLast ',' (value ++ ", " ++ chunked) = " chunked" := by
    have hsplit : value ++ ", " ++ chunked = value ++ ',' :: " chunked" := by
      rw [List.append_assoc]
      rfl
    rw [hsplit, afterLast_append value (by decide)]
  unfold isChunked final
  rw [hlast]
  decide

section

variable {α : Type} {p : α → Bool} {f : α → α}

theorem modifyLast?_eq_none_iff {l : List α} :
    modifyLast? p f l = none ↔ ∀ a ∈ l, p a = false := by
  induction l with
  | nil => simp [modifyLast?]
  | cons a l ih =>
      cases hrest : modifyLast? p f l with
      | none =>
          have hnone := ih.mp hrest
          cases ha : p a
          · simpa [modifyLast?, hrest, ha] using hnone
          · simp [modifyLast?, hrest, ha]
      | some changed =>
          have hsome : ¬∀ b ∈ l, p b = false := fun h => by simp [ih.mpr h] at hrest
          simp only [modifyLast?, hrest, reduceCtorEq, false_iff]
          exact fun h => hsome fun b hb => h b (List.mem_cons_of_mem a hb)

/-- What `modifyLast?` changes is the last element that satisfies the predicate. -/
theorem modifyLast?_eq_some {l changed : List α} (h : modifyLast? p f l = some changed) :
    ∃ before a after, l = before ++ a :: after ∧ p a = true ∧ (∀ b ∈ after, p b = false) ∧
      changed = before ++ f a :: after := by
  induction l generalizing changed with
  | nil => cases h
  | cons a l ih =>
      simp only [modifyLast?] at h
      split at h
      next rest hrest =>
        cases h
        obtain ⟨before, b, after, rfl, hb, hafter, rfl⟩ := ih hrest
        exact ⟨a :: before, b, after, rfl, hb, hafter, rfl⟩
      next hnone =>
        split_ifs at h with ha
        cases h
        exact ⟨[], a, l, rfl, ha, modifyLast?_eq_none_iff.mp hnone, rfl⟩

theorem modifyLast?_append (before : List α) {a : α} {after : List α} (ha : p a = true)
    (hafter : ∀ b ∈ after, p b = false) :
    modifyLast? p f (before ++ a :: after) = some (before ++ f a :: after) := by
  induction before with
  | nil => simp [modifyLast?, modifyLast?_eq_none_iff.mpr hafter, ha]
  | cons b before ih => simp [modifyLast?, ih]

end

namespace Message

/-- The field that declares a chunked coding. -/
def chunkedField : Field := ⟨FieldName.transferEncoding, TransferCoding.chunked⟩

/-- The fields without any length. -/
def unmeasured (fields : List Field) : List Field :=
  fields.filter (·.name ≠ FieldName.contentLength)

/-- The fields of a chunked body in terms of those of the message: all of them but the lengths, with
the last coding made to end in the chunked one, or followed by that coding if there is none. -/
inductive Reframed (fields : List Field) : List Field → Prop
  | last {before after : List Field} {f : Field} (hsplit : unmeasured fields = before ++ f :: after)
      (hname : f.name = FieldName.transferEncoding)
      (hafter : ∀ g ∈ after, g.name ≠ FieldName.transferEncoding) :
      Reframed fields (before ++ chunkedAtLast f :: after)
  | added (hnone : ∀ f ∈ unmeasured fields, f.name ≠ FieldName.transferEncoding) :
      Reframed fields (unmeasured fields ++ [chunkedField])

variable {fields written : List Field}

theorem reframed_chunkedFields (fields : List Field) : Reframed fields (chunkedFields fields) := by
  unfold chunkedFields
  dsimp only
  cases hmodify : modifyLast? (·.name = FieldName.transferEncoding) chunkedAtLast
      (fields.filter (·.name ≠ FieldName.contentLength)) with
  | none =>
      have hnone := modifyLast?_eq_none_iff.mp hmodify
      exact .added fun f hf => by simpa using hnone f hf
  | some changed =>
      obtain ⟨before, f, after, hsplit, hf, hafter, rfl⟩ := modifyLast?_eq_some hmodify
      exact .last hsplit (by simpa using hf) fun g hg => by simpa using hafter g hg

/-- **The fields that are written for a chunked body** are the only such fields. -/
theorem Reframed.eq_chunkedFields (h : Reframed fields written) :
    chunkedFields fields = written := by
  unfold chunkedFields
  dsimp only
  cases h with
  | @last before after f hsplit hname hafter =>
      have hmodify := modifyLast?_append (p := (·.name = FieldName.transferEncoding))
        (f := chunkedAtLast) before (decide_eq_true hname) fun g hg => decide_eq_false (hafter g hg)
      unfold unmeasured at hsplit
      rw [hsplit, hmodify]
      rfl
  | added hnone =>
      have hmodify := (modifyLast?_eq_none_iff (p := (·.name = FieldName.transferEncoding))
        (f := chunkedAtLast)).mpr fun g hg => decide_eq_false (hnone g hg)
      unfold unmeasured at hmodify
      rw [hmodify]
      rfl

/-- What holds of all fields but the lengths, of the chunked coding and of one more coding in a value
holds of the fields of a chunked body. -/
theorem Reframed.forall_mem {P : Field → Prop} (h : Reframed fields written)
    (hkept : ∀ f ∈ unmeasured fields, P f)
    (hlast : ∀ f, f.name = FieldName.transferEncoding → P f → P (chunkedAtLast f))
    (hadded : P chunkedField) : ∀ f ∈ written, P f := by
  intro g hg
  cases h with
  | last hsplit hname hafter =>
      rw [hsplit] at hkept
      rcases List.mem_append.mp hg with hg | hg
      · exact hkept g (List.mem_append_left _ hg)
      · rcases List.mem_cons.mp hg with rfl | hg
        · exact hlast _ hname (hkept _ (by simp))
        · exact hkept g (by simp [hg])
  | added hnone =>
      rcases List.mem_append.mp hg with hg | hg
      · exact hkept g hg
      · rw [List.mem_singleton.mp hg]
        exact hadded

/-- Without any length all fields are kept. -/
theorem unmeasured_eq_self
    (h : Fields.valuesOf fields (LetterCase.lower FieldName.contentLength) = []) :
    unmeasured fields = fields := by
  refine List.filter_eq_self.mpr fun f hf => decide_eq_true fun hname => ?_
  exact Fields.valuesOf_eq_nil_iff.mp h f hf (congrArg LetterCase.lower hname)

/-- Of fields that declare nothing all are kept, and the coding is added. -/
theorem reframed_of_undeclared
    (hcodings : Fields.valuesOf fields (LetterCase.lower FieldName.transferEncoding) = [])
    (hlengths : Fields.valuesOf fields (LetterCase.lower FieldName.contentLength) = []) :
    Reframed fields (fields ++ [chunkedField]) := by
  have hnone : ∀ f ∈ unmeasured fields, f.name ≠ FieldName.transferEncoding := by
    intro f hf hname
    refine Fields.valuesOf_eq_nil_iff.mp hcodings f (List.mem_of_mem_filter hf) ?_
    rw [hname]
  have hadded := Reframed.added hnone
  rwa [unmeasured_eq_self hlengths] at hadded

theorem name_chunkedAtLast (f : Field) : (chunkedAtLast f).name = f.name := by
  unfold chunkedAtLast
  split_ifs <;> rfl

theorem isChunked_chunkedAtLast (f : Field) :
    TransferCoding.isChunked (chunkedAtLast f).value = true := by
  unfold chunkedAtLast
  split_ifs with h
  · exact h
  · exact TransferCoding.isChunked_append f.value

/-- One more coding in a value leaves the field one that can be written. -/
theorem sound_chunkedAtLast {f : Field} (h : f.Sound) : (chunkedAtLast f).Sound := by
  unfold chunkedAtLast
  split_ifs with hchunked
  · exact h
  · refine ⟨h.token, h.normal, ⟨?_, ?_⟩, ?_⟩
    · intro c hc
      cases hvalue : f.value with
      | nil =>
          simp only [hvalue, List.nil_append] at hc
          obtain rfl : ',' = c := Option.some.inj hc
          decide
      | cons d rest =>
          refine h.trimmed.1 c ?_
          simpa [hvalue] using hc
    · intro c hc
      have hlast : (f.value ++ ", " ++ TransferCoding.chunked).getLast? = some 'd' := by
        rw [List.getLast?_append_of_ne_nil _ (by decide)]
        rfl
      obtain rfl : 'd' = c := by
        rw [hlast] at hc
        simpa using hc
      decide
    · exact (h.plain.append (Latin.plain_of_all (by decide))).append (Latin.plain_of_all (by decide))

theorem sound_chunkedField : chunkedField.Sound := by
  have hblank : TransferCoding.chunked.all (fun c => !CharClass.isSpaceOrTab c) = true := by decide
  refine ⟨by decide, by decide, trimmed_of_forall fun c hc => ?_, Latin.plain_of_all (by decide)⟩
  simpa using List.all_eq_true.mp hblank c hc

theorem Reframed.sound (h : Reframed fields written) (hfields : ∀ f ∈ fields, f.Sound) :
    ∀ f ∈ written, f.Sound :=
  h.forall_mem (fun f hf => hfields f (List.mem_of_mem_filter hf))
    (fun _ _ hf => sound_chunkedAtLast hf) sound_chunkedField

theorem Reframed.exists_mem (h : Reframed fields written) : ∃ f, f ∈ written := by
  cases h with
  | @last before after f => exact ⟨chunkedAtLast f, by simp⟩
  | added => exact ⟨chunkedField, by simp⟩

/-- A chunked body is declared last. -/
theorem Reframed.isChunked (h : Reframed fields written) (hfields : ∀ f ∈ fields, f.Sound) :
    ∃ coding, (Fields.valuesOf written (LetterCase.lower FieldName.transferEncoding)).getLast? =
        some coding ∧ TransferCoding.isChunked coding = true := by
  cases h with
  | @last before after f hsplit hname hafter =>
      refine ⟨(chunkedAtLast f).value, ?_, isChunked_chunkedAtLast f⟩
      have hsound : ∀ g ∈ after, g.Sound := by
        intro g hg
        have hmem : g ∈ unmeasured fields := by simp [hsplit, hg]
        exact hfields g (List.mem_of_mem_filter hmem)
      -- no field after the one that is changed declares a coding
      have hrest := Fields.valuesOf_eq_nil_of_ne hsound FieldName.normalize_transferEncoding hafter
      rw [← List.singleton_append, Fields.valuesOf_append, Fields.valuesOf_append, hrest,
        Fields.valuesOf_singleton, if_pos (by rw [name_chunkedAtLast, hname])]
      simp
  | added hnone =>
      refine ⟨TransferCoding.chunked, ?_, by decide⟩
      have hname : chunkedField.name = FieldName.transferEncoding := rfl
      rw [Fields.valuesOf_append, Fields.valuesOf_singleton, if_pos (by rw [hname])]
      simp [chunkedField]

/-- No length is declared along with a chunked body. -/
theorem Reframed.contentLength (h : Reframed fields written) (hfields : ∀ f ∈ fields, f.Sound) :
    Fields.valuesOf written (LetterCase.lower FieldName.contentLength) = [] := by
  have hcoding : LetterCase.lower FieldName.transferEncoding ≠
      LetterCase.lower FieldName.contentLength := by
    decide
  rw [Fields.valuesOf_eq_nil_iff]
  refine h.forall_mem (fun f hf hlower => ?_) (fun f hname _ => ?_) hcoding
  · obtain ⟨hmem, hne⟩ := List.mem_filter.mp hf
    have hname := ((hfields f hmem).name_eq_iff FieldName.normalize_contentLength).mpr hlower
    simp [hname] at hne
  · rw [name_chunkedAtLast, hname]
    exact hcoding

/-- The fields of a message that declares a chunked body, and no length, are written as they
are. -/
theorem reframed_self (hfields : ∀ f ∈ fields, f.Sound) {coding : Text}
    (hcoding : (Fields.valuesOf fields
      (LetterCase.lower FieldName.transferEncoding)).getLast? = some coding)
    (hchunked : TransferCoding.isChunked coding = true)
    (hlength : Fields.valuesOf fields (LetterCase.lower FieldName.contentLength) = []) :
    Reframed fields fields := by
  have hkept := unmeasured_eq_self hlength
  have hreframed := reframed_chunkedFields fields
  generalize chunkedFields fields = written at hreframed
  cases hreframed with
  | @last before after f hsplit hname hafter =>
      -- the coding that is looked up is that of the field that would be changed
      have hsound : ∀ g ∈ after, g.Sound := fun g hg =>
        hfields g (by rw [← hkept, hsplit]; simp [hg])
      have hrest := Fields.valuesOf_eq_nil_of_ne hsound FieldName.normalize_transferEncoding hafter
      rw [← hkept, hsplit, ← List.singleton_append, Fields.valuesOf_append, Fields.valuesOf_append,
        hrest, Fields.valuesOf_singleton, if_pos (by rw [hname])] at hcoding
      obtain rfl : f.value = coding := by simpa using hcoding
      have hsame : chunkedAtLast f = f := if_pos hchunked
      have hreframed := Reframed.last hsplit hname hafter
      rwa [hsame, ← hsplit, hkept] at hreframed
  | added hnone =>
      rw [hkept] at hnone
      rw [Fields.valuesOf_eq_nil_of_ne hfields FieldName.normalize_transferEncoding hnone] at hcoding
      cases hcoding

end Message

end HttpCodec
