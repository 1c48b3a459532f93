import HttpCodec.Proofs.Fields.Grouping
import HttpCodec.Proofs.Fields.Plain

set_option autoImplicit false

/-! # Sessions with field lists

A caller makes field lists, copies them, adds, sets and removes fields, and looks up names. The
answers are those that plain lists of fields would give, and at the end the lists hold the same
fields (`answers_of_calls`), whatever is asked for and however often a call fails. What carries this
through a session is that all lists were filled, so each call can be read as the same call on plain
lists (`step_toPlain`), and so can any number of them (`run_toPlain`). `Faithful` says what a list
is then: its index groups its fields, which can be written, and exactly what is admissible can be
added. A number that is too long to be written is not.
-/

namespace HttpCodec.Fields

/-! ## Calls and answers -/

/-- What can be done with field lists, whatever they are made of. -/
structure Interface (σ : Type) where
  empty : Bool → Int → σ
  ofPairs : Bool → List (Scalar × FieldValue) → Except FieldError σ
  add : σ → Text → FieldValue → Except FieldError σ
  set : σ → Text → FieldValue → Except FieldError σ
  remove : σ → Text → σ
  count : σ → Text → Nat
  get : σ → Text → Option Text → Option Text
  getAll : σ → Text → List Text
  has : σ → Text → Bool
  hasScalar : σ → Scalar → Bool
  items : σ → List Field

/-- What is done with one list. -/
inductive Operation where
  | add (name : Scalar) (value : FieldValue)
  | set (name : Scalar) (value : FieldValue)
  /-- Answers how many fields there were. -/
  | remove (name : Text)
  | get (name : Text) (default : Option Text)
  | getAll (name : Text)
  | has (name : Text)
  | hasScalar (name : Scalar)
  | items
  | length

/-- What a caller does. The lists have numbers, in the order in which they were made. -/
inductive Call where
  | create (join : Bool) (limit : Int)
  | ofPairs (join : Bool) (pairs : List (Scalar × FieldValue))
  | copy (i : Nat)
  | apply (i : Nat) (operation : Operation)

/-- What a caller is told. -/
inductive Answer where
  | done
  | failed (e : FieldError)
  | number (n : Nat)
  | value (v : Option Text)
  | values (vs : List Text)
  | verdict (b : Bool)
  | items (fields : List Field)
  /-- There is no list of that number. -/
  | unknown
  deriving DecidableEq

namespace Interface

variable {σ : Type} (I : Interface σ)

/-- A list after a change, which stays what it was if the change fails. -/
def changed (l : σ) : Except FieldError σ → Answer × σ
  | .ok next => (.done, next)
  | .error e => (.failed e, l)

/-- Does an operation on a list. -/
def serve (l : σ) : Operation → Answer × σ
  | .add name value => changed l (name.fieldName >>= fun t => I.add l t value)
  | .set name value => changed l (name.fieldName >>= fun t => I.set l t value)
  | .remove name => (.number (I.count l name), I.remove l name)
  | .get name default => (.value (I.get l name default), l)
  | .getAll name => (.values (I.getAll l name), l)
  | .has name => (.verdict (I.has l name), l)
  | .hasScalar name => (.verdict (I.hasScalar l name), l)
  | .items => (.items (I.items l), l)
  | .length => (.number (I.items l).length, l)

/-- Does what a caller asks for. -/
def step (lists : List σ) : Call → Answer × List σ
  | .create join limit => (.done, lists ++ [I.empty join limit])
  | .ofPairs join pairs =>
      match I.ofPairs join pairs with
      | .ok l => (.done, lists ++ [l])
      | .error e => (.failed e, lists)
  | .copy i =>
      match lists[i]? with
      | some l => (.done, lists ++ [l])
      | none => (.unknown, lists)
  | .apply i operation =>
      match lists[i]? with
      | some l => ((I.serve l operation).1, lists.set i (I.serve l operation).2)
      | none => (.unknown, lists)

/-- The answers to calls, one after the other, and the lists at the end. -/
def run (lists : List σ) : List Call → List Answer × List σ
  | [] => ([], lists)
  | call :: calls =>
      let next := I.step lists call
      let rest := run next.2 calls
      (next.1 :: rest.1, rest.2)

theorem snd_changed_of_failed {l : σ} {outcome : Except FieldError σ} {e : FieldError}
    (h : (changed l outcome).1 = .failed e) : (changed l outcome).2 = l := by
  cases outcome with
  | ok next => cases h
  | error cause => rfl

theorem snd_serve_of_failed {l : σ} {operation : Operation} {e : FieldError}
    (h : (I.serve l operation).1 = .failed e) : (I.serve l operation).2 = l := by
  cases operation with
  | add name value => exact snd_changed_of_failed h
  | set name value => exact snd_changed_of_failed h
  | remove name => cases h
  | get | getAll | has | hasScalar | items | length => rfl

/-- A call that fails changes nothing. -/
theorem snd_step_of_failed {lists : List σ} {call : Call} {e : FieldError}
    (h : (I.step lists call).1 = .failed e) : (I.step lists call).2 = lists := by
  cases call with
  | create join limit => cases h
  | ofPairs join pairs =>
      simp only [step] at h ⊢
      split at h
      · cases h
      · rfl
  | copy i =>
      simp only [step] at h ⊢
      split at h <;> cases h
  | apply i operation =>
      simp only [step] at h ⊢
      split at h
      next l hl =>
        obtain ⟨hi, rfl⟩ := List.getElem?_eq_some_iff.mp hl
        rw [I.snd_serve_of_failed h]
        exact List.set_getElem_self hi
      next => rfl

/-- Field lists with their index. -/
def indexed : Interface Fields where
  empty join limit := { join, limit }
  ofPairs join pairs := Fields.addAll { join } pairs
  add := Fields.add
  set := Fields.set
  remove := Fields.remove
  count := Fields.count
  get fs name default := (fs.get? name).or default
  getAll := Fields.getAll
  has := Fields.has
  hasScalar := Fields.hasScalar
  items := Fields.fields

/-- Plain lists of fields. -/
def plain : Interface PlainFields where
  empty join limit := ⟨[], join, limit⟩
  ofPairs join pairs := PlainFields.addAll ⟨[], join, 8192⟩ pairs
  add := PlainFields.add
  set := PlainFields.set
  remove := PlainFields.remove
  count := PlainFields.count
  get := PlainFields.get
  getAll := PlainFields.getAll
  has := PlainFields.has
  hasScalar := PlainFields.hasScalar
  items := PlainFields.fields

end Interface

open Interface (indexed plain)

/-! ## Each operation -/

theorem changed_toPlain (fs : Fields) (outcome : Except FieldError Fields) :
    Interface.changed fs.toPlain (outcome.map toPlain) =
      ((Interface.changed fs outcome).1, (Interface.changed fs outcome).2.toPlain) := by
  cases outcome <;> rfl

/-- A change under a name of any kind, if it is the same under each text. -/
theorem fieldName_toPlain (name : Scalar) {change : Text → Except FieldError Fields}
    {same : Text → Except FieldError PlainFields} (h : ∀ t, (change t).map toPlain = same t) :
    (name.fieldName >>= change).map toPlain = name.fieldName >>= same := by
  cases name.fieldName with
  | ok t => exact h t
  | error cause => rfl

/-- An operation answers as on a plain list, which it leaves. -/
theorem serve_toPlain {fs : Fields} (h : fs.Sound) (operation : Operation) :
    plain.serve fs.toPlain operation =
      ((indexed.serve fs operation).1, (indexed.serve fs operation).2.toPlain) := by
  cases operation with
  | add name value =>
      show Interface.changed fs.toPlain (name.fieldName >>= fun t => fs.toPlain.add t value) = _
      rw [← fieldName_toPlain name fun t => toPlain_add fs t value, changed_toPlain]
      rfl
  | set name value =>
      show Interface.changed fs.toPlain (name.fieldName >>= fun t => fs.toPlain.set t value) = _
      rw [← fieldName_toPlain name fun t => h.toPlain_set t value, changed_toPlain]
      rfl
  | remove name =>
      show (Answer.number (fs.toPlain.count name), fs.toPlain.remove name) = _
      rw [← h.count_eq, ← h.toPlain_remove]
      rfl
  | get name default =>
      show (Answer.value (fs.toPlain.get name default), fs.toPlain) = _
      rw [← h.get_eq]
      rfl
  | getAll name =>
      show (Answer.values (fs.toPlain.getAll name), fs.toPlain) = _
      rw [← h.getAll_eq]
      rfl
  | has name =>
      show (Answer.verdict (fs.toPlain.has name), fs.toPlain) = _
      rw [← h.has_eq]
      rfl
  | hasScalar name =>
      show (Answer.verdict (fs.toPlain.hasScalar name), fs.toPlain) = _
      rw [← h.hasScalar_eq]
      rfl
  | items => rfl
  | length => rfl

theorem Filled.changed {fs : Fields} (h : fs.Filled) {outcome : Except FieldError Fields}
    (hok : ∀ gs, outcome = .ok gs → gs.Filled) : (Interface.changed fs outcome).2.Filled := by
  cases outcome with
  | ok gs => exact hok gs rfl
  | error cause => exact h

theorem Filled.serve {fs : Fields} (h : fs.Filled) (operation : Operation) :
    (indexed.serve fs operation).2.Filled := by
  cases operation with
  | add name value =>
      refine h.changed fun gs hgs => ?_
      obtain ⟨t, _, hadd⟩ := bind_eq_ok_iff.mp hgs
      exact h.add hadd
  | set name value =>
      refine h.changed fun gs hgs => ?_
      obtain ⟨t, _, hset⟩ := bind_eq_ok_iff.mp hgs
      exact h.set hset
  | remove name => exact h.remove name
  | get | getAll | has | hasScalar | items | length => exact h

/-! ## Each call -/

theorem filled_concat {lists : List Fields} (h : ∀ fs ∈ lists, fs.Filled) {fs : Fields}
    (hfs : fs.Filled) : ∀ gs ∈ lists ++ [fs], gs.Filled :=
  List.forall_mem_append.mpr ⟨h, List.forall_mem_singleton.mpr hfs⟩

/-- A call leaves lists that were filled. -/
theorem filled_step {lists : List Fields} (h : ∀ fs ∈ lists, fs.Filled) (call : Call) :
    ∀ fs ∈ (indexed.step lists call).2, fs.Filled := by
  cases call with
  | create join limit => exact filled_concat h (.empty join limit)
  | ofPairs join pairs =>
      simp only [Interface.step]
      split
      next fs hfs => exact filled_concat h ((Filled.empty join 8192).addAll hfs)
      next => exact h
  | copy i =>
      simp only [Interface.step]
      split
      next fs hfs => exact filled_concat h (h fs (List.mem_of_getElem? hfs))
      next => exact h
  | apply i operation =>
      simp only [Interface.step]
      split
      next fs hfs =>
        intro gs hgs
        rcases List.mem_or_eq_of_mem_set hgs with hgs | rfl
        · exact h gs hgs
        · exact (h fs (List.mem_of_getElem? hfs)).serve operation
      next => exact h

/-- A call on lists answers as on plain lists, which it leaves. -/
theorem step_toPlain {lists : List Fields} (h : ∀ fs ∈ lists, fs.Filled) (call : Call) :
    plain.step (lists.map toPlain) call =
      ((indexed.step lists call).1, (indexed.step lists call).2.map toPlain) := by
  cases call with
  | create join limit =>
      simp only [Interface.step, List.map_append]
      rfl
  | ofPairs join pairs =>
      have hpairs : (indexed.ofPairs join pairs).map toPlain = plain.ofPairs join pairs :=
        toPlain_addAll { join } pairs
      simp only [Interface.step, ← hpairs]
      cases indexed.ofPairs join pairs with
      | error cause => rfl
      | ok fs => simp [Except.map]
  | copy i =>
      simp only [Interface.step, List.getElem?_map]
      cases lists[i]? with
      | none => rfl
      | some fs => simp
  | apply i operation =>
      simp only [Interface.step, List.getElem?_map]
      cases hi : lists[i]? with
      | none => rfl
      | some fs =>
          have hfs : fs.Sound := (h fs (List.mem_of_getElem? hi)).sound
          simp only [Option.map_some, serve_toPlain hfs operation, List.map_set]

/-! ## The lists of a session -/

/-- What holds of every list that a caller comes to. -/
structure Faithful (fs : Fields) : Prop where
  index : fs.index = grouping fs.fields
  fields : ∀ f ∈ fs.fields, f.Sound ∧ f.size ≤ fs.limit
  /-- Adding succeeds exactly for what is admissible, and appends one field. -/
  add : ∀ name value p, (fs.add name value).map toPlain = .ok p ↔
    ∃ t, Field.Admissible fs.limit name value t ∧
      p = { fs.toPlain with fields := fs.fields ++ [⟨FieldName.normalize name, t⟩] }
  /-- So does setting, which leaves one field of the name, and the others. -/
  set : ∀ name value p, (fs.set name value).map toPlain = .ok p ↔
    ∃ t, Field.Admissible fs.limit name value t ∧
      p = { fs.toPlain with fields := fs.toPlain.others name ++ [⟨FieldName.normalize name, t⟩] }
  matching : ∀ name value gs, fs.set name value = .ok gs → ∃ t, Field.Written value t ∧
    gs.toPlain.matching name = [⟨FieldName.normalize name, t⟩]

theorem Filled.faithful {fs : Fields} (h : fs.Filled) : fs.Faithful where
  index := h.index_eq
  fields f hf := ⟨h.sound.fields f hf, h.sound.sizes f hf⟩
  add name value p := by
    rw [toPlain_add]
    exact PlainFields.putAfter_eq_ok_iff
  set name value p := by
    rw [h.sound.toPlain_set]
    exact PlainFields.putAfter_eq_ok_iff
  matching name value gs hset := by
    have hplain : fs.toPlain.set name value = .ok gs.toPlain := by
      rw [← h.sound.toPlain_set, hset]
      rfl
    exact PlainFields.matching_of_set hplain

/-! ## All calls -/

theorem filled_run {lists : List Fields} (h : ∀ fs ∈ lists, fs.Filled) (calls : List Call) :
    ∀ fs ∈ (indexed.run lists calls).2, fs.Filled := by
  induction calls generalizing lists with
  | nil => exact h
  | cons call calls ih => exact ih (filled_step h call)

/-- Calls on lists answer as on plain lists, which they leave. -/
theorem run_toPlain {lists : List Fields} (h : ∀ fs ∈ lists, fs.Filled) (calls : List Call) :
    plain.run (lists.map toPlain) calls =
      ((indexed.run lists calls).1, (indexed.run lists calls).2.map toPlain) := by
  -- by induction on the calls, each of which leaves lists that were filled
  induction calls generalizing lists with
  | nil => rfl
  | cons call calls ih => simp only [Interface.run, step_toPlain h call, ih (filled_step h call)]

/-- **Field lists answer as plain lists of fields would.** Whatever a caller does, starting with no
lists, the answers are those of plain lists, and the fields at the end are those of the plain lists,
of which each is faithful. A call that fails changes nothing. -/
theorem answers_of_calls (calls : List Call) :
    plain.run [] calls =
        ((indexed.run [] calls).1, (indexed.run [] calls).2.map toPlain) ∧
      (∀ fs ∈ (indexed.run [] calls).2, fs.Faithful) ∧
      ∀ call e, (indexed.step (indexed.run [] calls).2 call).1 = .failed e →
        (indexed.step (indexed.run [] calls).2 call).2 = (indexed.run [] calls).2 := by
  have hnone : ∀ fs ∈ ([] : List Fields), fs.Filled := fun _ hfs => absurd hfs List.not_mem_nil
  refine ⟨run_toPlain hnone calls, fun fs hfs => ?_, fun call e hfailed => ?_⟩
  · exact (filled_run hnone calls fs hfs).faithful
  · exact indexed.snd_step_of_failed hfailed

/-- Letter case does not matter, a line that is too long changes nothing, and neither does a change
to a copy. -/
example : (indexed.run [] [
      .ofPairs true [(.text "via", .text "a"), (.text "Via", .text " b")],
      .create true 8,
      .apply 1 (.set (.text "Via") (.text "long")),
      .copy 0,
      .apply 2 (.set (.text "VIA") (.number 3)),
      .apply 2 .items,
      .apply 0 (.get "vIa" none),
      .apply 0 (.remove "via")]).1 =
    [.done, .done, .failed (.tooLong "Via" 8), .done, .done, .items [⟨"Via", "3"⟩],
      .value (some "a, b"), .number 2] := by
  decide

end HttpCodec.Fields
