import HttpCodec.Proofs.StartLine

set_option autoImplicit false

/-! # The grammar of start lines

A request line is a method, a target and a version with single spaces between them, and the first
question mark of the target ends the path (`RequestLine.Spelled`). A status line is a version, a
status of three digits and a reason phrase, which may be missing together with the space before it
(`StatusLine.Spelled`). The lines that `StartLine.read` accepts are those that spell a start line
of the kind that is expected (`read_eq_ok_iff`), and no line spells two of them
(`Spelled.unique`), not even of different kinds.

A start line that was read is written as it was spelled, but for a question mark without a query
and for a status without the space (`Spelled.rewrites`).
-/

namespace HttpCodec

/-- Tells that a line spells a request line, and how it spells the target. -/
structure RequestLine.Spelled (l : RequestLine) (target line : Text) : Prop where
  line_eq : line = l.method ++ ' ' :: (target ++ ' ' :: l.version.text)
  method : FieldName.isToken l.method = true
  nonempty : target ≠ []
  visible : ∀ c ∈ target, Visible c
  head : target.head? ≠ some '?'
  unqueried : '?' ∉ l.path
  split : target = l.path ∧ l.query = [] ∨ target = l.path ++ '?' :: l.query

/-- Tells that a line spells a status line, and the digits of the status. -/
structure StatusLine.Spelled (l : StatusLine) (digits line : Text) : Prop where
  line_eq : line = l.version.text ++ ' ' :: digits ∧ l.reason = [] ∨
    line = l.version.text ++ ' ' :: (digits ++ ' ' :: l.reason)
  length : digits.length = 3
  isDigit : ∀ d ∈ digits, d.isDigit = true
  value : (Nat.ofDigitChars 10 digits 0 : Int) = l.status
  range : 100 ≤ l.status ∧ l.status ≤ 599
  reason : ∀ c ∈ l.reason, CharClass.isForbiddenControl c = false

/-- Tells that a line spells a start line. -/
def StartLine.Spelled (line : Text) : StartLine → Prop
  | .request l => ∃ target, l.Spelled target line
  | .response l => ∃ digits, l.Spelled digits line

/-- How a start line is written that was read off a line: as it was, or else without the question
mark that no query follows, or with the space that no reason phrase follows. -/
inductive StartLine.Rewrites : StartLine → Text → Text → Prop
  | same (start : StartLine) (line : Text) : Rewrites start line line
  | unqueried {l : RequestLine} (hquery : l.query = []) :
      Rewrites (.request l) (l.method ++ " " ++ l.path ++ "?" ++ " " ++ l.version.text)
        (l.method ++ " " ++ l.path ++ " " ++ l.version.text)
  | unexplained {l : StatusLine} (hreason : l.reason = []) :
      Rewrites (.response l) (l.version.text ++ " " ++ Decimal.ofInt l.status)
        (l.version.text ++ " " ++ Decimal.ofInt l.status ++ " ")

namespace StartLine

theorem text_of_ofText? {t : Text} {v : Version} (h : Version.ofText? t = some v) : t = v.text := by
  unfold Version.ofText? at h
  split_ifs at h with h10 h11
  · cases h
    exact h10
  · cases h
    exact h11

end StartLine

open StartLine

/-! ## Request lines -/

section

variable {l : RequestLine} {target line : Text}

theorem RequestLine.Spelled.cut_target (h : l.Spelled target line) :
    cut '?' target = (l.path, l.query) := by
  rcases h.split with ⟨htarget, hquery⟩ | htarget
  · rw [htarget, hquery, cut_of_not_mem h.unqueried]
  · rw [htarget, cut_append h.unqueried]

/-- A target has a path, since it does not begin with a question mark. -/
theorem RequestLine.Spelled.path_ne_nil (h : l.Spelled target line) : l.path ≠ [] := by
  intro hpath
  rcases h.split with ⟨htarget, -⟩ | htarget
  · exact h.nonempty (htarget.trans hpath)
  · exact h.head (by simp [htarget, hpath])

theorem RequestLine.Spelled.splitOn_line (h : l.Spelled target line) :
    splitOn ' ' line = [l.method, target, l.version.text] := by
  rw [h.line_eq, splitOn_append (FieldName.not_mem_of_isToken h.method (by decide)),
    splitOn_append (not_mem_space h.visible), splitOn_eq_singleton (not_mem_space_version _)]

theorem StartLine.spelled_of_readRequest (h : readRequest line = .ok l) :
    ∃ target, l.Spelled target line := by
  unfold readRequest at h
  split at h
  next method target protocol hsplit =>
    split_ifs at h with htoken htarget
    split at h
    · cases h
    next version hversion =>
      dsimp only at h
      split_ifs at h with hpath
      cases h
      obtain ⟨hnonempty, hvisible⟩ := isTarget_iff.mp (by simpa using htarget)
      have hcut := eq_cut '?' target
      refine ⟨target, ?_, by simpa using htoken, hnonempty, hvisible, ?_, ?_, hcut.symm⟩
      · have hjoin := intercalate_splitOn ' ' line
        rw [hsplit] at hjoin
        simpa [List.intercalate, text_of_ofText? hversion] using hjoin.symm
      · -- a target that starts with a question mark has no path
        intro hhead
        obtain ⟨rest, rfl⟩ := List.head?_eq_some_iff.mp hhead
        simp [cut] at hpath
      · intro hmem
        simpa using List.mem_takeWhile_imp hmem
  · cases h

/-- **The lines that are read as requests** are those that spell one. -/
theorem StartLine.readRequest_eq_ok_iff :
    readRequest line = .ok l ↔ ∃ target, l.Spelled target line := by
  constructor
  · exact spelled_of_readRequest
  · rintro ⟨target, h⟩
    have htarget : isTarget target = true := isTarget_iff.mpr ⟨h.nonempty, h.visible⟩
    have hpath : l.path.isEmpty = false := by simpa using h.path_ne_nil
    simp only [readRequest, h.splitOn_line, h.method, htarget, ofText?_text, h.cut_target, hpath,
      Bool.not_true, Bool.false_eq_true, if_false]

theorem RequestLine.Spelled.kindOf_line (h : l.Spelled target line) : kindOf line = .request := by
  rw [h.line_eq]
  exact kindOf_of_method (FieldName.not_mem_of_isToken h.method (by decide)) _

/-- What was read of a request line can be written. -/
theorem RequestLine.Spelled.sound (h : l.Spelled target line) : l.Sound where
  method := h.method
  path := h.path_ne_nil
  unqueried := h.unqueried
  visiblePath := by
    intro c hc
    rcases h.split with ⟨htarget, -⟩ | htarget <;> exact h.visible c (by simp [htarget, hc])
  visibleQuery := by
    intro c hc
    rcases h.split with ⟨-, hquery⟩ | htarget
    · rw [hquery] at hc
      cases hc
    · exact h.visible c (by simp [htarget, hc])

/-- A request line is written as it was spelled, unless a question mark ended the target. -/
theorem RequestLine.Spelled.rewrites (h : l.Spelled target line) :
    Rewrites (.request l) line l.text := by
  obtain ⟨method, path, query, version⟩ := l
  have hline := h.line_eq
  by_cases hquery : query = []
  · subst hquery
    rcases h.split with ⟨htarget, -⟩ | htarget
    · -- the target is the path
      have htext : line = (⟨method, path, [], version⟩ : RequestLine).text := by
        rw [hline, htarget, RequestLine.Sound.text_eq]
        rfl
      rw [htext]
      exact .same _ _
    · rw [hline, htarget]
      simpa [RequestLine.text, RequestLine.target] using
        Rewrites.unqueried (l := ⟨method, path, [], version⟩) rfl
  · have htarget : target = (⟨method, path, query, version⟩ : RequestLine).target := by
      rcases h.split with ⟨-, hnil⟩ | htarget
      · exact absurd hnil hquery
      · simp [RequestLine.target, htarget, hquery]
    rw [hline, htarget, ← RequestLine.Sound.text_eq]
    exact .same _ _

end

/-! ## Status lines -/

section

variable {l : StatusLine} {digits line : Text}

/-- The parts of a status line, before the status and the reason phrase are checked. -/
theorem StartLine.statusParts?_eq_some_iff {v : Version} {reason : Text} :
    statusParts? line = some (v, digits, reason) ↔
      digits.length = 3 ∧ (∀ d ∈ digits, d.isDigit = true) ∧
        (line = v.text ++ ' ' :: digits ∧ reason = [] ∨
          line = v.text ++ ' ' :: (digits ++ ' ' :: reason)) := by
  constructor
  · intro h
    unfold statusParts? at h
    split at h
    next version a b c rest hversion hdrop =>
      split_ifs at h with hdigits
      have hline : line = version.text ++ ' ' :: a :: b :: c :: rest := by
        rw [← text_of_ofText? hversion, ← hdrop, List.take_append_drop]
      obtain ⟨phrase, hrest, heq⟩ := Option.map_eq_some_iff.mp h
      cases heq
      refine ⟨rfl, by simpa [and_assoc] using hdigits, ?_⟩
      -- nothing follows the code, or a space and the reason phrase
      unfold reasonAfterCode at hrest
      split at hrest
      · cases hrest
        exact .inl ⟨hline, rfl⟩
      · cases hrest
        exact .inr hline
      · cases hrest
    · cases h
  · rintro ⟨hlength, hdigits, hline⟩
    obtain ⟨a, b, c, rfl⟩ := List.length_eq_three.mp hlength
    obtain ⟨rest, hrest, hreason⟩ : ∃ rest, line = v.text ++ ' ' :: a :: b :: c :: rest ∧
        reasonAfterCode rest = some reason := by
      rcases hline with ⟨hline, rfl⟩ | hline
      · exact ⟨[], hline, rfl⟩
      · exact ⟨' ' :: reason, hline, rfl⟩
    have htake : line.take 8 = v.text := by
      rw [hrest, ← StatusLine.Sound.length_version v, List.take_left]
    have hdrop : line.drop 8 = ' ' :: a :: b :: c :: rest := by
      rw [hrest, ← StatusLine.Sound.length_version v, List.drop_left]
    simp only [statusParts?, htake, hdrop, ofText?_text, hdigits a (by simp), hdigits b (by simp),
      hdigits c (by simp), Bool.and_self, if_true, hreason, Option.map_some]

theorem Status.isValid_iff {status : Int} :
    Status.isValid status = true ↔ 100 ≤ status ∧ status ≤ 599 := by
  unfold Status.isValid
  simp

/-- **The lines that are read as responses** are those that spell one. -/
theorem StartLine.readResponse_eq_ok_iff :
    readResponse line = .ok l ↔ ∃ digits, l.Spelled digits line := by
  constructor
  · intro h
    unfold readResponse at h
    split at h
    · cases h
    next version digits reason hparts =>
      dsimp only at h
      split_ifs at h with hstatus hreason
      cases h
      obtain ⟨hlength, hdigits, hline⟩ := statusParts?_eq_some_iff.mp hparts
      exact ⟨digits, hline, hlength, hdigits, rfl, Status.isValid_iff.mp (by simpa using hstatus),
        by simpa using hreason⟩
  · rintro ⟨digits, h⟩
    have hparts := statusParts?_eq_some_iff.mpr ⟨h.length, h.isDigit, h.line_eq⟩
    have hstatus : Status.isValid l.status = true := Status.isValid_iff.mpr h.range
    have hreason : l.reason.any CharClass.isForbiddenControl = false := by
      simpa using h.reason
    simp only [readResponse, hparts, h.value, hstatus, hreason, Bool.not_true,
      Bool.false_eq_true, if_false]

theorem StatusLine.Spelled.kindOf_line (h : l.Spelled digits line) : kindOf line = .response := by
  rcases h.line_eq with ⟨hline, -⟩ | hline <;> (rw [hline]; exact kindOf_of_version _ _)

/-- Three digits are told apart by the number that they write. -/
theorem StatusLine.eq_of_ofDigitChars_eq {a b c a' b' c' : Char}
    (h : ∀ d ∈ [a, b, c], d.isDigit = true) (h' : ∀ d ∈ [a', b', c'], d.isDigit = true)
    (heq : Nat.ofDigitChars 10 [a, b, c] 0 = Nat.ofDigitChars 10 [a', b', c'] 0) :
    [a, b, c] = [a', b', c'] := by
  have hbound : ∀ d ∈ [a, b, c] ++ [a', b', c'], 48 ≤ d.toNat ∧ d.toNat ≤ 57 := by
    intro d hd
    have hdigit := (List.mem_append.mp hd).elim (h d) (h' d)
    simpa [Char.isDigit, UInt32.le_iff_toNat_le] using hdigit
  simp only [List.cons_append, List.nil_append, List.forall_mem_cons, List.not_mem_nil,
    false_implies, implies_true, and_true] at hbound
  simp only [Nat.ofDigitChars_eq_foldl, List.foldl_cons, List.foldl_nil] at heq
  have hzero : ('0' : Char).toNat = 48 := rfl
  simp only [List.cons.injEq, and_true, ← Char.toNat_inj]
  omega

/-- The status is spelled as it is written. -/
theorem StatusLine.Spelled.digits_eq (h : l.Spelled digits line) :
    digits = Decimal.ofInt l.status := by
  obtain ⟨a, b, c, rfl⟩ := List.length_eq_three.mp h.length
  obtain ⟨a', b', c', hwritten, ha, hb, hc, hvalue⟩ :=
    StatusLine.Sound.exists_digits (Status.isValid_iff.mpr h.range)
  rw [hwritten]
  refine StatusLine.eq_of_ofDigitChars_eq h.isDigit (by simp [ha, hb, hc]) ?_
  exact Int.ofNat_inj.mp (h.value.trans hvalue.symm)

/-- A status line is written as it was spelled, unless nothing followed the status. -/
theorem StatusLine.Spelled.rewrites (h : l.Spelled digits line) :
    Rewrites (.response l) line l.text := by
  have hdigits := h.digits_eq
  rcases h.line_eq with ⟨hline, hreason⟩ | hline
  · rw [hline, hdigits]
    simpa [StatusLine.text, hreason] using Rewrites.unexplained (l := l) hreason
  · have htext : line = l.text := by
      rw [hline, hdigits]
      simp [StatusLine.text]
    rw [htext]
    exact .same _ _

/-- A reason phrase that was read off Latin-1 characters can be written. -/
theorem StatusLine.Spelled.sound (h : l.Spelled digits line)
    (hlatin : ∀ c ∈ line, Latin.isLatin c = true) : l.Sound where
  status := Status.isValid_iff.mpr h.range
  reason := by
    have hall : ∀ c ∈ l.reason, Latin.isLatin c = true := by
      intro c hc
      rcases h.line_eq with ⟨-, hreason⟩ | hline
      · rw [hreason] at hc
        cases hc
      · exact hlatin c (by simp [hline, hc])
    unfold isReason
    rw [Bool.and_eq_true]
    exact ⟨by simpa using h.reason, List.all_eq_true.mpr hall⟩

end

/-! ## Start lines -/

namespace StartLine

variable {kind : Option Kind} {line : Text} {start : StartLine}

theorem Spelled.kindOf_line (h : start.Spelled line) : kindOf line = start.kind := by
  cases start with
  | request l => exact h.choose_spec.kindOf_line
  | response l => exact h.choose_spec.kindOf_line

/-- **The lines that are read** are those that spell a start line of the kind that is expected, or
of any kind if none is. -/
theorem read_eq_ok_iff :
    StartLine.read kind line = .ok start ↔
      (kind = none ∨ kind = some start.kind) ∧ start.Spelled line := by
  have hexpected : ∀ k, kind.getD k = k ↔ kind = none ∨ kind = some k := by
    intro k
    cases kind <;> simp
  constructor
  · intro h
    have hspelled : kind.getD (kindOf line) = start.kind ∧ start.Spelled line := by
      unfold StartLine.read at h
      split at h
      next hkind =>
        obtain ⟨l, hread, rfl⟩ := map_eq_ok_iff.mp h
        exact ⟨hkind, readRequest_eq_ok_iff.mp hread⟩
      next hkind =>
        obtain ⟨l, hread, rfl⟩ := map_eq_ok_iff.mp h
        exact ⟨hkind, readResponse_eq_ok_iff.mp hread⟩
    obtain ⟨hkind, hspelled⟩ := hspelled
    rw [hspelled.kindOf_line] at hkind
    exact ⟨(hexpected _).mp hkind, hspelled⟩
  · rintro ⟨hkind, hspelled⟩
    have hget : kind.getD (kindOf line) = start.kind := by
      rw [hspelled.kindOf_line]
      exact (hexpected _).mpr hkind
    unfold StartLine.read
    rw [hget]
    cases start with
    | request l => exact map_eq_ok_iff.mpr ⟨l, readRequest_eq_ok_iff.mpr hspelled, rfl⟩
    | response l => exact map_eq_ok_iff.mpr ⟨l, readResponse_eq_ok_iff.mpr hspelled, rfl⟩

/-- **A line spells one start line at most**, whatever the kind. -/
theorem Spelled.unique {start' : StartLine} (h : start.Spelled line) (h' : start'.Spelled line) :
    start = start' := by
  have hread := read_eq_ok_iff.mpr ⟨.inl rfl, h⟩
  have hread' := read_eq_ok_iff.mpr ⟨.inl rfl, h'⟩
  exact Except.ok.inj (hread.symm.trans hread')

/-- **A start line is written as it was spelled**, up to a question mark or a space. -/
theorem Spelled.rewrites (h : start.Spelled line) : start.Rewrites line start.text := by
  cases start with
  | request l => exact h.choose_spec.rewrites
  | response l => exact h.choose_spec.rewrites

theorem Spelled.sound (h : start.Spelled line) (hlatin : ∀ c ∈ line, Latin.isLatin c = true) :
    start.Sound := by
  cases start with
  | request l => exact h.choose_spec.sound
  | response l => exact h.choose_spec.sound hlatin

theorem Rewrites.length_le {built : Text} (h : start.Rewrites line built) :
    built.length ≤ line.length + 1 := by
  cases h <;> simp <;> omega

/-- **A start line that was read can be written**, in at most one character more. -/
theorem sound_of_read (hlatin : ∀ c ∈ line, Latin.isLatin c = true)
    (h : StartLine.read kind line = .ok start) :
    start.Sound ∧ start.text.length ≤ line.length + 1 := by
  have hspelled := (read_eq_ok_iff.mp h).2
  exact ⟨hspelled.sound hlatin, hspelled.rewrites.length_le⟩

end StartLine

end HttpCodec
