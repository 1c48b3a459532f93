import HttpCodec.Proofs.Parser.Coherent

set_option autoImplicit false

/-! # The wording of errors stays on one line

What is wrong with an input is reported with pieces of the input. They are quoted, which leaves no
line break in them, or have been checked before: a method or a name that is a token. So no error
that a parser reports has a line break in its wording (`Parser.Placed.oneLine_of_refusal`).
-/

namespace HttpCodec

/-- A text without line breaks. -/
def OneLine (t : Text) : Prop := ∀ c ∈ t, c ≠ '\n' ∧ c ≠ '\r'

instance : DecidablePred OneLine := fun t =>
  decidable_of_iff (t.all fun c => c ≠ '\n' && c ≠ '\r') (by simp [OneLine])

variable {t u : Text}

/-! ## Texts -/

theorem OneLine.append (ht : OneLine t) (hu : OneLine u) : OneLine (t ++ u) :=
  List.forall_mem_append.mpr ⟨ht, hu⟩

/-- Characters from the space on are no line breaks. -/
theorem oneLine_of_le (h : ∀ c ∈ t, 0x20 ≤ c.toNat) : OneLine t := by
  intro c hc
  constructor <;> rintro rfl <;> exact absurd (h _ hc) (by decide)

theorem oneLine_of_plain (h : Latin.Plain t) : OneLine t := by
  intro c hc
  constructor <;> rintro rfl <;> exact absurd (h _ hc).2 (by decide)

theorem oneLine_quoted (t : Text) : OneLine (Quoted.text t) :=
  oneLine_of_le fun _ => Quoted.le_toNat_of_mem_text

theorem oneLine_octets (b : Octets) : OneLine (Quoted.octets b) :=
  oneLine_of_le fun _ => Quoted.le_toNat_of_mem_octets

theorem oneLine_ofNat (n : Nat) : OneLine (Decimal.ofNat n) :=
  oneLine_of_plain (Latin.plain_of_isDigit fun _ => Decimal.isDigit_of_mem_ofNat)

theorem oneLine_ofInt (n : Int) : OneLine (Decimal.ofInt n) := by
  unfold Decimal.ofInt
  split_ifs
  · exact .append (t := ['-']) (by decide) (oneLine_ofNat _)
  · exact oneLine_ofNat _

/-- Items on one line are listed on one line. -/
theorem oneLine_list {items : List Text} (h : ∀ item ∈ items, OneLine item) :
    OneLine (Quoted.list items) := by
  have hitems : OneLine ((", " : Text).intercalate items) := by
    intro c hc
    rcases mem_intercalate hc with hc | ⟨item, hitem, hc⟩
    · exact (by decide : OneLine (", " : Text)) c hc
    · exact h item hitem c hc
  exact .append (.append (by decide) hitems) (by decide)

/-! ## Errors -/

theorem Decimal.Error.oneLine (cause : Decimal.Error) : OneLine cause.message := by
  cases cause with
  | malformed t =>
      refine .append (by decide) fun c hc => ?_
      exact oneLine_quoted t c (List.mem_of_mem_take hc)
  | tooLong digits =>
      exact .append (.append (.append (.append (by decide) (oneLine_ofNat _)) (by decide))
        (oneLine_ofNat digits)) (by decide)
  | unwritten => exact .append (.append (by decide) (oneLine_ofNat _)) (by decide)

theorem Line.Error.oneLine (cause : Line.Error) : OneLine cause.message := by
  cases cause with
  | tooLong limit => exact .append (.append (by decide) (oneLine_ofInt limit)) (by decide)
  | bareLineFeed | bareCarriageReturn => decide

theorem StartLine.Error.oneLine (cause : StartLine.Error) : OneLine cause.message := by
  cases cause with
  | invalidStatus status => exact .append (by decide) (oneLine_ofInt status)
  | _ => exact .append (by decide) (oneLine_quoted _)

theorem FieldLine.Error.oneLine (cause : FieldLine.Error) : OneLine cause.message := by
  cases cause with
  | folded => decide
  | malformed line => exact .append (by decide) (oneLine_octets _)
  | notAscii cause =>
      have hhex : OneLine (Hex.padded 2 (Hex.lower cause.octet.toNat)) :=
        oneLine_of_le fun _ hc => Nat.le_trans (by decide) (Hex.le_toNat_of_mem_padded hc)
      exact .append (.append (.append (.append (by decide) hhex) (by decide)) (oneLine_ofNat _))
        (by decide)

theorem Chunk.Error.oneLine (cause : Chunk.Error) : OneLine cause.message := by
  cases cause with
  | invalidSize line => exact .append (by decide) (oneLine_octets _)
  | sizeLineTooLong limit => exact .append (.append (by decide) (oneLine_ofInt limit)) (by decide)
  | malformedSizeLine cause => exact .append (by decide) cause.oneLine
  | unterminated => decide

/-- An error shows a name as it is only if the name is a token. -/
theorem Field.oneLine_of_check {limit : Int} {name : Text} {value : FieldValue} {cause : FieldError}
    (h : Field.check limit name value = .error cause) : OneLine cause.message := by
  unfold check at h
  split at h
  next htoken =>
    cases h
    exact .append (by decide) (oneLine_quoted name)
  next htoken =>
    have hname := oneLine_of_plain (plain_of_token (by simpa using htoken))
    split at h
    next cause _ =>
      cases h
      exact cause.oneLine
    next v _ =>
      split_ifs at h with hcontrol hlatin hlong
      · cases h
        exact .append (.append (.append (by decide) hname) (by decide)) (oneLine_quoted v)
      · cases h
        exact .append (.append (.append (by decide) hname) (by decide)) (oneLine_quoted v)
      · cases h
        exact .append (.append (.append (.append (by decide) hname) (by decide))
          (oneLine_ofInt limit)) (by decide)

/-- A length is required only of a request whose method has a body. -/
theorem Framing.takesBody_of_decide {line : StartLine} {headers : Fields} {method : Text}
    (h : decide line headers = .refused (.lengthRequired method)) : TakesBody method := by
  have hcoding : ∀ kind coding, ofCoding kind coding ≠ .refused (.lengthRequired method) := by
    intro kind coding
    unfold ofCoding
    split_ifs
    · nofun
    · cases kind <;> nofun
  have hlengths : ∀ values, ofLengths values ≠ .refused (.lengthRequired method) := by
    intro values
    unfold ofLengths
    split
    · nofun
    · split_ifs
      · nofun
      · nofun
      · split
        · nofun
        · split_ifs <;> nofun
  unfold decide at h
  dsimp only at h
  split at h
  · cases h
  split at h
  · cases h
  split at h
  · exact absurd h (hcoding _ _)
  split at h
  · cases line with
    | response l => cases h
    | request l =>
        rw [ofNothing_of_request] at h
        split_ifs at h with hmethod
        cases h
        exact hmethod
  · exact absurd h (hlengths _)

/-- An error shows a method as it is only if it is one of those whose requests have a body. -/
theorem Framing.oneLine_of_refused {line : StartLine} {headers : Fields} {cause : Framing.Error}
    (h : decide line headers = .refused cause) : OneLine cause.message := by
  cases cause with
  | bothDeclared => decide
  | notChunked coding => exact .append (by decide) (oneLine_quoted coding)
  | conflictingLengths values =>
      refine .append (by decide) (oneLine_list fun item hitem => ?_)
      obtain ⟨value, -, rfl⟩ := List.mem_map.mp hitem
      exact oneLine_quoted value
  | invalidLength length => exact .append (by decide) (oneLine_quoted _)
  | lengthRequired method =>
      rcases takesBody_of_decide h with rfl | rfl | rfl <;> decide

namespace Parser

variable {p q : Parser} {es : List Event} {cause : ParseError}

theorem oneLine_of_fieldOf {limits : Limits} {fields : Fields} {line : Octets}
    (h : fieldOf limits fields line = .error cause) : OneLine cause.message := by
  unfold fieldOf at h
  split_ifs at h with hmany
  · cases h
    exact .append (.append (by decide) (oneLine_ofInt _)) (by decide)
  · split at h
    next cause _ =>
      cases h
      exact cause.oneLine
    next name value _ =>
      generalize hcheck : Field.check fields.limit name (.text value) = checked at h
      cases checked with
      | ok f => cases h
      | error cause =>
          cases h
          exact Field.oneLine_of_check hcheck

/-- **No error that a parser finds has a line break in its wording.** -/
theorem Placed.oneLine_of_refusal (h : Placed p) (hrefusal : Refusal p es q cause) :
    OneLine cause.message := by
  have hspares := h.spares_of_refusal hrefusal
  cases hrefusal with
  | startLineTooLong _ _ | fieldTooLong _ _ => exact Line.Error.oneLine (.tooLong _)
  | startLineUnended | fieldUnended => exact Line.Error.oneLine _
  | startLine => exact StartLine.Error.oneLine _
  | field _ _ _ hfield => exact oneLine_of_fieldOf hfield
  | noStartLine => exact absurd rfl hspares.ne_noStartLine
  | framing _ _ _ hdecide => exact Framing.oneLine_of_refused hdecide
  | unwritable _ _ hmessage | countedUnwritable _ _ _ hmessage =>
      rcases cause_of_message hmessage with ⟨rfl, -⟩ | ⟨e, rfl⟩
      · exact absurd rfl hspares.ne_noStartLine
      · exact absurd rfl (hspares.ne_unwritable e)
  | chunk => exact Chunk.Error.oneLine _

end Parser

end HttpCodec
