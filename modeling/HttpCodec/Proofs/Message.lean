import HttpCodec.Message
import HttpCodec.Proofs.Result

set_option autoImplicit false

/-! # Messages from start lines that were read

Whether a start line can be written does not depend on the body of its message, if the line allows
a body at all (`ofStartLine_blank`).
-/

namespace HttpCodec.Message

/-- The message without its body. -/
def blank (m : Message) : Message := { m with body := [] }

theorem body_of_ofStartLine {line : StartLine} {headers trailers : Fields} {body : Octets}
    {m : Message} (h : ofStartLine line headers body trailers = .ok m) : m.body = body := by
  cases line with
  | request l =>
      obtain ⟨made, _, rfl⟩ := map_eq_ok_iff.mp h
      rfl
  | response l =>
      obtain ⟨made, _, rfl⟩ := map_eq_ok_iff.mp h
      rfl

/-- A status that allows a body is checked the same with and without one. -/
theorem setStatus_blank {l : StatusLine} {status : Int} {reason : Option Text} {body : Octets}
    (h : body = [] ∨ Status.hasBody status = true) :
    l.setStatus status reason [] = l.setStatus status reason body := by
  rcases h with rfl | h
  · rfl
  · simp [StatusLine.setStatus, h]

/-- **The body is no part of what is checked of a message that may have one.** -/
theorem ofStartLine_blank {line : StartLine} {headers trailers : Fields} {body : Octets}
    (h : body = [] ∨ line.allowsBody = true) :
    ofStartLine line headers [] trailers =
      (ofStartLine line headers body trailers).map blank := by
  cases line with
  | request l =>
      show Except.map _ (RequestLine.make _ _ _ _) = (Except.map _ (RequestLine.make _ _ _ _)).map _
      cases RequestLine.make l.version l.method l.path
          (if l.query.isEmpty then none else some l.query) <;> rfl
  | response l =>
      show Except.map _ (StatusLine.setStatus _ _ _ _) =
        (Except.map _ (StatusLine.setStatus _ _ _ _)).map _
      rw [setStatus_blank h]
      cases StatusLine.setStatus ⟨l.version, 200, []⟩ l.status (some l.reason) body <;> rfl

end HttpCodec.Message
