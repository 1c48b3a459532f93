import HttpCodec.Parser.Step
import Mathlib.Tactic

set_option autoImplicit false

/-! # Reading parts of a body

Two kinds of bodies are read in whatever parts arrive: those of declared length and those that go
on until the input ends. So are chunks that are reported as they arrive. This file names what such a
step leaves behind (`afterCounted`, `afterRest`, `afterData`) and what it reports, apart from the
question of whether the body ends with it.
-/

namespace HttpCodec.Parser

/-- The body with more data, if it is kept. -/
def keptBody (p : Parser) (data : Octets) : Octets :=
  if p.options.streaming then p.draft.body else p.draft.body ++ data

/-- The parser after it has read what has arrived of a body of declared length. -/
def afterCounted (p : Parser) : Parser :=
  { p with
    unread := p.unread.drop p.draft.remaining
    draft :=
      { p.draft with
        remaining := p.draft.remaining - p.unread.length
        body := p.keptBody (p.unread.take p.draft.remaining) } }

/-- What the parser reports of a body of declared length: each part, or all of it at its end. -/
def countedEvents (p : Parser) : List Event :=
  if p.options.streaming then [.body (p.unread.take p.draft.remaining)]
  else if p.draft.remaining ≤ p.unread.length then
    [.body (p.draft.body ++ p.unread.take p.draft.remaining)]
  else []

theorem eq_body_of_mem_countedEvents {p : Parser} {e : Event} (he : e ∈ p.countedEvents) :
    ∃ data, e = .body data := by
  unfold countedEvents at he
  split_ifs at he
  · exact ⟨_, List.mem_singleton.mp he⟩
  · exact ⟨_, List.mem_singleton.mp he⟩
  · cases he

/-- A body of declared length ends where all of it has arrived. -/
theorem readCounted_eq (p : Parser) :
    p.readCounted =
      if p.unread = [] then .wait
      else if p.draft.remaining ≤ p.unread.length then p.afterCounted.finish p.countedEvents
      else .next p.countedEvents p.afterCounted := by
  have hremaining : p.draft.remaining - (p.unread.take p.draft.remaining).length =
      p.draft.remaining - p.unread.length := by
    rw [List.length_take]
    omega
  unfold readCounted afterCounted countedEvents keptBody
  simp only [hremaining, Nat.sub_eq_zero_iff_le, List.isEmpty_iff]
  split_ifs <;> rfl

/-- The parser after it has read what has arrived of a body that goes on until the input ends. -/
def afterRest (p : Parser) : Parser :=
  { p with unread := [], draft := { p.draft with body := p.keptBody p.unread } }

/-- What the parser reports of a body that goes on until the input ends, before its end. -/
def restEvents (p : Parser) : List Event := if p.options.streaming then [.body p.unread] else []

theorem eq_body_of_mem_restEvents {p : Parser} {e : Event} (he : e ∈ p.restEvents) :
    ∃ data, e = .body data := by
  unfold restEvents at he
  split_ifs at he
  · exact ⟨_, List.mem_singleton.mp he⟩
  · cases he

theorem readRest_eq (p : Parser) :
    p.readRest = if p.unread = [] then .wait else .next p.restEvents p.afterRest := by
  unfold readRest afterRest restEvents keptBody
  simp only [List.isEmpty_iff]
  split_ifs <;> rfl

/-- The parser after it has read what has arrived of the data of a chunk. -/
def afterData (p : Parser) : Parser :=
  { p with
    unread := p.unread.drop p.draft.remaining
    draft := { p.draft with remaining := p.draft.remaining - p.unread.length } }

end HttpCodec.Parser
