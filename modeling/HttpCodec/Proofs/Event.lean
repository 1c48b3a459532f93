import HttpCodec.Parser.Event
import HttpCodec.Proofs.Message

set_option autoImplicit false

/-! # What events say, however bodies are reported

Two parsers may report one input differently: bodies as they arrive, or bodies that are kept until
they are complete. What has to be the same is the outline of the events, that is, all of them
without body data (`Event.outlines`), and the data that is reported for each message until it is
complete (`Event.deliveries`). `Event.Agree` says both of two lists of events, each with the body
data that was reported before it, and is put together from the events of single steps
(`Agree.append`).
-/

namespace HttpCodec

namespace Event

/-- The event without body data, if anything is left of it then. -/
def outline : Event → Option Event
  | .body _ => none
  | .complete m => some (.complete m.blank)
  | e => some e

/-- The events without body data. -/
def outlines (es : List Event) : List Event := es.filterMap outline

/-- The body data that is reported of a message that is not complete, after the given data. -/
def pending (data : Octets) : List Event → Octets
  | [] => data
  | .start _ :: es => pending [] es
  | .body more :: es => pending (data ++ more) es
  | .complete _ :: es => pending [] es
  | _ :: es => pending data es

/-- The complete messages, each with the body data that is reported between its start and its
completion, after the given data. -/
def deliveries (data : Octets) : List Event → List (Octets × Message)
  | [] => []
  | .start _ :: es => deliveries [] es
  | .body more :: es => deliveries (data ++ more) es
  | .complete m :: es => (data, m) :: deliveries [] es
  | _ :: es => deliveries data es

theorem outlines_append (es fs : List Event) :
    outlines (es ++ fs) = outlines es ++ outlines fs :=
  List.filterMap_append

theorem pending_append (data : Octets) (es fs : List Event) :
    pending data (es ++ fs) = pending (pending data es) fs := by
  induction es generalizing data with
  | nil => rfl
  | cons e es ih => cases e <;> exact ih _

theorem deliveries_append (data : Octets) (es fs : List Event) :
    deliveries data (es ++ fs) = deliveries data es ++ deliveries (pending data es) fs := by
  induction es generalizing data with
  | nil => rfl
  | cons e es ih =>
      cases e with
      | complete m => exact congrArg ((data, m) :: ·) (ih [])
      | _ => exact ih _

/-- A message that is complete, as a parser reports it that reports bodies as they arrive, and as
one does that keeps them: the data reported is the body in both cases, and the messages differ only
in that the first has no body. -/
def Delivered (s b : Octets × Message) : Prop :=
  s.1 = b.2.body ∧ b.1 = b.2.body ∧ s.2 = b.2.blank

/-- Events that say the same, after the data `σ` has been reported as it arrived and `β` of the
same body otherwise. -/
structure Agree (σ β : Octets) (es fs : List Event) : Prop where
  outlines : outlines es = outlines fs
  deliveries : List.Forall₂ Delivered (deliveries σ es) (deliveries β fs)

theorem Agree.nil (σ β : Octets) : Agree σ β [] [] := ⟨rfl, .nil⟩

/-- Events that say the same are put together from parts that do. -/
theorem Agree.append {σ β : Octets} {es es' fs fs' : List Event} (h : Agree σ β es fs)
    (h' : Agree (pending σ es) (pending β fs) es' fs') : Agree σ β (es ++ es') (fs ++ fs') := by
  constructor
  · rw [outlines_append, outlines_append, h.outlines, h'.outlines]
  · rw [deliveries_append, deliveries_append]
    exact List.rel_append h.deliveries h'.deliveries

/-- An error says nothing about bodies. -/
theorem Agree.error (σ β : Octets) (cause : ParseError) :
    Agree σ β [.error cause] [.error cause] := ⟨rfl, .nil⟩

/-- Body data is not in the outline. -/
theorem Agree.body_left (σ β data : Octets) : Agree σ β [.body data] [] := ⟨rfl, .nil⟩

/-- The completion of a message whose body has been reported. -/
theorem Agree.complete (m : Message) :
    Agree m.body m.body [.complete m.blank] [.complete m] :=
  ⟨rfl, .cons ⟨rfl, rfl, rfl⟩ .nil⟩

end Event

end HttpCodec
