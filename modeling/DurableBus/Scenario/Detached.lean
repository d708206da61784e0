import DurableBus.Scenario.World

/-!
# Handling without a bus

Messages are handed to a scripted handler one after the other, each in a delivery that belongs to no claim and whose
token never fires. `handleAll` says how and when each attempt ended.
-/

set_option autoImplicit false

namespace DurableBus.Scenario

/-- What came of a delivery. -/
structure Handled where
  delivery : Delivery
  outcome : Except Failure Unit
  endedAt : Instant
  events : List (Instant × Event)

/-- The name that handlers have which belong to no subscription. -/
def detachedName : String := "h"

/-- Hands a delivery over at an instant. An attempt that would never end counts as ended at once. -/
def Handler.handleOne (h : Handler) (now : Instant) (d : Delivery) : Handler × Handled :=
  match h.attempt d now with
  | (h, .error failure) => (h, ⟨d, .error failure, now, []⟩)
  | (h, .ok (body, handling)) =>
    let called := (now, Event.called detachedName d body h.dated)
    match handling.ending? now with
    | none => (h, ⟨d, .ok (), now, [called]⟩)
    | some (t, outcome, own) =>
      let done := if own && handling.reaction.isLong then [(t, Event.done detachedName d.message.id false)] else []
      (h, ⟨d, outcome, t, called :: done⟩)

/-- Hands messages over, each when the one before has been handled. -/
def Handler.handleAll (h : Handler) (topic : String) (now : Instant) : List Message → List Handled
  | [] => []
  | m :: rest =>
    let (h, handled) := h.handleOne now (.detached topic m (now / 1000))
    handled :: h.handleAll topic handled.endedAt rest

end DurableBus.Scenario
