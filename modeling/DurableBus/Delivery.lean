import DurableBus.Store.Basic
import DurableBus.Trace.Context

/-!
# Deliveries

What a handler is given: a message with its topic, the number of the attempt, how many times the group has claimed the
message, and the trace context that its metadata carries. Whether the bus is shutting down is asked separately, because
it changes while the handler runs.
-/

set_option autoImplicit false

namespace DurableBus

/-- A message handed to a handler. -/
structure Delivery where
  topic : String
  message : Message
  /-- The attempt within the current claim, counted from one. -/
  attempt : Nat
  /-- How many times the group has claimed the message. -/
  count : Nat
  publishedAt : Timestamp
  context : TraceContext
deriving DecidableEq, Repr

namespace Delivery

/-- A delivery that no claim stands behind. -/
def detached (topic : String) (message : Message) (now : Timestamp) : Delivery :=
  ⟨topic, message, 1, 1, now, none⟩

/-- The first attempt at a claimed message. -/
def ofClaimed (topic : String) (c : Claimed) (context : TraceContext) : Delivery :=
  ⟨topic, c.message, 1, c.deliveryCount, c.publishedAt, context⟩

end Delivery

end DurableBus
