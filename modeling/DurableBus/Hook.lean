import DurableBus.Error
import DurableBus.Log

/-!
# Hooks

What the bus tells whoever watches it. `HookEvent.entry` is what the standard hook writes to the log.
-/

set_option autoImplicit false

namespace DurableBus

/-- What a hook is told. -/
inductive HookEvent
  | subscribed (topic group : String)
  | unsubscribed (topic group : String)
  | claimFailed (topic : String) (error : Store.Error)
  /-- An attempt failed and another follows after a delay. -/
  | retrying (topic : String) (id : Uuid) (attempt : Nat) (delay : Duration) (error : Failure)
  | acked (topic : String) (id : Uuid) (attempts : Nat)
  | nacked (topic : String) (id : Uuid) (error : RetryError Failure)
  /-- The store refused to settle a claim. -/
  | unsettled (topic : String) (id : Uuid) (error : Store.Error)
  /-- The error channel had no room. -/
  | errorDropped (topic : String) (id : Uuid)
  | forwarderStarted (topic : String)
  | forwarderStopped (topic : String)
  | forwarded (destination : String) (id : Uuid)
  /-- A message on the reserved topic is no envelope. -/
  | rejected (id : Uuid) (problem : Json.Problem)
  | shutdownTimedOut (timeout : Duration)
deriving DecidableEq, Repr

namespace HookEvent

/-- What the standard hook writes to the log. -/
def entry : HookEvent → LogEntry
  | subscribed topic group => ⟨.info, "Subscription started", [("topic", topic), ("group", group)]⟩
  | unsubscribed topic group => ⟨.info, "Subscription stopped", [("topic", topic), ("group", group)]⟩
  | claimFailed topic e => ⟨.error, "Error claiming messages", [("topic", topic), ("error", e.message)]⟩
  | retrying topic id attempt delay e =>
    ⟨.warn, "Handler failed, retrying", [("topic", topic), ("message_id", id.text),
      ("attempt", Numeral.text attempt), ("delay", delay.text), ("error", e.text)]⟩
  | acked topic id attempts =>
    ⟨.debug, "Message acked", [("topic", topic), ("message_id", id.text), ("attempts", Numeral.text attempts)]⟩
  | nacked topic id e =>
    ⟨.error, "Message nacked", [("topic", topic), ("message_id", id.text), ("error", e.text)]⟩
  | unsettled topic id e =>
    ⟨.error, "Failed to settle claim", [("topic", topic), ("message_id", id.text), ("error", e.message)]⟩
  | errorDropped topic id =>
    ⟨.warn, "Error channel full, handler error dropped", [("topic", topic), ("message_id", id.text)]⟩
  | forwarderStarted topic => ⟨.info, "Forwarder is starting up", [("topic", topic)]⟩
  | forwarderStopped topic => ⟨.info, "Forwarder is shutting down", [("topic", topic)]⟩
  | forwarded destination id =>
    ⟨.debug, "Envelope forwarded", [("destination_topic", destination), ("message_id", id.text)]⟩
  | rejected id problem =>
    ⟨.error, "Malformed outbox envelope", [("message_id", id.text), ("error", (Failure.undecodable problem).text)]⟩
  | shutdownTimedOut timeout => ⟨.warn, "Timed out waiting for bus tasks to finish", [("timeout", timeout.text)]⟩

end HookEvent

end DurableBus
