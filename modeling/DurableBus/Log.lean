import DurableBus.Store.Basic

/-!
# The log

What is written to the log besides answers: an entry has a level, a line of text and named fields. `Store.Notice.entry`
says how a notice about a claim is written.
-/

set_option autoImplicit false

namespace DurableBus

/-- How much an entry matters. -/
inductive Level
  | debug
  | info
  | warn
  | error
deriving DecidableEq, Repr

/-- A line of the log. -/
structure LogEntry where
  level : Level
  text : String
  fields : List (String × String)
deriving DecidableEq, Repr

namespace Receipt

/-- The fields that say which claim an entry is about. -/
def fields (r : Receipt) : List (String × String) :=
  [("offset", Numeral.intText r.offset), ("group", r.group)]

end Receipt

namespace Store.Notice

def entry : Store.Notice → LogEntry
  | lostBeforeAck r => ⟨.warn, "Claim lost before ack", r.fields⟩
  | lostBeforeNack r => ⟨.warn, "Claim lost before nack", r.fields⟩
  | lostWhileQueued r => ⟨.debug, "Claim lost while queued, skipping", r.fields⟩
  | notReleased r e =>
    ⟨.warn, "Failed to release unhandled claim", [("offset", Numeral.intText r.offset), ("error", e.message)]⟩
  | notForgotten topic group e =>
    ⟨.warn, "Failed to drop broadcast group state", [("topic", topic), ("group", group), ("error", e.message)]⟩

end Store.Notice

end DurableBus
