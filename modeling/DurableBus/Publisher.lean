import DurableBus.Envelope
import DurableBus.Error
import DurableBus.Trace.Propagation

/-!
# Publishing

Before messages are stored they are stamped with the trace context of the caller. A direct publisher stores them on
their topic; an outbox publisher puts each into an envelope and stores the envelopes on the reserved topic.
`Publisher.prepare` says what is stored where, `Publisher.forward` what the forwarder stores.
-/

set_option autoImplicit false

namespace DurableBus

/-- The state of a publisher. -/
structure Publisher where
  /-- The topic that envelopes are stored on. -/
  reserved : String
  /-- Whether messages go through the outbox. -/
  outbox : Bool
  propagator : Propagator
  closed : Bool
deriving DecidableEq, Repr

namespace Publisher

variable {ε : Type}

def new (reserved : String) (outbox : Bool) (propagator : Propagator) : Publisher :=
  ⟨reserved, outbox, propagator, false⟩

def close (p : Publisher) : Publisher := { p with closed := true }

/-- The message with a trace context in its metadata. -/
def stamp (p : Publisher) (cx : TraceContext) (m : Message) : Message :=
  { m with metadata := p.propagator.inject cx m.metadata }

/-- Envelopes for messages meant for a topic, with the identifiers from the `drawn`-th on. -/
def envelopes (topic : String) : Nat → List Message → List Message
  | _, [] => []
  | drawn, m :: rest => (Envelope.mk topic m).wrap (.drawn drawn) :: envelopes topic (drawn + 1) rest

/-- The topic to store on and the messages to store there; nothing for no messages. A closed publisher is reported
before a reserved topic. Envelopes take as many new identifiers, from the `drawn`-th on, as there are messages. -/
def prepare (p : Publisher) (drawn : Nat) (cx : TraceContext) (topic : String) (messages : List Message) :
    Except (BusError ε) (Option (String × List Message)) :=
  if p.closed then .error .closed
  else if topic = p.reserved then .error (.reservedTopic topic)
  else if messages.isEmpty then .ok none
  else
    let stamped := messages.map (p.stamp cx)
    .ok (some (if p.outbox then (p.reserved, envelopes topic drawn stamped) else (topic, stamped)))

/-- What the forwarder stores: the message as it is, on the topic that the envelope names. -/
def forward (p : Publisher) (e : Envelope) : Except (BusError ε) (String × List Message) :=
  if p.closed then .error .closed else .ok (e.destination, [e.message])

theorem length_envelopes (topic : String) (drawn : Nat) (ms : List Message) :
    (envelopes topic drawn ms).length = ms.length := by
  induction ms generalizing drawn with
  | nil => rfl
  | cons m rest ih => simp [envelopes, ih]

end Publisher

end DurableBus
