import DurableBus.Config
import DurableBus.Delivery
import DurableBus.Hook
import DurableBus.Publisher
import DurableBus.Store.Stream

/-!
# Consumers

A consumer claims the messages of a topic for a group, works on them one after the other and settles each claim. A
subscriber hands its messages to a handler; the forwarder takes envelopes and stores what is in them on the topics they
name. This file holds the state of a consumer; how it moves is in `Consumer.Step`.

* `Phase` is where the consumer stands in its life;
* `Job` is the message it works on, `Work` how far it has come with it;
* `Effect` is what a step does besides changing the state.
-/

set_option autoImplicit false

namespace DurableBus

/-- What all consumers of a bus have in common. -/
structure ConsumerSettings where
  pollInterval : Duration
  batchSize : Nat
  claimLease : Duration
  redeliveryDelay : Duration
  retry : RetryPolicy
  propagator : Propagator
deriving DecidableEq, Repr

/-- The settings that a configuration asks for; a batch has room for one message at least. -/
def ConsumerSettings.ofConfig (c : Config) (propagator : Propagator) : ConsumerSettings :=
  ⟨c.pollInterval, max c.batchSize 1, c.claimLease, c.redeliveryDelay, c.retry, propagator⟩

/-! ## The error channel -/

/-- What a subscriber reports when a message has used up its attempts. -/
structure HandlerError where
  topic : String
  id : Uuid
  error : RetryError Failure
deriving DecidableEq, Repr

def HandlerError.message (e : HandlerError) : String :=
  "Handler for message " ++ e.id.text ++ " on " ++ e.topic ++ " failed: " ++ e.error.text

/-- A bounded queue of reports for whoever subscribed. -/
structure ErrorChannel where
  capacity : Nat
  queue : List HandlerError
  /-- Whether anybody may still receive. -/
  receiving : Bool
deriving DecidableEq, Repr

namespace ErrorChannel

/-- A channel with room for that many reports; for one at least. -/
def new (capacity : Nat) : ErrorChannel := ⟨max capacity 1, [], true⟩

def accepts (c : ErrorChannel) : Bool := c.receiving && c.queue.length < c.capacity

/-- The channel with one more report, if it accepts it. -/
def send (c : ErrorChannel) (e : HandlerError) : ErrorChannel :=
  if c.accepts then { c with queue := c.queue ++ [e] } else c

def drain (c : ErrorChannel) : ErrorChannel × List HandlerError :=
  ({ c with queue := [] }, c.queue)

def abandon (c : ErrorChannel) : ErrorChannel := { c with queue := [], receiving := false }

theorem length_send_le {c : ErrorChannel} (h : c.queue.length ≤ c.capacity) (e : HandlerError) :
    (c.send e).queue.length ≤ (c.send e).capacity := by
  unfold send
  split
  · rename_i accepted
    simp only [accepts, Bool.and_eq_true, decide_eq_true_eq] at accepted
    simp only [List.length_append, List.length_singleton]
    omega
  · exact h

end ErrorChannel

/-! ## State -/

/-- What a consumer does with the messages it claims. -/
inductive Role
  /-- It hands them to a handler. The group of an ephemeral subscriber is forgotten when it ends. -/
  | subscriber (ephemeral : Bool)
  /-- It takes them out of their envelopes and passes them on. -/
  | forwarder
deriving DecidableEq, Repr

/-- What a consumer is started with. -/
structure Consumer.Setup where
  role : Role
  topic : String
  group : String
  /-- Only messages behind this offset are claimed. -/
  after : Int
  settings : ConsumerSettings
deriving DecidableEq, Repr

/-- How far the work on a message has come. -/
inductive Work
  /-- It is being attempted. -/
  | trying (attempts : Retry Failure)
  /-- It succeeded, and the claim is being acknowledged. -/
  | acking (attempts : Nat)
  /-- It failed, and the claim is being given back. -/
  | nacking (error : RetryError Failure)
deriving Repr

/-- The message a consumer works on. -/
inductive Job
  /-- A message for the handler, with the trace context it carries. -/
  | dispatch (claimed : Claimed) (context : TraceContext) (work : Work)
  /-- A message to be passed on. -/
  | forward (claimed : Claimed) (envelope : Envelope) (work : Work)
  /-- A message that is no envelope; the claim is being given back. -/
  | refuse (claimed : Claimed)
deriving Repr

/-- Where a consumer stands. -/
inductive Phase
  | starting
  /-- About to see whether the token has fired, and to pull if not. -/
  | selecting (stream : ClaimStream)
  /-- Pulling the next message. -/
  | pulling (stream : ClaimStream)
  | working (stream : ClaimStream) (job : Job)
  /-- Giving back what is at hand. -/
  | draining (stream : ClaimStream)
  /-- Dropping the state of its group. -/
  | forgetting
  | ended
  /-- Ended by a fault. -/
  | crashed
deriving Repr

/-- A consumer. -/
structure Consumer where
  setup : Consumer.Setup
  phase : Phase
  errors : ErrorChannel
deriving Repr

/-- What a consumer sees when it looks. -/
structure Observation where
  now : Instant
  /-- Whether its token has fired. -/
  cancelled : Bool
  /-- The publisher of its bus. -/
  publisher : Publisher

/-- What a step does besides changing the state. -/
inductive Effect
  /-- The hook is told something. -/
  | hook (event : HookEvent)
  /-- Something is worth a line in the log. -/
  | note (notice : Store.Notice)
  /-- The handler is invoked. -/
  | invoke (delivery : Delivery)
  /-- Whoever started the consumer is told that it polls. -/
  | ready
deriving Repr

namespace Job

/-- The claim that a job settles. -/
def claimed : Job → Claimed
  | dispatch c _ _ => c
  | forward c _ _ => c
  | refuse c => c

def id : Job → Uuid
  | dispatch c _ _ => c.message.id
  | forward _ e _ => e.message.id
  | refuse c => c.message.id

/-- The job with its work at another point. -/
def withWork (work : Work) : Job → Job
  | dispatch c context _ => dispatch c context work
  | forward c e _ => forward c e work
  | refuse c => refuse c

end Job

namespace Consumer

/-- A consumer that has not yet started. -/
def new (setup : Setup) (errorCapacity : Nat) : Consumer :=
  ⟨setup, .starting, .new errorCapacity⟩

def stream (setup : Setup) : ClaimStream.Setup :=
  ⟨⟨setup.topic, setup.group, setup.after, setup.settings.batchSize, setup.settings.claimLease⟩,
    setup.settings.pollInterval⟩

def isOver (c : Consumer) : Bool :=
  match c.phase with
  | .ended | .crashed => true
  | _ => false

end Consumer

end DurableBus
