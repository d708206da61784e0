import DurableBus.Consumer.Basic

/-!
# Buses

A bus has a configuration, a publisher and consumers, and is shut down once. What a subscription or a start of the
forwarder is refused for is decided here (`Bus.permit`, `Bus.permitForwarder`); what happens to the tasks of a bus is in
`System`.

Shutting down waits until all tasks have ended, or for the shutdown timeout, closes the publisher and then the store.
-/

set_option autoImplicit false

namespace DurableBus

/-- Who shares the messages of a topic. -/
inductive Group
  /-- Each message goes to one subscriber of the group. -/
  | named (name : String)
  /-- Each subscriber sees every message that is published after it subscribed. -/
  | broadcast
deriving DecidableEq, Repr

/-- The group for a configured name, broadcast if there is none. -/
def Group.ofName : Option String → Group
  | some name => named name
  | none => broadcast

/-- How far a shutdown has come. -/
inductive Shutdown
  /-- Waiting for the tasks to end. -/
  | waiting (deadline : Instant)
  /-- The publisher is closed, the store is being closed. -/
  | closing
  | over (error : Option (BusError Store.Error))
deriving DecidableEq, Repr

/-- The text for the errors of a shutdown. -/
def Shutdown.errorMessage (errors : List (BusError Store.Error)) : String :=
  "Shutdown failed with " ++ Numeral.text errors.length ++ " error(s)\n"
    ++ String.join (errors.map fun e => "  " ++ e.message Store.Error.message)

/-- The state of a bus. -/
structure Bus where
  config : Config
  publisher : Publisher
  settings : ConsumerSettings
  forwarderStarted : Bool
  shutdown : Option Shutdown
  /-- Whether there has been a moment without tasks since the shutdown began. -/
  drained : Bool
deriving Repr

namespace Bus

/-- A bus on a store that has been set up. -/
def new (config : Config) (propagator : Propagator) : Bus where
  config := config
  publisher := .new config.forwarderTopic config.forwarderEnabled propagator
  settings := .ofConfig config propagator
  forwarderStarted := false
  shutdown := none
  drained := false

def isShutDown (b : Bus) : Bool := b.shutdown.isSome

def permit (b : Bus) (topic : String) : Except (BusError Store.Error) Unit :=
  if b.isShutDown then .error .closed
  else if topic = b.config.forwarderTopic then .error (.reservedTopic topic)
  else .ok ()

def permitForwarder (b : Bus) : Except (BusError Store.Error) Unit :=
  if !b.config.forwarderEnabled then .error .notConfiguredForForwarding
  else if b.isShutDown then .error .closed
  else if b.forwarderStarted then .error .forwarderAlreadyStarted
  else .ok ()

def subscriber (b : Bus) (topic group : String) (after : Int) (ephemeral : Bool) : Consumer.Setup :=
  ⟨.subscriber ephemeral, topic, group, after, b.settings⟩

def forwarder (b : Bus) : Consumer.Setup :=
  ⟨.forwarder, b.config.forwarderTopic, b.config.forwarderGroup, 0, b.settings⟩

/-- The bus begins to shut down; a bus that has done so already does not again. -/
def beginShutdown (b : Bus) (now : Instant) : Bus :=
  if b.isShutDown then b else { b with shutdown := some (.waiting (now.alarm b.config.shutdownTimeout)) }

/-- The wait of a shutdown goes on, or is over: the tasks have ended, or took too long. -/
def lookShutdown (b : Bus) (now : Instant) : Bus × List HookEvent :=
  match b.shutdown with
  | some (.waiting deadline) =>
    if b.drained then ({ b with shutdown := some .closing, publisher := b.publisher.close }, [])
    else if deadline ≤ now then
      ({ b with shutdown := some .closing, publisher := b.publisher.close },
        [.shutdownTimedOut b.config.shutdownTimeout])
    else (b, [])
  | _ => (b, [])

/-- The store answers that it is closed, or refuses. -/
def answerShutdown (b : Bus) (reply : Store.Reply) : Bus :=
  match b.shutdown, reply with
  | some .closing, .ok _ => { b with shutdown := some (.over none) }
  | some .closing, .error e => { b with shutdown := some (.over (some (.store "close" none e))) }
  | _, _ => b

def isClosing (b : Bus) : Bool := b.shutdown == some .closing

/-- Whether the wait of a shutdown can end at this moment. -/
def isShutdownEnabled (b : Bus) (now : Instant) : Bool :=
  match b.shutdown with
  | some (.waiting deadline) => b.drained || deadline ≤ now
  | _ => false

/-- When the wait of a shutdown ends by itself. -/
def shutdownAlarm? (b : Bus) : Option Instant :=
  match b.shutdown with
  | some (.waiting deadline) => some deadline
  | _ => none

end Bus

end DurableBus
