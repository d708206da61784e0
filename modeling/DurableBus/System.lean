import DurableBus.Bus
import DurableBus.Consumer.Step
import DurableBus.Store.InMemory

/-!
# The system

A `System` is one in-memory store with the buses, consumers and callers that share it, at an instant. Each function
below is one step that one party takes; which party moves when is not decided here, so that every interleaving is a
sequence of these steps. A request to the store takes effect at the step that answers it, or is rejected there without
effect.

* `look`, `answer`, `finish` — a consumer looks, has its request answered, has its handler's attempt ended;
* `lookLink` — the link between a caller's token and the forwarder's passes the signal on;
* `beginShutdown`, `lookShutdown`, `answerShutdown` — a bus is shut down;
* `subscribe`, `startForwarder`, `addBus`, `ask`, `commit`, `fire`, `wait` — what callers and the clock do.
-/

set_option autoImplicit false

namespace DurableBus

/-- A consumer as a task of a bus. -/
structure Member where
  bus : Nat
  consumer : Consumer
  /-- Whether its own token has fired. -/
  stopped : Bool
  /-- Whether it has told that it polls. -/
  announced : Bool
deriving Repr

/-- The task that stops the forwarder when a caller's token fires. -/
structure Link where
  member : Nat
  caller : String
  ended : Bool
deriving DecidableEq, Repr

/-- Whether a request reaches the store. -/
inductive Fate
  | performed
  | rejected
deriving DecidableEq, Repr

/-- One store and everybody who uses it. -/
structure System where
  now : Instant
  store : InMemory
  /-- How many random identifiers have been drawn. -/
  drawn : Nat
  /-- The callers' tokens that have fired. -/
  fired : List String
  buses : List Bus
  members : List Member
  links : List Link

namespace System

def start : System := ⟨0, .empty, 0, [], [], [], []⟩

instance : Inhabited System := ⟨start⟩

/-! ## Tokens and tasks -/

def isShutDown (s : System) (bus : Nat) : Bool := s.buses[bus]?.any Bus.isShutDown

/-- Whether the token of a member has fired: its own, or that of its bus. -/
def isCancelled (s : System) (m : Member) : Bool := m.stopped || s.isShutDown m.bus

def isCancelledAt (s : System) (i : Nat) : Bool := s.members[i]?.any s.isCancelled

def hasTask (s : System) (bus : Nat) : Bool :=
  s.members.any (fun m => m.bus == bus && !m.consumer.isOver)
    || s.links.any fun l => !l.ended && s.members[l.member]?.any (·.bus == bus)

/-- Notes for each bus that is shutting down whether it is without tasks now. -/
def noteDrained (s : System) : System :=
  { s with buses := s.buses.mapIdx fun i b => { b with drained := b.drained || (b.isShutDown && !s.hasTask i) } }

/-- What a member sees when it looks. -/
def observe (s : System) (m : Member) : Observation where
  now := s.now
  cancelled := s.isCancelled m
  publisher := (s.buses[m.bus]?.map (·.publisher)).getD (.new "" false .silent)

def isReady : Effect → Bool
  | .ready => true
  | _ => false

/-- The system after a member has moved. -/
def moved (s : System) (i : Nat) (m : Member) (step : Consumer × List Effect) : System × List Effect :=
  let m := { m with consumer := step.1, announced := m.announced || step.2.any isReady }
  (({ s with members := s.members.set i m }).noteDrained, step.2)

/-! ## The store -/

/-- The store answers a request. Each claim draws a token. -/
def ask (s : System) (fate : Fate) (request : Store.Request) : System × Store.Reply × List Store.Notice :=
  match fate with
  | .rejected => (s, .error (.rejected request.operation), [])
  | .performed =>
    let (store, reply, notices) := s.store.perform s.now (.drawn s.drawn) request
    let drawn := if request.operation = .claim then s.drawn + 1 else s.drawn
    ({ s with store, drawn }, reply, notices)

def commit (s : System) (staged : List (String × List Message)) : System × Except Store.Error Unit :=
  match s.store.commit s.now staged with
  | .ok store => ({ s with store }, .ok ())
  | .error e => (s, .error e)

/-! ## Consumers -/

def look (s : System) (i : Nat) : System × List Effect :=
  match s.members[i]? with
  | some m => s.moved i m (m.consumer.look (s.observe m))
  | none => (s, [])

/-- The request of the `i`-th member is answered. -/
def answer (s : System) (i : Nat) (fate : Fate) : System × List Effect :=
  match s.members[i]? with
  | some m =>
    match m.consumer.request? with
    | some request =>
      let (s, reply, notices) := s.ask fate request
      let (s, effects) := s.moved i m (m.consumer.answer (s.observe m) reply)
      (s, notices.map .note ++ effects)
    | none => (s, [])
  | none => (s, [])

def finish (s : System) (i : Nat) (outcome : Except Failure Unit) : System × List Effect :=
  match s.members[i]? with
  | some m => s.moved i m (m.consumer.finish outcome)
  | none => (s, [])

def modify (s : System) (i : Nat) (f : Member → Member) : System :=
  { s with members := s.members.modify i f }

def receive (s : System) (i : Nat) : System × List HandlerError :=
  match s.members[i]? with
  | some m =>
    let (errors, reports) := m.consumer.errors.drain
    (s.modify i fun m => { m with consumer := { m.consumer with errors } }, reports)
  | none => (s, [])

/-- The reports of the `i`-th member will not be received any more. -/
def abandon (s : System) (i : Nat) : System :=
  s.modify i fun m => { m with consumer := { m.consumer with errors := m.consumer.errors.abandon } }

/-! ## Links -/

def isLinkEnabled (s : System) (j : Nat) : Bool :=
  s.links[j]?.any fun l => !l.ended && (s.fired.contains l.caller || s.isCancelledAt l.member)

/-- The `j`-th link stops its member if the caller's token has fired, and ends when the member's has. -/
def lookLink (s : System) (j : Nat) : System :=
  match s.links[j]? with
  | some l =>
    if l.ended then s
    else if s.fired.contains l.caller then
      ({ s with links := s.links.set j { l with ended := true } }.modify l.member
        fun m => { m with stopped := true }).noteDrained
    else if s.isCancelledAt l.member then
      { s with links := s.links.set j { l with ended := true } }.noteDrained
    else s
  | none => s

/-! ## Callers -/

def fire (s : System) (token : String) : System :=
  if s.fired.contains token then s else { s with fired := token :: s.fired }

def wait (s : System) (t : Instant) : System := { s with now := max s.now t }

def addBus (s : System) (config : Config) (propagator : Propagator) : System :=
  { s with buses := s.buses ++ [Bus.new config propagator] }

def modifyBus (s : System) (bus : Nat) (f : Bus → Bus) : System :=
  { s with buses := s.buses.modify bus f }

def spawn (s : System) (bus : Nat) (setup : Consumer.Setup) (errorCapacity : Nat) : System :=
  { s with members := s.members ++ [Member.mk bus (.new setup errorCapacity) false false] }

/-- A subscription is started, a broadcast one behind the head of the topic and in a group of its own. -/
def subscribe (s : System) (bus : Nat) (topic : String) (group : Group) (head : Int) : System :=
  match s.buses[bus]? with
  | none => s
  | some b =>
    match group with
    | .named name => s.spawn bus (b.subscriber topic name 0 false) b.config.errorChannelCapacity
    | .broadcast =>
      let name := "broadcast-" ++ (Uuid.drawn s.drawn).text
      { s with drawn := s.drawn + 1 }.spawn bus (b.subscriber topic name head true) b.config.errorChannelCapacity

/-- The forwarder is started, linked to a caller's token. -/
def startForwarder (s : System) (bus : Nat) (caller : String) : System :=
  match s.buses[bus]? with
  | none => s
  | some b =>
    let s := s.modifyBus bus fun b => { b with forwarderStarted := true }
    let s := { s with links := s.links ++ [Link.mk s.members.length caller false] }
    s.spawn bus b.forwarder 1

/-! ## Shutting down -/

/-- A bus begins to shut down: the tokens of its tasks fire. -/
def beginShutdown (s : System) (bus : Nat) : System :=
  (s.modifyBus bus fun b => b.beginShutdown s.now).noteDrained

/-- A shutdown goes on as far as the tasks and the clock allow. -/
def lookShutdown (s : System) (bus : Nat) : System × List Effect :=
  match s.buses[bus]? with
  | some b =>
    let (b, events) := b.lookShutdown s.now
    ({ s with buses := s.buses.set bus b }, events.map .hook)
  | none => (s, [])

/-- The store is closed at the end of a shutdown, or refuses. -/
def answerShutdown (s : System) (bus : Nat) (fate : Fate) : System :=
  let (s, reply, _) := s.ask fate .close
  s.modifyBus bus fun b => b.answerShutdown reply

end System

end DurableBus
