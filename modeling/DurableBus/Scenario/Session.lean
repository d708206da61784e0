import DurableBus.Scenario.World

/-!
# Sessions

A session is a list of steps that a caller takes one after the other on a world: it uses the store directly, opens
streams and publishers, starts and stops buses, or waits. After each step all tasks go on until everybody waits; then
the events since the step before are collected. `run` gives the answer, the time and the events of each step.
-/

set_option autoImplicit false

namespace DurableBus.Scenario

/-- How a step names a receipt. -/
inductive ReceiptRef
  /-- One of the messages claimed under a label. -/
  | claimed (label : String) (index : Nat)
  /-- By its parts; the token is the `shown`-th one that was shown, or one that was never issued. -/
  | parts (offset : Int) (group : String) (shown : Option Nat)

/-- What is published. -/
structure Publication where
  topic : String
  messages : List Message
  /-- The context to stamp, instead of the current one. -/
  context : Option TraceContext := none
  /-- The context around the publisher. -/
  span : TraceContext := none
  /-- The transaction to publish in. -/
  transaction : Option String := none

/-- What a caller does. -/
inductive Step
  | sleep (d : Duration)
  | cancel (token : String)
  | disturb (rule : Rule)
  | setUp
  | ping
  | close
  | enqueue (topic : String) (messages : List Message) (transaction : Option String)
  | openTransaction (name : String)
  | commit (name : String)
  | discard (name : String)
  | size (topic : String)
  | head (topic : String)
  | claim (request : ClaimRequest) (label : Option String)
  | ack (receipt : ReceiptRef)
  | nack (receipt : ReceiptRef) (redeliverAfter : Duration)
  | renew (receipt : ReceiptRef) (lease : Duration)
  | sameReceipt (a b : ReceiptRef)
  | forgetGroup (topic group : String)
  | openStream (name : String) (setup : ClaimStream.Setup) (token : String) (signals : Bool)
  | next (name : String) (timeout : Duration) (label : Option String)
  | signal (name : String)
  | dropStream (name : String)
  | openPublisher (publisher : Publisher)
  | publish (publication : Publication)
  | publisherState
  | closePublisher
  | openBus (config : Config) (propagator : Propagator) (standardHook : Bool)
  | subscribe (name topic : String) (group : Option Group) (handler : Handler)
  | receiveErrors (name : String)
  | dropErrors (name : String)
  | startForwarder (token : String)
  | pingBus
  | busState
  | busConfig
  | shutDown (spawned : Bool)

/-- A claimed message and the number of its token among those shown. -/
structure Shown where
  claimed : Claimed
  token : Nat

/-- What comes of a step. -/
inductive Answer
  | nothing
  | ok
  | refused (error : Store.Error)
  | failed (error : BusError Store.Error)
  | count (n : Nat)
  | offset (offset : Int)
  | truth (b : Bool)
  | claims (messages : List Shown)
  | pulled (p : Pulled Shown Store.Error)
  | signal (s : Signal)
  | publisherState (closed outbox : Bool)
  | subscribed (capacity : Nat)
  | errors (reports : List HandlerError) (closed : Bool)
  | busState (publisherClosed shutDown : Bool)
  | busConfig (config : Config)
  | shutDown (errors : List (BusError Store.Error))

/-! ## The store -/

/-- The caller makes a request and waits for the answer. -/
def ask (request : Store.Request) : Play Store.Reply := do
  let call ← place request
  let reply ← await (do
    if call.due ≤ (← clock) then
      let (system, reply, notices) := (← get).system.ask call.fate request
      modify ({ · with system })
      notices.forM fun notice => log notice.entry
      return .done reply
    else return .waits [call.due]) patience
  return reply.getD (.error .closed)

/-- A request whose answer says no more than that it succeeded. -/
def order (request : Store.Request) : Play Answer := do
  match ← ask request with
  | .ok _ => return .ok
  | .error e => return .refused e

/-- The number of a token among those shown, which it joins if it is new. -/
def showToken (token : Uuid) : Play Nat := do
  let w ← get
  match w.shown.idxOf? token with
  | some i => return i + 1
  | none =>
    set { w with shown := w.shown ++ [token] }
    return w.shown.length + 1

def showClaimed (c : Claimed) : Play Shown := return ⟨c, ← showToken c.receipt.token⟩

def remember (label : Option String) (messages : List Claimed) : Play Unit :=
  match label with
  | some label => modify fun w => { w with claims := (label, messages) :: w.claims }
  | none => pure ()

def receipt? (w : World) : ReceiptRef → Option Receipt
  | .claimed label index => (lookup? w.claims label).bind fun messages => messages[index]?.map (·.receipt)
  | .parts offset group shown => some ⟨offset, group, (shown.bind fun n => w.shown[n - 1]?).getD (.ofNat 0)⟩

def withReceipt (ref : ReceiptRef) (f : Receipt → Play Answer) : Play Answer := do
  match receipt? (← get) ref with
  | some r => f r
  | none => return .nothing

def stage (name topic : String) (messages : List Message) : Play Unit :=
  modify fun w =>
    { w with transactions := w.transactions.map fun t => if t.1 == name then (name, t.2 ++ [(topic, messages)]) else t }

def store (topic : String) (messages : List Message) : Option String → Play Store.Reply
  | none => ask (.enqueue topic messages)
  | some name => do
    let reply ← ask (.stage topic messages)
    if reply.isOk then stage name topic messages
    return reply

def commit (name : String) : Play Answer := do
  let w ← get
  let (system, result) := w.system.commit ((lookup? w.transactions name).getD [])
  modify ({ · with system, transactions := without w.transactions name })
  match result with
  | .ok () => return .ok
  | .error e => return .refused e

/-! ## Streams -/

def putStream (name : String) (s : OpenStream) : Play Unit :=
  modify fun w => { w with streams := (name, s) :: without w.streams name }

def modifySignal (name : String) (f : Signal → Signal) : Play Unit :=
  modify fun w => { w with signals := w.signals.map fun e => if e.1 == name then (name, f e.2) else e }

/-- What a move of a stream means to the one who pulls. -/
def follow (name : String) (s : OpenStream) : ClaimStream.Move → Play (Progress (Pulled Claimed Store.Error))
  | .blocked => return .waits s.stream.alarm?.toList
  | .started => do
    if s.signals then modifySignal name Signal.give
    return .moved
  | .proceed notice => do
    notice.toList.forM fun notice => log notice.entry
    return .moved
  | .yield (.ok c) => return .done (.item c)
  | .yield (.error e) => return .done (.failure e)
  | .finished | .broke => return .done .ended

/-- One step of the stream of a name. -/
def stepStream (name : String) : Play (Progress (Pulled Claimed Store.Error)) := do
  let w ← get
  match lookup? w.streams name with
  | none => return .done .dropped
  | some s =>
    let now := w.system.now
    match s.stream.request? s.setup, s.call with
    | some request, none =>
      let call ← place request
      putStream name { s with call := some call }
      return .moved
    | some request, some call =>
      if call.due ≤ now then
        let (system, reply, notices) := w.system.ask call.fate request
        modify ({ · with system })
        notices.forM fun notice => log notice.entry
        let (stream, move) := s.stream.answer (w.system.fired.contains s.token) reply
        let s := { s with stream, call := none }
        putStream name s
        follow name s move
      else return .waits [call.due]
    | none, _ =>
      let (stream, move) := s.stream.look s.setup now (w.system.fired.contains s.token)
      let s := { s with stream }
      putStream name s
      follow name s move

/-- The caller pulls and waits for at most so long. What is under way stays under way. -/
def pull (name : String) (timeout : Duration) : Play (Pulled Claimed Store.Error) := do
  let deadline := (← clock).alarm timeout
  let pulled ← await (do
    match ← stepStream name with
    | .waits alarms =>
      if deadline ≤ (← clock) then return .done .timedOut else return .waits (deadline :: alarms)
    | progress => return progress) patience
  return pulled.getD .timedOut

def next (name : String) (timeout : Duration) (label : Option String) : Play Answer := do
  match ← pull name timeout with
  | .item c =>
    remember label [c]
    return .pulled (.item (← showClaimed c))
  | .failure e => return .pulled (.failure e)
  | .ended => return .pulled .ended
  | .timedOut => return .pulled .timedOut
  | .dropped => return .pulled .dropped

/-! ## Publishing -/

def busIndex : Play Nat := return (← get).system.buses.length - 1

def bus? : Play (Option Bus) := return (← get).system.buses.getLast?

/-- The publisher of the bus, or the one that belongs to none. -/
def publisher? : Play (Option Publisher) := do
  match ← bus? with
  | some b => return some b.publisher
  | none => return (← get).publisher

/-- The publisher changes. -/
def modifyPublisher (f : Publisher → Publisher) : Play Unit :=
  modify fun w =>
    if w.system.buses.isEmpty then { w with publisher := w.publisher.map f }
    else { w with
      system := w.system.modifyBus (w.system.buses.length - 1) fun b => { b with publisher := f b.publisher } }

def draw : Play Uuid :=
  modifyGet fun w => (.drawn w.system.drawn, { w with system := { w.system with drawn := w.system.drawn + 1 } })

/-- The current trace context of a publisher: a new span in the trace around it, or in a new one. -/
def currentContext (around : TraceContext) : Play TraceContext := do
  if !(← get).traced then return none
  let span := BitVec.ofNat 64 (0x8000_0000_0000_0000 + (← draw).bits.toNat % 0x4000_0000_0000_0000)
  let context : SpanContext ← match around.valid? with
    | some c => pure ⟨c.traceId, span, c.sampled, false, .empty⟩
    | none => pure ⟨(← draw).bits, span, true, false, .empty⟩
  let fresh := context.spanText :: if around.valid?.isSome then [] else [context.traceText]
  modify fun w => { w with generated := w.generated ++ fresh }
  return some context

def publish (p : Publication) : Play Answer := do
  match ← publisher? with
  | none => return .nothing
  | some publisher =>
    let context ← match p.context with
      | some context => pure context
      | none => currentContext p.span
    let drawn := (← get).system.drawn
    match publisher.prepare drawn context p.topic p.messages with
    | .error e => return .failed e
    | .ok none => return .ok
    | .ok (some (topic, messages)) =>
      modify fun w => { w with system := { w.system with drawn := drawn + messages.length } }
      match ← store topic messages p.transaction with
      | .ok _ => return .ok
      | .error e => return .failed (.store "publish" (some p.topic) e)

/-! ## Buses -/

def openBus (config : Config) (propagator : Propagator) (standardHook : Bool) : Play Answer := do
  match ← ask .setUp with
  | .error e => return .failed (.store "initialize" none e)
  | .ok _ =>
    modify fun w => { w with
      system := w.system.addBus config propagator
      sites := w.sites ++ [{ standardHook }] }
    return .ok

def subscribe (name topic : String) (group : Option Group) (handler : Handler) : Play Answer := do
  match ← bus? with
  | none => return .nothing
  | some b =>
    match b.permit topic with
    | .error e => return .failed e
    | .ok () =>
      let group := group.getD (.ofName b.config.consumerGroup)
      let head ← match group with
        | .named _ => pure (.ok (.offset 0))
        | .broadcast => ask (.head topic)
      match head with
      | .error e => return .failed (.store "subscribe" (some topic) e)
      | .ok answer =>
        let after := match answer with
          | .offset after => after
          | _ => 0
        let index ← busIndex
        modify fun w => { w with
          system := w.system.subscribe index topic group after
          stations := w.stations ++ [{ name, handler }]
          subscriptions := (name, w.system.members.length) :: w.subscriptions }
        return .subscribed (max b.config.errorChannelCapacity 1)

/-- Starts the forwarder and waits until it polls, ends or the token fires. -/
def startForwarder (token : String) : Play Answer := do
  match ← bus? with
  | none => return .nothing
  | some b =>
    match b.permitForwarder with
    | .error e => return .failed e
    | .ok () =>
      let index ← busIndex
      let member := (← get).system.members.length
      modify fun w => { w with
        system := w.system.startForwarder index token
        stations := w.stations ++ [{ name := "", handler := { turns := ⟨[], 0⟩ } }] }
      let cancelled : Answer := .failed (.cancelled "start_forwarder")
      let answer ← await (do
        let system := (← get).system
        if system.fired.contains token then return .done cancelled
        else match system.members[member]? with
          | some m =>
            if m.announced then return .done .ok
            else if m.consumer.isOver then return .done cancelled
            else return .waits []
          | none => return .done cancelled) patience
      return answer.getD cancelled

def shutDown : Play Answer := do
  match ← bus? with
  | none => return .nothing
  | some b =>
    if b.isShutDown then return .ok
    let index ← busIndex
    modify fun w => { w with system := w.system.beginShutdown index }
    let errors ← await (do
      match (← get).system.buses[index]? with
      | some b => if isOver b then return .done (errorsOf b) else return .waits []
      | none => return .done []) patience
    match errors.getD [] with
    | [] => return .ok
    | errors => return .shutDown errors

def receiveErrors (name : String) : Play Answer := do
  let w ← get
  match lookup? w.subscriptions name with
  | none => return .nothing
  | some i =>
    let (system, reports) := w.system.receive i
    modify ({ · with system })
    return .errors reports (w.system.members[i]?.any (·.consumer.isOver))

/-! ## Steps -/

def perform : Step → Play Answer
  | .sleep d => do
    let until' := (← clock).plus d
    let _ ← await (do if until' ≤ (← clock) then return .done () else return .waits [until']) patience
    return .nothing
  | .cancel token => do
    modify fun w => { w with system := w.system.fire token }
    return .nothing
  | .disturb rule => do
    modify fun w => { w with rules := w.rules ++ [rule] }
    return .nothing
  | .setUp => order .setUp
  | .ping => order .ping
  | .close => order .close
  | .enqueue topic messages transaction => do
    match ← store topic messages transaction with
    | .ok _ => return .ok
    | .error e => return .refused e
  | .openTransaction name => do
    modify fun w => { w with transactions := (name, []) :: without w.transactions name }
    return .nothing
  | .commit name => commit name
  | .discard name => do
    modify fun w => { w with transactions := without w.transactions name }
    return .nothing
  | .size topic => return .count ((← get).system.store.size topic)
  | .head topic => do
    match ← ask (.head topic) with
    | .ok (.offset offset) => return .offset offset
    | .ok _ => return .nothing
    | .error e => return .refused e
  | .claim request label => do
    match ← ask (.claim request) with
    | .ok (.claimed messages) =>
      remember label messages
      return .claims (← messages.mapM showClaimed)
    | .ok _ => return .nothing
    | .error e => return .refused e
  | .ack ref => withReceipt ref fun r => order (.ack r)
  | .nack ref redeliverAfter => withReceipt ref fun r => order (.nack r redeliverAfter)
  | .renew ref lease => withReceipt ref fun r => do
    match ← ask (.renew r lease) with
    | .ok (.held still) => return .truth still
    | .ok _ => return .nothing
    | .error e => return .refused e
  | .sameReceipt a b => do
    let w ← get
    return .truth (receipt? w a == receipt? w b)
  | .forgetGroup topic group => order (.forgetGroup topic group)
  | .openStream name setup token signals => do
    putStream name { setup, token, signals }
    modify fun w => { w with signals := (name, .awaited) :: without w.signals name }
    return .nothing
  | .next name timeout label => next name timeout label
  | .signal name => do
    let signal := (lookup? (← get).signals name).getD .lost
    modifySignal name Signal.take
    return .signal signal
  | .dropStream name => do
    if (lookup? (← get).streams name).any (·.signals) then modifySignal name Signal.leave
    modify fun w => { w with streams := without w.streams name }
    return .nothing
  | .openPublisher publisher => do
    modify ({ · with publisher := some publisher })
    return .nothing
  | .publish publication => publish publication
  | .publisherState => do
    match ← publisher? with
    | some p => return .publisherState p.closed p.outbox
    | none => return .nothing
  | .closePublisher => do
    modifyPublisher Publisher.close
    return .nothing
  | .openBus config propagator standardHook => openBus config propagator standardHook
  | .subscribe name topic group handler => subscribe name topic group handler
  | .receiveErrors name => receiveErrors name
  | .dropErrors name => do
    match lookup? (← get).subscriptions name with
    | some i => modify fun w => { w with system := w.system.abandon i }
    | none => pure ()
    return .nothing
  | .startForwarder token => startForwarder token
  | .pingBus => do
    match ← ask .ping with
    | .ok _ => return .ok
    | .error e => return .failed (.store "ping" none e)
  | .busState => do
    match ← bus? with
    | some b => return .busState b.publisher.closed b.isShutDown
    | none => return .nothing
  | .busConfig => do
    match ← bus? with
    | some b => return .busConfig b.config
    | none => return .nothing
  | .shutDown false => shutDown
  | .shutDown true => do
    spawnShutdown
    return .nothing

/-- What is shown of a step. -/
structure Shot where
  answer : Answer
  time : Instant
  events : List (Instant × Event)

/-- Takes a step and lets all tasks go on until everybody waits. -/
def shoot (s : Step) : Play Shot := do
  let answer ← perform s
  let time ← clock
  settle
  let events := (← get).events.reverse
  modify ({ · with events := [] })
  return { answer, time, events }

def run (steps : List Step) : Play (List Shot) := steps.mapM shoot

end DurableBus.Scenario
