import DurableBus.Scenario.Fault
import DurableBus.Scenario.Handling
import DurableBus.Scenario.Polling

/-!
# Playing a scenario

A `World` is a system together with everything a scenario adds to it: rules that disturb requests, scripted handlers,
streams and transactions that it names, and the list of events. Everything happens on one virtual clock. `sweep` lets
every task go on until it waits; `await` lets time pass, from alarm to alarm, until a caller has what it waits for.
-/

set_option autoImplicit false

namespace DurableBus.Scenario

/-- What is worth showing. -/
inductive Event
  | hook (event : HookEvent)
  | log (entry : LogEntry)
  | called (subscription : String) (delivery : Delivery) (body : Option Body) (dated : Bool)
  | done (subscription : String) (id : Uuid) (cancelled : Bool)
  | forgetGroup (topic group : String)
  | shutdownReturned (errors : List (BusError Store.Error))

/-- What the handler of a consumer is doing. -/
inductive Turn
  | idle
  /-- The attempt was refused before the handler was called. -/
  | refused (failure : Failure)
  | handling (h : Handling)

/-- What a scenario adds to a consumer. -/
structure Station where
  name : String
  handler : Handler
  turn : Turn := .idle
  call : Option Call := none

/-- What a scenario adds to a bus. -/
structure Site where
  /-- Whether its hook writes to the log. -/
  standardHook : Bool
  /-- The request to close the store. -/
  call : Option Call := none
  /-- Whether a task waits for the shutdown to return. -/
  awaited : Bool := false
  /-- How many tasks have asked for a shutdown after the first. -/
  repeated : Nat := 0

/-- A named stream of claims. -/
structure OpenStream where
  setup : ClaimStream.Setup
  stream : ClaimStream := .start
  token : String
  /-- Whether it signals that it polls. -/
  signals : Bool := true
  call : Option Call := none

/-- The system with what a scenario adds to it. -/
structure World where
  system : System := .start
  rules : List Rule := []
  stations : List Station := []
  sites : List Site := []
  streams : List (String × OpenStream) := []
  signals : List (String × Signal) := []
  transactions : List (String × List (String × List Message)) := []
  /-- A publisher that belongs to no bus. -/
  publisher : Option Publisher := none
  /-- The members that subscriptions are known by, latest first. -/
  subscriptions : List (String × Nat) := []
  /-- Claimed messages by label, latest first. -/
  claims : List (String × List Claimed) := []
  /-- The tokens that have been shown, in order. -/
  shown : List Uuid := []
  /-- Trace and span identifiers that were generated, as text. -/
  generated : List (List Char) := []
  /-- Whether the log is shown. -/
  logs : Bool := false
  /-- Whether publishing runs in a trace of its own. -/
  traced : Bool := false
  /-- Events since the last step, latest first. -/
  events : List (Instant × Event) := []

instance : Inhabited World := ⟨{}⟩

/-- A play changes the world. -/
abbrev Play := StateM World

def lookup? {α : Type} (entries : List (String × α)) (key : String) : Option α :=
  (entries.find? (·.1 == key)).map (·.2)

def without {α : Type} (entries : List (String × α)) (key : String) : List (String × α) :=
  entries.filter (·.1 != key)

def clock : Play Instant := return (← get).system.now

/-! ## Events -/

def record (event : Event) : Play Unit :=
  modify fun w => { w with events := (w.system.now, event) :: w.events }

/-- A line is written to the log, if anybody reads it. -/
def log (entry : LogEntry) : Play Unit := do
  if (← get).logs then record (.log entry)

def tellHook (bus : Nat) (event : HookEvent) : Play Unit := do
  if (← get).sites[bus]?.any (·.standardHook) then log event.entry else record (.hook event)

/-! ## Requests -/

/-- A task asks the latest bus to shut down. -/
def spawnShutdown : Play Unit :=
  modify fun w =>
    let bus := w.system.buses.length - 1
    if w.system.isShutDown bus then
      { w with sites := w.sites.modify bus fun site => { site with repeated := site.repeated + 1 } }
    else
      { w with
        system := w.system.beginShutdown bus
        sites := w.sites.modify bus fun site => { site with awaited := true } }

/-- A request is made; the rules look at it. -/
def place (request : Store.Request) : Play Call := do
  let w ← get
  let (call, shutDown) := disturb w.rules w.system.now request
  modify fun w => { w with rules := w.rules.map fun rule => rule.count request }
  match request with
  | .forgetGroup topic group => record (.forgetGroup topic group)
  | _ => pure ()
  if shutDown then spawnShutdown
  return call

/-! ## Consumers -/

def modifyStation (i : Nat) (f : Station → Station) : Play Unit :=
  modify fun w => { w with stations := w.stations.modify i f }

def invoke (i : Nat) (delivery : Delivery) : Play Unit := do
  match (← get).stations[i]? with
  | none => pure ()
  | some station =>
    match station.handler.attempt delivery (← clock) with
    | (handler, .error failure) => modifyStation i fun st => { st with handler, turn := .refused failure }
    | (handler, .ok (body, handling)) =>
      modifyStation i fun st => { st with handler, turn := .handling handling }
      record (.called station.name delivery body handler.dated)

/-- What a step of a member does besides changing the system. -/
def effect (i : Nat) : Effect → Play Unit
  | .hook event => do tellHook (((← get).system.members[i]?.map (·.bus)).getD 0) event
  | .note notice => log notice.entry
  | .invoke delivery => invoke i delivery
  | .ready => pure ()

def step (i : Nat) (move : System → System × List Effect) : Play Unit := do
  let (system, effects) := move (← get).system
  modify ({ · with system })
  effects.forM (effect i)

/-- How the turn of a handler ends, if it can end now. -/
def Turn.outcome? (now : Instant) (cancelled : Bool) : Turn → Option (Except Failure Unit × Bool)
  | idle => none
  | refused failure => some (.error failure, false)
  | handling h => h.outcome? now cancelled

/-- The turn of a handler ends, and with it the attempt of the member. -/
def endTurn (i : Nat) (station : Station) (outcome : Except Failure Unit) (own cancelled : Bool) : Play Unit := do
  match station.turn with
  | .handling h =>
    if own && h.reaction.isLong then record (.done station.name h.delivery.message.id cancelled)
  | _ => pure ()
  modifyStation i ({ · with turn := .idle })
  step i (·.finish i outcome)

/-- Whether a consumer is to look at its token before it takes an answer. -/
def isSelecting (c : Consumer) : Bool :=
  match c.phase with
  | .selecting _ => true
  | _ => false

/-- A member takes one step, if it can. -/
def stepMember (i : Nat) : Play Bool := do
  let w ← get
  match w.system.members[i]?, w.stations[i]? with
  | some m, some station =>
    let now := w.system.now
    let cancelled := w.system.isCancelled m
    let due := station.call.any (·.due ≤ now)
    match if isSelecting m.consumer then none else m.consumer.request?, station.call with
    | some request, none =>
      let call ← place request
      modifyStation i ({ · with call := some call })
      return true
    | some _, some call =>
      if due then
        modifyStation i ({ · with call := none })
        step i (·.answer i call.fate)
        return true
      else if m.consumer.isEnabled now cancelled false then
        step i (·.look i)
        return true
      else return false
    | none, _ =>
      if m.consumer.isHandling then
        match station.turn.outcome? now cancelled with
        | some (outcome, own) =>
          endTurn i station outcome own cancelled
          return true
        | none => return false
      else if m.consumer.isEnabled now cancelled due then
        step i (·.look i)
        return true
      else return false
  | _, _ => return false

def stationAlarms (c : Consumer) (station : Station) : List Instant :=
  c.alarm?.toList ++ (station.call.map (·.due)).toList ++ (match station.turn with
    | .handling h => h.alarms
    | _ => [])

/-! ## Buses -/

def errorsOf (b : Bus) : List (BusError Store.Error) :=
  match b.shutdown with
  | some (.over (some e)) => [e]
  | _ => []

def isOver (b : Bus) : Bool :=
  match b.shutdown with
  | some (.over _) => true
  | _ => false

def modifySite (bus : Nat) (f : Site → Site) : Play Unit :=
  modify fun w => { w with sites := w.sites.modify bus f }

/-- The shutdown of a bus goes on by one step, if it can. -/
def stepBus (bus : Nat) : Play Bool := do
  let w ← get
  match w.system.buses[bus]?, w.sites[bus]? with
  | some b, some site =>
    if 0 < site.repeated then
      modifySite bus fun site => { site with repeated := site.repeated - 1 }
      record (.shutdownReturned [])
      return true
    else if isOver b && site.awaited then
      modifySite bus ({ · with awaited := false })
      record (.shutdownReturned (errorsOf b))
      return true
    else if b.isClosing then
      match site.call with
      | none =>
        let call ← place .close
        modifySite bus ({ · with call := some call })
        return true
      | some call =>
        if call.due ≤ w.system.now then
          modify fun w => { w with system := w.system.answerShutdown bus call.fate }
          return true
        else return false
    else if b.isShutdownEnabled w.system.now then
      let (system, effects) := w.system.lookShutdown bus
      modify ({ · with system })
      effects.forM fun
        | .hook event => tellHook bus event
        | _ => pure ()
      return true
    else return false
  | _, _ => return false

def siteAlarms (b : Bus) (site : Site) : List Instant :=
  b.shutdownAlarm?.toList ++ (site.call.map (·.due)).toList

/-! ## Everybody -/

/-- How many steps a play takes at most. -/
def patience : Nat := 1_000_000_000_000

def stepLink (j : Nat) : Play Bool := do
  let w ← get
  if w.system.isLinkEnabled j then
    modify fun w => { w with system := w.system.lookLink j }
    return true
  else return false

/-- One party goes on until it waits; whether it moved at all, or had moved before. -/
def exhaust (party : Play Bool) : Nat → Bool → World → Bool × World
  | 0, moved, w => (moved, w)
  | fuel + 1, moved, w =>
    match party w with
    | (true, w) => exhaust party fuel true w
    | (false, w) => (moved, w)

/-- Each of so many parties goes on until it waits; whether any moved. -/
def exhaustAll (party : Nat → Play Bool) (count : Nat) : Play Bool :=
  (List.range count).foldlM (fun moved i => exhaust (party i) patience moved) false

/-- Every task goes on until it waits; whether any moved. -/
def sweep : Play Bool := do
  let members ← exhaustAll stepMember (← get).system.members.length
  let links ← exhaustAll stepLink (← get).system.links.length
  let buses ← exhaustAll stepBus (← get).system.buses.length
  return members || links || buses

def settle : Play Unit := fun w => ((), (exhaust sweep patience false w).2)

def alarms (w : World) : List Instant :=
  ((w.system.members.zip w.stations).flatMap fun p => stationAlarms p.1.consumer p.2)
    ++ (w.system.buses.zip w.sites).flatMap fun p => siteAlarms p.1 p.2

/-- The next whole millisecond at which one of some alarms goes off. -/
def nextAlarm? (now : Instant) (alarms : List Instant) : Option Instant :=
  ((alarms.map Instant.roundUp).filter (now < ·)).min?

/-- How far a caller has come. -/
inductive Progress (α : Type)
  | done (a : α)
  /-- It moved and may move again. -/
  | moved
  /-- It waits, for one of these alarms or for a task. -/
  | waits (alarms : List Instant)

/-- A caller goes on until it is done, while everybody else does their work and time passes. -/
def await {α : Type} (caller : Play (Progress α)) : Nat → World → Option α × World
  | 0, w => (none, w)
  | fuel + 1, w =>
    match caller w with
    | (.done a, w) => (some a, w)
    | (.moved, w) => await caller fuel w
    | (.waits own, w) =>
      match sweep w with
      | (true, w) => await caller fuel w
      | (false, w) =>
        match nextAlarm? w.system.now (own ++ alarms w) with
        | some t => await caller fuel { w with system := w.system.wait t }
        | none => (none, w)

end DurableBus.Scenario
