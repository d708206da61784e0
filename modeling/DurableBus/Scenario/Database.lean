import DurableBus.Postgres.Address
import DurableBus.Postgres.Pool
import DurableBus.Postgres.Store
import DurableBus.Scenario.Session

/-!
# Sessions with a database

A caller uses the relational store step by step while the database answers from replies that each step brings along.
`run` gives, for each step, what came of it, the statements that were sent and the lines of the log.
-/

set_option autoImplicit false

namespace DurableBus.Scenario.Database

open Postgres

/-! ## The database -/

/-- A reply prepared for commands whose text contains a pattern. -/
structure Reply where
  pattern : String
  response : Response
  /-- How often it can be used. -/
  times : Nat := 1
deriving Repr

def occurs (pattern : List Char) : List Char → Bool
  | [] => pattern.isEmpty
  | c :: cs => pattern.isPrefixOf (c :: cs) || occurs pattern cs

/-- The pattern of replies to a request for a connection. -/
def startupPattern : String := "*startup*"

/-- Whether a reply is for a command. -/
def Reply.suits (r : Reply) (c : Command) : Bool :=
  match c.sql? with
  | some sql => occurs r.pattern.toList sql.toList
  | none => r.pattern == startupPattern

/-- What the database answers when no reply is prepared: queries that ask for one value give one row. -/
def standing (c : Command) : Response :=
  match c with
  | .query s =>
    if occurs "MAX(offset_id)".toList s.sql.toList then .ok { rows := [[("coalesce", .int 0)]] }
    else if occurs "pg_advisory_xact_lock".toList s.sql.toList then .ok { rows := [[("pg_advisory_xact_lock", .null)]] }
    else .ok {}
  | _ => .ok {}

/-- Answers a command with the first reply that suits it and counts that use. -/
def respond : List Reply → Line → Response × List Reply
  | [], line => (standing line.command, [])
  | r :: rest, line =>
    if r.suits line.command then
      (r.response, if r.times ≤ 1 then rest else { r with times := r.times - 1 } :: rest)
    else
      let (response, rest) := respond rest line
      (response, r :: rest)

/-! ## Steps -/

/-- What a caller does. -/
inductive Step
  /-- A store on a new pool; with or without setting up the schema. -/
  | openStore (ready : Bool)
  /-- A store on a new pool that is connected at once: to the database at hand, or to an address. -/
  | connect (address : Option String)
  | setUp
  | ping
  | close
  | isClosed
  | begin (name : String)
  | commit (name : String)
  | rollback (name : String)
  | discard (name : String)
  | enqueue (topic : String) (messages : List Message) (transaction : Option String)
  | head (topic : String)
  | claim (request : ClaimRequest) (label : Option String)
  | ack (receipt : ReceiptRef)
  | nack (receipt : ReceiptRef) (redeliverAfter : Duration)
  | renew (receipt : ReceiptRef) (lease : Duration)
  | forgetGroup (topic group : String)
  | compact (topic group : String)
  | openPublisher (publisher : Publisher)
  | publish (publication : Publication)
  | openBus (config : Config)
  | pingBus
  | shutDown

/-- What comes of a step. -/
inductive Answer
  | ok
  | refused (error : Error)
  | failed (error : BusError Error)
  | truth (b : Bool)
  | offset (offset : Int)
  | claims (messages : List Claimed)
  | connected (maxConnections : Nat)

/-- How many connections a caller wants who connects at once. -/
def maxConnections : Nat := 3

/-- What callers have opened. Stores are known by the places of their pools, as are publishers, buses and transactions
by the place of the store that they use. -/
structure Client where
  replies : List Reply := []
  pools : List Pool := []
  /-- The store in use. -/
  store : Nat := 0
  transactions : List (String × Nat) := []
  publisher : Option (Nat × Publisher) := none
  bus : Option (Nat × Bus) := none
  /-- Claimed messages by label, latest first. -/
  claims : List (String × List Claimed) := []
  /-- How many identifiers have been drawn. -/
  drawn : Nat := 0
  /-- What has been said in this step. -/
  lines : List Line := []
  /-- What has been logged in this step. -/
  entries : List LogEntry := []

/-- A play changes what is open. -/
abbrev Play := StateM Client

/-! ## Connections -/

def speak {α : Type} (d : Dialogue α) : Play α :=
  modifyGet fun c =>
    let (a, lines, replies) := d.run respond c.replies
    (a, { c with replies, lines := c.lines ++ lines })

def pool (store : Nat) : Play Pool := return (← get).pools[store]?.getD { closed := true }

def putPool (store : Nat) (p : Pool) : Play Unit := modify fun c => { c with pools := c.pools.set store p }

def onStore {α : Type} (store : Nat) (d : Dialogue (Except Error α)) : Play (Except Error α) := do
  let (r, p) ← speak ((← pool store).use d)
  putPool store p
  return r

def here {α : Type} (d : Dialogue (Except Error α)) : Play (Except Error α) := do onStore (← get).store d

/-- A store on a pool is in use from now on. -/
def addStore (p : Pool) : Play Unit := modify fun c => { c with pools := c.pools ++ [p], store := c.pools.length }

def draw : Play Uuid := modifyGet fun c => (.drawn c.drawn, { c with drawn := c.drawn + 1 })

/-! ## Transactions -/

/-- Ends a transaction by a dialogue and gives its connection back. -/
def endTransaction (name : String) (d : Dialogue (Except Error Unit)) : Play (Except Error Unit) := do
  match lookup? (← get).transactions name with
  | none => return .ok ()
  | some store =>
    modify fun c => { c with transactions := without c.transactions name }
    let r ← speak d
    putPool store (← pool store).release
    return r

/-- A transaction is dropped: it is rolled back, whatever the database says. -/
def drop (name : String) : Play Unit :=
  discard (endTransaction name ((Dialogue.tell true .rollback).bind fun _ => .done (.ok ())))

def begin (name : String) : Play (Except Error Unit) := do
  let store := (← get).store
  let (r, p) ← speak (← pool store).begin
  putPool store p
  if r.isOk then
    drop name
    modify fun c => { c with transactions := (name, store) :: c.transactions }
  return r

def add (store : Nat) (topic : String) (messages : List Message) : Option String → Play (Except Error Unit)
  | none => onStore store (Postgres.enqueue topic messages)
  | some _ => speak (Postgres.stage topic messages)

/-! ## Claims -/

/-- The token of receipts that no claim has issued. -/
def strangeToken : Uuid := .ofNat 0xdead

def receipt? (ref : ReceiptRef) : Play (Option Receipt) := do
  match ref with
  | .claimed label i => return ((lookup? (← get).claims label).bind (·[i]?)).map (·.receipt)
  | .parts offset group _ => return some ⟨offset, group, strangeToken⟩

/-- Settles the receipt that a step names. -/
def settle {α : Type} (ref : ReceiptRef) (d : Receipt → Dialogue (Except Error α)) (f : α → Play Answer) :
    Play Answer := do
  match ← receipt? ref with
  | none => return .ok
  | some r =>
    match ← here (d r) with
    | .ok a => f a
    | .error e => return .refused e

/-- Logs what is to be noticed. -/
def note (notice : Option Store.Notice) : Play Answer := do
  modify fun c => { c with entries := c.entries ++ notice.toList.map Store.Notice.entry }
  return .ok

/-- Claims messages under a token of its own. -/
def claimUnder (request : ClaimRequest) (label : Option String) : Play Answer := do
  let token ← draw
  match ← here (Postgres.claim request token) with
  | .error e => return .refused e
  | .ok claimed =>
    match label with
    | some label => modify fun c => { c with claims := (label, claimed) :: c.claims }
    | none => pure ()
    return .claims claimed

/-! ## Publishing -/

def publish (p : Publication) : Play Answer := do
  match (← get).publisher with
  | none => return .ok
  | some (store, publisher) =>
    match publisher.prepare (← get).drawn (p.context.getD none) p.topic p.messages with
    | .error e => return .failed e
    | .ok none => return .ok
    | .ok (some (topic, messages)) =>
      modify fun c => { c with drawn := c.drawn + messages.length }
      match ← add store topic messages p.transaction with
      | .ok () => return .ok
      | .error e => return .failed (.store "publish" (some p.topic) e)

/-! ## All steps -/

/-- The answer to a request that gives nothing back. -/
def orRefused : Except Error Unit → Answer
  | .ok () => .ok
  | .error e => .refused e

/-- Opens a store on a new pool by a dialogue; if that fails the store in use stays. -/
def openBy (d : Dialogue (Except Error Unit)) (answer : Answer) : Play Answer := do
  let (r, p) ← speak (({} : Pool).use d)
  match r with
  | .ok () =>
    addStore p
    return answer
  | .error e => return .refused e

def perform : Step → Play Answer
  | .openStore false => do
    addStore {}
    return .ok
  | .openStore true => openBy Postgres.setUp .ok
  | .connect none => openBy (.done (.ok ())) (.connected maxConnections)
  | .connect (some address) => return .refused (if Address.isWellFormed address then .unreachable else .badAddress)
  | .setUp => return orRefused (← here Postgres.setUp)
  | .ping => return orRefused (← here (.done (.ok ())))
  | .close => do
    let store := (← get).store
    putPool store (← pool store).close
    return .ok
  | .isClosed => return .truth (← pool (← get).store).closed
  | .begin name => return orRefused (← begin name)
  | .commit name => return orRefused (← endTransaction name (.commit ()))
  | .rollback name => return orRefused (← endTransaction name .rollback)
  | .discard name => do
    drop name
    return .ok
  | .enqueue topic messages transaction => return orRefused (← add (← get).store topic messages transaction)
  | .head topic => do
    match ← here (Postgres.head topic) with
    | .ok offset => return .offset offset
    | .error e => return .refused e
  | .claim request label => claimUnder request label
  | .ack receipt => settle receipt Postgres.ack note
  | .nack receipt redeliverAfter => settle receipt (Postgres.nack · redeliverAfter) note
  | .renew receipt lease => settle receipt (Postgres.renew · lease) fun held => return .truth held
  | .forgetGroup topic group => return orRefused (← here (Postgres.forgetGroup topic group))
  | .compact topic group => return orRefused (← here (Postgres.compact topic group))
  | .openPublisher publisher => do
    modify fun c => { c with publisher := some (c.store, publisher) }
    return .ok
  | .publish publication => publish publication
  | .openBus config => do
    match ← here Postgres.setUp with
    | .error e => return .failed (.store "initialize" none e)
    | .ok () =>
      modify fun c => { c with bus := some (c.store, .new config .silent) }
      return .ok
  | .pingBus => do
    match (← get).bus with
    | none => return .ok
    | some (store, _) =>
      match ← onStore store (.done (.ok ())) with
      | .ok () => return .ok
      | .error e => return .failed (.store "ping" none e)
  | .shutDown => do
    match (← get).bus with
    | none => return .ok
    | some (store, bus) =>
      if !bus.isShutDown then
        putPool store (← pool store).close
        modify fun c => { c with bus := some (store, bus.beginShutdown 0) }
      return .ok

/-- What is shown of a step. -/
structure Shot where
  answer : Answer
  /-- What was said that is a statement. -/
  lines : List Line
  entries : List LogEntry

/-- Takes a step while the database has these replies prepared. -/
def shoot (step : Step × List Reply) : Play Shot := do
  modify ({ · with replies := step.2, lines := [], entries := [] })
  let answer ← perform step.1
  let c ← get
  return { answer, lines := c.lines.filter (·.command.sql?.isSome), entries := c.entries }

def run (steps : List (Step × List Reply)) : List Shot := (steps.mapM shoot {}).1

/-- The tokens of claims in the order in which they appear in statements. -/
def tokens (shots : List Shot) : List Uuid :=
  ((shots.flatMap (·.lines)).flatMap fun line =>
    if occurs "letterbox_deliveries".toList (line.command.sql?.getD "").toList then
      line.command.parameters.filterMap fun
        | .uuid u => if u.version = 4 then some u else none
        | _ => none
    else []).eraseDups

end DurableBus.Scenario.Database
