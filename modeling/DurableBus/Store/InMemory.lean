import DurableBus.Store.Basic
import DurableBus.Store.Table

/-!
# The in-memory store

One log per topic, offsets counted over all topics. Per message and group there is a delivery record from the first
claim on; per topic and group there is a watermark, at or below which everything is acknowledged and the records have
been dropped. The clock and the token of a claim are given from outside.
-/

set_option autoImplicit false

namespace DurableBus

/-- A message in the log of its topic. -/
structure Stored where
  offset : Int
  message : Message
  publishedAt : Timestamp
deriving DecidableEq, Repr

/-- Where a delivery stands. -/
inductive DeliveryState
  | claimed
  | nacked
  | acked
deriving DecidableEq, Repr

/-- What a group knows about a message. -/
structure DeliveryRecord where
  topic : String
  state : DeliveryState
  token : Uuid
  /-- From when on the message may be claimed again. -/
  visibleAt : Instant
  count : Nat
deriving DecidableEq, Repr

/-- The lowest of the `count` numbers from `low` on at which `below` no longer holds, or the number behind them; found
by halving, so `below` has to hold for none after the first at which it fails. -/
def bisect (below : Nat → Bool) (low count : Nat) : Nat :=
  if count = 0 then low
  else
    let half := count / 2
    if below (low + half) then bisect below (low + half + 1) (count - half - 1)
    else bisect below low half
termination_by count

def logAfter (log : Array Stored) (offset : Int) : List Stored :=
  log.toList.drop (bisect (fun i => log[i]?.any (·.offset ≤ offset)) 0 log.size)

/-- The state of the store. -/
structure InMemory where
  lastOffset : Int
  topics : Table String (Array Stored)
  deliveries : Table (Int × String) DeliveryRecord
  watermarks : Table (String × String) Int
  closed : Bool

namespace InMemory

def empty : InMemory := ⟨0, .empty, .empty, .empty, false⟩

instance : Inhabited InMemory := ⟨empty⟩

def log (s : InMemory) (topic : String) : Array Stored := (s.topics.get? topic).getD #[]

def size (s : InMemory) (topic : String) : Nat := (s.log topic).size

/-- The watermark of a group on a topic, zero at first. -/
def watermark (s : InMemory) (topic group : String) : Int := (s.watermarks.get? (topic, group)).getD 0

/-! ## Writing -/

/-- Writes one message behind all others. -/
def appendOne (s : InMemory) (now : Instant) (topic : String) (m : Message) : InMemory :=
  let offset := s.lastOffset + 1
  { s with
    lastOffset := offset
    topics := s.topics.put topic ((s.log topic).push ⟨offset, m, now / 1000⟩) }

def append (s : InMemory) (now : Instant) (topic : String) (messages : List Message) : InMemory :=
  messages.foldl (fun s m => s.appendOne now topic m) s

/-- Writes what a transaction has staged, in order. -/
def commit (s : InMemory) (now : Instant) (staged : List (String × List Message)) : Except Store.Error InMemory :=
  if s.closed then .error .closed
  else .ok (staged.foldl (fun s w => s.append now w.1 w.2) s)

/-! ## Claiming -/

/-- Whether a message may be claimed: the group has no record of it, or one that is open and visible. -/
def claimable (record : Option DeliveryRecord) (now : Instant) : Bool :=
  match record with
  | none => true
  | some r => r.state != .acked && r.visibleAt ≤ now

/-- Claims the claimable messages of a log until there are enough. -/
def claimFrom (request : ClaimRequest) (now : Instant) (token : Uuid) :
    Nat → List Stored → Table (Int × String) DeliveryRecord → Table (Int × String) DeliveryRecord × List Claimed
  | _, [], records => (records, [])
  | 0, _, records => (records, [])
  | limit + 1, m :: rest, records =>
    let key := (m.offset, request.group)
    let record := records.get? key
    if claimable record now then
      let count := (record.map (·.count)).getD 0 + 1
      let topic := (record.map (·.topic)).getD request.topic
      let records := records.put key ⟨topic, .claimed, token, now.plus request.lease, count⟩
      let (records, claimed) := claimFrom request now token limit rest records
      (records, ⟨⟨m.offset, request.group, token⟩, m.message, m.publishedAt, count⟩ :: claimed)
    else claimFrom request now token (limit + 1) rest records

def claim (s : InMemory) (now : Instant) (token : Uuid) (request : ClaimRequest) : InMemory × List Claimed :=
  let after := max request.after (s.watermark request.topic request.group)
  let (records, claimed) :=
    claimFrom request now token request.limit (logAfter (s.log request.topic) after) s.deliveries
  ({ s with deliveries := records }, claimed)

/-! ## Settling -/

/-- The record that a receipt still holds. -/
def current? (s : InMemory) (r : Receipt) : Option DeliveryRecord :=
  (s.deliveries.get? (r.offset, r.group)).filter fun d => d.state == .claimed && d.token == r.token

def putRecord (s : InMemory) (r : Receipt) (d : DeliveryRecord) : InMemory :=
  { s with deliveries := s.deliveries.put (r.offset, r.group) d }

/-- Whether a group has acknowledged a message and still keeps the record. -/
def isAcked (s : InMemory) (group : String) (m : Stored) : Bool :=
  (s.deliveries.get? (m.offset, group)).any (·.state == .acked)

/-- Moves the watermark of a group over the acknowledged messages next above it and drops their records. -/
def advance (s : InMemory) (topic group : String) : InMemory :=
  match s.topics.get? topic with
  | none => s
  | some log =>
    let mark := s.watermark topic group
    let run := (logAfter log mark).takeWhile (s.isAcked group)
    { s with
      deliveries := run.foldl (fun records m => records.erase (m.offset, group)) s.deliveries
      watermarks := s.watermarks.put (topic, group) ((run.getLast?.map (·.offset)).getD mark) }

/-- Makes a claim final. -/
def ack (s : InMemory) (r : Receipt) : InMemory × List Store.Notice :=
  match s.current? r with
  | some d => ((s.putRecord r { d with state := .acked }).advance d.topic r.group, [])
  | none => (s, [.lostBeforeAck r])

/-- Gives a claim back; the message is visible again after a while. -/
def nack (s : InMemory) (now : Instant) (r : Receipt) (redeliverAfter : Duration) : InMemory × List Store.Notice :=
  match s.current? r with
  | some d => (s.putRecord r { d with state := .nacked, visibleAt := now.plus redeliverAfter }, [])
  | none => (s, [.lostBeforeNack r])

/-- Restarts the lease of a claim that is still held. -/
def renew (s : InMemory) (now : Instant) (r : Receipt) (lease : Duration) : InMemory × Bool :=
  match s.current? r with
  | some d => (s.putRecord r { d with visibleAt := now.plus lease }, true)
  | none => (s, false)

def forgetGroup (s : InMemory) (topic group : String) : InMemory :=
  { s with
    deliveries := s.deliveries.retain fun key d => !(key.2 == group && d.topic == topic)
    watermarks := s.watermarks.erase (topic, group) }

/-! ## Requests -/

/-- The offset of the latest message on a topic, zero if there is none. -/
def head (s : InMemory) (topic : String) : Int := ((s.log topic).back?.map (·.offset)).getD 0

/-- Carries out a request at an instant, with a token for what it may claim. A closed store carries out none but to be
closed. Staging changes nothing: the messages wait in the transaction. -/
def perform (s : InMemory) (now : Instant) (token : Uuid) (request : Store.Request) :
    InMemory × Store.Reply × List Store.Notice :=
  match request with
  | .close => ({ s with closed := true }, .ok .done, [])
  | request =>
    if s.closed then (s, .error .closed, [])
    else match request with
      | .setUp | .ping | .close | .stage .. => (s, .ok .done, [])
      | .enqueue topic messages => (s.append now topic messages, .ok .done, [])
      | .head topic => (s, .ok (.offset (s.head topic)), [])
      | .claim request =>
        let (s, claimed) := s.claim now token request
        (s, .ok (.claimed claimed), [])
      | .ack r =>
        let (s, notices) := s.ack r
        (s, .ok .done, notices)
      | .nack r redeliverAfter =>
        let (s, notices) := s.nack now r redeliverAfter
        (s, .ok .done, notices)
      | .renew r lease =>
        let (s, still) := s.renew now r lease
        (s, .ok (.held still), [])
      | .forgetGroup topic group => (s.forgetGroup topic group, .ok .done, [])

end InMemory

end DurableBus
