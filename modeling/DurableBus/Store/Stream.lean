import DurableBus.Poller
import DurableBus.Store.Basic

/-!
# The stream of claims

`ClaimStream` hands out what it claims, one message a pull. A message that had to wait behind others has its lease
restarted before it is handed out, and is skipped if its claim has been lost. Once the token has fired, messages at
hand are given back for immediate redelivery and nothing is claimed any more.

The stream moves on `look`, and on `answer` when the request that it waits for (`request?`) has been answered.
-/

set_option autoImplicit false

namespace DurableBus

/-- A claimed message at hand. -/
structure Pending where
  claimed : Claimed
  /-- Whether it waited behind another of its batch. -/
  waited : Bool
deriving DecidableEq, Repr

namespace Pending

/-- The messages of one claim: all but the first wait. -/
def ofBatch : List Claimed → List Pending
  | [] => []
  | c :: rest => ⟨c, false⟩ :: rest.map (⟨·, true⟩)

end Pending

/-- How a stream claims. -/
structure ClaimStream.Setup where
  request : ClaimRequest
  period : Duration
deriving DecidableEq, Repr

/-- The state of the stream. -/
inductive ClaimStream
  /-- The next message is to come from the poller. -/
  | pulling (batches : Poller Pending)
  /-- The lease of a message that waited is being restarted. -/
  | renewing (batches : Poller Pending) (claimed : Claimed)
  /-- A message is being given back. -/
  | releasing (batches : Poller Pending) (claimed : Claimed)
deriving Repr

namespace ClaimStream

/-- What a step of the stream comes to. -/
inductive Move
  /-- Nothing to do before the clock or the token moves, or the request under way is answered. -/
  | blocked
  /-- The stream has started and is about to poll. -/
  | started
  /-- On to the next step, perhaps with a notice. -/
  | proceed (notice : Option Store.Notice)
  /-- A message or a failure is handed out. -/
  | yield (item : Except Store.Error Claimed)
  /-- There is nothing more. -/
  | finished
  /-- The stream has broken. -/
  | broke
deriving Repr

/-- Nobody has pulled yet. -/
def start : ClaimStream := .pulling .idle

/-- What becomes of an item from the poller. -/
def receive (cancelled : Bool) (batches : Poller Pending) (item : Except Store.Error Pending) : ClaimStream × Move :=
  match item with
  | .error e => (.pulling batches, .yield (.error e))
  | .ok p =>
    if cancelled then (.releasing batches p.claimed, .proceed none)
    else if p.waited then (.renewing batches p.claimed, .proceed none)
    else (.pulling batches, .yield (.ok p.claimed))

/-- What becomes of a move of the poller. -/
def follow (cancelled : Bool) (batches : Poller Pending) (move : Poller.Move Pending Store.Error) :
    ClaimStream × Move :=
  match move with
  | .blocked => (.pulling batches, .blocked)
  | .started => (.pulling batches, .started)
  | .poll | .proceed => (.pulling batches, .proceed none)
  | .yield item => receive cancelled batches item
  | .finished => (.pulling batches, .finished)
  | .broke => (.pulling batches, .broke)

def look (setup : Setup) (now : Instant) (cancelled : Bool) : ClaimStream → ClaimStream × Move
  | .pulling batches =>
    let (batches, move) := batches.look setup.period now cancelled
    follow cancelled batches move
  | s => (s, .blocked)

def request? (setup : Setup) : ClaimStream → Option Store.Request
  | .pulling (.polling _) => some (.claim setup.request)
  | .pulling _ => none
  | .renewing _ c => some (.renew c.receipt setup.request.lease)
  | .releasing _ c => some (.nack c.receipt .zero)

def batch : Store.Reply → Except Store.Error (List Pending)
  | .ok (.claimed messages) => .ok (Pending.ofBatch messages)
  | .ok _ => .ok []
  | .error e => .error e

def answer (cancelled : Bool) (reply : Store.Reply) : ClaimStream → ClaimStream × Move
  | .pulling batches =>
    let (batches, move) := batches.answer (batch reply)
    follow cancelled batches move
  | .renewing batches c =>
    match reply with
    | .ok (.held false) => (.pulling batches, .proceed (some (.lostWhileQueued c.receipt)))
    | .ok _ => (.pulling batches, .yield (.ok c))
    | .error e => (.pulling batches, .yield (.error e))
  | .releasing batches c =>
    match reply with
    | .ok _ => (.pulling batches, .proceed none)
    | .error e => (.pulling batches, .proceed (some (.notReleased c.receipt e)))

/-- Whether a step would do something; `answered` says that the request under way can be answered. -/
def isEnabled (now : Instant) (cancelled answered : Bool) : ClaimStream → Bool
  | .pulling batches => batches.isEnabled now cancelled answered
  | _ => answered

def alarm? : ClaimStream → Option Instant
  | .pulling batches => batches.alarm?
  | _ => none

end ClaimStream

end DurableBus
