import DurableBus.Time

/-!
# Polling

`Poller` is the state of a stream that asks for batches of items. Nothing happens until somebody pulls. A batch that
holds items is handed out one item a pull and followed by the next poll; an empty batch or a failure waits for the next
tick. Once the token has fired there is no further poll, but the items at hand are still handed out.
-/

set_option autoImplicit false

namespace DurableBus

/-- A tick that is seen more than this much later than it was due has been missed. -/
def tickTolerance : Nat := 5_000_000

/-- When the next tick is due after one that was due at `due` has been seen at `now`: a period after it was due, or a
period from now if it was missed. -/
def nextTick (period : Duration) (due now : Instant) : Instant :=
  if due + tickTolerance < now then now.alarm period else due.alarm period

/-- The state of the stream. `due` is when the next tick is. -/
inductive Poller (α : Type)
  /-- Nobody has pulled yet. -/
  | idle
  /-- Waiting for a tick. -/
  | waiting (due : Instant)
  /-- A poll is under way. -/
  | polling (due : Instant)
  /-- An item has been handed out, more are at hand. -/
  | handing (due : Instant) (rest : List α)
  /-- A failure has been handed out. -/
  | pausing (due : Instant)
  /-- At its end. -/
  | over
  /-- Broken: the period of the ticker is zero. -/
  | broken
deriving Repr

namespace Poller

/-- What a step of the stream comes to. -/
inductive Move (α ε : Type)
  /-- Nothing to do before the clock or the token moves, or the poll under way ends. -/
  | blocked
  /-- The stream has started and is about to poll. -/
  | started
  /-- A poll begins. -/
  | poll
  /-- On to the next step. -/
  | proceed
  /-- An item or a failure is handed out. -/
  | yield (item : Except ε α)
  /-- There is nothing more. -/
  | finished
  /-- The stream has broken. -/
  | broke

variable {α ε : Type}

def pollUnless (cancelled : Bool) (due : Instant) : Poller α × Move α ε :=
  if cancelled then (.over, .finished) else (.polling due, .poll)

/-- Waits for the tick; the token comes first. -/
def await (period : Duration) (now : Instant) (cancelled : Bool) (due : Instant) : Poller α × Move α ε :=
  if cancelled then (.over, .finished)
  else if due ≤ now then (.polling (nextTick period due now), .poll)
  else (.waiting due, .blocked)

def look (period : Duration) (now : Instant) (cancelled : Bool) : Poller α → Poller α × Move α ε
  | .idle => if period = .zero then (.broken, .broke) else (.waiting now, .started)
  | .waiting due => await period now cancelled due
  | .polling due => (.polling due, .blocked)
  | .handing due (item :: rest) => (.handing due rest, .yield (.ok item))
  | .handing due [] => pollUnless cancelled due
  | .pausing due => await period now cancelled due
  | .over => (.over, .finished)
  | .broken => (.broken, .broke)

def answer (batch : Except ε (List α)) : Poller α → Poller α × Move α ε
  | .polling due =>
    match batch with
    | .ok [] => (.waiting due, .proceed)
    | .ok (item :: rest) => (.handing due rest, .yield (.ok item))
    | .error e => (.pausing due, .yield (.error e))
  | p => (p, .blocked)

/-- Whether a step would do something; `answered` says that the poll under way can end. -/
def isEnabled (now : Instant) (cancelled answered : Bool) : Poller α → Bool
  | .waiting due => cancelled || due ≤ now
  | .polling _ => answered
  | _ => true

/-- When a step becomes possible by itself. -/
def alarm? : Poller α → Option Instant
  | .waiting due => some due
  | _ => none

end Poller

end DurableBus
