import DurableBus.Handler
import DurableBus.Scenario.Item
import DurableBus.Scenario.Script

/-!
# Scripted handlers

A handler that follows a script: on each turn it takes its time, may wait for the token, and then succeeds or fails. It
may stand behind a layer that decodes JSON and one that limits its time, and its readiness check may fail at first.
-/

set_option autoImplicit false

namespace DurableBus.Scenario

/-- What a handler does on one turn. -/
structure Reaction where
  lasts : Option Duration := none
  waitsForToken : Bool := false
  error : Option String := none

namespace Reaction

/-- Whether the end of the turn is worth an event of its own. -/
def isLong (r : Reaction) : Bool := r.lasts.isSome || r.waitsForToken

def outcome (r : Reaction) : Except Failure Unit := r.error.elim (.ok ()) fun text => .error (.told text)

end Reaction

/-- What a payload may be decoded to. -/
inductive Body
  | item (item : Item)
  | value (value : Json.Value)

def Body.text : Body → List Char
  | item i => Numeral.digits i.id ++ ':' :: i.name.toList
  | value v => v.write

/-- The kinds of decoded payloads. -/
inductive BodyKind
  | item
  | value

def BodyKind.read (kind : BodyKind) (payload : Bytes) : Except Json.Problem Body :=
  match kind with
  | item => (Json.parse Item.fromJson payload).map .item
  | value => (Json.parse (Json.value Json.maxDepth) payload).map .value

/-- A script and how many turns it has had. -/
structure Turns where
  script : List Reaction
  taken : Nat := 0

def Turns.next (t : Turns) : Turns × Reaction :=
  ({ t with taken := t.taken + 1 }, (turn? t.script (t.taken + 1)).getD {})

/-- A scripted handler. -/
structure Handler where
  turns : Turns
  /-- Turns for particular payloads, each counted by itself. -/
  special : List (Bytes × Turns) := []
  decodes : Option BodyKind := none
  limit : Option Duration := none
  /-- How often the readiness check still fails, and with what. -/
  unready : Nat × String := (0, "")
  /-- Whether its events say that the delivery has a date. -/
  dated : Bool := false

/-- An attempt of a handler. -/
structure Handling where
  delivery : Delivery
  reaction : Reaction
  /-- When it has taken its time. -/
  wakeAt : Instant
  /-- When its time is up. -/
  deadline : Option Instant

namespace Handler

def next (h : Handler) (payload : Bytes) : Handler × Reaction :=
  match h.special.find? (·.1 == payload) with
  | some (_, turns) =>
    let (turns, reaction) := turns.next
    ({ h with special := h.special.map fun e => if e.1 == payload then (e.1, turns) else e }, reaction)
  | none =>
    let (turns, reaction) := h.turns.next
    ({ h with turns }, reaction)

def service (h : Handler) : Service Body :=
  let s := h.decodes.elim .new fun kind => Service.new.layer (.decoding kind.read)
  h.limit.elim s fun limit => s.layer (.limited limit)

def check (h : Handler) : Handler × Except Failure Unit :=
  match h.unready with
  | (times + 1, text) => ({ h with unready := (times, text) }, .error (.told text))
  | _ => (h, .ok ())

/-- An attempt begins: the decoded payload and the attempt, or the failure that keeps it from being made. -/
def attempt (h : Handler) (delivery : Delivery) (now : Instant) :
    Handler × Except Failure (Option Body × Handling) :=
  let (h, readiness) := h.check
  match h.service.handle readiness delivery.message.payload with
  | .error failure => (h, .error failure)
  | .ok invocation =>
    let (h, reaction) := h.next delivery.message.payload
    (h, .ok (invocation.body, {
      delivery, reaction
      wakeAt := now.alarm (reaction.lasts.getD .zero)
      deadline := invocation.limit.map now.alarm }))

end Handler

namespace Handling

/-- How an attempt ends if it can end now, and whether it got to its own end. Its own end comes before the limit. -/
def outcome? (h : Handling) (now : Instant) (cancelled : Bool) : Option (Except Failure Unit × Bool) :=
  if h.wakeAt ≤ now && (!h.reaction.waitsForToken || cancelled) then some (h.reaction.outcome, true)
  else if h.deadline.any (· ≤ now) then some (.error .timedOut, false)
  else none

/-- When the attempt goes on by itself: at the end of its time or at its limit. -/
def alarms (h : Handling) : List Instant := h.wakeAt :: h.deadline.toList

/-- How and when an attempt ends whose token never fires, begun at an instant; none if it never does. -/
def ending? (h : Handling) (now : Instant) : Option (Instant × Except Failure Unit × Bool) :=
  let times := (now :: h.alarms.map Instant.roundUp).mergeSort (· ≤ ·)
  times.findSome? fun t => if now ≤ t then (h.outcome? t false).map (t, ·) else none

end Handling

end DurableBus.Scenario
