import DurableBus.System

/-!
# Faults

Rules that disturb requests to the store: they reject a request, delay it, or have the bus shut down just before it is
made. Every rule looks at every request and counts those that concern it by itself.
-/

set_option autoImplicit false

namespace DurableBus

def Store.Request.topic? : Store.Request → Option String
  | .enqueue topic _ => some topic
  | .stage topic _ => some topic
  | .head topic => some topic
  | .claim request => some request.topic
  | .forgetGroup topic _ => some topic
  | _ => none

namespace Scenario

/-- What a rule does to a request. -/
inductive Disturbance
  | reject
  | delay (wait : Duration)
  | shutDown
deriving DecidableEq, Repr

/-- A rule: after `skip` requests that concern it, the next `times` are disturbed. -/
structure Rule where
  disturbance : Disturbance
  operation : Store.Operation
  topic : Option String := none
  skip : Nat := 0
  times : Nat := 1
  /-- How many requests have concerned the rule. -/
  seen : Nat := 0
deriving DecidableEq, Repr

namespace Rule

def concerns (r : Rule) (request : Store.Request) : Bool :=
  request.operation == r.operation && (r.topic.isNone || request.topic? == r.topic)

def applies (r : Rule) (request : Store.Request) : Bool :=
  r.concerns request && r.skip ≤ r.seen && r.seen < r.skip + r.times

def count (r : Rule) (request : Store.Request) : Rule :=
  if r.concerns request then { r with seen := r.seen + 1 } else r

end Rule

/-- A request under way. -/
structure Call where
  request : Store.Request
  fate : Fate
  /-- When it reaches the store. -/
  due : Instant
deriving DecidableEq, Repr

/-- How long disturbances hold a request up together. -/
def holdUp : List Disturbance → Nat
  | [] => 0
  | .delay wait :: rest => wait.toNanos + holdUp rest
  | _ :: rest => holdUp rest

/-- What the rules make of a request at an instant, and whether they have the bus shut down first. -/
def disturb (rules : List Rule) (now : Instant) (request : Store.Request) : Call × Bool :=
  let applied := (rules.filter (·.applies request)).map (·.disturbance)
  (⟨request, if applied.contains .reject then .rejected else .performed, now + holdUp applied⟩,
    applied.contains .shutDown)

end Scenario

end DurableBus
