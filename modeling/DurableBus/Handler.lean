import DurableBus.Delivery
import DurableBus.Error

/-!
# Handlers

A handler is a service that is made ready and then called. A `Service` is one instance of it: the layers around the
innermost service and whether the innermost instance holds a reservation, which making it ready gives it, calling it
uses up and a copy does not have. `Service.handle` is what happens to one delivery: a fresh copy is made ready and
called, and each layer does its part on the way in.

* `Layer.decoding` reads the payload and calls a copy of what is inside it;
* `Layer.limited` bounds the time that the call may take.
-/

set_option autoImplicit false

namespace DurableBus

/-- What a layer around a service does; `β` is what payloads decode to. -/
inductive Layer (β : Type)
  /-- Decodes the payload for the services inside. -/
  | decoding (read : Bytes → Except Json.Problem β)
  /-- Gives up on the call after a while. -/
  | limited (limit : Duration)

/-- An instance of a service. -/
structure Service (β : Type) where
  /-- The layers, outermost first. -/
  layers : List (Layer β)
  /-- Whether the innermost instance has been made ready and not been called since. -/
  reserved : Bool

/-- How the innermost service is called. -/
structure Invocation (β : Type) where
  /-- Whether the instance that is called holds a reservation. -/
  reserved : Bool
  /-- What the payload decoded to, behind a layer that decodes. -/
  body : Option β
  /-- The least of the limits on the call. -/
  limit : Option Duration

namespace Service

variable {β : Type}

def new : Service β := ⟨[], false⟩

/-- The service with one more layer around it. -/
def layer (s : Service β) (l : Layer β) : Service β := { s with layers := l :: s.layers }

def copy (s : Service β) : Service β := { s with reserved := false }

/-- Makes the instance ready; every layer asks the one inside it. -/
def makeReady (s : Service β) (readiness : Except Failure Unit) : Except Failure (Service β) :=
  readiness.map fun () => { s with reserved := true }

/-- The tighter of two limits. -/
def tighter (limit : Duration) : Option Duration → Duration
  | some other => limit.shorter other
  | none => limit

/-- Calls through the layers, outermost first; a layer that decodes calls a copy of what is inside it. -/
def callThrough (payload : Bytes) : List (Layer β) → Invocation β → Except Failure (Invocation β)
  | [], i => .ok i
  | .limited limit :: inner, i => callThrough payload inner { i with limit := some (tighter limit i.limit) }
  | .decoding read :: inner, i =>
    match read payload with
    | .ok body => callThrough payload inner { i with reserved := false, body := some body }
    | .error problem => .error (.undecodable problem)

def call (s : Service β) (payload : Bytes) : Except Failure (Invocation β) :=
  callThrough payload s.layers ⟨s.reserved, none, none⟩

/-- Handles one delivery: a copy is made ready and called, or nothing is if that fails. -/
def handle (s : Service β) (readiness : Except Failure Unit) (payload : Bytes) : Except Failure (Invocation β) := do
  let ready ← s.copy.makeReady readiness
  ready.call payload

end Service

end DurableBus
