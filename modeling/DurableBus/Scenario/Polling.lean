import DurableBus.Poller
import DurableBus.Scenario.Script

/-!
# Scripted polling

Runs a poller on a virtual clock over scripted batches. `Polling.pull` asks for the next item and waits for it up to a
deadline; a poll that is under way when the deadline passes goes on at the next pull. `Polling.run` takes the steps of a
caller one after the other.
-/

set_option autoImplicit false

namespace DurableBus.Scenario

/-- What one poll does: it takes its time, then may fire the token, then gives a batch of numbers or fails. -/
structure Batch where
  lasts : Duration := .zero
  cancels : Bool := false
  result : Except String (List Int) := .ok []

/-- A signal that one party gives and another takes, once. -/
inductive Signal
  | awaited
  | given
  | taken
  /-- Nobody is left who could give it. -/
  | lost
deriving DecidableEq, Repr

namespace Signal

def give : Signal → Signal
  | .awaited => .given
  | s => s

/-- The giver goes away. -/
def leave : Signal → Signal
  | .awaited => .lost
  | s => s

def take : Signal → Signal
  | .given => .taken
  | s => s

end Signal

/-- The state of a scripted poller. -/
structure Polling where
  period : Duration
  batches : List Batch
  now : Instant := 0
  cancelled : Bool := false
  /-- The stream, unless it has been dropped. -/
  stream : Option (Poller Int) := some .idle
  /-- The poll under way and when it ends. -/
  pending : Option (Batch × Instant) := none
  /-- When polls began, latest first. -/
  polls : List Instant := []
  ready : Signal := .awaited
  /-- Whether the stream gives the signal. -/
  signals : Bool := true

/-- What a pull comes to. -/
inductive Pulled (α ε : Type)
  | item (a : α)
  | failure (e : ε)
  | ended
  | timedOut
  /-- The stream has been dropped. -/
  | dropped
deriving Repr

namespace Polling

def drop (s : Polling) : Polling :=
  { s with stream := none, pending := none, ready := if s.signals then s.ready.leave else s.ready }

def handed (item : Except String Int) : Pulled Int String :=
  match item with
  | .ok a => .item a
  | .error e => .failure e

/-- One step of a stream: the state behind it, and either what it hands out or the instant to wait for. -/
def step (s : Polling) (stream : Poller Int) : Polling × (Pulled Int String ⊕ Option Instant) :=
  match s.pending with
  | some (batch, ends) =>
    if s.now < ends then (s, .inr (some ends))
    else
      let (stream, move) : Poller Int × Poller.Move Int String := stream.answer batch.result
      let s := { s with stream := some stream, pending := none, cancelled := s.cancelled || batch.cancels }
      match move with
      | .yield item => (s, .inl (handed item))
      | _ => (s, .inr none)
  | none =>
    let (stream, move) : Poller Int × Poller.Move Int String := stream.look s.period s.now s.cancelled
    let s := { s with stream := some stream }
    match move with
    | .blocked => (s, .inr stream.alarm?)
    | .started => ({ s with ready := if s.signals then s.ready.give else s.ready }, .inr none)
    | .poll =>
      let batch := s.batches.head?.getD {}
      ({ s with
          batches := s.batches.tail
          polls := s.now :: s.polls
          pending := some (batch, (s.now.alarm batch.lasts).roundUp) }, .inr none)
    | .yield item => (s, .inl (handed item))
    | .proceed => (s, .inr none)
    | .finished | .broke => (s, .inl .ended)

/-- Steps until something is handed out or the deadline has passed. -/
def pullWithin (deadline : Instant) : Nat → Polling → Polling × Pulled Int String
  | 0, s => (s, .timedOut)
  | fuel + 1, s =>
    match s.stream with
    | none => (s, .dropped)
    | some stream =>
      match s.step stream with
      | (s, .inl pulled) => (s, pulled)
      | (s, .inr none) => pullWithin deadline fuel s
      | (s, .inr (some alarm)) =>
        if deadline ≤ s.now then (s, .timedOut)
        else pullWithin deadline fuel { s with now := min alarm.roundUp deadline }

/-- Asks for the next item. Between two waits there is at most one poll without items; each wait takes a millisecond or
more. -/
def pull (s : Polling) (timeout : Duration) : Polling × Pulled Int String :=
  s.pullWithin (s.now.plus timeout) (8 * (s.batches.length + timeout.toNanos / 1_000_000 + 8))

/-! ## Steps -/

/-- What a caller does with a poller. -/
inductive Step
  /-- Asks for the next item, for so long at most. -/
  | next (timeout : Duration)
  | sleep (d : Duration)
  /-- Fires the token. -/
  | cancel
  | drop
  /-- Takes the signal that the stream polls. -/
  | signal

/-- What comes of a step. -/
inductive Answer
  | nothing
  | pulled (p : Pulled Int String)
  | signal (s : Signal)

/-- What is shown of a step. -/
structure Shot where
  answer : Answer
  time : Instant
  /-- When polls began in it. -/
  polls : List Instant

def perform (s : Polling) : Step → Polling × Answer
  | .next timeout =>
    let (s, pulled) := s.pull timeout
    (s, .pulled pulled)
  | .sleep d => ({ s with now := s.now.plus d }, .nothing)
  | .cancel => ({ s with cancelled := true }, .nothing)
  | .drop => (s.drop, .nothing)
  | .signal => ({ s with ready := s.ready.take }, .signal s.ready)

def run (s : Polling) : List Step → List Shot
  | [] => []
  | step :: rest =>
    let (s, answer) := { s with polls := [] }.perform step
    ⟨answer, s.now, s.polls.reverse⟩ :: run s rest

end Polling

end DurableBus.Scenario
