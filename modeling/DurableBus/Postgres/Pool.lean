import DurableBus.Postgres.Dialogue

/-!
# Connection pools

A pool keeps connections open between dialogues. Whoever has something to say takes an idle connection, or has a new one
opened, and gives it back afterwards; a closed pool gives none out. `Pool.use` frames a dialogue in this way.
-/

set_option autoImplicit false

namespace DurableBus.Postgres

/-- A pool of connections. -/
structure Pool where
  closed : Bool := false
  /-- How many open connections nobody uses. -/
  idle : Nat := 0
deriving DecidableEq, Repr

/-- How often a new connection is tried before the patience of half a minute is over: the wait after a try doubles from
10 milliseconds up to 6 seconds. -/
def connectTries : Nat := 14

/-- Opens a connection, with at most so many tries. Only a refusal that may pass by itself is met by another try. -/
def Dialogue.connect : Nat → Dialogue (Except Error Unit)
  | 0 => done (.error .poolTimedOut)
  | tries + 1 => (tell false .connect).bind fun
    | .ok _ => done (.ok ())
    | .error e => if e.isTransient then connect tries else done (.error e)

namespace Pool

variable {α : Type}

/-- Takes a connection: an idle one if there is any. -/
def acquire (p : Pool) : Dialogue (Except Error Pool) :=
  if p.closed then .done (.error .poolClosed)
  else if 0 < p.idle then .done (.ok { p with idle := p.idle - 1 })
  else (Dialogue.connect connectTries).andThen fun () => .done (.ok p)

def release (p : Pool) : Pool := if p.closed then p else { p with idle := p.idle + 1 }

def close (p : Pool) : Pool := { p with closed := true, idle := 0 }

def use (p : Pool) (d : Dialogue (Except Error α)) : Dialogue (Except Error α × Pool) :=
  p.acquire.bind fun
    | .ok taken => d.bind fun r => .done (r, taken.release)
    | .error e => .done (.error e, p)

def begin (p : Pool) : Dialogue (Except Error Unit × Pool) :=
  p.acquire.bind fun
    | .error e => .done (.error e, p)
    | .ok taken => (Dialogue.tell false .begin).bind fun
      | .ok _ => .done (.ok (), taken)
      | .error e => .done (.error e, taken.release)

end Pool

end DurableBus.Postgres
