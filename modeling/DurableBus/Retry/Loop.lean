import DurableBus.Retry.Policy

/-!
# The retry loop

`Retry` is the state of an operation that is attempted until it succeeds, its policy is exhausted or its token fires.
It moves when an attempt begins (`begin`), when an attempt ends (`finish`) and when it looks at the clock and the token
(`look`). A failed attempt that will be repeated is reported before the token is looked at; while it waits for the next
attempt the token comes first, also when the wait is over at the same moment.
-/

set_option autoImplicit false

namespace DurableBus

/-- Why a repeated operation did not succeed. -/
structure RetryError (ε : Type) where
  attempts : Nat
  /-- Whether the token fired before the attempts were used up. -/
  cancelled : Bool
  last : ε
deriving DecidableEq, Repr

/-- The text of the error, given that of the last failure. -/
def RetryError.message {ε : Type} (e : RetryError ε) (last : String) : String :=
  if e.cancelled then "Cancelled after " ++ Numeral.text e.attempts ++ " attempts, last error: " ++ last ++ "\n"
  else "Failed after " ++ Numeral.text e.attempts ++ " attempts: " ++ last ++ "\n"

/-- The state of a repeated operation. -/
inductive Retry (ε : Type)
  /-- Attempt `n` is to begin; `delay` is the wait that follows it. -/
  | ready (n : Nat) (delay : Duration)
  /-- Attempt `n` is running. -/
  | running (n : Nat) (delay : Duration)
  /-- The failure of attempt `n` has been reported. -/
  | reported (n : Nat) (delay : Duration) (error : ε)
  /-- Waiting for attempt `n + 1`. -/
  | resting (n : Nat) (delay : Duration) (error : ε) (wakeAt : Instant)
  /-- Over: the number of the attempt that succeeded, or the error. -/
  | over (result : Except (RetryError ε) Nat)
deriving Repr

namespace Retry

variable {ε : Type}

def start (p : RetryPolicy) : Retry ε := .ready 1 p.firstDelay

def «begin» : Retry ε → Retry ε
  | .ready n delay => .running n delay
  | r => r

def finish (p : RetryPolicy) (outcome : Except ε Unit) : Retry ε → Retry ε
  | .running n delay =>
    match outcome with
    | .ok () => .over (.ok n)
    | .error e => if p.maxAttempts ≤ n then .over (.error ⟨n, false, e⟩) else .reported n delay e
  | r => r

def look (p : RetryPolicy) (now : Instant) (cancelled : Bool) : Retry ε → Retry ε
  | .reported n delay e =>
    if cancelled then .over (.error ⟨n, true, e⟩) else .resting n delay e (now.alarm delay)
  | .resting n delay e wakeAt =>
    if cancelled then .over (.error ⟨n, true, e⟩)
    else if wakeAt ≤ now then .ready (n + 1) (p.nextDelay delay)
    else .resting n delay e wakeAt
  | r => r

def alarm? : Retry ε → Option Instant
  | .resting _ _ _ wakeAt => some wakeAt
  | _ => none

end Retry

end DurableBus
