import DurableBus.Retry.Loop
import DurableBus.Scenario.Script

/-!
# Scripted attempts

Runs the retry loop on a virtual clock over an operation that follows a script, with a token that fires at a given
time, inside an attempt or inside a report. `Attempts.run` lists what was done and when.
-/

set_option autoImplicit false

namespace DurableBus.Scenario

/-- What one attempt does: it takes its time, then may fire the token, then fails or succeeds. -/
structure Attempt where
  lasts : Duration := .zero
  cancels : Bool := false
  error : Option String := none

/-- A scripted operation under a retry policy. -/
structure Attempts where
  policy : RetryPolicy
  script : List Attempt
  cancelAt : Option Instant
  /-- The attempt inside whose report the token fires. -/
  cancelInReport : Option Nat

/-- A failure that was reported because another attempt follows. -/
structure RetryReport where
  attempt : Nat
  delay : Duration
  error : String
  time : Instant

namespace Attempts

/-- The run so far, latest first. -/
structure Run where
  now : Instant := 0
  cancelled : Bool := false
  calls : List (Nat × Instant) := []
  reports : List RetryReport := []

/-- The run with its clock moved on to an instant, if that lies ahead. -/
def Run.waitFor (r : Run) (cancelAt : Option Instant) (t : Instant) : Run :=
  let now := max r.now t.roundUp
  { r with now, cancelled := r.cancelled || cancelAt.any (· ≤ now) }

/-- When a wait ends: at the alarm, or before it when the token fires. -/
def Run.wake (r : Run) (cancelAt : Option Instant) (alarm : Instant) : Instant :=
  match cancelAt with
  | some t => if r.now < t then min t alarm else alarm
  | none => alarm

def step (a : Attempts) (r : Run) (loop : Retry String) : Run × Retry String :=
  match loop with
  | .ready n delay => ({ r with calls := (n, r.now) :: r.calls }, .running n delay)
  | .running n delay =>
    let attempt := (turn? a.script n).getD {}
    let r := r.waitFor a.cancelAt (r.now.alarm attempt.lasts)
    let r := { r with cancelled := r.cancelled || attempt.cancels }
    match (Retry.running n delay).finish a.policy (attempt.error.elim (.ok ()) .error) with
    | .reported n delay error =>
      ({ r with
          reports := ⟨n, delay, error, r.now⟩ :: r.reports
          cancelled := r.cancelled || a.cancelInReport == some n }, .reported n delay error)
    | loop => (r, loop)
  | .resting n delay error wakeAt =>
    let r := if r.cancelled then r else r.waitFor a.cancelAt (r.wake a.cancelAt wakeAt)
    (r, (Retry.resting n delay error wakeAt).look a.policy r.now r.cancelled)
  | loop => (r, loop.look a.policy r.now r.cancelled)

/-- Steps until the loop is over, at most so many times. -/
def go (a : Attempts) : Nat → Run → Retry String → Run × Retry String
  | 0, r, loop => (r, loop)
  | _ + 1, r, .over result => (r, .over result)
  | fuel + 1, r, loop =>
    let (r, loop) := a.step r loop
    a.go fuel r loop

def run (a : Attempts) : Run × Retry String :=
  let (r, loop) := a.go (6 * a.policy.maxAttempts + 6)
    { cancelled := a.cancelAt == some 0 } (.start a.policy)
  ({ r with calls := r.calls.reverse, reports := r.reports.reverse }, loop)

end Attempts

end DurableBus.Scenario
