import DurableBus.Time

/-!
# Retry policies

How often a failing attempt is repeated and how long to wait before each repetition: the waits double from a base and
are capped by a longest one. `RetryPolicy.delays` lists them step by step, `length_delays` counts them.
-/

set_option autoImplicit false

namespace DurableBus

/-- A limit on attempts, of which there is always one, and the waits between them. -/
structure RetryPolicy where
  maxAttempts : Nat
  baseDelay : Duration
  maxDelay : Duration
  maxAttempts_pos : 0 < maxAttempts
deriving DecidableEq, Repr

namespace RetryPolicy

/-- Three attempts, a second before the second, no wait over five minutes. -/
def standard : RetryPolicy := ⟨3, .ofSecs 1, .ofSecs 300, by decide⟩

instance : Inhabited RetryPolicy := ⟨standard⟩

/-- The policy with another limit on attempts; zero counts as one. -/
def withMaxAttempts (p : RetryPolicy) (n : Nat) : RetryPolicy :=
  { p with maxAttempts := max n 1, maxAttempts_pos := by omega }

def withBaseDelay (p : RetryPolicy) (d : Duration) : RetryPolicy := { p with baseDelay := d }

def withMaxDelay (p : RetryPolicy) (d : Duration) : RetryPolicy := { p with maxDelay := d }

/-- The standard policy with a limit on attempts and a first wait. -/
def new (maxAttempts : Nat) (baseDelay : Duration) : RetryPolicy :=
  (standard.withMaxAttempts maxAttempts).withBaseDelay baseDelay

/-- The wait before the second attempt. -/
def firstDelay (p : RetryPolicy) : Duration := p.baseDelay.shorter p.maxDelay

def nextDelay (p : RetryPolicy) (d : Duration) : Duration := d.double.shorter p.maxDelay

/-- `n` waits in a row, the first of them `d`. -/
def delaysFrom (p : RetryPolicy) : Nat → Duration → List Duration
  | 0, _ => []
  | n + 1, d => d :: p.delaysFrom n (p.nextDelay d)

/-- The first waits of the schedule, at most `n`. -/
def firstDelays (p : RetryPolicy) (n : Nat) : List Duration :=
  p.delaysFrom (min n (p.maxAttempts - 1)) p.firstDelay

/-- The waits between consecutive attempts. -/
def delays (p : RetryPolicy) : List Duration :=
  p.delaysFrom (p.maxAttempts - 1) p.firstDelay

theorem length_delaysFrom (p : RetryPolicy) (n : Nat) (d : Duration) : (p.delaysFrom n d).length = n := by
  induction n generalizing d with
  | zero => rfl
  | succ n ih => simp [delaysFrom, ih]

theorem length_delays (p : RetryPolicy) : p.delays.length = p.maxAttempts - 1 :=
  p.length_delaysFrom _ _

end RetryPolicy

end DurableBus
