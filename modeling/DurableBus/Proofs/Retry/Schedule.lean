import Mathlib.Algebra.Group.Nat.Defs
import Mathlib.Data.List.Induction
import DurableBus.Retry.Policy

/-!
# The waits of a retry policy

The waits of a policy double step by step, on seconds and nanoseconds apart, and stop at the longest span there is.
Counted in nanoseconds that is plain doubling under the cap of the policy.

* `Duration.toNanos_double`, `Duration.toNanos_shorter` : what the operations on spans do to the nanoseconds;
* `delay`, `delays_eq` : the wait behind each attempt, also beyond the last one, and the list of waits;
* `toNanos_delay` : that wait in nanoseconds;
* `delays_double_up_to_cap` : the waits of every policy that can be made.
-/

set_option autoImplicit false

namespace DurableBus

namespace Duration

theorem toNanos_le_longest (d : Duration) : d.toNanos ≤ longest.toNanos :=
  Nat.le_of_lt_succ d.toNanos_lt

theorem toNanos_shorter (a b : Duration) : (a.shorter b).toNanos = min a.toNanos b.toNanos := by
  unfold shorter
  split
  case isTrue hle => exact (Nat.min_eq_left hle).symm
  case isFalse hlt => exact (Nat.min_eq_right (Nat.le_of_not_le hlt)).symm

/-- Doubling carries from the nanoseconds to the seconds, and is exact until it stops. -/
theorem toNanos_double (d : Duration) : d.double.toNanos = min (2 * d.toNanos) longest.toNanos := by
  have hlongest : longest.toNanos = 0x1_0000_0000_0000_0000 * 1_000_000_000 - 1 := by decide
  have hcarry : (d.secs * 2 + d.nanos * 2 / 1_000_000_000) * 1_000_000_000 + d.nanos * 2 % 1_000_000_000 =
      2 * d.toNanos := by
    unfold toNanos
    omega
  unfold double
  simp only
  split
  case isTrue hfits =>
    have hle := toNanos_le_longest ⟨_, d.nanos * 2 % 1_000_000_000, hfits, Nat.mod_lt _ (by decide)⟩
    unfold toNanos at hle ⊢
    rw [hcarry] at hle ⊢
    exact (Nat.min_eq_left hle).symm
  case isFalse =>
    refine (Nat.min_eq_right ?_).symm
    omega

end Duration

namespace RetryPolicy

variable (p : RetryPolicy)

/-- The wait that follows attempt `n + 1`, if there is another one. -/
def delay : Nat → Duration
  | 0 => p.firstDelay
  | n + 1 => p.nextDelay (delay n)

theorem delaysFrom_delay (n k : Nat) : p.delaysFrom n (p.delay k) = (List.range' k n).map p.delay := by
  induction n generalizing k with
  | zero => rfl
  | succ n ih => exact congrArg (p.delay k :: ·) (ih (k + 1))

theorem delays_eq : p.delays = (List.range (p.maxAttempts - 1)).map p.delay := by
  rw [List.range_eq_range']
  exact p.delaysFrom_delay (p.maxAttempts - 1) 0

theorem getElem?_delays {n : Nat} (more : n + 1 < p.maxAttempts) : p.delays[n]? = some (p.delay n) := by
  have hn : n < p.maxAttempts - 1 := by omega
  rw [delays_eq, List.getElem?_map, List.getElem?_range hn]
  rfl

theorem toNanos_nextDelay (d : Duration) :
    (p.nextDelay d).toNanos = min (2 * d.toNanos) p.maxDelay.toNanos := by
  have hcap := p.maxDelay.toNanos_le_longest
  unfold nextDelay
  rw [Duration.toNanos_shorter, Duration.toNanos_double]
  omega

/-- To double under a cap and to cap what has been doubled is the same. -/
theorem toNanos_delay (n : Nat) : (p.delay n).toNanos = min (p.baseDelay.toNanos * 2 ^ n) p.maxDelay.toNanos := by
  induction n with
  | zero =>
    rw [Nat.pow_zero, Nat.mul_one]
    exact Duration.toNanos_shorter p.baseDelay p.maxDelay
  | succ n ih =>
    have hdouble : p.baseDelay.toNanos * 2 ^ (n + 1) = 2 * (p.baseDelay.toNanos * 2 ^ n) := by
      rw [Nat.pow_succ, ← Nat.mul_assoc, Nat.mul_comm]
    rw [delay, toNanos_nextDelay, ih, hdouble]
    omega

theorem toNanos_delay_le (n : Nat) : (p.delay n).toNanos ≤ p.maxDelay.toNanos := by
  rw [toNanos_delay]
  exact Nat.min_le_right _ _

theorem toNanos_delay_mono {m n : Nat} (h : m ≤ n) : (p.delay m).toNanos ≤ (p.delay n).toNanos := by
  have hpow : p.baseDelay.toNanos * 2 ^ m ≤ p.baseDelay.toNanos * 2 ^ n :=
    Nat.mul_le_mul_left _ (Nat.pow_le_pow_right (by decide) h)
  rw [toNanos_delay, toNanos_delay]
  omega

/-! ## Policies as they are made -/

/-- One choice about a policy. -/
inductive Choice
  | maxAttempts (n : Nat)
  | baseDelay (d : Duration)
  | maxDelay (d : Duration)
deriving DecidableEq, Repr

namespace Choice

def maxAttempts? : Choice → Option Nat
  | maxAttempts n => some n
  | _ => none

def baseDelay? : Choice → Option Duration
  | baseDelay d => some d
  | _ => none

def maxDelay? : Choice → Option Duration
  | maxDelay d => some d
  | _ => none

end Choice

def choose (p : RetryPolicy) : Choice → RetryPolicy
  | .maxAttempts n => p.withMaxAttempts n
  | .baseDelay d => p.withBaseDelay d
  | .maxDelay d => p.withMaxDelay d

/-- The standard policy with choices made one after the other. -/
def made (choices : List Choice) : RetryPolicy := choices.foldl choose standard

theorem foldl_choose_new (n : Nat) (d : Duration) (choices : List Choice) :
    choices.foldl choose (new n d) = made (.maxAttempts n :: .baseDelay d :: choices) := rfl

theorem made_concat (choices : List Choice) (c : Choice) : made (choices ++ [c]) = (made choices).choose c := by
  unfold made
  rw [List.foldl_append]
  rfl

def latest {α : Type} (read : Choice → Option α) (usual : α) (choices : List Choice) : α :=
  (choices.filterMap read).getLast?.getD usual

theorem latest_concat {α : Type} (read : Choice → Option α) (usual : α) (choices : List Choice) (c : Choice) :
    latest read usual (choices ++ [c]) = (read c).getD (latest read usual choices) := by
  unfold latest
  rw [List.filterMap_append]
  cases h : read c with
  | none => simp [h]
  | some a => simp [h]

/-- A policy is what was chosen last, and it always has one attempt. -/
theorem made_eq (choices : List Choice) :
    (made choices).maxAttempts = max (latest Choice.maxAttempts? 3 choices) 1 ∧
      (made choices).baseDelay = latest Choice.baseDelay? (.ofSecs 1) choices ∧
      (made choices).maxDelay = latest Choice.maxDelay? (.ofSecs 300) choices := by
  induction choices using List.reverseRecOn with
  | nil => exact ⟨rfl, rfl, rfl⟩
  | append_singleton choices c ih =>
    rw [made_concat]
    simp only [latest_concat]
    cases c with
    | maxAttempts n => exact ⟨rfl, ih.2.1, ih.2.2⟩
    | baseDelay d => exact ⟨ih.1, rfl, ih.2.2⟩
    | maxDelay d => exact ⟨ih.1, ih.2.1, rfl⟩

/-- **The waits double up to the cap**, whatever has been chosen: a first wait above the cap, none at all, or one so
long that it cannot be doubled. There is one wait less than there are attempts, and there is always an attempt. -/
theorem delays_double_up_to_cap (choices : List Choice) :
    let p := made choices
    let base := (latest Choice.baseDelay? (.ofSecs 1) choices).toNanos
    let cap := (latest Choice.maxDelay? (.ofSecs 300) choices).toNanos
    (p.maxAttempts = max (latest Choice.maxAttempts? 3 choices) 1 ∧ p.delays.length + 1 = p.maxAttempts) ∧
      (∀ i (h : i < p.delays.length), (p.delays[i]).toNanos = min (base * 2 ^ i) cap) ∧
      p.delays.Pairwise (fun d e => d.toNanos ≤ e.toNanos) ∧
      (∀ d ∈ p.delays, d.toNanos ≤ cap) ∧
      ∀ n d, choices.foldl choose (new n d) = made (.maxAttempts n :: .baseDelay d :: choices) := by
  intro p base cap
  obtain ⟨hattempts, hbase, hcap⟩ := made_eq choices
  have hbase : p.baseDelay.toNanos = base := congrArg Duration.toNanos hbase
  have hcap : p.maxDelay.toNanos = cap := congrArg Duration.toNanos hcap
  have hlength : p.delays.length + 1 = p.maxAttempts := by
    have := p.maxAttempts_pos
    rw [length_delays]
    omega
  refine ⟨⟨hattempts, hlength⟩, fun i h => ?_, ?_, fun d hd => ?_, fun n d => foldl_choose_new n d choices⟩
  · have hi : p.delays[i] = p.delay i :=
      Option.some.inj ((List.getElem?_eq_getElem h).symm.trans (p.getElem?_delays (by omega)))
    rw [hi, toNanos_delay, hbase, hcap]
  · rw [delays_eq, List.pairwise_map]
    exact List.pairwise_lt_range.imp fun hlt => p.toNanos_delay_mono (Nat.le_of_lt hlt)
  · rw [delays_eq] at hd
    obtain ⟨n, -, rfl⟩ := List.mem_map.1 hd
    rw [← hcap]
    exact p.toNanos_delay_le n

/-- A first wait that cannot be doubled, under a cap that does not matter. -/
example : (made [.maxAttempts 3, .maxDelay .longest, .baseDelay .longest]).delays = [.longest, .longest] := by decide

end RetryPolicy

end DurableBus
