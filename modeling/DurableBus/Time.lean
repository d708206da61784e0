import DurableBus.Text.Numeral

/-!
# Time

`Duration` is a span of whole seconds and the nanoseconds beyond them; doubling stops at the longest span instead of
overflowing. An `Instant` counts nanoseconds since the clock started. `Instant.alarm` is the moment at which a wait
of a given length ends: a wait that the clock cannot represent ends in the far future.
-/

set_option autoImplicit false

namespace DurableBus

/-- A span of time. -/
structure Duration where
  secs : Nat
  nanos : Nat
  secs_lt : secs < 0x1_0000_0000_0000_0000
  nanos_lt : nanos < 1_000_000_000
deriving DecidableEq, Repr

namespace Duration

def longest : Duration := ⟨0xFFFF_FFFF_FFFF_FFFF, 999_999_999, by decide, by decide⟩

def toNanos (d : Duration) : Nat :=
  d.secs * 1_000_000_000 + d.nanos

/-- The span of that many nanoseconds, the longest one if there are too many. -/
def ofNanos (n : Nat) : Duration :=
  if h : n < 0x1_0000_0000_0000_0000 * 1_000_000_000 then
    ⟨n / 1_000_000_000, n % 1_000_000_000, Nat.div_lt_of_lt_mul (by omega), Nat.mod_lt _ (by decide)⟩
  else longest

def ofMillis (ms : Nat) : Duration := ofNanos (ms * 1_000_000)

def ofSecs (s : Nat) : Duration := ofNanos (s * 1_000_000_000)

def zero : Duration := ⟨0, 0, by decide, by decide⟩

def shorter (a b : Duration) : Duration :=
  if a.toNanos ≤ b.toNanos then a else b

/-- Twice the span, computed on seconds and nanoseconds apart; the longest span if the seconds overflow. -/
def double (d : Duration) : Duration :=
  let nanos := d.nanos * 2
  let secs := d.secs * 2 + nanos / 1_000_000_000
  if h : secs < 0x1_0000_0000_0000_0000 then ⟨secs, nanos % 1_000_000_000, h, Nat.mod_lt _ (by decide)⟩ else longest

theorem toNanos_lt (d : Duration) : d.toNanos < 0x1_0000_0000_0000_0000 * 1_000_000_000 := by
  have := d.secs_lt
  have := d.nanos_lt
  simp only [toNanos]
  omega

theorem toNanos_ofNanos {n : Nat} (h : n < 0x1_0000_0000_0000_0000 * 1_000_000_000) : (ofNanos n).toNanos = n := by
  simp only [ofNanos, h, dite_true, toNanos]
  omega

/-- Digits of a fraction below one, `places` of them, with no zeros at the end. -/
def fractionDigits (places n : Nat) : List Char :=
  let ds := Numeral.digits n
  let padded := List.replicate (places - ds.length) '0' ++ ds
  (padded.reverse.dropWhile (· == '0')).reverse

/-- A whole part, a fraction counted in units of `10 ^ -places`, and the name of the unit. -/
def decimalText (whole fraction places : Nat) (unit : String) : String :=
  let ds := fractionDigits places fraction
  Numeral.text whole ++ (if ds.isEmpty then "" else "." ++ String.ofList ds) ++ unit

/-- The span in the largest unit that has a whole part: `1.5s`, `300ms`, `2µs`, `0ns`. -/
def text (d : Duration) : String :=
  if 0 < d.secs then decimalText d.secs d.nanos 9 "s"
  else if 1_000_000 ≤ d.nanos then decimalText (d.nanos / 1_000_000) (d.nanos % 1_000_000) 6 "ms"
  else if 1_000 ≤ d.nanos then decimalText (d.nanos / 1_000) (d.nanos % 1_000) 3 "µs"
  else decimalText d.nanos 0 0 "ns"

end Duration

/-- Nanoseconds since the clock started. -/
abbrev Instant := Nat

namespace Instant

/-- The instant a span later. -/
def plus (now : Instant) (d : Duration) : Instant :=
  now + d.toNanos

/-- Instants from here on are beyond what the clock can represent. -/
def limit : Instant := 0x8000_0000_0000_0000 * 1_000_000_000

/-- How far away a wait ends whose true end the clock cannot represent: thirty years. -/
def farAway : Nat := 30 * 365 * 86400 * 1_000_000_000

/-- When a wait that begins now ends. -/
def alarm (now : Instant) (d : Duration) : Instant :=
  if now + d.toNanos < limit then now + d.toNanos else now + farAway

/-- Whole milliseconds since the start, rounded down. -/
def toMillis (t : Instant) : Nat := t / 1_000_000

/-- The first whole millisecond at or after an instant: when a timer set for it goes off. -/
def roundUp (t : Instant) : Instant := (t + 999_999) / 1_000_000 * 1_000_000

end Instant

end DurableBus
