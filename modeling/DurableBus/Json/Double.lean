import DurableBus.Text.Numeral

/-!
# Doubles

Numbers that are no integers are doubles, kept as their 64 bits. `Double.ofParts?` scales a whole significand by a
power of ten, one rounding a step. `Double.text` is the shortest decimal that reads back as the same double: with a
point from `1e-5` up to `1e16`, with an exponent outside.
-/

set_option autoImplicit false

namespace DurableBus.Json

/-- A double by its bits: sign, eleven bits of exponent, fifty-two of significand. -/
structure Double where
  bits : UInt64
deriving DecidableEq, Repr

namespace Double

def ofFloat (x : Float) : Double := ⟨x.toBits⟩

def toFloat (d : Double) : Float := Float.ofBits d.bits

/-- A power of ten as a double, for exponents up to 308. -/
def powerOfTen (n : Nat) : Float := Float.ofScientific 1 false n

/-- Scales by a power of ten in steps that a double can hold; `none` if the result is too large. -/
def scale? : Nat → Float → Int → Option Float
  | 0, x, _ => some x
  | steps + 1, x, exponent =>
    if exponent.natAbs ≤ 308 then
      if 0 ≤ exponent then
        let y := x * powerOfTen exponent.natAbs
        if y.isInf then none else some y
      else some (x / powerOfTen exponent.natAbs)
    else if x == 0 then some x
    else if 0 ≤ exponent then none
    else scale? steps (x / powerOfTen 308) (exponent + 308)

/-- The double for a sign, a significand below `2 ^ 64` and a power of ten; `none` if it is out of range. -/
def ofParts? (positive : Bool) (significand : Nat) (exponent : Int) : Option Double :=
  (scale? 8 (UInt64.ofNat significand).toFloat exponent).map fun x => ofFloat (if positive then x else -x)

/-- A finite double without its sign as `significand * 2 ^ (exponent - 1076)`, four times as fine as its own grid, and
whether it is the smallest of its binade. -/
def parts (d : Double) : Nat × Nat × Bool :=
  let biased := (d.bits.toNat >>> 52) % 0x800
  let fraction := d.bits.toNat % 0x10_0000_0000_0000
  if biased = 0 then (4 * fraction, 1, false)
  else (4 * (0x10_0000_0000_0000 + fraction), biased, fraction = 0 ∧ 1 < biased)

def tenTo (n : Nat) : Nat := Nat.pow 10 n

/-- The decimal `digits * 10 ^ exponent` with the fewest digits that rounds to `num / den`, the nearest of those: a
candidate lies between `low` and `high` over `den`, the ends included if `closed`. -/
def shortest (num low high den : Nat) (closed : Bool) : Nat → Nat → Nat × Int
  | 0, places => (num * tenTo places / den, -(places : Int))
  | tries + 1, places =>
    -- the grid with `places` digits behind the point and the two points on it next to the value
    let below := num * tenTo places / den
    let fits := fun c =>
      if closed then low * tenTo places ≤ c * den ∧ c * den ≤ high * tenTo places
      else low * tenTo places < c * den ∧ c * den < high * tenTo places
    let nearBelow := 2 * (num * tenTo places - below * den) ≤ den
    if fits below ∧ (nearBelow ∨ ¬fits (below + 1)) then (below, -(places : Int))
    else if fits (below + 1) then (below + 1, -(places : Int))
    else shortest num low high den closed tries (places + 1)

/-- The digits of a shortest decimal without zeros at the end, and its power of ten. -/
def strip : Nat → Nat → Int → Nat × Int
  | 0, digits, exponent => (digits, exponent)
  | tries + 1, digits, exponent =>
    if digits ≠ 0 ∧ digits % 10 = 0 then strip tries (digits / 10) (exponent + 1) else (digits, exponent)

/-- The shortest digits and their power of ten for a double that is not zero. -/
def decimal (d : Double) : Nat × Int :=
  let (m, e, edge) := d.parts
  let scaleUp := 1 <<< (e - 1)
  let den := 1 <<< 1076
  let num := m * scaleUp
  let low := (m - if edge then 1 else 2) * scaleUp
  let high := (m + 2) * scaleUp
  let closed := m / 4 % 2 = 0
  -- a large double is a multiple of a power of ten within its interval: look for it before the point
  let rec whole : Nat → Nat × Int
    | 0 => shortest num low high den closed 400 0
    | k + 1 =>
      let unit := den * tenTo (k + 1)
      let below := num / unit
      let fits := fun c => if closed then low ≤ c * unit ∧ c * unit ≤ high else low < c * unit ∧ c * unit < high
      let nearBelow := 2 * (num - below * unit) ≤ unit
      if 0 < below ∧ fits below ∧ (nearBelow ∨ ¬fits (below + 1)) then (below, (k + 1 : Nat))
      else if fits (below + 1) then (below + 1, (k + 1 : Nat))
      else whole k
  let (digits, exponent) := whole 308
  strip 400 digits exponent

def text (d : Double) : List Char :=
  let sign := if 0x8000_0000_0000_0000 ≤ d.bits.toNat then ['-'] else []
  if d.bits.toNat % 0x8000_0000_0000_0000 = 0 then sign ++ ['0', '.', '0']
  else
    let (n, k) := d.decimal
    let ds := Numeral.digits n
    let point : Int := ds.length + k
    let body :=
      if 0 ≤ k ∧ point ≤ 16 then ds ++ List.replicate k.toNat '0' ++ ['.', '0']
      else if 0 < point ∧ point ≤ 16 then ds.take point.toNat ++ '.' :: ds.drop point.toNat
      else if -5 < point ∧ point ≤ 0 then ['0', '.'] ++ List.replicate (-point).toNat '0' ++ ds
      else
        let exponent := (Numeral.intText (point - 1)).toList
        match ds with
        | [c] => c :: 'e' :: exponent
        | c :: rest => c :: '.' :: rest ++ 'e' :: exponent
        | [] => exponent
    sign ++ body

end Double

end DurableBus.Json
