/-!
# Hexadecimal text

Numbers and bytes in lower case, and the reading of digits in either case.
-/

set_option autoImplicit false

namespace DurableBus.Hex

/-- The digit for a value below sixteen. -/
def digit (n : Nat) : Char :=
  if n < 10 then Char.ofNat (48 + n) else Char.ofNat (87 + n)

def value? (c : Char) : Option Nat :=
  if '0' ≤ c ∧ c ≤ '9' then some (c.toNat - 48)
  else if 'a' ≤ c ∧ c ≤ 'f' then some (c.toNat - 87)
  else if 'A' ≤ c ∧ c ≤ 'F' then some (c.toNat - 55)
  else none

/-- The last `width` digits of a number, zeros in front. -/
def fixed : Nat → Nat → List Char
  | 0, _ => []
  | width + 1, n => fixed width (n / 16) ++ [digit (n % 16)]

/-- The digits of a number, none in vain. -/
def digits (n : Nat) : List Char :=
  match (fixed 32 n).dropWhile (· == '0') with
  | [] => ['0']
  | ds => ds

def number? (cs : List Char) : Option Nat :=
  cs.foldlM (fun n c => do return 16 * n + (← value? c)) 0

/-- The number that digits with an optional plus sign spell, if it is below `bound`. -/
def below? (bound : Nat) (cs : List Char) : Option Nat :=
  let ds := match cs with
    | '+' :: ds => ds
    | ds => ds
  if ds.isEmpty then none
  else (number? ds).filter (· < bound)

def ofBytes (bytes : List UInt8) : List Char :=
  bytes.flatMap fun b => fixed 2 b.toNat

/-- The bytes that pairs of digits spell. -/
def bytes? : List Char → Option (List UInt8)
  | [] => some []
  | [_] => none
  | a :: b :: rest => do
    let high ← value? a
    let low ← value? b
    return (16 * high + low).toUInt8 :: (← bytes? rest)

end DurableBus.Hex
