/-!
# Decimal numerals

`Numeral.parse` reads an unsigned numeral that has to stay below a bound: an optional plus sign and at least one
ASCII digit. The first character that is no digit, or that pushes the value over the bound, decides the error.
`Numeral.digits` writes a number.
-/

set_option autoImplicit false

namespace DurableBus.Numeral

/-- Why a text is no numeral below the bound. -/
inductive Fault
  | empty
  | invalidDigit
  | tooLarge
deriving DecidableEq, Repr

def Fault.message : Fault → String
  | .empty => "cannot parse integer from empty string"
  | .invalidDigit => "invalid digit found in string"
  | .tooLarge => "number too large to fit in target type"

def digit? (c : Char) : Option Nat :=
  if '0' ≤ c ∧ c ≤ '9' then some (c.toNat - 48) else none

/-- Reads digits from left to right behind those that spell `acc`. -/
def parseDigits (bound : Nat) : Nat → List Char → Except Fault Nat
  | acc, [] => .ok acc
  | acc, c :: cs =>
    match digit? c with
    | none => .error .invalidDigit
    | some d => if 10 * acc + d < bound then parseDigits bound (10 * acc + d) cs else .error .tooLarge

/-- Reads a numeral below `bound`. -/
def parse (bound : Nat) : List Char → Except Fault Nat
  | [] => .error .empty
  | '+' :: c :: cs => parseDigits bound 0 (c :: cs)
  | cs => parseDigits bound 0 cs

/-- The decimal digits of a number, most significant first. -/
def digits (n : Nat) : List Char :=
  if n < 10 then [Char.ofNat (48 + n)] else digits (n / 10) ++ [Char.ofNat (48 + n % 10)]

def text (n : Nat) : String :=
  String.ofList (digits n)

/-- The number in decimal with a minus sign in front if it is negative. -/
def intText (i : Int) : String :=
  if i < 0 then "-" ++ text i.natAbs else text i.natAbs

end DurableBus.Numeral
