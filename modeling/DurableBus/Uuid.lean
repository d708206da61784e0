import DurableBus.Text.Hex

/-!
# Identifiers

A `Uuid` is a 128-bit value. It is written in lower case with hyphens; `Uuid.parse?` reads that form in either case,
the same inside braces or behind `urn:uuid:` in either case, and the 32 digits without hyphens.
-/

set_option autoImplicit false

namespace DurableBus

/-- A 128-bit identifier. -/
structure Uuid where
  bits : BitVec 128
deriving DecidableEq, Repr

namespace Uuid

def ofNat (n : Nat) : Uuid := ⟨BitVec.ofNat 128 n⟩

def version (u : Uuid) : Nat := (u.bits.toNat >>> 76) % 16

/-- The `n`-th identifier of a supply of random ones: version 4, no two the same below `2 ^ 62`. -/
def drawn (n : Nat) : Uuid := ofNat (0x4000_8000_0000_0000_0000 + n % 0x4000_0000_0000_0000)

/-- Hexadecimal digits in groups of 8, 4, 4, 4 and 12. -/
def hyphenate (ds : List Char) : List Char :=
  ds.take 8 ++ '-' :: (ds.drop 8).take 4 ++ '-' :: (ds.drop 12).take 4 ++ '-' :: (ds.drop 16).take 4
    ++ '-' :: ds.drop 20

def chars (u : Uuid) : List Char := hyphenate (Hex.fixed 32 u.bits.toNat)

def text (u : Uuid) : String := String.ofList u.chars

/-- The identifier that 32 digits spell. -/
def ofDigits? (ds : List Char) : Option Uuid :=
  if ds.length = 32 then (Hex.number? ds).map ofNat else none

/-- The digits of a hyphenated form, if the hyphens are where they belong. -/
def unhyphenate? (cs : List Char) : Option (List Char) :=
  let ds := cs.take 8 ++ (cs.drop 9).take 4 ++ (cs.drop 14).take 4 ++ (cs.drop 19).take 4 ++ cs.drop 24
  if cs.length = 36 ∧ cs[8]? = some '-' ∧ cs[13]? = some '-' ∧ cs[18]? = some '-' ∧ cs[23]? = some '-' then some ds
  else none

/-- Reads any of the accepted forms. -/
def parse? (cs : List Char) : Option Uuid :=
  match cs with
  | '\x7b' :: rest =>
    if rest.getLast? = some '\x7d' then unhyphenate? rest.dropLast >>= ofDigits? else none
  | cs =>
    if (cs.take 9).map Char.toLower = ['u', 'r', 'n', ':', 'u', 'u', 'i', 'd', ':'] then
      unhyphenate? (cs.drop 9) >>= ofDigits?
    else if cs.length = 32 then ofDigits? cs
    else unhyphenate? cs >>= ofDigits?

end Uuid

end DurableBus
