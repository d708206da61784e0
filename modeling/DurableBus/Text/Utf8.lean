/-!
# UTF-8

Payloads are lists of bytes. `Utf8.encode` writes a string as bytes and `Utf8.decode?` reads bytes back; the reader
refuses overlong forms, surrogates, code points above U+10FFFF and sequences that are cut short.
-/

set_option autoImplicit false

namespace DurableBus

/-- Bytes as they travel in payloads. -/
abbrev Bytes := List UInt8

namespace Utf8

/-- The bytes of one character: one for ASCII, up to four beyond. -/
def encodeChar (c : Char) : Bytes :=
  let n := c.toNat
  if n < 0x80 then [n.toUInt8]
  else if n < 0x800 then [(0xC0 + n / 64).toUInt8, (0x80 + n % 64).toUInt8]
  else if n < 0x10000 then
    [(0xE0 + n / 4096).toUInt8, (0x80 + n / 64 % 64).toUInt8, (0x80 + n % 64).toUInt8]
  else
    [(0xF0 + n / 262144).toUInt8, (0x80 + n / 4096 % 64).toUInt8, (0x80 + n / 64 % 64).toUInt8,
      (0x80 + n % 64).toUInt8]

def encode (s : String) : Bytes :=
  s.toList.flatMap encodeChar

/-- The six bits that a continuation byte carries. -/
def continuation? (b : UInt8) : Option Nat :=
  if 0x80 ≤ b.toNat ∧ b.toNat < 0xC0 then some (b.toNat - 0x80) else none

/-- A code point that may be written in a sequence of its length: not below `least`, not a surrogate, and in range. -/
def scalar? (least n : Nat) : Option Char :=
  if least ≤ n ∧ ¬(0xD800 ≤ n ∧ n < 0xE000) ∧ n < 0x110000 then some (Char.ofNat n) else none

/-- The characters of well-formed bytes, `none` for any others. -/
def decodeChars? : Bytes → Option (List Char)
  | [] => some []
  | b :: rest =>
    let lead := b.toNat
    if lead < 0x80 then do
      return Char.ofNat lead :: (← decodeChars? rest)
    else if lead < 0xC0 then none
    else if lead < 0xE0 then
      match rest with
      | b₁ :: rest => do
        let c ← scalar? 0x80 ((lead - 0xC0) * 64 + (← continuation? b₁))
        return c :: (← decodeChars? rest)
      | _ => none
    else if lead < 0xF0 then
      match rest with
      | b₁ :: b₂ :: rest => do
        let c ← scalar? 0x800 ((lead - 0xE0) * 4096 + (← continuation? b₁) * 64 + (← continuation? b₂))
        return c :: (← decodeChars? rest)
      | _ => none
    else if lead < 0xF8 then
      match rest with
      | b₁ :: b₂ :: b₃ :: rest => do
        let c ← scalar? 0x10000
          ((lead - 0xF0) * 262144 + (← continuation? b₁) * 4096 + (← continuation? b₂) * 64 + (← continuation? b₃))
        return c :: (← decodeChars? rest)
      | _ => none
    else none

/-- The string that well-formed bytes spell, `none` for any others. -/
def decode? (bytes : Bytes) : Option String :=
  (decodeChars? bytes).map String.ofList

end Utf8

end DurableBus
