import DurableBus.Text.Utf8

/-!
# UTF-8 read back

* `decodeChars?_one` to `decodeChars?_four` : how a sequence of that many bytes is read;
* `decodeChars?_encodeChar` : a character is read back from its bytes;
* `decode?_encode` : a string is read back from its bytes.
-/

set_option autoImplicit false

namespace DurableBus.Utf8

theorem toNat_toUInt8 {n : Nat} (h : n < 256) : n.toUInt8.toNat = n := by
  simp [Nat.mod_eq_of_lt h]

theorem continuation?_tail (n : Nat) : continuation? (0x80 + n % 64).toUInt8 = some (n % 64) := by
  unfold continuation?
  rw [toNat_toUInt8 (by omega), if_pos (by omega), Nat.add_sub_cancel_left]

theorem scalar?_toNat {least n : Nat} {c : Char} (same : n = c.toNat) (h : least ≤ c.toNat) :
    scalar? least n = some c := by
  subst same
  have hvalid : c.toNat.isValidChar := c.valid
  unfold Nat.isValidChar at hvalid
  unfold scalar?
  rw [if_pos (by omega), Char.ofNat_toNat]

/-! ## Sequences of each length -/

section Sequences

variable {lead b₁ b₂ b₃ : UInt8} {n x y z : Nat} {c : Char}

theorem decodeChars?_one (hn : lead.toNat = n) (h : n < 0x80) (rest : Bytes) :
    decodeChars? (lead :: rest) = (decodeChars? rest).map (Char.ofNat n :: ·) := by
  conv => lhs; unfold decodeChars?
  rw [hn, if_pos h]
  cases decodeChars? rest <;> rfl

theorem decodeChars?_two (hn : lead.toNat = n) (low : 0xC0 ≤ n) (high : n < 0xE0) (h₁ : continuation? b₁ = some x)
    (hc : scalar? 0x80 ((n - 0xC0) * 64 + x) = some c) (rest : Bytes) :
    decodeChars? (lead :: b₁ :: rest) = (decodeChars? rest).map (c :: ·) := by
  conv => lhs; unfold decodeChars?
  rw [hn, if_neg (by omega), if_neg (by omega), if_pos high]
  simp only [h₁, Option.bind_eq_bind, Option.bind_some, hc]
  cases decodeChars? rest <;> rfl

theorem decodeChars?_three (hn : lead.toNat = n) (low : 0xE0 ≤ n) (high : n < 0xF0) (h₁ : continuation? b₁ = some x)
    (h₂ : continuation? b₂ = some y) (hc : scalar? 0x800 ((n - 0xE0) * 4096 + x * 64 + y) = some c) (rest : Bytes) :
    decodeChars? (lead :: b₁ :: b₂ :: rest) = (decodeChars? rest).map (c :: ·) := by
  conv => lhs; unfold decodeChars?
  rw [hn, if_neg (by omega), if_neg (by omega), if_neg (by omega), if_pos high]
  simp only [h₁, h₂, Option.bind_eq_bind, Option.bind_some, hc]
  cases decodeChars? rest <;> rfl

theorem decodeChars?_four (hn : lead.toNat = n) (low : 0xF0 ≤ n) (high : n < 0xF8) (h₁ : continuation? b₁ = some x)
    (h₂ : continuation? b₂ = some y) (h₃ : continuation? b₃ = some z)
    (hc : scalar? 0x10000 ((n - 0xF0) * 262144 + x * 4096 + y * 64 + z) = some c) (rest : Bytes) :
    decodeChars? (lead :: b₁ :: b₂ :: b₃ :: rest) = (decodeChars? rest).map (c :: ·) := by
  conv => lhs; unfold decodeChars?
  rw [hn, if_neg (by omega), if_neg (by omega), if_neg (by omega), if_neg (by omega), if_pos high]
  -- one bind at a time: the product is not to be unfolded
  dsimp only
  rw [h₁, Option.bind_eq_bind, Option.bind_some, h₂, Option.bind_eq_bind, Option.bind_some, h₃, Option.bind_eq_bind,
    Option.bind_some, hc]
  cases decodeChars? rest <;> rfl

end Sequences

/-- **A character is read back from its bytes.** -/
theorem decodeChars?_encodeChar (c : Char) (rest : Bytes) :
    decodeChars? (encodeChar c ++ rest) = (decodeChars? rest).map (c :: ·) := by
  have hvalid : c.toNat.isValidChar := c.valid
  unfold Nat.isValidChar at hvalid
  unfold encodeChar
  simp only
  split
  case isTrue h =>
    rw [List.singleton_append, decodeChars?_one (toNat_toUInt8 (by omega)) h, Char.ofNat_toNat]
  case isFalse =>
    split
    case isTrue h =>
      exact decodeChars?_two (toNat_toUInt8 (by omega)) (by omega) (by omega) (continuation?_tail _)
        (scalar?_toNat (by omega) (by omega)) rest
    case isFalse =>
      split
      case isTrue h =>
        exact decodeChars?_three (toNat_toUInt8 (by omega)) (by omega) (by omega) (continuation?_tail _)
          (continuation?_tail _) (scalar?_toNat (by omega) (by omega)) rest
      case isFalse =>
        exact decodeChars?_four (toNat_toUInt8 (by omega)) (by omega) (by omega) (continuation?_tail _)
          (continuation?_tail _) (continuation?_tail _) (scalar?_toNat (by omega) (by omega)) rest

/-- **A string is read back from its bytes.** -/
theorem decode?_encode (s : String) : decode? (encode s) = some s := by
  have hall : ∀ cs : List Char, decodeChars? (cs.flatMap encodeChar) = some cs := by
    intro cs
    induction cs with
    | nil => rfl
    | cons c rest ih => rw [List.flatMap_cons, decodeChars?_encodeChar, ih, Option.map_some]
  rw [decode?, encode, hall, Option.map_some, String.ofList_toList]

end DurableBus.Utf8
