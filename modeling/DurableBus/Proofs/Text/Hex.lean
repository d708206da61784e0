import Mathlib.Algebra.Group.Nat.Defs
import DurableBus.Uuid

/-!
# Hexadecimal text read back

* `number?_fixed`, `below?_fixed` : a number is read back from its digits;
* `forall_mem_fixed` : what holds of the sixteen digits holds of every character of a number;
* `Uuid.parse?_chars` : an identifier is read back from its hyphenated form.
-/

set_option autoImplicit false

namespace DurableBus

namespace Hex

theorem value?_digit : ∀ d : Fin 16, value? (digit d.val) = some d.val := by decide

theorem length_fixed (width n : Nat) : (fixed width n).length = width := by
  induction width generalizing n with
  | zero => rfl
  | succ width ih => rw [fixed, List.length_append, ih, List.length_singleton]

theorem forall_mem_fixed {p : Char → Prop} (h : ∀ d : Fin 16, p (digit d.val)) (width n : Nat) :
    ∀ c ∈ fixed width n, p c := by
  induction width generalizing n with
  | zero => exact fun c hc => by cases hc
  | succ width ih =>
    intro c hc
    rcases List.mem_append.1 hc with hc | hc
    · exact ih (n / 16) c hc
    · rw [List.mem_singleton.1 hc]
      exact h ⟨n % 16, Nat.mod_lt n (by decide)⟩

/-- **A number is read back from its digits.** -/
theorem number?_fixed {width n : Nat} (h : n < 16 ^ width) : number? (fixed width n) = some n := by
  induction width generalizing n with
  | zero =>
    obtain rfl : n = 0 := by simpa using h
    rfl
  | succ width ih =>
    have hdigit := value?_digit ⟨n % 16, Nat.mod_lt n (by decide)⟩
    have hhigh : number? (fixed width (n / 16)) = some (n / 16) :=
      ih (Nat.div_lt_of_lt_mul (by rwa [Nat.pow_succ, Nat.mul_comm] at h))
    unfold number? at hhigh ⊢
    rw [fixed, List.foldlM_append, hhigh]
    simp only [Option.bind_eq_bind, Option.bind_some, List.foldlM_cons, List.foldlM_nil, hdigit]
    rw [show 16 * (n / 16) + n % 16 = n by omega]
    rfl

theorem below?_fixed {bound width n : Nat} (h : n < bound) (hwidth : n < 16 ^ width) (some_digit : width ≠ 0) :
    below? bound (fixed width n) = some n := by
  have hlength := length_fixed width n
  have hplus := forall_mem_fixed (p := (· ≠ '+')) (by decide) width n
  have hnumber := number?_fixed hwidth
  generalize fixed width n = ds at *
  match ds with
  | [] => exact absurd hlength.symm some_digit
  | d :: ds =>
    unfold below?
    split
    case h_1 heq => exact absurd (List.cons.inj heq).1 (hplus d List.mem_cons_self)
    case h_2 => simp [hnumber, h]

end Hex

namespace Uuid

theorem unhyphenate?_join {a b c d e : List Char} (ha : a.length = 8) (hb : b.length = 4) (hc : c.length = 4)
    (hd : d.length = 4) (he : e.length = 12) :
    unhyphenate? (a ++ '-' :: b ++ '-' :: c ++ '-' :: d ++ '-' :: e) = some (a ++ b ++ c ++ d ++ e) := by
  have hdrop : ∀ (n : Nat) (cs : List Char), cs.length ≤ n → cs.drop n = [] := fun _ _ => List.drop_eq_nil_of_le
  unfold unhyphenate?
  simp (disch := omega) [List.drop_append, ha, hb, hc, hd, he, hdrop]
  simp [List.getElem?_append, ha, hb, hc, hd]

theorem take_append_drop_add (n m : Nat) (ds : List Char) : (ds.drop n).take m ++ ds.drop (n + m) = ds.drop n := by
  rw [← List.drop_drop, List.take_append_drop]

theorem unhyphenate?_hyphenate {ds : List Char} (h : ds.length = 32) : unhyphenate? (hyphenate ds) = some ds := by
  rw [hyphenate, unhyphenate?_join (by simp [h]) (by simp [h]) (by simp [h]) (by simp [h]) (by simp [h])]
  simp only [List.append_assoc]
  rw [take_append_drop_add 16 4, take_append_drop_add 12 4, take_append_drop_add 8 4, List.take_append_drop]

theorem length_hyphenate {ds : List Char} (h : ds.length = 32) : (hyphenate ds).length = 36 := by
  simp [hyphenate, h]

/-- **An identifier is read back from its hyphenated form.** -/
theorem parse?_chars (u : Uuid) : parse? u.chars = some u := by
  have hlength := Hex.length_fixed 32 u.bits.toNat
  have hnumber := @Hex.number?_fixed 32 u.bits.toNat (by have := u.bits.isLt; omega)
  have hdigit := Hex.forall_mem_fixed (p := fun c => c ≠ '\x7b' ∧ c.toLower ≠ 'u') (by decide) 32 u.bits.toNat
  have hread : ofDigits? (Hex.fixed 32 u.bits.toNat) = some u := by
    rw [ofDigits?, if_pos hlength, hnumber]
    simp [ofNat]
  unfold chars
  generalize Hex.fixed 32 u.bits.toNat = ds at *
  have hunhyphenate := unhyphenate?_hyphenate hlength
  have hlong := length_hyphenate hlength
  -- the first digit rules out the braces and the prefix
  match ds with
  | [] => cases hlength
  | d :: ds =>
    obtain ⟨hbrace, hprefix⟩ := hdigit d List.mem_cons_self
    obtain ⟨tail, htail⟩ : ∃ tail, hyphenate (d :: ds) = d :: tail := ⟨_, rfl⟩
    rw [htail] at hunhyphenate hlong ⊢
    unfold parse?
    split
    case h_1 heq => exact absurd (List.cons.inj heq).1 hbrace
    case h_2 =>
      have hno : ¬((d :: tail).take 9).map Char.toLower = ['u', 'r', 'n', ':', 'u', 'u', 'i', 'd', ':'] :=
        fun heq => hprefix (List.cons.inj heq).1
      rw [if_neg hno, if_neg (by omega), hunhyphenate]
      exact hread

end Uuid

end DurableBus
