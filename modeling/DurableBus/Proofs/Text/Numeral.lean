import Mathlib.Data.Nat.Digits.Defs
import DurableBus.Proofs.Text.Blank
import DurableBus.Text.Numeral

/-!
# Numerals and their values

* `Spells` : a numeral and its value;
* `parse_eq_ok_iff` : exactly the numerals below the bound are read, as their values;
* `value_leading` : zeros in front make no difference.
-/

set_option autoImplicit false

namespace DurableBus.Numeral

def digitChar (d : Fin 10) : Char := Char.ofNat (48 + d.val)

def value (ds : List (Fin 10)) : Nat := Nat.ofDigits 10 (ds.reverse.map Fin.val)

/-- A numeral and its value: at least one digit, and maybe a plus sign in front. -/
inductive Spells : List Char → Nat → Prop
  | plain {ds} (some_digit : ds ≠ []) : Spells (ds.map digitChar) (value ds)
  | signed {ds} (some_digit : ds ≠ []) : Spells ('+' :: ds.map digitChar) (value ds)

theorem value_cons (d : Fin 10) (ds : List (Fin 10)) : value (d :: ds) = d.val * 10 ^ ds.length + value ds := by
  unfold value
  rw [List.reverse_cons, List.map_append, Nat.ofDigits_append, List.length_map, List.length_reverse]
  simp [Nat.ofDigits_singleton]
  ring

/-- **Zeros in front make no difference.** -/
theorem value_leading (k : Nat) (ds : List (Fin 10)) : value (List.replicate k 0 ++ ds) = value ds := by
  induction k with
  | zero => rfl
  | succ k ih =>
    rw [List.replicate_succ, List.cons_append, value_cons, ih]
    simp

/-! ## Characters -/

theorem digit?_digitChar : ∀ d : Fin 10, digit? (digitChar d) = some d.val := by decide

theorem digitChar_inj {d d' : Fin 10} (h : digitChar d = digitChar d') : d = d' := by
  have hd := digit?_digitChar d
  rw [h, digit?_digitChar] at hd
  exact Fin.ext (Option.some.inj hd).symm

theorem digitChar_ne_plus : ∀ d : Fin 10, digitChar d ≠ '+' := by decide

theorem isBlank_digitChar : ∀ d : Fin 10, isBlank (digitChar d) = false := by decide +kernel

theorem eq_digitChar {c : Char} {n : Nat} (h : digit? c = some n) : ∃ d : Fin 10, c = digitChar d ∧ n = d.val := by
  unfold digit? at h
  split at h
  case isTrue hrange =>
    have hlow : 48 ≤ c.toNat := hrange.1
    have hhigh : c.toNat ≤ 57 := hrange.2
    refine ⟨⟨c.toNat - 48, by omega⟩, ?_, (Option.some.inj h).symm⟩
    unfold digitChar
    rw [show 48 + (c.toNat - 48) = c.toNat by omega, Char.ofNat_toNat]
  case isFalse => cases h

theorem Spells.no_blank {cs : List Char} {n : Nat} (h : Spells cs n) : ∀ c ∈ cs, isBlank c = false := by
  have hdigits : ∀ ds : List (Fin 10), ∀ c ∈ ds.map digitChar, isBlank c = false := by
    intro ds c hc
    obtain ⟨d, -, rfl⟩ := List.mem_map.1 hc
    exact isBlank_digitChar d
  cases h with
  | @plain ds => exact hdigits ds
  | @signed ds => exact List.forall_mem_cons.2 ⟨by decide +kernel, hdigits ds⟩

/-! ## Reading -/

/-- Digits are read as long as the value stays below the bound. -/
theorem parseDigits_eq_ok_iff (bound acc : Nat) (cs : List Char) (n : Nat) :
    parseDigits bound acc cs = .ok n ↔
      ∃ ds, cs = ds.map digitChar ∧ n = acc * 10 ^ ds.length + value ds ∧ (ds = [] ∨ n < bound) := by
  induction cs generalizing acc with
  | nil =>
    constructor
    · intro h
      cases h
      exact ⟨[], rfl, by simp [value], .inl rfl⟩
    · rintro ⟨ds, hds, rfl, -⟩
      obtain rfl := List.map_eq_nil_iff.1 hds.symm
      simp [parseDigits, value]
  | cons c cs ih =>
    rw [parseDigits]
    cases hc : digit? c with
    | none =>
      refine ⟨nofun, ?_⟩
      rintro ⟨ds, hds, -⟩
      cases ds with
      | nil => cases hds
      | cons d ds =>
        obtain ⟨rfl, -⟩ := List.cons.inj hds
        rw [digit?_digitChar] at hc
        cases hc
    | some m =>
      obtain ⟨d, rfl, rfl⟩ := eq_digitChar hc
      have hvalue : ∀ ds : List (Fin 10), acc * 10 ^ (d :: ds).length + value (d :: ds) =
          (10 * acc + d.val) * 10 ^ ds.length + value ds := by
        intro ds
        rw [value_cons, List.length_cons]
        ring
      simp only
      constructor
      · intro h
        split at h
        case isTrue hfits =>
          obtain ⟨ds, rfl, rfl, hbound⟩ := (ih (10 * acc + d.val)).1 h
          refine ⟨d :: ds, rfl, (hvalue ds).symm, .inr ?_⟩
          obtain rfl | hbound := hbound
          · simpa [value] using hfits
          · exact hbound
        case isFalse => cases h
      · rintro ⟨ds, hds, hn, hbound⟩
        cases ds with
        | nil => cases hds
        | cons d' ds =>
          obtain ⟨hd, rfl⟩ := List.cons.inj hds
          obtain rfl := digitChar_inj hd
          have hbound := hbound.resolve_left (List.cons_ne_nil d ds)
          rw [hvalue] at hn
          -- what has been read so far is no more than the whole
          have hfits : 10 * acc + d.val < bound := by
            have := Nat.le_mul_of_pos_right (10 * acc + d.val) (Nat.pow_pos (n := ds.length) (show 0 < 10 by decide))
            omega
          rw [if_pos hfits]
          exact (ih (10 * acc + d.val)).2 ⟨ds, rfl, hn, .inr hbound⟩

theorem parseDigits_zero {cs : List Char} (some_char : cs ≠ []) (bound n : Nat) :
    parseDigits bound 0 cs = .ok n ↔ (∃ ds, ds ≠ [] ∧ cs = ds.map digitChar ∧ n = value ds) ∧ n < bound := by
  rw [parseDigits_eq_ok_iff]
  constructor
  · rintro ⟨ds, rfl, rfl, hbound⟩
    have hds : ds ≠ [] := by
      rintro rfl
      exact some_char rfl
    rw [Nat.zero_mul, Nat.zero_add] at hbound ⊢
    exact ⟨⟨ds, hds, rfl, rfl⟩, hbound.resolve_left hds⟩
  · rintro ⟨⟨ds, -, rfl, rfl⟩, hbound⟩
    exact ⟨ds, rfl, by rw [Nat.zero_mul, Nat.zero_add], .inr hbound⟩

/-- **Exactly the numerals below the bound are read, as their values.** -/
theorem parse_eq_ok_iff (bound : Nat) (cs : List Char) (n : Nat) :
    parse bound cs = .ok n ↔ Spells cs n ∧ n < bound := by
  unfold parse
  split
  case h_1 =>
    refine ⟨nofun, ?_⟩
    rintro ⟨h, -⟩
    generalize hcs : ([] : List Char) = cs at h
    cases h with
    | plain some_digit => exact absurd (List.map_eq_nil_iff.1 hcs.symm) some_digit
    | signed => cases hcs
  case h_2 c cs =>
    rw [parseDigits_zero (List.cons_ne_nil c cs)]
    refine and_congr_left fun _ => ⟨?_, fun h => ?_⟩
    · rintro ⟨ds, hds, heq, rfl⟩
      rw [heq]
      exact .signed hds
    · generalize hcs : '+' :: c :: cs = cs' at h
      cases h with
      | @plain ds some_digit =>
        cases ds with
        | nil => cases hcs
        | cons d ds => exact absurd (List.cons.inj hcs).1.symm (digitChar_ne_plus d)
      | @signed ds some_digit => exact ⟨ds, some_digit, (List.cons.inj hcs).2, rfl⟩
  case h_3 hempty hsigned =>
    rw [parseDigits_zero hempty]
    refine and_congr_left fun _ => ⟨?_, fun h => ?_⟩
    · rintro ⟨ds, hds, rfl, rfl⟩
      exact .plain hds
    · cases h with
      | @plain ds some_digit => exact ⟨ds, some_digit, rfl, rfl⟩
      | @signed ds some_digit =>
        cases ds with
        | nil => exact absurd rfl some_digit
        | cons d ds => exact absurd rfl (hsigned (digitChar d) (ds.map digitChar))

theorem Spells.unique {cs : List Char} {n n' : Nat} (h : Spells cs n) (h' : Spells cs n') : n = n' := by
  have hn := (parse_eq_ok_iff (max n n' + 1) cs n).2 ⟨h, by omega⟩
  have hn' := (parse_eq_ok_iff (max n n' + 1) cs n').2 ⟨h', by omega⟩
  rw [hn] at hn'
  exact Except.ok.inj hn'

end DurableBus.Numeral
