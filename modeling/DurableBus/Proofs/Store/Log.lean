import DurableBus.Store.InMemory

/-!
# Logs searched by halving

* `bisect_spec` : where `bisect` stops, for a test that once it fails keeps failing;
* `drop_eq_filter` : dropping what comes first is filtering, if the rest is exactly what passes;
* `logAfter_eq_filter` : in a log with ascending offsets, the search behind an offset finds exactly the messages with a
  greater offset, in order.
-/

set_option autoImplicit false

namespace DurableBus

/-! ## Halving -/

/-- `bisect` stops within its range; `below` holds at every place before the stop and at none from there on. -/
theorem bisect_spec (below : Nat → Bool) (low count : Nat)
    (mono : ∀ i j, low ≤ i → i ≤ j → j < low + count → below j → below i) :
    low ≤ bisect below low count ∧ bisect below low count ≤ low + count ∧
      (∀ i, low ≤ i → i < bisect below low count → below i) ∧
      ∀ i, bisect below low count ≤ i → i < low + count → ¬ below i := by
  fun_induction bisect below low count with
  | case1 low => exact ⟨Nat.le_refl _, by omega, fun i h1 h2 => by omega, fun i h1 h2 => by omega⟩
  | case2 low count hpos half hbelow ih =>
    have hhalf : half < count := Nat.div_lt_self (by omega) (by decide)
    obtain ⟨h1, h2, h3, h4⟩ := ih fun i j hi hij hj => mono i j (by omega) hij (by omega)
    refine ⟨by omega, by omega, fun i hi hlt => ?_, fun i hle hlt => h4 i hle (by omega)⟩
    by_cases hle : i ≤ low + half
    · exact mono i (low + half) hi hle (by omega) hbelow
    · exact h3 i (by omega) hlt
  | case3 low count hpos half hbelow ih =>
    have hhalf : half < count := Nat.div_lt_self (by omega) (by decide)
    obtain ⟨h1, h2, h3, h4⟩ := ih fun i j hi hij hj => mono i j hi hij (by omega)
    refine ⟨h1, by omega, h3, fun i hle hlt => ?_⟩
    by_cases hge : low + half ≤ i
    · exact fun hi => hbelow (mono (low + half) i (by omega) hge hlt hi)
    · exact h4 i hle (by omega)

/-! ## Logs -/

theorem drop_eq_filter {α : Type} (p : α → Bool) (xs : List α) (k : Nat)
    (before : ∀ i (h : i < xs.length), i < k → ¬ p xs[i]) (behind : ∀ i (h : i < xs.length), k ≤ i → p xs[i]) :
    xs.drop k = xs.filter p := by
  have htake : (xs.take k).filter p = [] := by
    rw [List.filter_eq_nil_iff]
    intro x hx
    obtain ⟨i, hi, rfl⟩ := List.mem_take_iff_getElem.1 hx
    exact before i (by omega) (by omega)
  have hdrop : (xs.drop k).filter p = xs.drop k := by
    rw [List.filter_eq_self]
    intro x hx
    obtain ⟨i, hi, rfl⟩ := List.mem_drop_iff_getElem.1 hx
    exact behind (k + i) (by omega) (by omega)
  rw [← List.take_append_drop k xs, List.filter_append, htake, hdrop, List.nil_append, List.take_append_drop]

/-- **The messages behind an offset**, found by halving, are those with a greater offset. -/
theorem logAfter_eq_filter {log : Array Stored} (ascending : log.toList.Pairwise (·.offset < ·.offset))
    (offset : Int) : logAfter log offset = log.toList.filter (offset < ·.offset) := by
  have hsorted : ∀ i j (hj : j < log.size), (h : i < j) → log[i].offset < log[j].offset := by
    intro i j hj h
    have := List.pairwise_iff_getElem.1 ascending i j (by simp; omega) (by simpa using hj) h
    rwa [Array.getElem_toList, Array.getElem_toList] at this
  have hany : ∀ i (hi : i < log.size), log[i]?.any (·.offset ≤ offset) = decide (log[i].offset ≤ offset) := by
    intro i hi
    rw [Array.getElem?_eq_getElem hi, Option.any_some]
  obtain ⟨-, hstop, hbefore, hbehind⟩ := bisect_spec (fun i => log[i]?.any (·.offset ≤ offset)) 0 log.size (by
    intro i j _ hij hj hbelow
    rw [hany j (by omega), decide_eq_true_eq] at hbelow
    rw [hany i (by omega), decide_eq_true_eq]
    rcases Nat.lt_or_eq_of_le hij with hlt | rfl
    · have := hsorted i j (by omega) hlt
      omega
    · exact hbelow)
  unfold logAfter
  refine drop_eq_filter _ _ _ (fun i hi hlt => ?_) (fun i hi hle => ?_)
  · have := hbefore i (Nat.zero_le _) hlt
    rw [hany i (by simpa using hi), decide_eq_true_eq] at this
    simp only [Array.getElem_toList, decide_eq_true_eq]
    omega
  · have := hbehind i hle (by simpa using hi)
    rw [hany i (by simpa using hi), decide_eq_true_eq] at this
    simp only [Array.getElem_toList, decide_eq_true_eq]
    omega

end DurableBus
