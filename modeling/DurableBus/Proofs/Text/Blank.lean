import Mathlib.Data.List.DropRight
import DurableBus.Text.Blank

/-!
# Blanks around a text

* `Pads` : a text with blanks around it;
* `trimBlanks_eq_iff` : what is left of a text when blanks are taken away;
* `trimBlanks_pads` : more blanks make no difference.
-/

set_option autoImplicit false

namespace DurableBus

/-- A text with blanks in front of it and behind it. -/
def Pads (core text : List Char) : Prop :=
  ∃ left right, text = left ++ core ++ right ∧ (∀ c ∈ left, isBlank c = true) ∧ ∀ c ∈ right, isBlank c = true

variable {core text : List Char}

theorem pads_trimBlanks (text : List Char) : Pads (trimBlanks text) text := by
  have hleft : text = text.takeWhile isBlank ++ text.dropWhile isBlank := List.takeWhile_append_dropWhile.symm
  have hright : text.dropWhile isBlank = trimBlanks text ++ (text.dropWhile isBlank).rtakeWhile isBlank :=
    (List.rdropWhile_append_rtakeWhile ..).symm
  refine ⟨text.takeWhile isBlank, (text.dropWhile isBlank).rtakeWhile isBlank, ?_, fun c hc => ?_, fun c hc => ?_⟩
  · rw [List.append_assoc, ← hright, ← hleft]
  · exact List.mem_takeWhile_imp hc
  · exact List.mem_rtakeWhile_imp hc

/-- **More blanks make no difference.** -/
theorem trimBlanks_pads (h : Pads core text) : trimBlanks text = trimBlanks core := by
  obtain ⟨left, right, rfl, hleft, hright⟩ := h
  have hnone : right.dropWhile isBlank = [] := List.dropWhile_eq_nil_iff.2 hright
  have hright' : ∀ c ∈ right.reverse, isBlank c = true := fun c hc => hright c (List.mem_reverse.1 hc)
  unfold trimBlanks
  rw [List.append_assoc, List.dropWhile_append_of_pos hleft, List.dropWhile_append]
  split
  case isTrue hempty => rw [hnone, List.isEmpty_iff.1 hempty]
  case isFalse => rw [List.reverse_append, List.dropWhile_append_of_pos hright']

theorem trimBlanks_of_forall {cs : List Char} (h : ∀ c ∈ cs, isBlank c = false) : trimBlanks cs = cs := by
  have hdrop : ∀ ds : List Char, (∀ c ∈ ds, isBlank c = false) → ds.dropWhile isBlank = ds := by
    intro ds hds
    cases ds with
    | nil => rfl
    | cons d rest => rw [List.dropWhile_cons_of_neg (by simp [hds d List.mem_cons_self])]
  unfold trimBlanks
  rw [hdrop cs h, hdrop cs.reverse fun c hc => h c (List.mem_reverse.1 hc), List.reverse_reverse]

/-- **Text without blanks is what is left exactly of what pads it.** -/
theorem trimBlanks_eq_iff (h : ∀ c ∈ core, isBlank c = false) : trimBlanks text = core ↔ Pads core text := by
  constructor
  · rintro rfl
    exact pads_trimBlanks text
  · intro hpads
    rw [trimBlanks_pads hpads, trimBlanks_of_forall h]

end DurableBus
