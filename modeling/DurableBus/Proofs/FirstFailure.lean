/-!
# The first failure

What is done one after the other and stops at the first failure is judged by checks in the same order.

* `FirstFailing` : the first check that fails, of which there is one exactly if some check fails;
* `mapM_eq_error_iff` : what is done for each item of a list;
* `Judged` : what can come of steps, with a check for each; `Judged.bind` adds one in front.
-/

set_option autoImplicit false

namespace DurableBus

variable {κ ε α β : Type}

/-- The first of several checks that fails. -/
def FirstFailing (P : κ → Prop) (checks : List κ) (k : κ) : Prop :=
  ∃ before after, checks = before ++ k :: after ∧ (∀ k' ∈ before, P k') ∧ ¬ P k

section

variable {P : κ → Prop} {checks : List κ} {k k' : κ}

theorem firstFailing_nil : ¬ FirstFailing P [] k := by
  rintro ⟨before, after, heq, -⟩
  simp at heq

theorem firstFailing_cons :
    FirstFailing P (k' :: checks) k ↔ (¬ P k' ∧ k = k') ∨ (P k' ∧ FirstFailing P checks k) := by
  constructor
  · rintro ⟨before, after, heq, hbefore, hfails⟩
    cases before with
    | nil =>
      obtain ⟨rfl, rfl⟩ := List.cons.inj heq
      exact .inl ⟨hfails, rfl⟩
    | cons k'' before =>
      obtain ⟨rfl, rfl⟩ := List.cons.inj heq
      obtain ⟨hholds, hbefore⟩ := List.forall_mem_cons.1 hbefore
      exact .inr ⟨hholds, before, after, rfl, hbefore, hfails⟩
  · rintro (⟨hfails, rfl⟩ | ⟨hholds, before, after, rfl, hbefore, hfails⟩)
    · exact ⟨[], checks, rfl, List.forall_mem_nil _, hfails⟩
    · exact ⟨k' :: before, after, rfl, List.forall_mem_cons.2 ⟨hholds, hbefore⟩, hfails⟩

theorem FirstFailing.mem (h : FirstFailing P checks k) : k ∈ checks := by
  obtain ⟨before, after, rfl, -, -⟩ := h
  simp

theorem FirstFailing.fails (h : FirstFailing P checks k) : ¬ P k := by
  obtain ⟨before, after, -, -, hfails⟩ := h
  exact hfails

theorem FirstFailing.unique (h : FirstFailing P checks k) (h' : FirstFailing P checks k') : k = k' := by
  induction checks with
  | nil => exact absurd h firstFailing_nil
  | cons c checks ih =>
    rw [firstFailing_cons] at h h'
    obtain ⟨hfails, rfl⟩ | ⟨hholds, h⟩ := h
    · obtain ⟨-, rfl⟩ | ⟨hholds, -⟩ := h'
      · rfl
      · exact absurd hholds hfails
    · obtain ⟨hfails, -⟩ | ⟨-, h'⟩ := h'
      · exact absurd hholds hfails
      · exact ih h h'

theorem exists_firstFailing_iff : (∃ k, FirstFailing P checks k) ↔ ∃ k ∈ checks, ¬ P k := by
  induction checks with
  | nil => simp [firstFailing_nil]
  | cons c checks ih =>
    by_cases hc : P c
    · simp [firstFailing_cons, hc, ih]
    · simp [firstFailing_cons, hc]

end

/-- **What is done for each item fails as it does for the first item for which it fails.** -/
theorem mapM_eq_error_iff (f : α → Except ε β) (as : List α) (e : ε) :
    as.mapM f = .error e ↔ ∃ a, FirstFailing (fun a => ∃ b, f a = .ok b) as a ∧ f a = .error e := by
  induction as with
  | nil => simp [firstFailing_nil, pure, Except.pure]
  | cons a as ih =>
    rw [List.mapM_cons]
    cases ha : f a with
    | error e' => simp [firstFailing_cons, ha, bind, Except.bind]
    | ok b =>
      have htail : (do let bs ← as.mapM f; pure (b :: bs) : Except ε (List β)) = .error e ↔ as.mapM f = .error e := by
        cases as.mapM f <;> simp [bind, Except.bind, pure, Except.pure]
      refine htail.trans (ih.trans ?_)
      simp [firstFailing_cons, ha]

/-- What can come of steps with a check for each: either all is well, or it is as the first check blames that fails. -/
def Judged (P : κ → Prop) (blames : κ → ε → Prop) (checks : List κ) (good : β → Prop) (r : Except ε β) : Prop :=
  (∃ b, r = .ok b ∧ (∀ k ∈ checks, P k) ∧ good b) ∨ ∃ k e, r = .error e ∧ FirstFailing P checks k ∧ blames k e

namespace Judged

variable {P : κ → Prop} {blames : κ → ε → Prop} {checks before after : List κ} {k : κ} {good : β → Prop}

/-- A step whose check fails ends everything. -/
theorem fails (place : checks = before ++ k :: after) (hbefore : ∀ k' ∈ before, P k') (hfails : ¬ P k) {e : ε}
    (he : blames k e) : Judged P blames checks good (.error e) :=
  .inr ⟨k, e, rfl, ⟨before, after, place, hbefore, hfails⟩, he⟩

/-- A step is taken if its check succeeds, and then the next. -/
theorem bind {step : Except ε α} {next : α → Except ε β} (place : checks = before ++ k :: after)
    (hbefore : ∀ k' ∈ before, P k') (hstep : (∃ a, step = .ok a ∧ P k) ∨ ∃ e, step = .error e ∧ ¬ P k ∧ blames k e)
    (hnext : ∀ a, step = .ok a → (∀ k' ∈ before ++ [k], P k') → Judged P blames checks good (next a)) :
    Judged P blames checks good (step >>= next) := by
  obtain ⟨a, rfl, hholds⟩ | ⟨e, rfl, hfails, he⟩ := hstep
  · refine hnext a rfl fun k' hk' => ?_
    obtain hk' | hk' := List.mem_append.1 hk'
    · exact hbefore k' hk'
    · rwa [List.mem_singleton.1 hk']
  · exact fails place hbefore hfails he

variable {r : Except ε β}

theorem ok_iff (h : Judged P blames checks good r) : (∃ b, r = .ok b) ↔ ∀ k ∈ checks, P k := by
  obtain ⟨b, rfl, hall, -⟩ | ⟨k, e, rfl, hfirst, -⟩ := h
  · exact ⟨fun _ => hall, fun _ => ⟨b, rfl⟩⟩
  · exact ⟨nofun, fun hall => absurd (hall k hfirst.mem) hfirst.fails⟩

theorem good_of_ok (h : Judged P blames checks good r) {b : β} (hb : r = .ok b) : good b := by
  obtain ⟨b', rfl, -, hgood⟩ | ⟨k, e, rfl, -⟩ := h
  · cases hb
    exact hgood
  · cases hb

theorem error_blames (h : Judged P blames checks good r) {e : ε} (he : r = .error e) :
    ∃ k, FirstFailing P checks k ∧ blames k e := by
  obtain ⟨b, rfl, -⟩ | ⟨k, e', rfl, hfirst, hblames⟩ := h
  · cases he
  · cases he
    exact ⟨k, hfirst, hblames⟩

theorem error_iff (h : Judged P blames checks good r) : (∃ e, r = .error e) ↔ ∃ k ∈ checks, ¬ P k := by
  rw [← exists_firstFailing_iff]
  obtain ⟨b, rfl, hall, -⟩ | ⟨k, e, rfl, hfirst, -⟩ := h
  · exact ⟨nofun, fun ⟨k, hk⟩ => absurd (hall k hk.mem) hk.fails⟩
  · exact ⟨fun _ => ⟨k, hfirst⟩, fun _ => ⟨e, rfl⟩⟩

end Judged

end DurableBus
