import Mathlib.Data.List.Induction

/-!
# What is seen of a machine

A `chronicle` lists what is seen of a machine along a course, one step after the other. It is `Founded` if every entry
is justified by those before it.
-/

set_option autoImplicit false

namespace DurableBus

variable {σ κ γ : Type}

/-- What is seen of a machine along a course. -/
def chronicle (step : σ → κ → σ) (seen : σ → κ → List γ) : σ → List κ → List γ
  | _, [] => []
  | s, c :: rest => seen s c ++ chronicle step seen (step s c) rest

section Chronicle

variable {step : σ → κ → σ} {seen : σ → κ → List γ}

theorem chronicle_append (s : σ) (earlier later : List κ) :
    chronicle step seen s (earlier ++ later) =
      chronicle step seen s earlier ++ chronicle step seen (earlier.foldl step s) later := by
  induction earlier generalizing s with
  | nil => rfl
  | cons c rest ih => simp only [List.cons_append, chronicle, ih, List.append_assoc, List.foldl_cons]

theorem chronicle_concat (s : σ) (course : List κ) (c : κ) :
    chronicle step seen s (course ++ [c]) = chronicle step seen s course ++ seen (course.foldl step s) c := by
  rw [chronicle_append]
  simp [chronicle]

theorem mem_chronicle {s : σ} {course : List κ} {x : γ} :
    x ∈ chronicle step seen s course ↔
      ∃ earlier c later, course = earlier ++ c :: later ∧ x ∈ seen (earlier.foldl step s) c := by
  induction course generalizing s with
  | nil => simp [chronicle]
  | cons c rest ih =>
    rw [chronicle, List.mem_append, ih]
    constructor
    · rintro (h | ⟨earlier, c', later, rfl, h⟩)
      · exact ⟨[], c, rest, rfl, h⟩
      · exact ⟨c :: earlier, c', later, rfl, h⟩
    · rintro ⟨_ | ⟨c', earlier⟩, c'', later, heq, h⟩
      · obtain ⟨rfl, rfl⟩ := List.cons.inj heq
        exact .inl h
      · obtain ⟨rfl, rfl⟩ := List.cons.inj heq
        exact .inr ⟨earlier, c'', later, rfl, h⟩

end Chronicle

/-- Every entry is justified by those before it. -/
def Founded (justified : List γ → γ → Prop) (told : List γ) : Prop :=
  ∀ before x after, told = before ++ x :: after → justified before x

section Founded

variable {justified : List γ → γ → Prop} {told told' : List γ} {x : γ}

@[simp] theorem founded_nil : Founded justified [] := by
  intro before x after h
  simp at h

@[simp] theorem founded_cons :
    Founded justified (x :: told) ↔ justified [] x ∧ Founded (fun before => justified (x :: before)) told := by
  constructor
  · intro h
    exact ⟨h [] x told rfl, fun before y after htold => h (x :: before) y after (by rw [htold]; rfl)⟩
  · rintro ⟨hfirst, hrest⟩ before y after htold
    cases before with
    | nil =>
      obtain ⟨rfl, -⟩ := List.cons.inj htold
      exact hfirst
    | cons x' before =>
      obtain ⟨rfl, rfl⟩ := List.cons.inj htold
      exact hrest before y after rfl

theorem Founded.append (h : Founded justified told)
    (more : Founded (fun before => justified (told ++ before)) told') : Founded justified (told ++ told') := by
  induction told generalizing justified with
  | nil => exact more
  | cons x rest ih =>
    rw [founded_cons] at h
    rw [List.cons_append, founded_cons]
    exact ⟨h.1, ih h.2 more⟩

end Founded

end DurableBus
