import Mathlib.Data.List.Chain
import Mathlib.Order.Monotone.Basic
import DurableBus.Proofs.Retry.Schedule
import DurableBus.Retry.Loop

/-!
# What a repeated operation does

A `Trial` is a repeated operation with its token, on its own. Attempts end as they like, the token fires when it likes,
also inside an attempt or a report, and the operation is looked at whenever somebody likes: a course is any list of such
occasions. What the operation does on a course is its history.

* `Round`, `story`, `Closes` : the history of attempts that are each followed by another, and of the last one;
* `Account.step`, `account_history` : every history is told so, as far as it has come;
* `Punctual`, `punctual_history` : when things are done, if time passes only while the operation waits;
* `left_step`, `eventually_over` : the operation comes to its end, if it gets what it waits for;
* `attempts_told` : all of it, for every policy and every course.
-/

set_option autoImplicit false

namespace DurableBus

theorem Instant.le_alarm (now : Instant) (d : Duration) : now ≤ now.alarm d := by
  unfold Instant.alarm
  split <;> exact Nat.le_add_right _ _

namespace Retry

variable {ε : Type} {p : RetryPolicy}

/-- Goes on: the next attempt begins, or the clock and the token are looked at. -/
def proceed (p : RetryPolicy) (now : Instant) (cancelled : Bool) : Retry ε → Retry ε
  | .ready n delay => (Retry.ready n delay).begin
  | r => r.look p now cancelled

/-- Whether there is something to go on with. -/
def isDue (now : Instant) (cancelled : Bool) : Retry ε → Bool
  | .ready _ _ | .reported _ _ _ => true
  | .resting _ _ _ wakeAt => cancelled || wakeAt ≤ now
  | .running _ _ | .over _ => false

theorem finish_last {n : Nat} (h : p.maxAttempts ≤ n) (delay : Duration) (e : ε) :
    (running n delay).finish p (.error e) = .over (.error ⟨n, false, e⟩) := if_pos h

theorem finish_more {n : Nat} (h : n < p.maxAttempts) (delay : Duration) (e : ε) :
    (running n delay).finish p (.error e) = .reported n delay e := if_neg (Nat.not_le.2 h)

theorem look_due {now wakeAt : Instant} (h : wakeAt ≤ now) (n : Nat) (delay : Duration) (e : ε) :
    (resting n delay e wakeAt).look p now false = .ready (n + 1) (p.nextDelay delay) := if_pos h

theorem look_early {now wakeAt : Instant} (h : ¬ wakeAt ≤ now) (n : Nat) (delay : Duration) (e : ε) :
    (resting n delay e wakeAt).look p now false = .resting n delay e wakeAt := if_neg h

/-! ## Trials -/

/-- A repeated operation with its token, at an instant. -/
structure Trial (ε : Type) where
  now : Instant
  /-- When the token fired, if it has. -/
  fired : Option Instant
  loop : Retry ε

/-- What may happen to an operation. -/
inductive Happening (ε : Type)
  | fire
  | look
  /-- The running attempt ends. -/
  | finish (outcome : Except ε Unit)

/-- Something happens at an instant. -/
abbrev Occasion (ε : Type) := Instant × Happening ε

/-- What an operation does. -/
inductive Deed (ε : Type)
  | begins (n : Nat)
  | ends (n : Nat) (outcome : Except ε Unit)
  /-- A failure is reported, with the wait that is to follow. -/
  | reports (n : Nat) (delay : Duration) (error : ε)
  | rests (delay : Duration) (wakeAt : Instant)
  | wakes
  | returns (result : Except (RetryError ε) Nat)

/-- An instant, and when the token had fired by then. -/
structure Moment where
  now : Instant
  fired : Option Instant

/-- What is done when an operation comes to a state. -/
def arrival : Retry ε → Deed ε
  | .ready _ _ => .wakes
  | .running n _ => .begins n
  | .reported n delay e => .reports n delay e
  | .resting _ delay _ wakeAt => .rests delay wakeAt
  | .over result => .returns result

namespace Trial

def start (p : RetryPolicy) (began : Instant) : Trial ε := ⟨began, none, .start p⟩

/-- Something happens. The end of an attempt that is not running changes nothing. -/
def step (p : RetryPolicy) (t : Trial ε) (o : Occasion ε) : Trial ε :=
  match o.2 with
  | .fire => { t with now := o.1, fired := t.fired.or (some o.1) }
  | .look => { t with now := o.1, loop := t.loop.proceed p o.1 t.fired.isSome }
  | .finish outcome => { t with now := o.1, loop := t.loop.finish p outcome }

def deeds (p : RetryPolicy) (t : Trial ε) (o : Occasion ε) : List (Deed ε) :=
  match o.2, t.loop with
  | .finish outcome, .running n _ => [.ends n outcome, (t.step p o).loop.arrival]
  | .look, loop => if loop.isDue o.1 t.fired.isSome then [(t.step p o).loop.arrival] else []
  | _, _ => []

def run (p : RetryPolicy) (t : Trial ε) (course : List (Occasion ε)) : Trial ε := course.foldl (step p) t

def history (p : RetryPolicy) : Trial ε → List (Occasion ε) → List (Moment × Deed ε)
  | _, [] => []
  | t, o :: rest => (t.deeds p o).map (⟨o.1, t.fired⟩, ·) ++ history p (t.step p o) rest

end Trial

/-! ## Histories -/

/-- An attempt that failed and was followed by another one. -/
structure Round (ε : Type) where
  begun : Moment
  ended : Moment
  error : ε
  delay : Duration
  rested : Moment
  woken : Moment

def Round.deeds (n : Nat) (r : Round ε) : List (Moment × Deed ε) :=
  [(r.begun, .begins n), (r.ended, .ends n (.error r.error)), (r.ended, .reports n r.delay r.error),
    (r.rested, .rests r.delay (r.rested.now.alarm r.delay)), (r.woken, .wakes)]

/-- What is done in rounds whose first attempt is the `n`-th. -/
def story (n : Nat) : List (Round ε) → List (Moment × Deed ε)
  | [] => []
  | r :: rest => r.deeds n ++ story (n + 1) rest

theorem story_concat (n : Nat) (rounds : List (Round ε)) (r : Round ε) :
    story n (rounds ++ [r]) = story n rounds ++ r.deeds (n + rounds.length) := by
  induction rounds generalizing n with
  | nil => exact List.append_nil _
  | cons r' rest ih =>
    show r'.deeds n ++ story (n + 1) (rest ++ [r]) = (r'.deeds n ++ story (n + 1) rest) ++ _
    rw [ih, List.append_assoc, List.length_cons, Nat.add_assoc, Nat.add_comm 1]

/-- How the last attempt goes, if it is the `n`-th: it succeeds, or it fails and is the last that the policy allows, or
it fails and the token fires before the wait behind it is over. -/
inductive Closes (p : RetryPolicy) (n : Nat) : List (Moment × Deed ε) → Except (RetryError ε) Nat → Prop
  | succeeded {b e} : Closes p n [(b, .begins n), (e, .ends n (.ok ())), (e, .returns (.ok n))] (.ok n)
  | exhausted {b e x} (last : n = p.maxAttempts) :
      Closes p n [(b, .begins n), (e, .ends n (.error x)), (e, .returns (.error ⟨n, false, x⟩))]
        (.error ⟨n, false, x⟩)
  | cancelled {b e x d c} (more : p.delays[n - 1]? = some d) (fired : c.fired.isSome) :
      Closes p n [(b, .begins n), (e, .ends n (.error x)), (e, .reports n d x), (c, .returns (.error ⟨n, true, x⟩))]
        (.error ⟨n, true, x⟩)
  | woken {b e x d s c} (more : p.delays[n - 1]? = some d) (fired : c.fired.isSome) :
      Closes p n [(b, .begins n), (e, .ends n (.error x)), (e, .reports n d x), (s, .rests d (s.now.alarm d)),
        (c, .returns (.error ⟨n, true, x⟩))] (.error ⟨n, true, x⟩)

/-- How far the latest attempt has come, and what has been done for it. -/
inductive Stands (p : RetryPolicy) (n : Nat) : List (Moment × Deed ε) → Retry ε → Prop
  | ready : Stands p n [] (.ready n (p.delay (n - 1)))
  | running {b} : Stands p n [(b, .begins n)] (.running n (p.delay (n - 1)))
  | reported {b e x} (more : n < p.maxAttempts) :
      Stands p n [(b, .begins n), (e, .ends n (.error x)), (e, .reports n (p.delay (n - 1)) x)]
        (.reported n (p.delay (n - 1)) x)
  | resting {b e x s} (more : n < p.maxAttempts) :
      Stands p n [(b, .begins n), (e, .ends n (.error x)), (e, .reports n (p.delay (n - 1)) x),
        (s, .rests (p.delay (n - 1)) (s.now.alarm (p.delay (n - 1))))]
        (.resting n (p.delay (n - 1)) x (s.now.alarm (p.delay (n - 1))))
  | over {chapter result} (closes : Closes p n chapter result) : Stands p n chapter (.over result)

/-- Attempts that are each followed by another one: their waits are the first of the policy, no wait is cut short, and
the token has not fired before it is over. -/
structure Repeated (p : RetryPolicy) (rounds : List (Round ε)) : Prop where
  bounded : rounds.length < p.maxAttempts
  delays : rounds.map (·.delay) = p.delays.take rounds.length
  unfired : ∀ r ∈ rounds, r.woken.fired = none
  rested : ∀ r ∈ rounds, r.rested.now.alarm r.delay ≤ r.woken.now

/-- A history is one of attempts that were each followed by another, and of the latest one. -/
def Account (p : RetryPolicy) (history : List (Moment × Deed ε)) (loop : Retry ε) : Prop :=
  ∃ rounds chapter, history = story 1 rounds ++ chapter ∧ Repeated p rounds ∧
    Stands p (rounds.length + 1) chapter loop

variable {t : Trial ε} {told : List (Moment × Deed ε)}

theorem repeated_nil (p : RetryPolicy) : Repeated p ([] : List (Round ε)) where
  bounded := p.maxAttempts_pos
  delays := rfl
  unfired _ h := by cases h
  rested _ h := by cases h

theorem Repeated.concat {rounds : List (Round ε)} (h : Repeated p rounds) {r : Round ε}
    (more : rounds.length + 1 < p.maxAttempts) (delay : r.delay = p.delay rounds.length)
    (unfired : r.woken.fired = none) (rested : r.rested.now.alarm r.delay ≤ r.woken.now) :
    Repeated p (rounds ++ [r]) := by
  have hlength : rounds.length < p.delays.length := by
    rw [p.length_delays]
    omega
  have hnext : p.delays[rounds.length] = p.delay rounds.length :=
    Option.some.inj ((List.getElem?_eq_getElem hlength).symm.trans (p.getElem?_delays more))
  refine ⟨?_, ?_, ?_, ?_⟩
  · rwa [List.length_append]
  · rw [List.map_append, h.delays, List.length_append, List.length_singleton, ← List.take_append_getElem hlength, hnext,
      List.map_singleton, delay]
  · exact List.forall_mem_append.2 ⟨h.unfired, List.forall_mem_singleton.2 unfired⟩
  · exact List.forall_mem_append.2 ⟨h.rested, List.forall_mem_singleton.2 rested⟩

theorem account_start (p : RetryPolicy) : Account p [] (.start p : Retry ε) :=
  ⟨[], [], rfl, repeated_nil p, .ready⟩

theorem account_append {rounds : List (Round ε)} {chapter deeds : List (Moment × Deed ε)} {loop : Retry ε}
    (is : told = story 1 rounds ++ chapter) (repeated : Repeated p rounds)
    (stands : Stands p (rounds.length + 1) (chapter ++ deeds) loop) : Account p (told ++ deeds) loop :=
  ⟨rounds, chapter ++ deeds, by rw [is, List.append_assoc], repeated, stands⟩

/-- The wait is over, and with it the round. -/
theorem account_woken {rounds : List (Round ε)} {b e s c : Moment} {x : ε} (repeated : Repeated p rounds)
    (more : rounds.length + 1 < p.maxAttempts) (unfired : c.fired = none)
    (due : s.now.alarm (p.delay rounds.length) ≤ c.now)
    (is : told = story 1 rounds ++ [(b, .begins (rounds.length + 1)), (e, .ends (rounds.length + 1) (.error x)),
      (e, .reports (rounds.length + 1) (p.delay rounds.length) x),
      (s, .rests (p.delay rounds.length) (s.now.alarm (p.delay rounds.length)))]) :
    Account p (told ++ [(c, .wakes)]) (.ready (rounds.length + 2) (p.delay (rounds.length + 1))) := by
  refine ⟨rounds ++ [⟨b, e, x, p.delay rounds.length, s, c⟩], [], ?_, repeated.concat more rfl unfired due, ?_⟩
  · rw [is, story_concat, List.append_nil, Nat.add_comm 1, List.append_assoc]
    rfl
  · rw [List.length_append]
    exact .ready

/-- **Whatever happens, the history is told so.** -/
theorem Account.step (h : Account p told t.loop) (o : Occasion ε) :
    Account p (told ++ (t.deeds p o).map (⟨o.1, t.fired⟩, ·)) (t.step p o).loop := by
  obtain ⟨rounds, chapter, is, repeated, stands⟩ := h
  obtain ⟨now, happening⟩ := o
  obtain ⟨before, fired, loop⟩ := t
  have hstill : Stands p (rounds.length + 1) (chapter ++ []) loop := (List.append_nil chapter).symm ▸ stands
  dsimp only at stands
  cases happening with
  | fire => exact account_append is repeated hstill
  | finish outcome =>
    cases stands with
    | @running b =>
      refine account_append is repeated ?_
      rcases outcome with x | ⟨⟩
      case ok => exact .over .succeeded
      case error =>
        simp only [Trial.deeds, Trial.step, Nat.add_sub_cancel]
        by_cases hlast : p.maxAttempts ≤ rounds.length + 1
        · have hbounded := repeated.bounded
          rw [finish_last hlast]
          exact .over (.exhausted (by omega))
        · rw [finish_more (Nat.lt_of_not_le hlast)]
          exact .reported (Nat.lt_of_not_le hlast)
    | ready | reported | resting | «over» => exact account_append is repeated hstill
  | look =>
    cases stands with
    | ready => exact account_append is repeated .running
    | running | «over» => exact account_append is repeated hstill
    | @reported b e x more =>
      cases fired with
      | some f => exact account_append is repeated (.over (.cancelled (p.getElem?_delays more) rfl))
      | none => exact account_append is repeated (.resting more)
    | @resting b e x s more =>
      cases fired with
      | some f => exact account_append is repeated (.over (.woken (p.getElem?_delays more) rfl))
      | none =>
        simp only [Nat.add_sub_cancel] at is hstill ⊢
        simp only [Trial.deeds, Trial.step, proceed, isDue, Option.isSome_none, Bool.false_or]
        by_cases hdue : s.now.alarm (p.delay rounds.length) ≤ now
        · rw [look_due hdue, if_pos (decide_eq_true hdue)]
          exact account_woken repeated more rfl hdue is
        · rw [look_early hdue, if_neg (by simpa using hdue)]
          exact account_append is repeated hstill

theorem account_history (h : Account p told t.loop) (course : List (Occasion ε)) :
    Account p (told ++ t.history p course) (t.run p course).loop := by
  induction course generalizing t told with
  | nil =>
    rw [Trial.history, List.append_nil]
    exact h
  | cons o rest ih =>
    rw [Trial.history, ← List.append_assoc]
    exact ih (h.step o)

/-! ## When things are done -/

namespace Trial

/-- When the operation goes on by itself, if a timer that is set for an instant goes off at `ring` of it. -/
def due? (ring : Instant → Instant) (t : Trial ε) : Option Instant :=
  match t.loop with
  | .ready _ _ | .reported _ _ _ => some t.now
  | .resting _ _ _ wakeAt => some (if t.fired.isSome then t.now else ring wakeAt)
  | .running _ _ | .over _ => none

/-- Time passes only while the operation waits, and the operation is not looked at before it can go on. -/
structure IsPrompt (ring : Instant → Instant) (t : Trial ε) (o : Occasion ε) : Prop where
  later : t.now ≤ o.1
  early : ∀ due, t.due? ring = some due → o.1 ≤ due
  due : o.2 = .look → ∀ due, t.due? ring = some due → due ≤ o.1

theorem IsPrompt.of_due {ring : Instant → Instant} {t : Trial ε} {o : Occasion ε} {due : Instant}
    (h : t.due? ring = some due) (now : o.1 = due) (later : t.now ≤ due) : t.IsPrompt ring o where
  later := now ▸ later
  early _ h' := Nat.le_of_eq (now.trans (Option.some.inj (h.symm.trans h')))
  due _ _ h' := Nat.le_of_eq (now.trans (Option.some.inj (h.symm.trans h'))).symm

theorem IsPrompt.of_none {ring : Instant → Instant} {t : Trial ε} {o : Occasion ε} (h : t.due? ring = none)
    (later : t.now ≤ o.1) : t.IsPrompt ring o where
  later := later
  early _ h' := nomatch h.symm.trans h'
  due _ _ h' := nomatch h.symm.trans h'

theorem due?_resting {ring : Instant → Instant} {t : Trial ε} {n : Nat} {delay : Duration} {e : ε} {wakeAt : Instant}
    (h : t.loop = .resting n delay e wakeAt) (unfired : t.fired = none) : t.due? ring = some (ring wakeAt) := by
  unfold due?
  rw [h, unfired]
  rfl

/-- All of a course is prompt. -/
def AllPrompt (ring : Instant → Instant) (p : RetryPolicy) : Trial ε → List (Occasion ε) → Prop
  | _, [] => True
  | t, o :: rest => t.IsPrompt ring o ∧ AllPrompt ring p (t.step p o) rest

end Trial

/-- What time there is between one deed and the next. An attempt takes its time, a wait lasts until its timer goes off,
and a failure that is not followed by another attempt is returned when the token fires, or at once if it has fired.
Everything else is done at once. -/
def Punctual (ring : Instant → Instant) : Moment × Deed ε → Moment × Deed ε → Prop
  | (m, .begins _), (m', _) => m.now ≤ m'.now
  | (m, .reports _ _ _), (m', .returns _) | (m, .rests _ _), (m', .returns _) =>
    ∃ f, m'.fired = some f ∧ m'.now = max m.now f
  | (_, .rests _ wakeAt), (m', _) => m'.now = ring wakeAt
  | (m, _), (m', _) => m'.now = m.now

/-- A history that begins at an instant and leaves no other time between its deeds. -/
structure Timed (ring : Instant → Instant) (began : Instant) (told : List (Moment × Deed ε)) : Prop where
  first : ∀ m d, told.head? = some (m, d) → m.now = began
  chain : told.IsChain (Punctual ring)

/-- What was done last, and how long ago. -/
def Recalls (ring : Instant → Instant) (began : Instant) (t : Trial ε) (last : Option (Moment × Deed ε)) : Prop :=
  match t.loop with
  | .ready _ _ => last = none ∧ t.now = began ∨ ∃ m, last = some (m, .wakes) ∧ t.now = m.now
  | .running n _ => ∃ m, last = some (m, .begins n) ∧ m.now ≤ t.now
  | .reported n delay e => ∃ m, last = some (m, .reports n delay e) ∧ t.now = m.now
  | .resting _ _ _ wakeAt => ∃ m delay, last = some (m, .rests delay wakeAt) ∧ m.now ≤ t.now ∧
    (t.fired = none → t.now ≤ ring wakeAt) ∧ ∀ f, t.fired = some f → m.now ≤ f ∧ t.now = f
  | .over _ => True

/-- What every prompt course keeps. -/
structure OnTime (ring : Instant → Instant) (began : Instant) (t : Trial ε) (told : List (Moment × Deed ε)) : Prop where
  timed : Timed ring began told
  past : ∀ f, t.fired = some f → f ≤ t.now
  recalls : Recalls ring began t told.getLast?

variable {ring : Instant → Instant} {began : Instant} {o : Occasion ε}

theorem timed_nil (ring : Instant → Instant) (began : Instant) : Timed ring began ([] : List (Moment × Deed ε)) where
  first _ _ h := by cases h
  chain := .nil

theorem Timed.concat (h : Timed ring began told) {m : Moment} {d : Deed ε}
    (first : told.getLast? = none → m.now = began)
    (next : ∀ last, told.getLast? = some last → Punctual ring last (m, d)) : Timed ring began (told ++ [(m, d)]) where
  first m' d' hhead := by
    cases told with
    | nil =>
      cases hhead
      exact first rfl
    | cons e rest => exact h.first m' d' hhead
  chain := h.chain.append (.singleton _) fun last hlast y hy => by
    cases hy
    exact next last hlast

theorem onTime_start (ring : Instant → Instant) (p : RetryPolicy) (began : Instant) :
    OnTime ring began (Trial.start p began : Trial ε) [] where
  timed := timed_nil ring began
  past _ h := by cases h
  recalls := .inl ⟨rfl, rfl⟩

/-- Time passes, and the operation goes on waiting. -/
theorem Recalls.later {last : Option (Moment × Deed ε)} (h : Recalls ring began t last) (prompt : t.IsPrompt ring o)
    {fired : Option Instant} (fires : fired = t.fired ∨ t.fired = none ∧ fired = some o.1) :
    Recalls ring began ⟨o.1, fired, t.loop⟩ last := by
  obtain ⟨now, before, loop⟩ := t
  obtain ⟨later, early, -⟩ := prompt
  cases loop with
  | ready n delay =>
    have hnow : o.1 = now := Nat.le_antisymm (early now rfl) later
    rwa [hnow]
  | reported n delay e =>
    have hnow : o.1 = now := Nat.le_antisymm (early now rfl) later
    rwa [hnow]
  | running n delay =>
    obtain ⟨m, hlast, hm⟩ := h
    exact ⟨m, hlast, Nat.le_trans hm later⟩
  | «over» result => trivial
  | resting n delay e wakeAt =>
    obtain ⟨m, d, hlast, hm, hunfired, hfired⟩ := h
    refine ⟨m, d, hlast, Nat.le_trans hm later, ?_, ?_⟩
    · rintro rfl
      obtain rfl | ⟨-, hfires⟩ := fires
      · exact early _ rfl
      · cases hfires
    · rintro f rfl
      obtain rfl | ⟨-, hfires⟩ := fires
      · have hnow : o.1 = now := Nat.le_antisymm (early now rfl) later
        rw [hnow]
        exact hfired f rfl
      · cases hfires
        exact ⟨Nat.le_trans hm later, rfl⟩

theorem OnTime.does (h : OnTime ring began t told) (prompt : t.IsPrompt ring o) {d : Deed ε} {loop : Retry ε}
    (first : told.getLast? = none → o.1 = began)
    (next : ∀ last, told.getLast? = some last → Punctual ring last (⟨o.1, t.fired⟩, d))
    (recalls : Recalls ring began ⟨o.1, t.fired, loop⟩ (some (⟨o.1, t.fired⟩, d))) :
    OnTime ring began ⟨o.1, t.fired, loop⟩ (told ++ [(⟨o.1, t.fired⟩, d)]) where
  timed := h.timed.concat first next
  past f hf := Nat.le_trans (h.past f hf) prompt.later
  recalls := by
    rw [List.getLast?_concat]
    exact recalls

theorem OnTime.later (h : OnTime ring began t told) (prompt : t.IsPrompt ring o) :
    OnTime ring began ⟨o.1, t.fired, t.loop⟩ (told ++ []) where
  timed := (List.append_nil told).symm ▸ h.timed
  past f hf := Nat.le_trans (h.past f hf) prompt.later
  recalls := (List.append_nil told).symm ▸ h.recalls.later prompt (.inl rfl)

theorem OnTime.fire (h : OnTime ring began t told) (prompt : t.IsPrompt ring o) :
    OnTime ring began ⟨o.1, t.fired.or (some o.1), t.loop⟩ (told ++ []) := by
  rw [List.append_nil]
  refine ⟨h.timed, ?_, ?_⟩
  · intro f hf
    cases hfired : t.fired with
    | none =>
      rw [hfired] at hf
      exact Nat.le_of_eq (Option.some.inj hf).symm
    | some f' =>
      rw [hfired] at hf
      cases hf
      exact Nat.le_trans (h.past f hfired) prompt.later
  · refine h.recalls.later prompt ?_
    cases hfired : t.fired with
    | none => exact .inr ⟨rfl, rfl⟩
    | some f => exact .inl rfl

theorem OnTime.finish {now now' : Instant} {fired : Option Instant} {n : Nat} {delay : Duration}
    {outcome : Except ε Unit} (h : OnTime ring began ⟨now, fired, .running n delay⟩ told)
    (prompt : Trial.IsPrompt ring ⟨now, fired, .running n delay⟩ (now', .finish outcome)) :
    OnTime ring began ⟨now', fired, (running n delay).finish p outcome⟩
      (told ++ [(⟨now', fired⟩, .ends n outcome), (⟨now', fired⟩, ((running n delay).finish p outcome).arrival)]) := by
  obtain ⟨m, hlast, hm⟩ := h.recalls
  rw [List.append_cons]
  have hends : Timed ring began (told ++ [(⟨now', fired⟩, .ends n outcome)]) :=
    h.timed.concat (fun hnone => nomatch hlast.symm.trans hnone) fun last hsome => by
      cases hlast.symm.trans hsome
      exact Nat.le_trans hm prompt.later
  refine ⟨hends.concat ?_ ?_, fun f hf => Nat.le_trans (h.past f hf) prompt.later, ?_⟩
  · intro hnone
    rw [List.getLast?_concat] at hnone
    cases hnone
  · intro last hsome
    rw [List.getLast?_concat] at hsome
    cases hsome
    rfl
  · rw [List.getLast?_concat]
    rcases outcome with e | ⟨⟩
    case ok => trivial
    case error =>
      by_cases hlimit : p.maxAttempts ≤ n
      · rw [finish_last hlimit]
        trivial
      · rw [finish_more (Nat.lt_of_not_le hlimit)]
        exact ⟨_, rfl, rfl⟩

theorem OnTime.look (late : ∀ wakeAt, wakeAt ≤ ring wakeAt) {now now' : Instant} {fired : Option Instant}
    {loop : Retry ε} (h : OnTime ring began ⟨now, fired, loop⟩ told)
    (prompt : Trial.IsPrompt ring ⟨now, fired, loop⟩ (now', .look)) :
    OnTime ring began (Trial.step p ⟨now, fired, loop⟩ (now', .look))
      (told ++ (Trial.deeds p ⟨now, fired, loop⟩ (now', .look)).map (⟨now', fired⟩, ·)) := by
  have hdue : ∀ due, Trial.due? ring ⟨now, fired, loop⟩ = some due → now' = due := fun due hsome =>
    Nat.le_antisymm (prompt.early due hsome) (prompt.due rfl due hsome)
  have hrecalls := h.recalls
  cases loop with
  | running | «over» => exact h.later prompt
  | ready n delay =>
    refine h.does prompt ?_ ?_ ⟨_, rfl, Nat.le_refl _⟩
    all_goals
      obtain rfl := hdue now rfl
      obtain ⟨hlast, hnow⟩ | ⟨m, hlast, hnow⟩ := hrecalls
    · exact fun _ => hnow
    · exact fun hnone => nomatch hlast.symm.trans hnone
    · exact fun last hsome => nomatch hlast.symm.trans hsome
    · intro last hsome
      cases hlast.symm.trans hsome
      exact hnow
  | reported n delay e =>
    obtain rfl := hdue now rfl
    obtain ⟨m, hlast, hnow⟩ := hrecalls
    cases fired with
    | none =>
      refine h.does prompt (fun hnone => nomatch hlast.symm.trans hnone) ?_ ?_
      · intro last hsome
        cases hlast.symm.trans hsome
        exact hnow
      · exact ⟨_, delay, rfl, Nat.le_refl _, fun _ => Nat.le_trans (Instant.le_alarm _ _) (late _), nofun⟩
    | some f =>
      refine h.does prompt (fun hnone => nomatch hlast.symm.trans hnone) ?_ trivial
      intro last hsome
      cases hlast.symm.trans hsome
      have hf : f ≤ m.now := hnow ▸ h.past f rfl
      exact ⟨f, rfl, hnow.trans (Nat.max_eq_left hf).symm⟩
  | resting n delay e wakeAt =>
    obtain ⟨m, d, hlast, hm, -, hfired⟩ := hrecalls
    cases fired with
    | none =>
      have hnow : now' = ring wakeAt := hdue _ rfl
      have hwoken : wakeAt ≤ now' := hnow ▸ late wakeAt
      simp only [Trial.deeds, Trial.step, proceed, isDue, Option.isSome_none, Bool.false_or]
      rw [look_due hwoken, if_pos (decide_eq_true hwoken)]
      refine h.does prompt (fun hnone => nomatch hlast.symm.trans hnone) ?_ (.inr ⟨_, rfl, rfl⟩)
      intro last hsome
      cases hlast.symm.trans hsome
      exact hnow
    | some f =>
      have hnow : now' = now := hdue now rfl
      obtain ⟨hf, hat⟩ := hfired f rfl
      refine h.does prompt (fun hnone => nomatch hlast.symm.trans hnone) ?_ trivial
      intro last hsome
      cases hlast.symm.trans hsome
      exact ⟨f, rfl, hnow.trans (hat.trans (Nat.max_eq_right hf).symm)⟩

theorem OnTime.step (late : ∀ wakeAt, wakeAt ≤ ring wakeAt) (h : OnTime ring began t told)
    (prompt : t.IsPrompt ring o) :
    OnTime ring began (t.step p o) (told ++ (t.deeds p o).map (⟨o.1, t.fired⟩, ·)) := by
  obtain ⟨now, fired, loop⟩ := t
  obtain ⟨now', _ | _ | outcome⟩ := o
  case fire => exact h.fire prompt
  case look => exact h.look late prompt
  case finish =>
    cases loop with
    | running n delay => exact h.finish prompt
    | ready | reported | resting | «over» => exact h.later prompt

theorem OnTime.history (late : ∀ wakeAt, wakeAt ≤ ring wakeAt) {course : List (Occasion ε)}
    (h : OnTime ring began t told) (prompt : t.AllPrompt ring p course) :
    OnTime ring began (t.run p course) (told ++ t.history p course) := by
  induction course generalizing t told with
  | nil =>
    rw [Trial.history, List.append_nil]
    exact h
  | cons o rest ih =>
    rw [Trial.history, ← List.append_assoc]
    exact ih (h.step late prompt.1) prompt.2

/-- **A prompt course loses no time.** -/
theorem punctual_history (late : ∀ wakeAt, wakeAt ≤ ring wakeAt) {course : List (Occasion ε)}
    (prompt : (Trial.start p began).AllPrompt ring p course) :
    Timed ring began ((Trial.start p began).history p course) :=
  ((onTime_start ring p began).history late prompt).timed

/-- A failure that no other attempt follows is returned when the token fires, or at once if it has fired. -/
theorem Closes.returned {m n : Nat} {chapter : List (Moment × Deed ε)} {x : ε}
    (h : Closes p m chapter (.error ⟨n, true, x⟩)) (timed : chapter.IsChain (Punctual ring)) :
    ∃ e c f, (e, .ends n (.error x)) ∈ chapter ∧ (c, .returns (.error ⟨n, true, x⟩)) ∈ chapter ∧
      c.fired = some f ∧ c.now = max e.now f := by
  cases h with
  | @cancelled b e _ d c more =>
    simp only [List.isChain_cons_cons] at timed
    obtain ⟨-, -, ⟨f, hfired, hnow⟩, -⟩ := timed
    exact ⟨e, c, f, by simp, by simp, hfired, hnow⟩
  | @woken b e _ d s c more =>
    simp only [List.isChain_cons_cons] at timed
    obtain ⟨-, -, hrested, ⟨f, hfired, hnow⟩, -⟩ := timed
    exact ⟨e, c, f, by simp, by simp, hfired, hnow.trans (congrArg (max · f) hrested)⟩

/-! ## Coming to an end -/

/-- The operation gets what it waits for: to be looked at, the end of its attempt, the time or the token. -/
def Trial.Gets (t : Trial ε) (o : Occasion ε) : Prop :=
  match t.loop with
  | .ready _ _ | .reported _ _ _ => o.2 = .look
  | .running _ _ => ∃ outcome, o.2 = .finish outcome
  | .resting _ _ _ wakeAt => o.2 = .look ∧ (t.fired.isSome ∨ wakeAt ≤ o.1)
  | .over _ => True

def left (p : RetryPolicy) : Retry ε → Nat
  | .ready n _ => 4 * (p.maxAttempts - n) + 4
  | .running n _ => 4 * (p.maxAttempts - n) + 3
  | .reported n _ _ => 4 * (p.maxAttempts - n) + 2
  | .resting n _ _ _ => 4 * (p.maxAttempts - n) + 1
  | .over _ => 0

/-- A failure that has been reported was not the last that the policy allows. -/
theorem Account.more {n : Nat} {delay : Duration} {e : ε} {wakeAt : Instant}
    (h : Account p told (.resting n delay e wakeAt)) : n < p.maxAttempts := by
  obtain ⟨rounds, chapter, -, -, stands⟩ := h
  cases stands with
  | resting more => exact more

theorem left_finish (outcome : Except ε Unit) (n : Nat) (delay : Duration) :
    ((running n delay).finish p outcome).left p < (running n delay : Retry ε).left p := by
  rcases outcome with e | ⟨⟩
  case ok => exact Nat.succ_pos _
  case error =>
    by_cases hlast : p.maxAttempts ≤ n
    · rw [finish_last hlast]
      exact Nat.succ_pos _
    · rw [finish_more (Nat.lt_of_not_le hlast)]
      exact Nat.lt_succ_self _

/-- Whatever happens, less is left or nothing has changed; less is left if the operation gets what it waits for. -/
theorem left_step (h : Account p told t.loop) (o : Occasion ε) :
    ((t.step p o).loop = t.loop ∧ (t.Gets o → ∃ result, t.loop = .over result)) ∨
      (t.step p o).loop.left p < t.loop.left p := by
  obtain ⟨now, fired, loop⟩ := t
  obtain ⟨now', happening⟩ := o
  cases happening with
  | fire =>
    refine .inl ⟨rfl, fun gets => ?_⟩
    cases loop with
    | ready | reported => cases gets
    | running => exact gets.elim nofun
    | resting => exact nomatch gets.1
    | «over» result => exact ⟨result, rfl⟩
  | finish outcome =>
    cases loop with
    | running n delay => exact .inr (left_finish outcome n delay)
    | ready | reported => exact .inl ⟨rfl, nofun⟩
    | resting => exact .inl ⟨rfl, fun gets => nomatch gets.1⟩
    | «over» result => exact .inl ⟨rfl, fun _ => ⟨result, rfl⟩⟩
  | look =>
    cases loop with
    | ready => exact .inr (Nat.lt_succ_self _)
    | running => exact .inl ⟨rfl, fun gets => gets.elim nofun⟩
    | «over» result => exact .inl ⟨rfl, fun _ => ⟨result, rfl⟩⟩
    | reported n delay e =>
      right
      cases fired with
      | some f => exact Nat.succ_pos _
      | none => exact Nat.lt_succ_self _
    | resting n delay e wakeAt =>
      cases fired with
      | some f => exact .inr (Nat.succ_pos _)
      | none =>
        by_cases hdue : wakeAt ≤ now'
        · right
          have hmore := h.more
          simp only [Trial.step, proceed, Option.isSome_none]
          rw [look_due hdue]
          simp only [left]
          omega
        · exact .inl ⟨look_early hdue n delay e, fun gets => gets.2.elim nofun fun due => absurd due hdue⟩

/-- The beginning of what has no end. -/
def upTo {α : Type} (forever : Nat → α) (n : Nat) : List α := (List.range n).map forever

theorem foldl_upTo_succ {α β : Type} (step : β → α → β) (start : β) (forever : Nat → α) (n : Nat) :
    (upTo forever (n + 1)).foldl step start = step ((upTo forever n).foldl step start) (forever n) := by
  unfold upTo
  rw [List.range_succ, List.map_append, List.foldl_append]
  rfl

/-- What is left never grows and falls at every useful step, unless the end has come. If there is always another useful
step, the end comes. -/
theorem reaches_end (left : Nat → Nat) {useful ended : Nat → Prop} (shrinks : ∀ n, left (n + 1) ≤ left n)
    (fair : ∀ n, ∃ m, n ≤ m ∧ useful m) (falls : ∀ n, useful n → ended n ∨ left (n + 1) < left n) :
    ∃ n, ended n := by
  have hanti : Antitone left := antitone_nat_of_succ_le shrinks
  suffices hfrom : ∀ k n, left n < k → ∃ n, ended n from hfrom _ 0 (Nat.lt_succ_self _)
  intro k
  induction k with
  | zero => exact fun n hleft => absurd hleft (Nat.not_lt_zero _)
  | succ k ih =>
    intro n hleft
    obtain ⟨m, hm, huseful⟩ := fair n
    have hstill : left m ≤ left n := hanti hm
    obtain hended | hless := falls m huseful
    · exact ⟨m, hended⟩
    · exact ih (m + 1) (by omega)

theorem run_upTo_succ (t : Trial ε) (forever : Nat → Occasion ε) (n : Nat) :
    t.run p (upTo forever (n + 1)) = (t.run p (upTo forever n)).step p (forever n) :=
  foldl_upTo_succ (Trial.step p) t forever n

/-- **An operation that gets what it waits for, again and again, comes to its end.** -/
theorem eventually_over (h : Account p told t.loop) {forever : Nat → Occasion ε}
    (fair : ∀ n, ∃ m, n ≤ m ∧ (t.run p (upTo forever m)).Gets (forever m)) :
    ∃ n result, (t.run p (upTo forever n)).loop = .over result := by
  have hstep := fun n => left_step (account_history h (upTo forever n)) (forever n)
  refine reaches_end (fun n => (t.run p (upTo forever n)).loop.left p) (fun n => ?_) fair fun n gets => ?_
  · rw [run_upTo_succ]
    obtain ⟨hsame, -⟩ | hless := hstep n
    · rw [hsame]
    · exact Nat.le_of_lt hless
  · rw [run_upTo_succ]
    obtain ⟨-, hover⟩ | hless := hstep n
    · exact .inl (hover gets)
    · exact .inr hless

/-! ## The whole story -/

variable (p) in
/-- **What a repeated operation does.** When it is over, its history is that of attempts numbered from one, each of them
but the last followed by a report, a wait of the policy's length and another attempt, and of the last one, which has the
result. On a prompt course nothing else takes time, and a cancelled operation returns when both its last attempt has
ended and the token has fired. An operation that gets what it waits for comes to its end. -/
theorem attempts_told (began : Instant) :
    (∀ course result, ((Trial.start p began : Trial ε).run p course).loop = .over result →
      ∃ rounds chapter, (Trial.start p began).history p course = story 1 rounds ++ chapter ∧ Repeated p rounds ∧
        Closes p (rounds.length + 1) chapter result) ∧
    (∀ (ring : Instant → Instant) (course : List (Occasion ε)), (∀ wakeAt, wakeAt ≤ ring wakeAt) →
      (Trial.start p began).AllPrompt ring p course →
      Timed ring began ((Trial.start p began).history p course) ∧
      ∀ n x, ((Trial.start p began).run p course).loop = .over (.error ⟨n, true, x⟩) →
        ∃ e c f, (e, .ends n (.error x)) ∈ (Trial.start p began).history p course ∧
          (c, .returns (.error ⟨n, true, x⟩)) ∈ (Trial.start p began).history p course ∧
          c.fired = some f ∧ c.now = max e.now f) ∧
    ∀ forever : Nat → Occasion ε,
      (∀ n, ∃ m, n ≤ m ∧ ((Trial.start p began).run p (upTo forever m)).Gets (forever m)) →
      ∃ n result, ((Trial.start p began).run p (upTo forever n)).loop = .over result := by
  have hover : ∀ course result, ((Trial.start p began : Trial ε).run p course).loop = .over result →
      ∃ rounds chapter, (Trial.start p began).history p course = story 1 rounds ++ chapter ∧ Repeated p rounds ∧
        Closes p (rounds.length + 1) chapter result := by
    intro course result hresult
    obtain ⟨rounds, chapter, is, repeated, stands⟩ := account_history (t := .start p began) (account_start p) course
    rw [hresult] at stands
    cases stands with
    | «over» closes => exact ⟨rounds, chapter, is, repeated, closes⟩
  refine ⟨hover, fun ring course late prompt => ?_, fun forever fair => ?_⟩
  case refine_2 => exact eventually_over (t := .start p began) (account_start p) fair
  have htimed : Timed ring began ((Trial.start p began).history p course) := punctual_history late prompt
  refine ⟨htimed, fun n x hresult => ?_⟩
  obtain ⟨rounds, chapter, is, -, closes⟩ := hover course _ hresult
  have hchain := htimed.chain
  rw [is] at hchain ⊢
  obtain ⟨e, c, f, hends, hreturns, hfired, hnow⟩ := closes.returned hchain.right_of_append
  exact ⟨e, c, f, List.mem_append_right _ hends, List.mem_append_right _ hreturns, hfired, hnow⟩

/-- Two attempts, a nanosecond between them. -/
def twice : RetryPolicy := ⟨2, .ofNanos 1, .longest, by decide⟩

/-- An attempt fails, its wait ends after a nanosecond, and the next attempt goes on. -/
def waiting : List (Occasion Unit) := [(0, .look), (0, .finish (.error ())), (0, .look)]

/-- A second attempt succeeds; a token that fires just when the second attempt may begin comes first; an attempt that is
repeated for ever ends. -/
theorem attempts_told_twice :
    (∃ rounds chapter,
      (Trial.start twice 0).history twice (waiting ++ [(1, .look), (1, .look), (5, .finish (.ok ()))]) =
        story 1 rounds ++ chapter ∧ Repeated twice rounds ∧ Closes twice (rounds.length + 1) chapter (.ok 2)) ∧
    (∃ e c f, (e, .ends 1 (.error ())) ∈ (Trial.start twice 0).history twice (waiting ++ [(1, .fire), (1, .look)]) ∧
      (c, .returns (.error ⟨1, true, ()⟩)) ∈
        (Trial.start twice 0).history twice (waiting ++ [(1, .fire), (1, .look)]) ∧
      c.fired = some f ∧ c.now = max e.now f) ∧
    ∃ n result, ((Trial.start twice 0 : Trial Unit).run twice
      (upTo (fun n => (0, if n = 0 then .look else .finish (.ok ()))) n)).loop = .over result := by
  have halarm : Instant.alarm 0 twice.firstDelay = 1 := if_pos (by decide)
  refine ⟨(attempts_told twice 0).1 _ _ rfl, ?_, (attempts_told twice 0).2.2 _ fun n => ?_⟩
  · refine ((attempts_told twice 0).2.1 (fun wakeAt => wakeAt) _ Nat.le_refl ?_).2 _ _ rfl
    exact ⟨.of_due rfl rfl (Nat.le_refl _), .of_none rfl (Nat.le_refl _), .of_due rfl rfl (Nat.le_refl _),
      .of_due (Trial.due?_resting rfl rfl) halarm.symm (Nat.zero_le _), .of_due rfl rfl (Nat.le_refl _), trivial⟩
  · -- in the end the attempt has succeeded
    refine ⟨n + 2, Nat.le_add_right n 2, ?_⟩
    have hover : ((Trial.start twice 0 : Trial Unit).run twice
        (upTo (fun n => (0, if n = 0 then .look else .finish (.ok ()))) (n + 2))).loop = .over (.ok 1) := by
      induction n with
      | zero => rfl
      | succ n ih =>
        rw [run_upTo_succ]
        simp only [Trial.step, ih, if_neg (Nat.succ_ne_zero _), finish]
    unfold Trial.Gets
    rw [hover]
    trivial

end Retry

end DurableBus
