import DurableBus.Config.Environment
import DurableBus.Proofs.Consumer.Endurance
import DurableBus.Proofs.System.Demands

/-!
# Configurations that consumers survive

* `Enduring`, `enduring_outcome` : a member whose bus has a period has not ended before its token fires;
* `phase_occur` : an event moves a member by the beat that it has for it, if any;
* `Gets`, `polled_within` : the store is asked for the messages of a member, once the member has got what it waits for so
  many times;
* `served_soon` : a member can be given what it waits for;
* `consumers_last` : what consumers survive whose configuration is sensible.
-/

set_option autoImplicit false

namespace DurableBus

namespace Loop

variable {l : Loop}

theorem lasting_of_starting (h : l.phase = .starting) : l.Lasting where
  sound := sound_of_starting h
  reads := by
    rw [h]
    exact Phase.reads_starting _
  counted s job work hworks := by
    rw [h] at hworks
    cases hworks
  idle s job hworks := by
    rw [h] at hworks
    cases hworks
  unbroken s hs := by
    rw [h] at hs
    cases hs
  going _ := by
    rw [h]
    rfl

theorem Lasting.congr (h : l.Lasting) {l' : Loop} (setup : l'.consumer.setup = l.consumer.setup)
    (phase : l'.phase = l.phase) (fired : l.fired = true → l'.fired = true) : l'.Lasting where
  sound := h.sound.congr setup phase fired
  reads := by
    rw [setup, phase]
    exact h.reads
  counted := by
    rw [phase]
    exact h.counted
  idle := by
    rw [phase]
    exact h.idle
  unbroken := by
    rw [phase]
    exact h.unbroken
  going hunfired := by
    rw [phase]
    refine h.going (Bool.eq_false_iff.2 fun hfired => ?_)
    rw [fired hfired] at hunfired
    cases hunfired

theorem Lasting.not_over (h : l.Lasting) (unfired : l.fired = false) : l.consumer.isOver = false := by
  have hgoing := h.going unfired
  unfold phase Phase.isGoing at hgoing
  unfold Consumer.isOver
  split <;> simp_all

theorem pulled_crashed {c : Consumer} {s : ClaimStream} {move : ClaimStream.Move}
    (h : (c.pulled s move).1.phase = .crashed) : move = .broke := by
  rcases move with _ | _ | _ | (e | k) | _ | _
  case yield.ok =>
    change (c.take s k).1.phase = .crashed at h
    rw [Consumer.phase_take] at h
    cases h
  case broke => rfl
  all_goals cases h

theorem drained_crashed {c : Consumer} {s : ClaimStream} {move : ClaimStream.Move}
    (h : (c.drained s move).1.phase = .crashed) : move = .broke := by
  cases move with
  | finished =>
    change c.leave.1.phase = .crashed at h
    unfold Consumer.leave at h
    split at h <;> cases h
  | broke => rfl
  | _ => cases h

theorem phase_step_draining {s : ClaimStream} (was : l.phase = .draining s) (b : Beat) :
    (l.step b).phase = l.phase ∨ ∃ step, ClaimStream.Steps (Consumer.stream l.consumer.setup) l.fired s step ∧
      (l.step b).phase = (l.consumer.drained step.1 step.2).1.phase := by
  cases b with
  | fire => exact .inl rfl
  | look now publisher => exact .inr ⟨_, .looked, phase_look_draining was now publisher⟩
  | finish outcome =>
    have hphase : l.consumer.phase = .draining s := was
    left
    simp only [step, phase, Consumer.finish, hphase]
  | answer now publisher reply =>
    by_cases asked : (s.request? (Consumer.stream l.consumer.setup)).isSome
    · exact .inr ⟨_, .answered asked, phase_answer_draining was asked now publisher reply⟩
    · left
      simp only [step, request?_draining was, asked, Bool.false_eq_true, if_false]

/-- **A consumer that polls with a period is not ended by its stream.** -/
theorem crashed_step (h : l.Lasting) (period : l.consumer.setup.settings.pollInterval ≠ .zero)
    (sane : l.phase ≠ .crashed) (b : Beat) : (l.step b).phase ≠ .crashed := by
  -- a stream that has a period does not break
  have hunbroken : ∀ {s step}, l.phase.stream? = some s →
      ClaimStream.Steps (Consumer.stream l.consumer.setup) l.fired s step → step.2 ≠ .broke := by
    intro s step hs hsteps hbroke
    exact hsteps.flows.unbroken period (h.unbroken s hs) (hsteps.of_broke hbroke)
  intro hcrashed
  cases hphase : l.phase with
  | pulling s =>
    obtain hstep | ⟨step, hsteps, hstep⟩ := phase_step_pulling hphase b
    · cases hstep.symm.trans hcrashed
    · exact hunbroken (by rw [hphase]; rfl) hsteps (pulled_crashed (hstep.symm.trans hcrashed))
  | draining s =>
    obtain hstep | ⟨step, hsteps, hstep⟩ := phase_step_draining hphase b
    · exact sane (hstep.symm.trans hcrashed)
    · exact hunbroken (by rw [hphase]; rfl) hsteps (drained_crashed (hstep.symm.trans hcrashed))
  | working s job =>
    have hcomes := comes_step h b
    rw [hcrashed] at hcomes
    generalize l.effects b = effects at hcomes
    generalize hp : Phase.crashed = p at hcomes
    cases hcomes with
    | still => exact sane hp.symm
    | winds seen free =>
      rw [hphase] at free
      cases free
    | starts was | pulls was | pulled was =>
      rw [hphase] at was
      cases was
    | works | settles => cases hp
  | crashed => exact sane hphase
  | starting | selecting s | forgetting | ended =>
    have hphase' : l.consumer.phase = _ := hphase
    cases b with
    | fire => exact sane hcrashed
    | look now publisher =>
      simp only [step, phase, Consumer.look, hphase', Consumer.enter] at hcrashed
      try split at hcrashed
      all_goals cases hcrashed
    | finish outcome =>
      simp only [step, phase, Consumer.finish, hphase'] at hcrashed
      cases hcrashed
    | answer now publisher reply =>
      simp only [step, phase, Consumer.answer, hphase'] at hcrashed
      split at hcrashed <;> simp_all [Consumer.enter]

end Loop

namespace System

variable {s : System} {e : Event} {i : Nat} {m m' : Member}

/-! ## Members -/

/-- Members that poll with a period last, and are not ended by a fault. -/
def Enduring (s : System) : Prop :=
  ∀ (i : Nat) (m : Member), s.members[i]? = some m → m.consumer.setup.settings.pollInterval ≠ .zero →
    (s.loop m).Lasting ∧ m.consumer.phase ≠ .crashed

theorem Enduring.occur (h : Enduring s) (e : Event) : Enduring (s.occur e).1 := by
  intro i m' hm' hperiod
  rcases old_or_new hm' with ⟨m, hm, hsucceeds⟩ | ⟨-, -, hstarts⟩
  · rw [hsucceeds.setup] at hperiod
    obtain ⟨hlasting, hsane⟩ := h i m hm hperiod
    rcases hsucceeds.phase with hphase | ⟨b, drives, hphase⟩
    · rw [hphase]
      exact ⟨hlasting.congr hsucceeds.setup hphase hsucceeds.cancelled, hsane⟩
    · rw [hphase]
      refine ⟨(hlasting.step hperiod b).congr (hsucceeds.setup.trans ((s.loop m).setup_step b).symm) hphase
        fun hfired => ?_, Loop.crashed_step hlasting hperiod hsane b⟩
      exact hsucceeds.cancelled (drives.fired.symm.trans hfired)
  · rw [hstarts]
    exact ⟨Loop.lasting_of_starting hstarts, by rintro ⟨⟩⟩

theorem enduring_outcome (events : List Event) : Enduring (outcome events) := by
  induction events using List.reverseRecOn with
  | nil => exact fun _ _ hm => by cases hm
  | append_singleton events e ih =>
    rw [outcome_concat]
    exact ih.occur e

/-- The beat that an event has for a member. -/
def beat? (s : System) (i : Nat) (m : Member) : Event → Option Beat
  | .turn (.look j) => if j = i then some (.look s.now (s.observe m).publisher) else none
  | .turn (.finish j outcome) => if j = i then some (.finish outcome) else none
  | .turn (.answer j fate) =>
    if j = i then m.consumer.request?.map fun request => .answer s.now (s.observe m).publisher (s.ask fate request).2.1
    else none
  | _ => none

theorem member_of_beat (hm : s.members[i]? = some m) {b : Beat} (hbeat : s.beat? i m e = some b) :
    ∃ c announced, (s.occur e).1.members[i]? = some { m with consumer := c, announced } ∧
      c.phase = ((s.loop m).step b).phase := by
  obtain ⟨hi, -⟩ := List.getElem?_eq_some_iff.1 hm
  unfold beat? at hbeat
  split at hbeat
  case h_4 => cases hbeat
  all_goals
    split at hbeat
    case isFalse => cases hbeat
  case h_1.isTrue j hj =>
    subst hj
    obtain rfl := Option.some.inj hbeat
    show ∃ c announced, (s.look j).1.members[j]? = _ ∧ _
    unfold look
    rw [hm]
    exact ⟨_, _, List.getElem?_set_self hi, rfl⟩
  case h_2.isTrue j outcome hj =>
    subst hj
    obtain rfl := Option.some.inj hbeat
    show ∃ c announced, (s.finish j outcome).1.members[j]? = _ ∧ _
    unfold finish
    rw [hm]
    exact ⟨_, _, List.getElem?_set_self hi, rfl⟩
  case h_3.isTrue j fate hj =>
    subst hj
    obtain ⟨request, hasks, rfl⟩ := Option.map_eq_some_iff.1 hbeat
    obtain ⟨c, announced, hmembers, -, hphase⟩ := members_answer hm hasks fate
    show ∃ c announced, (s.answer j fate).1.members[j]? = _ ∧ _
    rw [hmembers]
    exact ⟨c, announced, List.getElem?_set_self hi, hphase⟩

/-- **An event moves a member by the beat that it has for it, if any.** -/
theorem phase_occur (hm : s.members[i]? = some m) (hm' : (s.occur e).1.members[i]? = some m') :
    (s.beat? i m e = none → m'.consumer.phase = m.consumer.phase) ∧
      ∀ b, s.beat? i m e = some b → m'.consumer.phase = ((s.loop m).step b).phase := by
  constructor
  · intro hnone
    obtain ⟨_, hsome, hsucceeds⟩ := (recasts_occur s e).old i m hm
    obtain rfl := Option.some.inj (hm'.symm.trans hsome)
    rcases hsucceeds.phase with hphase | ⟨b, drives, -⟩
    · exact hphase
    · cases drives with
      | look | finish => simp [beat?] at hnone
      | answer asks => simp [beat?, asks] at hnone
  · intro b hbeat
    obtain ⟨c, announced, hsome, hphase⟩ := member_of_beat hm hbeat
    obtain rfl := Option.some.inj (hsome.symm.trans hm')
    exact hphase

/-- What an event has for a member is what drives it. -/
theorem drives_of_beat? {b : Beat} (hbeat : s.beat? i m e = some b) : Drives s i m e b := by
  unfold beat? at hbeat
  split at hbeat
  case h_4 => cases hbeat
  all_goals
    split at hbeat
    case isFalse => cases hbeat
  case h_1.isTrue j hj =>
    subst hj
    obtain rfl := Option.some.inj hbeat
    exact .look
  case h_2.isTrue j outcome hj =>
    subst hj
    obtain rfl := Option.some.inj hbeat
    exact .finish
  case h_3.isTrue j fate hj =>
    subst hj
    obtain ⟨request, hasks, rfl⟩ := Option.map_eq_some_iff.1 hbeat
    exact .answer hasks

/-! ## Polls -/

/-- A member gets what it waits for in an event, and that is more than a look at its token. -/
def Serves (s : System) (i : Nat) (e : Event) : Prop :=
  ∃ m b next, s.members[i]? = some m ∧ s.beat? i m e = some b ∧ (s.loop m).IsServed b next ∧
    (s.loop m).isSelecting = false

/-- In an event the store answers a claim of a member that waits for the answer. -/
def Polls (s : System) (i : Nat) (e : Event) (q : ClaimRequest) : Prop :=
  ∃ m stream fate, s.members[i]? = some m ∧ m.consumer.phase = .pulling stream ∧
    m.consumer.request? = some (.claim q) ∧ e = .turn (.answer i fate)

/-- In what happens after a system a member gets what it waits for so many times at least. -/
inductive Gets (i : Nat) : System → List Event → Nat → Prop
  | none {s later} : Gets i s later 0
  | served {s e later n} (serves : Serves s i e) (rest : Gets i (s.occur e).1 later n) : Gets i s (e :: later) (n + 1)
  | passes {s e later n} (rest : Gets i (s.occur e).1 later n) : Gets i s (e :: later) n

theorem isCancelledAt_eq (hm : s.members[i]? = some m) : s.isCancelledAt i = s.isCancelled m := by
  unfold isCancelledAt
  rw [hm, Option.any_some]

theorem unfired_before {events : List Event} (hm : (outcome events).members[i]? = some m) {later : List Event}
    (unfired : (outcome (events ++ later)).isCancelledAt i = false) : (outcome events).isCancelled m = false := by
  induction later using List.reverseRecOn with
  | nil => rwa [List.append_nil, isCancelledAt_eq hm] at unfired
  | append_singleton later e ih =>
    apply ih
    obtain ⟨m₁, hm₁, -⟩ := member_append hm later
    obtain ⟨m₂, hm₂, hsucceeds⟩ := (recasts_occur _ e).old i m₁ hm₁
    rw [← List.append_assoc, outcome_concat, isCancelledAt_eq hm₂] at unfired
    rw [isCancelledAt_eq hm₁]
    refine Bool.eq_false_iff.2 fun hfired => ?_
    rw [hsucceeds.cancelled hfired] at unfired
    cases unfired

/-- **Unless the store answers a claim of a member**, an event does not take the member farther from that, and brings it
nearer if the member gets what it waits for. -/
theorem nears_poll (h : Enduring s) (hm : s.members[i]? = some m) (hm' : (s.occur e).1.members[i]? = some m')
    (period : m.consumer.setup.settings.pollInterval ≠ .zero) (unfired' : (s.occur e).1.isCancelled m' = false) :
    Polls s i e (Consumer.stream m.consumer.setup).request ∨
      m'.consumer.phase.ahead m.consumer.setup.settings.retry ≤ m.consumer.phase.ahead m.consumer.setup.settings.retry ∧
      (Serves s i e → m'.consumer.phase.ahead m.consumer.setup.settings.retry <
        m.consumer.phase.ahead m.consumer.setup.settings.retry) := by
  obtain ⟨_, hsome, hsucceeds⟩ := (recasts_occur s e).old i m hm
  obtain rfl := Option.some.inj (hm'.symm.trans hsome)
  have hunfired : s.isCancelled m = false := by
    refine Bool.eq_false_iff.2 fun hfired => ?_
    rw [hsucceeds.cancelled hfired] at unfired'
    cases unfired'
  obtain ⟨hstill, hmoves⟩ := phase_occur hm hm'
  cases hbeat : s.beat? i m e with
  | none =>
    right
    rw [hstill hbeat]
    refine ⟨Nat.le_refl _, ?_⟩
    rintro ⟨m₁, b, -, hm₁, hb, -⟩
    obtain rfl := Option.some.inj (hm.symm.trans hm₁)
    rw [hbeat] at hb
    cases hb
  | some b =>
    rw [hmoves b hbeat]
    have hdrives := drives_of_beat? hbeat
    have hkept : b ≠ .fire := by
      rintro rfl
      cases hdrives
    rcases Loop.nears_poll (h i m hm period).1 period hunfired hkept with
      ⟨due, now, publisher, reply, hpulls, rfl⟩ | ⟨hle, hless⟩
    · left
      cases hdrives with
      | answer => exact ⟨m, _, _, hm, hpulls, Loop.request?_pulling (l := s.loop m) hpulls, rfl⟩
    · right
      refine ⟨hle, ?_⟩
      rintro ⟨m₁, b₁, next, hm₁, hb₁, hserved, hgoing⟩
      obtain rfl := Option.some.inj (hm.symm.trans hm₁)
      obtain rfl := Option.some.inj (hbeat.symm.trans hb₁)
      exact hless next hserved hgoing

/-- **The store is asked for the messages of a member**, once the member has got what it waits for more often than there
is ahead of it. -/
theorem polled_within {later : List Event} {n : Nat} (gets : Gets i s later n) {events : List Event}
    (after : outcome events = s) (hm : s.members[i]? = some m)
    (period : m.consumer.setup.settings.pollInterval ≠ .zero)
    (enough : m.consumer.phase.ahead m.consumer.setup.settings.retry < n)
    (unfired : (outcome (events ++ later)).isCancelledAt i = false) :
    ∃ before e rest, later = before ++ e :: rest ∧
      Polls (outcome (events ++ before)) i e (Consumer.stream m.consumer.setup).request := by
  induction gets generalizing events m with
  | none => cases enough
  | @served s e later n serves rest ih | @passes s e later n rest ih =>
    subst after
    obtain ⟨m', hm', hsucceeds⟩ := (recasts_occur _ e).old i m hm
    rw [List.append_cons] at unfired
    have hunfired : ((outcome events).occur e).1.isCancelled m' = false := by
      rw [← outcome_concat] at hm' ⊢
      exact unfired_before hm' unfired
    rcases nears_poll (enduring_outcome events) hm hm' period hunfired with hpolls | ⟨hle, hless⟩
    · exact ⟨[], e, later, rfl, by rwa [List.append_nil]⟩
    · have henough : m'.consumer.phase.ahead m'.consumer.setup.settings.retry < n := by
        rw [hsucceeds.setup]
        first
          | exact Nat.lt_of_lt_of_le (hless serves) (Nat.le_of_lt_succ enough)
          | exact Nat.lt_of_le_of_lt hle enough
      obtain ⟨before, e', rest', rfl, hpolls⟩ := ih (outcome_concat events e) hm' (hsucceeds.setup ▸ period) henough unfired
      rw [← List.append_cons, hsucceeds.setup] at hpolls
      exact ⟨e :: before, e', rest', rfl, hpolls⟩

/-! ## Serving a member -/

/-- An event has a beat for a member, or only time passes. -/
def Cares (s : System) (i : Nat) (e : Event) : Prop :=
  (∃ m b, s.members[i]? = some m ∧ s.beat? i m e = some b) ∨ ∃ t, e = .turn (.wait t)

/-- The token of a member does not fire when somebody cares for it. -/
theorem Cares.unfired (cares : Cares s i e) (fitted : Fitted s) (hm : s.members[i]? = some m)
    (unfired : s.isCancelled m = false) : (s.occur e).1.isCancelledAt i = false := by
  obtain ⟨b, hb, -⟩ := fitted.members i m hm
  have hshut : e.shuts? = none → (s.occur e).1.isShutDown m.bus = s.isShutDown m.bus := by
    intro hnone
    obtain ⟨b₁, b', hshifts, hb', hkeeps⟩ := bus_occur hb e
    have hsame : b₁ = b := by
      cases hshifts with
      | stays => rfl
      | _ => cases hnone
    unfold isShutDown
    rw [hb, hb', Option.any_some, Option.any_some, Bus.isShutDown, Bus.isShutDown, hkeeps.shutdown, hsame]
  have hkept : e.shuts? = none → ∀ m', (s.occur e).1.members[i]? = some m' → m'.bus = m.bus → m'.stopped = m.stopped →
      (s.occur e).1.isCancelledAt i = false := by
    intro hnone m' hm' hbus hstopped
    rw [isCancelledAt_eq hm']
    unfold isCancelled at unfired ⊢
    rwa [hbus, hstopped, hshut hnone]
  rcases cares with ⟨m', b', hm', hbeat⟩ | ⟨t, rfl⟩
  · obtain rfl := Option.some.inj (hm.symm.trans hm')
    obtain ⟨c, announced, hsome, -⟩ := member_of_beat hm hbeat
    refine hkept ?_ _ hsome rfl rfl
    cases drives_of_beat? hbeat <;> rfl
  · exact hkept rfl m hm rfl rfl

theorem Serves.cares (h : Serves s i e) : Cares s i e := by
  obtain ⟨m, b, -, hm, hbeat, -⟩ := h
  exact Or.inl ⟨m, b, hm, hbeat⟩

/-- A member that does not select can be served, at once or after a while. -/
theorem serves_of_going (hm : s.members[i]? = some m) (going : (s.loop m).isSelecting = false) :
    (∃ e, Serves s i e) ∨ ∃ t e, Serves (s.occur (.turn (.wait t))).1 i e := by
  cases Loop.wants_of_going going with
  | look t served =>
    refine Or.inr ⟨t, .turn (.look i), m, _, .fire, hm, if_pos rfl, ?_, going⟩
    exact served _ _ _ (Nat.le_max_right s.now t)
  | ending served =>
    exact Or.inl ⟨.turn (.finish i (.ok ())), m, _, .fire, hm, if_pos rfl, served (.ok ()) _, going⟩
  | reply asks served =>
    obtain ⟨request, hasks⟩ := Option.isSome_iff_exists.1 asks
    have hasks' : m.consumer.request? = some request := hasks
    have hbeat : s.beat? i m (.turn (.answer i .rejected)) =
        some (.answer s.now (s.observe m).publisher (s.ask .rejected request).2.1) := by simp [beat?, hasks']
    exact Or.inl ⟨.turn (.answer i .rejected), m, _, .fire, hm, hbeat, served _ _ _ _, going⟩

/-- A member that looks at its token, which has not fired, goes on to pull. -/
theorem selects_once (hm : s.members[i]? = some m) (selecting : (s.loop m).isSelecting = true)
    (unfired : s.isCancelled m = false) {m' : Member} (hm' : (s.occur (.turn (.look i))).1.members[i]? = some m') :
    ∀ s' : System, (s'.loop m').isSelecting = false := by
  intro s'
  have hphase := (phase_occur hm hm').2 _ (if_pos rfl)
  have hstream : ∃ stream, m.consumer.phase = .selecting stream := by
    unfold Loop.isSelecting at selecting
    split at selecting
    case h_1 stream hselects => exact ⟨stream, hselects⟩
    case h_2 => cases selecting
  obtain ⟨stream, hselects⟩ := hstream
  have hpulls : m'.consumer.phase = .pulling stream := by
    rw [hphase]
    simp only [Loop.step, Loop.phase, loop, Consumer.look, hselects, Loop.observe, unfired, Bool.false_eq_true, if_false]
    rfl
  have hloop : (s'.loop m').phase = .pulling stream := hpulls
  simp only [Loop.isSelecting, hloop]

/-- **A member can be given what it waits for.** -/
theorem served_soon {events : List Event} (hm : (outcome events).members[i]? = some m)
    (unfired : (outcome events).isCancelled m = false) :
    ∃ later, Gets i (outcome events) later 1 ∧ (outcome (events ++ later)).isCancelledAt i = false := by
  -- one event after another in which somebody cares for the member
  have hcared : ∀ {events : List Event} {m : Member} {e : Event}, (outcome events).members[i]? = some m →
      (outcome events).isCancelled m = false → Cares (outcome events) i e →
        (outcome (events ++ [e])).isCancelledAt i = false := by
    intro events m e hm unfired cares
    rw [outcome_concat]
    exact cares.unfired (fitted_outcome events) hm unfired
  have hgoing : ∀ {events : List Event} {m : Member}, (outcome events).members[i]? = some m →
      (outcome events).isCancelled m = false → ((outcome events).loop m).isSelecting = false →
        ∃ later, Gets i (outcome events) later 1 ∧ (outcome (events ++ later)).isCancelledAt i = false := by
    intro events m hm unfired going
    rcases serves_of_going hm going with ⟨e, serves⟩ | ⟨t, e, serves⟩
    · exact ⟨[e], .served serves .none, hcared hm unfired serves.cares⟩
    · have hwaited := hcared hm unfired (Or.inr ⟨t, rfl⟩)
      obtain ⟨m', hm', -⟩ := member_append hm [.turn (.wait t)]
      rw [← outcome_concat] at serves
      refine ⟨[.turn (.wait t), e], .passes (.served (outcome_concat events _ ▸ serves) .none), ?_⟩
      rw [List.append_cons]
      exact hcared hm' (isCancelledAt_eq hm' ▸ hwaited) serves.cares
  cases selecting : ((outcome events).loop m).isSelecting with
  | false => exact hgoing hm unfired selecting
  | true =>
    have hlooked := hcared hm unfired (e := .turn (.look i)) (Or.inl ⟨m, _, hm, if_pos rfl⟩)
    obtain ⟨m', hm', -⟩ := member_append hm [.turn (.look i)]
    have hpulls := selects_once hm selecting unfired (outcome_concat events _ ▸ hm') (outcome (events ++ [.turn (.look i)]))
    obtain ⟨later, hgets, hunfired⟩ :=
      hgoing hm' (isCancelledAt_eq hm' ▸ hlooked) hpulls
    rw [← List.append_cons] at hunfired
    exact ⟨.turn (.look i) :: later, .passes (outcome_concat events _ ▸ hgets), hunfired⟩

/-! ## Sensible configurations -/

/-- **What consumers survive** whose configuration is sensible, whatever else happens.

* What an event asks of timers, channels and the clock on behalf of a bus can be had, if the configuration of the bus is
  sensible.
* Then whatever has been asked for could be had, and no consumer has been ended by a fault. Before its token fires a
  consumer has not ended, and it can get what it waits for.
* While it gets that and the configuration stays sensible, the store is asked again for the messages of its topic behind the
  offset at which it began, for one message at least and with the lease that is configured. -/
theorem consumers_last (events : List Event) :
    (∀ e, ∀ x ∈ (outcome events).demands e, ∀ b, (outcome events).buses[x.1]? = some b →
        b.config.IsSensible (outcome events).now → x.2.IsMet) ∧
      ∀ i m, (outcome events).members[i]? = some m → ∃ b, (outcome events).buses[m.bus]? = some b ∧
        (b.config.IsSensible (outcome events).now →
          (∀ x ∈ course events, ∀ y ∈ x.1.demands x.2, y.1 = m.bus → y.2.IsMet) ∧ m.consumer.phase ≠ .crashed ∧
          ((outcome events).isCancelled m = false → m.consumer.isOver = false ∧
            ∃ later, Gets i (outcome events) later 1 ∧ (outcome (events ++ later)).isCancelledAt i = false)) ∧
        ∀ later n, Gets i (outcome events) later n → m.consumer.phase.ahead b.config.retry < n →
          b.config.IsSensible (outcome (events ++ later)).now → (outcome (events ++ later)).isCancelledAt i = false →
          ∃ before e rest, later = before ++ e :: rest ∧ Polls (outcome (events ++ before)) i e
            ⟨m.consumer.setup.topic, m.consumer.setup.group, m.consumer.setup.after, max b.config.batchSize 1,
              b.config.claimLease⟩ := by
  have hfitted := fitted_outcome events
  refine ⟨fun e x hx b hb sensible => hfitted.demands_met hx hb sensible, fun i m hm => ?_⟩
  obtain ⟨b, propagator, hb, hsettings⟩ := hfitted.settings hm
  have hperiod : ∀ {now}, b.config.IsSensible now → m.consumer.setup.settings.pollInterval ≠ .zero := by
    intro now sensible
    rw [hsettings]
    exact sensible.period
  refine ⟨b, hb, fun sensible => ?_, fun later n gets enough sensible unfired => ?_⟩
  · obtain ⟨hlasting, hsane⟩ := enduring_outcome events i m hm (hperiod sensible)
    exact ⟨fun x hx y hy => demands_met_before hb sensible hx hy, hsane, fun unfired =>
      ⟨hlasting.not_over unfired, served_soon hm unfired⟩⟩
  · have hrequest : (Consumer.stream m.consumer.setup).request = ⟨m.consumer.setup.topic, m.consumer.setup.group,
        m.consumer.setup.after, max b.config.batchSize 1, b.config.claimLease⟩ := by
      unfold Consumer.stream
      rw [hsettings]
      rfl
    have hretry : m.consumer.setup.settings.retry = b.config.retry := by
      rw [hsettings]
      rfl
    rw [← hrequest]
    exact polled_within gets rfl hm (hperiod sensible) (hretry ▸ enough) unfired

/-- A message waits for a subscriber that is about to poll for the first time. -/
def newcomer (config : Config) : List Event :=
  [.turn (.addBus config .silent), .turn (.ask .performed (.enqueue "items" [.new (.drawn 7) []])),
    .subscribed 0 "items" (.named "workers") 0, .turn (.look 0), .turn (.look 0)]

theorem sensible_standard : Config.standard.IsSensible 0 where
  period := by decide
  spans := by
    simp only [List.forall_mem_cons]
    exact ⟨by decide, by decide, by decide, fun _ h => by cases h⟩
  capacity := by decide
  remote := by decide

/-- The newcomer starts its ticker, asks for messages, and is answered. -/
def welcome : List Event := [.turn (.look 0), .turn (.look 0), .turn (.answer 0 .performed)]

/-- With the standard configuration the newcomer gets its ticker, and the store is asked for up to ten messages. -/
theorem consumers_last_newcomer :
    (Demand.ticker (.ofSecs 1)).IsMet ∧
      (∃ later, Gets 0 (outcome (newcomer .standard)) later 1 ∧
        (outcome (newcomer .standard ++ later)).isCancelledAt 0 = false) ∧
      ∃ before e rest, welcome = before ++ e :: rest ∧
        Polls (outcome (newcomer .standard ++ before)) 0 e ⟨"items", "workers", 0, 10, .ofSecs 30⟩ := by
  obtain ⟨hdemands, hmembers⟩ := consumers_last (newcomer .standard)
  have hmet := hdemands (.turn (.look 0)) (0, .ticker (.ofSecs 1)) List.mem_cons_self _ rfl sensible_standard
  obtain ⟨m, hm, hbus, hsetup, hphase, hcancelled⟩ : ∃ m, (outcome (newcomer .standard)).members[0]? = some m ∧
      m.bus = 0 ∧ m.consumer.setup = ⟨.subscriber false, "items", "workers", 0, .ofConfig .standard .silent⟩ ∧
        m.consumer.phase = .pulling .start ∧ (outcome (newcomer .standard)).isCancelled m = false :=
    ⟨_, rfl, rfl, rfl, rfl, rfl⟩
  obtain ⟨b, hb, hlasts, hpolls⟩ := hmembers 0 m hm
  have hfirst : (outcome (newcomer .standard)).buses[0]? = some (.new .standard .silent) := rfl
  rw [hbus, hfirst] at hb
  obtain rfl := Option.some.inj hb
  obtain ⟨-, -, hunfired⟩ := hlasts sensible_standard
  have hgets : Gets 0 (outcome (newcomer .standard)) welcome 3 :=
    .served ⟨_, _, .fire, rfl, rfl, ⟨_, _, rfl⟩, rfl⟩ <|
      .served ⟨_, _, .fire, rfl, rfl, ⟨_, _, rfl, .inr (Nat.le_refl 0)⟩, rfl⟩ <|
        .served ⟨_, _, .fire, rfl, rfl, ⟨_, _, _, rfl⟩, rfl⟩ .none
  refine ⟨hmet, (hunfired hcancelled).2, ?_⟩
  rw [hsetup, hphase] at hpolls
  exact hpolls welcome 3 hgets (by decide) sensible_standard rfl

/-- An environment in which there is no wait between polls. -/
def hasty (key : String) : Option String := if key = "LETTERBOX_POLL_INTERVAL_MS" then some "0" else none

/-- An environment in which claims are exclusive for as long as can be said. -/
def possessive (key : String) : Option String :=
  if key = "LETTERBOX_CLAIM_LEASE_SECS" then some "18446744073709551615" else none

theorem load_hasty : Config.load hasty = .ok (Config.standard.withPollInterval (.ofMillis 0)) := by
  have hpoll : Config.setting hasty "LETTERBOX_POLL_INTERVAL_MS" (Config.numeral Config.bound64) = .ok (some 0) := rfl
  unfold Config.load
  rw [hpoll]
  rfl

theorem load_possessive :
    Config.load possessive = .ok (Config.standard.withClaimLease (.ofSecs 18446744073709551615)) := by
  have hlease : Config.setting possessive "LETTERBOX_CLAIM_LEASE_SECS" (Config.numeral Config.bound64) =
      .ok (some 18446744073709551615) := rfl
  unfold Config.load
  rw [hlease]
  rfl

/-- Two configurations that are accepted. With a period of zero the newcomer is ended by a fault, although its token has
not fired. With the longest lease the store is asked for a moment that the clock cannot represent when it answers the
first claim. -/
theorem consumers_die_of_accepted :
    (∃ c, Config.load hasty = .ok c ∧ (outcome (newcomer c ++ [.turn (.look 0)])).isCancelledAt 0 = false ∧
        ((outcome (newcomer c ++ [.turn (.look 0)])).members.map fun m => m.consumer.phase) = [.crashed]) ∧
      ∃ c, Config.load possessive = .ok c ∧
        ∃ x ∈ (outcome (newcomer c ++ [.turn (.look 0), .turn (.look 0)])).demands (.turn (.answer 0 .performed)),
          ¬ x.2.IsMet := by
  refine ⟨⟨_, load_hasty, rfl, rfl⟩, _, load_possessive, _, List.mem_cons_self, ?_⟩
  show ¬ Instant.plus 0 (.ofSecs 18446744073709551615) < Instant.limit
  decide

end System

end DurableBus
