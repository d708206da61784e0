import DurableBus.Proofs.Consumer.Invocation
import DurableBus.Proofs.Consumer.Parting

/-!
# Consumers that begin nothing

When the token of a consumer has fired, the message in hand is brought to its end and the claims that wait are given
back. A `Winding` consumer is one that can begin nothing any more.

* `Loop.Starts` : what begins with a beat: an attempt of a handler or to pass a message on, or a claim;
* `works_step` : how the message in hand is brought to its end, one kind of beat after the other;
* `Winding.step`, `Winding.starts_nothing` : a consumer that can begin nothing stays so, and nothing begins.
-/

set_option autoImplicit false

namespace DurableBus

open Consumer (Setup)

/-! ## What begins -/

def Retry.isReady {ε : Type} : Retry ε → Bool
  | .ready _ _ => true
  | _ => false

namespace Job

/-- How far the work on the message has come. -/
def work? : Job → Option Work
  | dispatch _ _ work | forward _ _ work => some work
  | refuse _ => none

/-- How a beat ends the attempt that is running: the handler returns, or the store answers. -/
def ending? (job : Job) (b : Beat) : Option (Except Failure Unit) :=
  match job, b with
  | dispatch _ _ _, .finish outcome => some outcome
  | forward _ _ _, .answer _ _ (.ok _) => some (.ok ())
  | forward _ e _, .answer _ _ (.error refusal) => some (.error (.bus (.store "forward" (some e.destination) refusal)))
  | _, _ => none

/-- How the claim is settled: a success is acknowledged, a failure is given back. -/
def settlement (setup : Setup) (job : Job) : Except Failure Unit → Store.Request
  | .ok () => .ack job.claimed.receipt
  | .error _ => .nack job.claimed.receipt setup.settings.redeliveryDelay

end Job

/-- Whether an attempt is about to begin. -/
def Phase.isBeginning (p : Phase) : Bool :=
  (p.job?.bind Job.work?).any fun
    | .trying attempts => attempts.isReady
    | _ => false

namespace Loop

def effects (l : Loop) : Beat → List Effect
  | .fire => []
  | .look now publisher => (l.consumer.look (l.observe now publisher)).2
  | .answer now publisher reply =>
    if l.consumer.request?.isSome then (l.consumer.answer (l.observe now publisher) reply).2 else []
  | .finish outcome => (l.consumer.finish outcome).2

def run (l : Loop) (beats : List Beat) : Loop := beats.foldl step l

/-- Something new begins: the consumer goes on to an attempt, a handler is invoked, or the store is asked for messages
or to take one. -/
def Starts (l : Loop) (b : Beat) : Prop :=
  ((∃ now publisher, b = .look now publisher) ∧ l.phase.isBeginning = true) ∨
    (∃ d, .invoke d ∈ l.effects b) ∨
    ∃ request, (l.step b).consumer.request? = some request ∧ l.consumer.request? ≠ some request ∧
      (request.operation = .claim ∨ request.operation = .enqueue)

/-- Whether the consumer is about to look at its token. -/
def isSelecting (l : Loop) : Bool :=
  match l.phase with
  | .selecting _ => true
  | _ => false

def isPulling (l : Loop) : Bool :=
  match l.phase with
  | .pulling _ => true
  | _ => false

/-- A beat that the consumer waits for: the answer to its request, the end of its handler's attempt, or a look when
there is neither. When it is about to look at its token it does that, and while it pulls it may pause. -/
def Attends (l : Loop) : Beat → Prop
  | .fire => False
  | .look _ _ => l.isSelecting = true ∨ l.isPulling = true ∨ l.consumer.request? = none ∧ l.consumer.isHandling = false
  | .answer _ _ _ => l.isSelecting = false ∧ l.consumer.request?.isSome
  | .finish _ => l.consumer.isHandling = true

variable {l : Loop} {b : Beat} {s : ClaimStream} {job : Job}

/-! ## The message in hand -/

/-- How the work on a message goes on once the token has fired. -/
inductive Closes : Option (Except Failure Unit) → Work → Work → Prop
  | succeeds {n delay} : Closes (some (.ok ())) (.trying (.running n delay)) (.acking n)
  | exhausts {n delay e} : Closes (some (.error e)) (.trying (.running n delay)) (.nacking ⟨n, false, e⟩)
  | reports {n delay e} : Closes (some (.error e)) (.trying (.running n delay)) (.trying (.reported n delay e))
  | gives {n delay e} : Closes none (.trying (.reported n delay e)) (.nacking ⟨n, true, e⟩)
  | wakes {n delay e wakeAt} : Closes none (.trying (.resting n delay e wakeAt)) (.nacking ⟨n, true, e⟩)

/-- What becomes of a message in hand with a beat. -/
inductive Works (l : Loop) (b : Beat) (s : ClaimStream) (job : Job) : Phase → Prop
  | still (idle : ¬ l.Attends b)
      (early : ∀ n delay, job.work? = some (.trying (.running n delay)) → job.ending? b = none) :
      Works l b s job (.working s job)
  | closes {work work'} (was : job.work? = some work) (closes : Closes (job.ending? b) work work') :
      Works l b s job (.working s (job.withWork work'))
  | settles (tried : ∀ attempts, job.work? ≠ some (.trying attempts))
      (answered : ∃ now publisher reply, b = .answer now publisher reply) : Works l b s job (.selecting s)

theorem phase_endAttempt (c : Consumer) (s : ClaimStream) (job : Job) (n : Nat) (delay : Duration)
    (outcome : Except Failure Unit) :
    ∃ work', Closes (some outcome) (.trying (.running n delay)) work' ∧
      (c.endAttempt s job (.running n delay) outcome).1.phase = .working s (job.withWork work') := by
  rcases outcome with e | ⟨⟩
  · unfold Consumer.endAttempt Retry.finish
    by_cases hlast : c.setup.settings.retry.maxAttempts ≤ n
    · simp only [hlast, if_true]
      exact ⟨_, .exhausts, rfl⟩
    · simp only [hlast, if_false]
      exact ⟨_, .reports, rfl⟩
  · refine ⟨_, .succeeds, ?_⟩
    show (c.conclude s job (.ok n)).1.phase = _
    cases job <;> rfl

theorem phase_endAttempt_of_waiting {attempts : Retry Failure} (c : Consumer) (outcome : Except Failure Unit)
    (waiting : attempts.finish c.setup.settings.retry outcome = attempts)
    (unfinished : ∀ result, attempts ≠ .over result) :
    (c.endAttempt s job attempts outcome).1.phase = .working s (job.withWork (.trying attempts)) := by
  unfold Consumer.endAttempt
  rw [waiting]
  cases attempts with
  | «over» result => exact absurd rfl (unfinished result)
  | _ => rfl

theorem isSelecting_eq_false (was : l.phase = .working s job) : l.isSelecting = false ∧ l.isPulling = false := by
  unfold isSelecting isPulling
  rw [was]
  exact ⟨rfl, rfl⟩

theorem request?_working (was : l.phase = .working s job) : l.consumer.request? = l.consumer.jobRequest? job := by
  unfold phase at was
  unfold Consumer.request?
  rw [was]

theorem isHandling_working (was : l.phase = .working s job) :
    l.consumer.isHandling = true ↔ ∃ k context n delay, job = .dispatch k context (.trying (.running n delay)) := by
  unfold phase at was
  unfold Consumer.isHandling
  rw [was]
  constructor
  · intro h
    split at h
    case h_1 n delay heq => exact ⟨_, _, _, _, (Phase.working.inj heq).2⟩
    case h_2 => cases h
  · rintro ⟨k, context, n, delay, rfl⟩
    rfl

theorem phase_look_working {attempts : Retry Failure} (was : l.phase = .working s job)
    (trying : job.work? = some (.trying attempts)) (going : attempts.isReady = false) (now : Instant)
    (publisher : Publisher) : (l.step (.look now publisher)).phase =
      (l.consumer.carryOn s job (attempts.look l.consumer.setup.settings.retry now l.fired)).1.phase := by
  unfold phase at was
  show (l.consumer.look (l.observe now publisher)).1.phase = _
  unfold Consumer.look
  rw [was]
  cases job with
  | dispatch k context work | forward k e work =>
    obtain rfl := Option.some.inj trying
    unfold Consumer.lookAt
    cases attempts with
    | ready => cases going
    | _ => rfl
  | refuse k => cases trying

/-- A job that is being settled waits for the store. -/
theorem waits_of_settling (settling : ∀ attempts, job.work? ≠ some (.trying attempts)) (c : Consumer) :
    ∃ k, k = job.claimed ∧ (c.jobRequest? job = some (.ack k.receipt) ∨
      c.jobRequest? job = some (.nack k.receipt c.setup.settings.redeliveryDelay)) := by
  refine ⟨_, rfl, ?_⟩
  cases job with
  | dispatch k context work | forward k e work =>
    cases work with
    | trying attempts => exact absurd rfl (settling attempts)
    | acking n => exact .inl rfl
    | nacking e => exact .inr rfl
  | refuse k => exact .inr rfl

theorem phase_look_settling (was : l.phase = .working s job)
    (settling : ∀ attempts, job.work? ≠ some (.trying attempts)) (now : Instant) (publisher : Publisher) :
    (l.step (.look now publisher)).phase = .working s job := by
  unfold phase at was
  show (l.consumer.look (l.observe now publisher)).1.phase = _
  unfold Consumer.look
  rw [was]
  cases job with
  | dispatch k context work | forward k e work =>
    cases work with
    | trying attempts => exact absurd rfl (settling attempts)
    | _ => exact was
  | refuse k => exact was

theorem works_look (h : job.Fits l.consumer.setup.role) (fired : l.fired = true) (was : l.phase = .working s job)
    (going : l.phase.isBeginning = false) (now : Instant) (publisher : Publisher) :
    Works l (.look now publisher) s job (l.step (.look now publisher)).phase := by
  have hending : job.ending? (.look now publisher) = none := by cases job <;> rfl
  obtain ⟨hselecting, hpulling⟩ := isSelecting_eq_false was
  by_cases htrying : ∃ attempts, job.work? = some (.trying attempts)
  · obtain ⟨attempts, hwork⟩ := htrying
    have hready : attempts.isReady = false := by
      rw [was] at going
      unfold Phase.isBeginning at going
      simpa [Phase.job?, hwork] using going
    rw [phase_look_working was hwork hready, fired]
    cases attempts with
    | ready n delay => cases hready
    | running n delay =>
      have hsame : job.withWork (.trying (.running n delay)) = job := by
        cases job with
        | refuse k => cases hwork
        | _ => rw [← Option.some.inj hwork]; rfl
      show Works _ _ _ _ (.working s (job.withWork (.trying (.running n delay))))
      rw [hsame]
      refine .still ?_ fun _ _ _ => hending
      rintro (hsel | hpull | ⟨hnone, hhandling⟩)
      · rw [hselecting] at hsel
        cases hsel
      · rw [hpulling] at hpull
        cases hpull
      · cases job with
        | dispatch k context work =>
          obtain rfl := Option.some.inj hwork
          rw [(isHandling_working was).2 ⟨_, _, _, _, rfl⟩] at hhandling
          cases hhandling
        | forward k e work =>
          obtain rfl := Option.some.inj hwork
          rw [request?_working was] at hnone
          cases hnone
        | refuse k => cases hwork
    | reported n delay e => exact .closes hwork (by rw [hending]; exact .gives)
    | resting n delay e wakeAt => exact .closes hwork (by rw [hending]; exact .wakes)
    | «over» result =>
      cases job with
      | dispatch k context work =>
        obtain rfl := Option.some.inj hwork
        exact h.2.elim
      | forward k e work =>
        obtain rfl := Option.some.inj hwork
        exact h.2.2.elim
      | refuse k => cases hwork
  · have hsettling : ∀ attempts, job.work? ≠ some (.trying attempts) := fun attempts heq => htrying ⟨attempts, heq⟩
    rw [phase_look_settling was hsettling]
    refine .still ?_ fun _ _ _ => hending
    rintro (hsel | hpull | ⟨hnone, -⟩)
    · rw [hselecting] at hsel
      cases hsel
    · rw [hpulling] at hpull
      cases hpull
    · obtain ⟨k, -, hrequest⟩ := waits_of_settling hsettling l.consumer
      rw [request?_working was] at hnone
      rcases hrequest with hrequest | hrequest <;> rw [hrequest] at hnone <;> cases hnone

theorem works_finish (h : job.Fits l.consumer.setup.role) (was : l.phase = .working s job)
    (going : l.phase.isBeginning = false) (outcome : Except Failure Unit) :
    Works l (.finish outcome) s job (l.step (.finish outcome)).phase := by
  have hstill : (¬ ∃ k context n delay, job = .dispatch k context (.trying (.running n delay))) →
      Works l (.finish outcome) s job (.working s job) := by
    intro hidle
    refine .still (fun hattends => hidle ((isHandling_working was).1 hattends)) fun n delay hwork => ?_
    cases job with
    | dispatch k context work => exact absurd ⟨k, context, n, delay, by rw [Option.some.inj hwork]⟩ hidle
    | forward | refuse => rfl
  have hphase : l.consumer.phase = .working s job := was
  show Works _ _ _ _ (l.consumer.finish outcome).1.phase
  unfold Consumer.finish
  rw [hphase]
  cases job with
  | dispatch k context work =>
    cases work with
    | trying attempts =>
      cases attempts with
      | ready n delay =>
        rw [was] at going
        cases going
      | running n delay =>
        obtain ⟨work', hcloses, hend⟩ :=
          phase_endAttempt l.consumer s (.dispatch k context (.trying (.running n delay))) n delay outcome
        simp only
        rw [hend]
        exact .closes rfl hcloses
      | reported | resting =>
        simp only
        rw [phase_endAttempt_of_waiting _ _ rfl (by rintro _ ⟨⟩)]
        exact hstill (by rintro ⟨_, _, _, _, ⟨⟩⟩)
      | «over» result => exact h.2.elim
    | acking | nacking =>
      simp only
      rw [hphase]
      exact hstill (by rintro ⟨_, _, _, _, ⟨⟩⟩)
  | forward | refuse =>
    simp only
    rw [hphase]
    exact hstill (by rintro ⟨_, _, _, _, ⟨⟩⟩)

theorem works_answer (was : l.phase = .working s job) (now : Instant) (publisher : Publisher) (reply : Store.Reply) :
    Works l (.answer now publisher reply) s job (l.step (.answer now publisher reply)).phase := by
  have hrequest := request?_working was
  have hphase : l.consumer.phase = .working s job := was
  unfold step
  simp only
  split
  case isFalse hidle =>
    show Works _ _ _ _ l.phase
    rw [was]
    refine .still (fun hattends => hidle hattends.2) fun n delay hwork => ?_
    cases job with
    | forward k e work =>
      obtain rfl := Option.some.inj hwork
      rw [hrequest] at hidle
      exact absurd rfl hidle
    | dispatch | refuse => rfl
  case isTrue hasked =>
    rw [hrequest] at hasked
    show Works _ _ _ _ (l.consumer.answer (l.observe now publisher) reply).1.phase
    unfold Consumer.answer
    rw [hphase]
    simp only
    have hsettles : (∀ attempts, job.work? ≠ some (.trying attempts)) →
        (l.consumer.answerJob s job reply).1.phase = .selecting s →
          Works l (.answer now publisher reply) s job (l.consumer.answerJob s job reply).1.phase := by
      intro hover hselects
      rw [hselects]
      exact .settles hover ⟨_, _, _, rfl⟩
    cases job with
    | dispatch k context work =>
      cases work with
      | trying attempts => cases hasked
      | acking | nacking => exact hsettles (by rintro _ ⟨⟩) rfl
    | forward k e work =>
      cases work with
      | trying attempts =>
        cases attempts with
        | running n delay =>
          let job := Job.forward k e (.trying (.running n delay))
          have hends : ∀ outcome, job.ending? (.answer now publisher reply) = some outcome →
              Works l (.answer now publisher reply) s job
                (l.consumer.endAttempt s job (.running n delay) outcome).1.phase := by
            intro outcome hending
            obtain ⟨work', hcloses, hend⟩ := phase_endAttempt l.consumer s job n delay outcome
            rw [hend]
            exact .closes rfl (hending ▸ hcloses)
          cases reply with
          | ok a => exact hends _ rfl
          | error refusal => exact hends _ rfl
        | _ => cases hasked
      | acking | nacking => exact hsettles (by rintro _ ⟨⟩) rfl
    | refuse k => exact hsettles (by rintro _ ⟨⟩) rfl

/-- **What becomes of a message in hand** once the token has fired. -/
theorem works_step (h : l.phase.Sound l.consumer.setup.role) (fired : l.fired = true) (was : l.phase = .working s job)
    (going : l.phase.isBeginning = false) (b : Beat) : Works l b s job (l.step b).phase := by
  have hfits := h.fits job (by rw [was]; rfl)
  cases b with
  | fire =>
    show Works _ _ _ _ l.phase
    rw [was]
    exact .still id fun _ _ _ => by cases job <;> rfl
  | look now publisher => exact works_look hfits fired was going now publisher
  | finish outcome => exact works_finish hfits was going outcome
  | answer now publisher reply => exact works_answer was now publisher reply

/-! ## Nothing begins -/

end Loop

namespace ClaimStream

variable {setup : Setup} {s : ClaimStream} {fired : Bool} {step : ClaimStream × Move}

/-- What a beat makes of a stream: it looks, or it is answered. -/
inductive Steps (setup : Setup) (fired : Bool) (s : ClaimStream) : ClaimStream × Move → Prop
  | looked {now} : Steps setup fired s (s.look setup now fired)
  | answered {reply} (asked : (s.request? setup).isSome) : Steps setup fired s (s.answer fired reply)

theorem Steps.flows (h : Steps setup fired s step) : Loop.Flows setup fired s step.1 := by
  cases h with
  | looked => exact .looked
  | answered asked => exact .answered asked

theorem follow_ne_yield (batches : Poller Pending) (move : Poller.Move Pending Store.Error) (k : Claimed) :
    (follow true batches move).2 ≠ .yield (.ok k) := by
  rcases move with _ | _ | _ | _ | (e | p) | _ | _ <;> rintro ⟨⟩

/-- Once the token has fired only a message that is being renewed is handed out. -/
theorem Steps.ne_yield (h : Steps setup true s step) (handed : ∀ batches k, s ≠ .renewing batches k) (k : Claimed) :
    step.2 ≠ .yield (.ok k) := by
  cases h with
  | looked =>
    cases s with
    | pulling batches => exact follow_ne_yield _ _ k
    | renewing | releasing => rintro ⟨⟩
  | @answered reply asked =>
    cases s with
    | pulling batches => exact follow_ne_yield _ _ k
    | renewing batches k' => exact absurd rfl (handed batches k')
    | releasing batches k' => cases reply <;> rintro ⟨⟩

/-- A stream that hands a message out does not claim. -/
theorem Steps.idle_of_yield (h : Steps setup fired s step) (orderly : s.Orderly) {k : Claimed}
    (yields : step.2 = .yield (.ok k)) : step.1.isClaiming = false := by
  refine isClaiming_eq_false fun due heq => ?_
  cases h with
  | @looked now =>
    cases s with
    | pulling batches =>
      rw [look_pulling] at yields heq
      have hlooks := @Poller.looks_look _ Store.Error setup.period now fired batches
      generalize batches.look setup.period now fired = move at hlooks yields heq
      cases hlooks with
      | hands => cases (follows_follow _ _ _).eq_of_pulling heq
      | _ => cases yields
    | renewing | releasing => cases yields
  | answered asked => exact (answer_pulling_ne asked orderly heq).1 due rfl

end ClaimStream

namespace Loop

variable {l : Loop} {b : Beat} {s : ClaimStream} {job : Job}

theorem request?_pulling (was : l.phase = .pulling s) :
    l.consumer.request? = s.request? (Consumer.stream l.consumer.setup) := by
  unfold phase at was
  unfold Consumer.request?
  rw [was]

theorem phase_look_pulling (was : l.phase = .pulling s) (now : Instant) (publisher : Publisher) :
    (l.step (.look now publisher)).phase = (l.consumer.pulled (s.look (Consumer.stream l.consumer.setup) now l.fired).1
      (s.look (Consumer.stream l.consumer.setup) now l.fired).2).1.phase := by
  unfold phase at was
  unfold step phase Consumer.look observe
  rw [was]

theorem phase_answer_pulling (was : l.phase = .pulling s)
    (asked : (s.request? (Consumer.stream l.consumer.setup)).isSome) (now : Instant) (publisher : Publisher)
    (reply : Store.Reply) : (l.step (.answer now publisher reply)).phase =
      (l.consumer.pulled (s.answer l.fired reply).1 (s.answer l.fired reply).2).1.phase := by
  rw [← request?_pulling was] at asked
  unfold phase at was
  unfold step phase
  simp only
  rw [if_pos asked]
  unfold Consumer.answer observe
  rw [was]

theorem phase_step_pulling (was : l.phase = .pulling s) (b : Beat) : (l.step b).phase = .pulling s ∨
    ∃ step, ClaimStream.Steps (Consumer.stream l.consumer.setup) l.fired s step ∧
      (l.step b).phase = (l.consumer.pulled step.1 step.2).1.phase := by
  cases b with
  | fire => exact .inl was
  | look now publisher => exact .inr ⟨_, .looked, phase_look_pulling was now publisher⟩
  | finish outcome =>
    have hphase : l.consumer.phase = .pulling s := was
    left
    show (l.consumer.finish outcome).1.phase = _
    unfold Consumer.finish
    rw [hphase]
    exact hphase
  | answer now publisher reply =>
    by_cases asked : (s.request? (Consumer.stream l.consumer.setup)).isSome
    · exact .inr ⟨_, .answered asked, phase_answer_pulling was asked now publisher reply⟩
    · left
      unfold step
      simp only
      rw [request?_pulling was, if_neg asked]
      exact was

theorem isBeginning_of_job? {p : Phase} (h : p.job? = none) : p.isBeginning = false := by
  unfold Phase.isBeginning
  rw [h]
  rfl

/-- What is pulled is no job, unless a message is handed out. -/
theorem job?_pulled {c : Consumer} {move : ClaimStream.Move} (h : ∀ k, move ≠ .yield (.ok k)) :
    (c.pulled s move).1.phase.job? = none := by
  rcases move with _ | _ | _ | (e | k) | _ | _
  case yield.ok => exact absurd rfl (h k)
  all_goals rfl

theorem stream_pulled {c : Consumer} {move : ClaimStream.Move} {s' : ClaimStream}
    (h : (c.pulled s move).1.phase = .pulling s') : s' = s := by
  rcases move with _ | _ | _ | (e | k) | _ | _
  case yield.ok =>
    rw [show (c.pulled s (.yield (.ok k))) = c.take s k from rfl, Consumer.phase_take] at h
    cases h
  all_goals cases h
  all_goals rfl

/-- Only a consumer that works, or is handed a message, works next. -/
theorem working_step (h : l.Sound) (b : Beat) (works : (l.step b).phase = .working s job) :
    (∃ job', l.phase = .working s job') ∨ s.isClaiming = false := by
  cases hphase : l.phase with
  | pulling s₀ =>
    right
    rcases phase_step_pulling hphase b with hsame | ⟨step, hsteps, hstep⟩
    · rw [hsame] at works
      cases works
    · rw [hstep] at works
      by_cases hyields : ∃ k, step.2 = .yield (.ok k)
      · obtain ⟨k, hk⟩ := hyields
        rw [hk, show l.consumer.pulled step.1 (.yield (.ok k)) = l.consumer.take step.1 k from rfl,
          Consumer.phase_take] at works
        rw [← (Phase.working.inj works).1]
        exact hsteps.idle_of_yield (h.orderly s₀ (by rw [hphase]; rfl)) hk
      · have hnone := job?_pulled (s := step.1) (c := l.consumer) fun k hk => hyields ⟨k, hk⟩
        rw [works] at hnone
        cases hnone
  | working s₀ job₀ => exact .inl ⟨job₀, by
      have hmoves := moves_step h.phase b
      rw [hphase, works] at hmoves
      cases hmoves with
      | still | works => rfl
      | leaves gone => cases gone⟩
  | _ =>
    have hmoves := moves_step h.phase b
    rw [hphase, works] at hmoves
    cases hmoves with
    | leaves gone => cases gone

/-- A consumer whose token has fired and that can begin nothing. -/
structure Winding (l : Loop) : Prop where
  sound : l.Sound
  fired : l.fired = true
  idle : ∀ s job, l.phase = .working s job → s.isClaiming = false
  going : l.phase.isBeginning = false
  handed : ∀ batches k, l.phase ≠ .pulling (.renewing batches k)

theorem Winding.of_job? {l' : Loop} (sound : l'.Sound) (fired : l'.fired = true) (free : l'.phase.job? = none)
    (handed : ∀ batches k, l'.phase ≠ .pulling (.renewing batches k)) : l'.Winding where
  sound := sound
  fired := fired
  idle s job works := by
    rw [works] at free
    cases free
  going := isBeginning_of_job? free
  handed := handed

theorem phase_step_selecting (was : l.phase = .selecting s) (fired : l.fired = true) (b : Beat) :
    (l.step b).phase = .selecting s ∨ (l.step b).phase = .draining s := by
  have hphase : l.consumer.phase = .selecting s := was
  cases b with
  | fire => exact .inl was
  | look now publisher =>
    right
    show (l.consumer.look (l.observe now publisher)).1.phase = _
    unfold Consumer.look observe
    rw [hphase, fired]
    rfl
  | finish outcome =>
    left
    show (l.consumer.finish outcome).1.phase = _
    unfold Consumer.finish
    rw [hphase]
    exact hphase
  | answer now publisher reply =>
    left
    unfold step
    simp only
    split
    case isFalse => exact was
    case isTrue =>
      show (l.consumer.answer (l.observe now publisher) reply).1.phase = _
      unfold Consumer.answer
      rw [hphase]
      exact hphase

theorem Moves.free {setup : ClaimStream.Setup} {fired : Bool} {p p' : Phase} (h : Moves setup fired p p')
    (free : p.job? = none) (selecting : ∀ s, p ≠ .selecting s) (pulling : ∀ s, p ≠ .pulling s) :
    p'.job? = none ∧ ∀ s, p' ≠ .pulling s := by
  cases h with
  | still => exact ⟨free, pulling⟩
  | starts | drains => exact ⟨rfl, by rintro _ ⟨⟩⟩
  | sees | pulls => exact absurd rfl (selecting _)
  | works | settles => cases free
  | selects | goesOn | takes | ends => exact absurd rfl (pulling _)
  | leaves gone =>
    cases p' with
    | working | pulling => cases gone
    | _ => exact ⟨rfl, by rintro _ ⟨⟩⟩

theorem Winding.step_working (h : l.Winding) (was : l.phase = .working s job) (b : Beat) : (l.step b).Winding := by
  have hworks := works_step h.sound.phase h.fired was h.going b
  refine ⟨h.sound.step b, fired_step h.fired b, fun s' job' works => ?_, ?_, fun batches k hpulls => ?_⟩
  · generalize (l.step b).phase = p at hworks works
    cases hworks with
    | still | closes =>
      rw [← (Phase.working.inj works).1]
      exact h.idle s job was
    | settles => cases works
  · have hgoing := h.going
    rw [was] at hgoing
    generalize (l.step b).phase = p at hworks
    cases hworks with
    | still => exact hgoing
    | closes at' closes =>
      generalize job.ending? b = ending at closes
      unfold Phase.isBeginning
      cases job with
      | refuse => cases at'
      | _ => cases closes <;> rfl
    | settles => rfl
  · generalize (l.step b).phase = p at hworks hpulls
    subst hpulls
    cases hworks

theorem Winding.job?_step (h : l.Winding) (free : l.phase.job? = none) (b : Beat) : (l.step b).phase.job? = none := by
  cases hphase : l.phase with
  | working s job =>
    rw [hphase] at free
    cases free
  | pulling s =>
    rcases phase_step_pulling hphase b with hsame | ⟨step, hsteps, hstep⟩
    · rw [hsame]
      rfl
    · rw [h.fired] at hsteps
      rw [hstep]
      exact job?_pulled (hsteps.ne_yield fun batches k heq => h.handed batches k (by rw [hphase, heq]))
  | selecting s =>
    rcases phase_step_selecting hphase h.fired b with hsame | hdrains
    · rw [hsame]
      rfl
    · rw [hdrains]
      rfl
  | _ =>
    have hmoves := moves_step h.sound.phase b
    rw [hphase] at hmoves
    exact (hmoves.free rfl (by rintro _ ⟨⟩) (by rintro _ ⟨⟩)).1

theorem Winding.step_pulling (h : l.Winding) (was : l.phase = .pulling s) (b : Beat) : (l.step b).Winding := by
  have hsound := h.sound.step b
  have hfired := fired_step h.fired b
  refine .of_job? hsound hfired (h.job?_step (by rw [was]; rfl) b) fun batches k hpulls => h.handed batches k ?_
  rcases phase_step_pulling was b with hsame | ⟨step, hsteps, hstep⟩
  · rw [was, ← hsame, hpulls]
  · rw [h.fired] at hsteps
    rw [hstep] at hpulls
    rw [was, hsteps.flows.renewing (stream_pulled hpulls).symm]

/-- **Whatever happens then, it can begin nothing.** -/
theorem Winding.step (h : l.Winding) (b : Beat) : (l.step b).Winding := by
  have hsound := h.sound.step b
  have hfired := fired_step h.fired b
  cases hphase : l.phase with
  | working s job => exact h.step_working hphase b
  | pulling s => exact h.step_pulling hphase b
  | selecting s =>
    rcases phase_step_selecting hphase h.fired b with hsame | hdrains
    · exact .of_job? hsound hfired (by rw [hsame]; rfl) (by rw [hsame]; rintro _ _ ⟨⟩)
    · exact .of_job? hsound hfired (by rw [hdrains]; rfl) (by rw [hdrains]; rintro _ _ ⟨⟩)
  | _ =>
    have hmoves := moves_step h.sound.phase b
    rw [hphase] at hmoves
    obtain ⟨hfree, hpulling⟩ := hmoves.free rfl (by rintro _ ⟨⟩) (by rintro _ ⟨⟩)
    exact .of_job? hsound hfired hfree fun batches k => hpulling _

/-- The store is asked for messages by a stream that claims. -/
theorem claiming_of_request? {request : Store.Request} (asks : l.consumer.request? = some request)
    (claims : request.operation = .claim) :
    l.phase.job? = none ∧ ∃ due, l.phase.stream? = some (.pulling (.polling due)) := by
  unfold Consumer.request? at asks
  unfold phase
  cases hphase : l.consumer.phase with
  | selecting s | pulling s | draining s =>
    rw [hphase] at asks
    refine ⟨rfl, ?_⟩
    cases s with
    | pulling batches =>
      cases batches with
      | polling due => exact ⟨due, rfl⟩
      | _ => cases asks
    | renewing | releasing =>
      obtain rfl := Option.some.inj asks
      cases claims
  | working s job =>
    rw [hphase] at asks
    unfold Consumer.jobRequest? at asks
    simp only at asks
    split at asks
    case h_7 => cases asks
    all_goals
      obtain rfl := Option.some.inj asks
      cases claims
  | forgetting =>
    rw [hphase] at asks
    obtain rfl := Option.some.inj asks
    cases claims
  | _ =>
    rw [hphase] at asks
    cases asks

theorem request?_claiming {due : Instant} (free : l.phase.job? = none)
    (claiming : l.phase.stream? = some (.pulling (.polling due))) :
    l.consumer.request? = some (.claim (Consumer.stream l.consumer.setup).request) := by
  unfold phase at free claiming
  unfold Consumer.request?
  cases hphase : l.consumer.phase with
  | working s job =>
    rw [hphase] at free
    cases free
  | selecting s | pulling s | draining s =>
    rw [hphase] at claiming
    obtain rfl := Option.some.inj claiming
    rfl
  | _ =>
    rw [hphase] at claiming
    cases claiming

/-- The store is asked to take a message by a forwarder that passes it on. -/
theorem forwarding_of_request? {request : Store.Request} (asks : l.consumer.request? = some request)
    (stores : request.operation = .enqueue) :
    ∃ s k e n delay, l.phase = .working s (.forward k e (.trying (.running n delay))) := by
  unfold Consumer.request? at asks
  unfold phase
  cases hphase : l.consumer.phase with
  | selecting s | pulling s | draining s =>
    rw [hphase] at asks
    cases s with
    | pulling batches =>
      cases batches with
      | polling due =>
        obtain rfl := Option.some.inj asks
        cases stores
      | _ => cases asks
    | renewing | releasing =>
      obtain rfl := Option.some.inj asks
      cases stores
  | working s job =>
    rw [hphase] at asks
    unfold Consumer.jobRequest? at asks
    simp only at asks
    split at asks
    case h_6 k e n delay => exact ⟨s, k, e, n, delay, rfl⟩
    case h_7 => cases asks
    all_goals
      obtain rfl := Option.some.inj asks
      cases stores
  | forgetting =>
    rw [hphase] at asks
    obtain rfl := Option.some.inj asks
    cases stores
  | _ =>
    rw [hphase] at asks
    cases asks

theorem Winding.quiet (h : l.Winding) (b : Beat) : Quiet (l.effects b) := by
  intro d hd
  cases b with
  | fire => cases hd
  | look now publisher =>
    obtain ⟨s, k, context, n, delay, hphase, -⟩ := Consumer.invoke_mem_look hd
    have hgoing := h.going
    rw [show l.phase = .working s _ from hphase] at hgoing
    cases hgoing
  | finish outcome => exact Consumer.quiet_finish _ _ d hd
  | answer now publisher reply =>
    unfold effects at hd
    simp only at hd
    split at hd
    · exact Consumer.quiet_answer _ _ _ d hd
    · cases hd

theorem Winding.claims_nothing (h : l.Winding) {request : Store.Request}
    (asks : (l.step b).consumer.request? = some request) (claims : request.operation = .claim) :
    l.consumer.request? = some request := by
  obtain ⟨hfree, due, hclaiming⟩ := claiming_of_request? asks claims
  have hbefore := claiming_step h.sound h.fired b hclaiming
  have hjob : l.phase.job? = none := by
    cases hphase : l.phase with
    | working s job =>
      rw [hphase] at hbefore
      have hidle := h.idle s job hphase
      rw [Option.some.inj hbefore] at hidle
      cases hidle
    | _ => rfl
  rw [request?_claiming hfree hclaiming, setup_step] at asks
  rw [request?_claiming hjob hbefore, asks]

theorem Winding.forwards_nothing (h : l.Winding) {request : Store.Request}
    (asks : (l.step b).consumer.request? = some request) (stores : request.operation = .enqueue) :
    l.consumer.request? = some request := by
  obtain ⟨s, k, e, n, delay, hphase⟩ := forwarding_of_request? asks stores
  cases hjob : l.phase.job? with
  | none =>
    have hnone := h.job?_step hjob b
    rw [hphase] at hnone
    cases hnone
  | some job =>
    obtain ⟨s', hbefore⟩ := Phase.working_of_job? hjob
    have hworks := works_step h.sound.phase h.fired hbefore h.going b
    rw [hphase] at hworks
    rw [request?_working hphase] at asks
    generalize hjob' : Job.forward k e (.trying (.running n delay)) = job' at hworks asks hphase
    generalize hp : Phase.working s job' = p at hworks
    cases hworks with
    | still =>
      obtain ⟨-, rfl⟩ := Phase.working.inj hp
      rw [request?_working hbefore, ← asks]
      unfold Consumer.jobRequest?
      rw [setup_step]
    | closes was closes =>
      obtain ⟨-, rfl⟩ := Phase.working.inj hp
      cases job with
      | forward k' e' work =>
        generalize (Job.forward k' e' work).ending? b = ending at closes
        cases closes <;> cases hjob'
      | dispatch | refuse => cases hjob'
    | settles => cases hp

/-- **Nothing new begins.** -/
theorem Winding.starts_nothing (h : l.Winding) (b : Beat) : ¬ l.Starts b := by
  rintro (⟨-, hbeginning⟩ | ⟨d, hd⟩ | ⟨request, hasks, hnew, hclaim | henqueue⟩)
  · rw [h.going] at hbeginning
    cases hbeginning
  · exact h.quiet b d hd
  · exact hnew (h.claims_nothing hasks hclaim)
  · exact hnew (h.forwards_nothing hasks henqueue)

end Loop

end DurableBus
