import DurableBus.Proofs.Chronicle
import DurableBus.Proofs.Consumer.Cancellation
import DurableBus.Proofs.Consumer.Dispatch

/-!
# What a consumer does until its token fires

Stores refuse what they like, handlers fail as they like and messages are what they like.

* `Lasting` : a consumer has not ended before its token fires, if its period is not zero;
* `comes_step` : what a beat makes of such a consumer, and what it does besides;
* `failures_step`, `failing_step` : the hook is told of each claim and each renewal that fails, and the consumer goes on
  with what waits.
-/

set_option autoImplicit false

namespace DurableBus

open Consumer (Setup Passes)

/-! ## Effects -/

namespace Effect

def isWork : Effect → Bool
  | .invoke _ | .hook (.retrying _ _ _ _ _) | .hook (.acked _ _ _) | .hook (.nacked _ _ _)
  | .hook (.unsettled _ _ _) | .hook (.errorDropped _ _) | .hook (.forwarded _ _) => true
  | _ => false

def isAside : Effect → Bool
  | .note _ | .ready | .hook (.subscribed _ _) | .hook (.unsubscribed _ _) | .hook (.forwarderStarted _)
  | .hook (.forwarderStopped _) => true
  | _ => false

def failure? : Effect → Option (String × Store.Error)
  | .hook (.claimFailed topic e) => some (topic, e)
  | _ => none

theorem filterMap_of_all {γ : Type} {which : Effect → Bool} {seen : Effect → Option γ} {effects : List Effect}
    (h : effects.all which = true) (unseen : ∀ effect, which effect = true → seen effect = none) :
    effects.filterMap seen = [] := by
  rw [List.filterMap_eq_nil_iff]
  intro effect heffect
  exact unseen effect (List.all_eq_true.1 h effect heffect)

theorem failure?_isWork {effects : List Effect} (h : effects.all isWork = true) :
    effects.filterMap failure? = [] := by
  refine filterMap_of_all h fun effect hwork => ?_
  unfold isWork at hwork
  split at hwork <;> first | rfl | cases hwork

theorem failure?_isAside {effects : List Effect} (h : effects.all isAside = true) :
    effects.filterMap failure? = [] := by
  refine filterMap_of_all h fun effect haside => ?_
  unfold isAside at haside
  split at haside <;> first | rfl | cases haside

end Effect

/-! ## The work on a message -/

namespace Consumer

variable {c : Consumer} {s : ClaimStream} {job : Job}

theorem isWork_conclude (c : Consumer) (s : ClaimStream) (job : Job) (result : Except (RetryError Failure) Nat) :
    (c.conclude s job result).2.all Effect.isWork = true := by
  unfold conclude
  split <;> rfl

theorem isWork_carryOn (c : Consumer) (s : ClaimStream) (job : Job) (attempts : Retry Failure) :
    (c.carryOn s job attempts).2.all Effect.isWork = true := by
  unfold carryOn
  split
  · exact isWork_conclude c s job _
  · rfl

theorem isWork_endAttempt (c : Consumer) (s : ClaimStream) (job : Job) (attempts : Retry Failure)
    (outcome : Except Failure Unit) : (c.endAttempt s job attempts outcome).2.all Effect.isWork = true := by
  unfold endAttempt
  split
  · rfl
  · exact isWork_carryOn c s job _

theorem isWork_lookAt (c : Consumer) (o : Observation) (s : ClaimStream) (job : Job) (attempts : Retry Failure) :
    (c.lookAt o s job attempts).2.all Effect.isWork = true := by
  unfold lookAt beginAttempt
  split
  · split
    · rfl
    · split
      · rfl
      · exact isWork_endAttempt c s _ _ _
    · rfl
  · exact isWork_carryOn c s job _

theorem isWork_settled (c : Consumer) (job : Job) (reply : Store.Reply) :
    (c.settled job reply).all Effect.isWork = true := by
  cases reply <;> rfl

theorem isWork_answerJob (c : Consumer) (s : ClaimStream) (job : Job) (reply : Store.Reply) :
    (c.answerJob s job reply).2.all Effect.isWork = true := by
  unfold answerJob
  split
  · exact isWork_endAttempt c s _ _ _
  · cases reply <;> rfl
  · rename_i e
    have hreport : ∀ job : Job, (c.report job e).2.all Effect.isWork = true := by
      intro job
      unfold report
      split
      · rfl
      · split <;> rfl
    simp [isWork_settled, hreport]
  · exact isWork_settled c _ reply
  · exact isWork_settled c _ reply
  · exact isWork_settled c _ reply
  · rfl

theorem phase_conclude (c : Consumer) (s : ClaimStream) (job : Job) (result : Except (RetryError Failure) Nat) :
    (c.conclude s job result).1.phase = .working s (job.withWork (Retry.over result).work) := by
  unfold conclude
  split <;> rfl

theorem phase_carryOn (c : Consumer) (s : ClaimStream) (job : Job) (attempts : Retry Failure) :
    (c.carryOn s job attempts).1.phase = .working s (job.withWork attempts.work) := by
  cases attempts with
  | «over» result => exact phase_conclude c s job result
  | _ => rfl

theorem phase_endAttempt (c : Consumer) (s : ClaimStream) (job : Job) (attempts : Retry Failure)
    (outcome : Except Failure Unit) : (c.endAttempt s job attempts outcome).1.phase =
      .working s (job.withWork (attempts.finish c.setup.settings.retry outcome).work) := by
  unfold endAttempt
  split
  · rename_i heq
    rw [heq]
    rfl
  · exact phase_carryOn c s job _

theorem phase_answerJob (c : Consumer) (s : ClaimStream) (settling : ∀ attempts, job.work? ≠ some (.trying attempts))
    (reply : Store.Reply) : (c.answerJob s job reply).1.phase = .selecting s := by
  cases job with
  | dispatch k context work | forward k e work =>
    cases work with
    | trying attempts => exact absurd rfl (settling attempts)
    | _ => rfl
  | refuse k => rfl

end Consumer

/-- How the work on a message may go on. -/
inductive Work.Onward (p : RetryPolicy) : Work → Work → Prop
  | begins {n delay} : Onward p (.trying (.ready n delay)) (.trying (.running n delay))
  /-- An attempt to pass a message on ends at once if the publisher has been closed. -/
  | fails {n delay e} : Onward p (.trying (.ready n delay)) ((Retry.running n delay).finish p (.error e)).work
  | looks {attempts now cancelled} (going : attempts.isReady = false) :
      Onward p (.trying attempts) (attempts.look p now cancelled).work
  | finishes {attempts outcome} : Onward p (.trying attempts) (attempts.finish p outcome).work

def Retry.number {ε : Type} : Retry ε → Nat
  | .ready n _ | .running n _ | .reported n _ _ | .resting n _ _ _ => n
  | .over _ => 1

def Work.IsCounted : Work → Prop
  | .trying attempts => 1 ≤ attempts.number
  | _ => True

theorem Retry.isCounted_work (attempts : Retry Failure) (h : 1 ≤ attempts.number) : attempts.work.IsCounted := by
  cases attempts with
  | «over» result => cases result <;> trivial
  | _ => exact h

theorem Retry.number_finish {p : RetryPolicy} {attempts : Retry Failure} (h : 1 ≤ attempts.number)
    (outcome : Except Failure Unit) : 1 ≤ (attempts.finish p outcome).number := by
  cases attempts with
  | running n delay =>
    rcases outcome with e | ⟨⟩
    · simp only [finish]
      split
      · exact Nat.le_refl 1
      · exact h
    · exact Nat.le_refl 1
  | _ => exact h

theorem Retry.number_look {p : RetryPolicy} {attempts : Retry Failure} (h : 1 ≤ attempts.number) (now : Instant)
    (cancelled : Bool) : 1 ≤ (attempts.look p now cancelled).number := by
  cases attempts with
  | reported | resting =>
    simp only [look]
    repeat' split
    all_goals simp_all [number]
  | _ => exact h

theorem Work.Onward.isCounted {p : RetryPolicy} {work work' : Work} (h : Onward p work work')
    (counted : work.IsCounted) : work'.IsCounted := by
  cases h with
  | begins => exact counted
  | @fails n delay e =>
    apply Retry.isCounted_work
    exact @Retry.number_finish p (.running n delay) counted _
  | looks => exact Retry.isCounted_work _ (Retry.number_look counted _ _)
  | finishes => exact Retry.isCounted_work _ (Retry.number_finish counted _)

/-! ## Streams -/

namespace ClaimStream

variable {setup : Setup} {fired : Bool} {s : ClaimStream} {step : ClaimStream × Move}

def Move.errors : Move → List Store.Error
  | .yield (.error e) => [e]
  | _ => []

theorem Steps.of_broke (h : Steps setup fired s step) (broke : step.2 = .broke) : step.1.poller = .broken := by
  cases h with
  | @looked now =>
    cases s with
    | pulling batches =>
      rw [look_pulling] at broke ⊢
      obtain ⟨hmove, hstep⟩ := (follows_follow _ _ _).of_broke broke
      have hlooks := @Poller.looks_look _ Store.Error setup.period now fired batches
      rw [hstep]
      generalize batches.look setup.period now fired = looked at hlooks hmove
      cases hlooks with
      | breaks => rfl
      | _ => cases hmove
    | renewing | releasing => cases broke
  | answered => exact absurd broke (answer_ne _ _ _).2

theorem errors_receive (fired : Bool) (batches : Poller Pending) (p : Pending) :
    (receive fired batches (.ok p)).2.errors = [] := by
  simp only [receive]
  repeat' split
  all_goals rfl

theorem errors_look (setup : Setup) (now : Instant) (fired : Bool) (s : ClaimStream) :
    (s.look setup now fired).2.errors = [] := by
  cases s with
  | pulling batches =>
    rw [look_pulling]
    have hlooks := @Poller.looks_look _ Store.Error setup.period now fired batches
    generalize batches.look setup.period now fired = looked at hlooks
    cases hlooks with
    | hands => exact errors_receive _ _ _
    | _ => rfl
  | renewing | releasing => rfl

end ClaimStream

/-! ## What a beat brings -/

namespace Consumer

variable {s : ClaimStream} {job : Job}

/-- The requests that a job waits for settle its claim, unless an attempt to pass it on is under way. -/
theorem jobRequest?_cases {c : Consumer} {request : Store.Request} (asks : c.jobRequest? job = some request) :
    Settles c.setup job request ∧ request.receipt?.isSome ∧ (∀ attempts, job.work? ≠ some (.trying attempts)) ∨
      ∃ k e n delay, job = .forward k e (.trying (.running n delay)) ∧ request.receipt? = none := by
  unfold jobRequest? at asks
  split at asks
  case h_6 k e n delay =>
    cases asks
    exact .inr ⟨k, e, n, delay, rfl, rfl⟩
  case h_7 => cases asks
  all_goals
    cases asks
    exact .inl ⟨rfl, rfl, by rintro _ ⟨⟩⟩

theorem isAside_announce (c : Consumer) : c.announce.all Effect.isAside = true := by
  unfold announce
  split <;> rfl

theorem isAside_notes (notices : List Store.Notice) : (notices.map Effect.note).all Effect.isAside = true := by
  simp [Effect.isAside]

theorem isAside_farewell (c : Consumer) : [Effect.hook c.farewell].all Effect.isAside = true := by
  unfold farewell
  split <;> rfl

/-- Nothing is in hand when a stream is drained. -/
theorem drained_aside (c : Consumer) (s : ClaimStream) (move : ClaimStream.Move) :
    (c.drained s move).1.phase.job? = none ∧ (c.drained s move).2.all Effect.isAside = true := by
  cases move with
  | finished =>
    show c.leave.1.phase.job? = none ∧ c.leave.2.all Effect.isAside = true
    unfold leave
    split
    · exact ⟨rfl, rfl⟩
    · exact ⟨rfl, isAside_farewell c⟩
  | started => exact ⟨rfl, isAside_announce c⟩
  | proceed notice => exact ⟨rfl, isAside_notes _⟩
  | _ => exact ⟨rfl, rfl⟩

end Consumer

namespace Loop

variable {l : Loop} {b : Beat} {s : ClaimStream} {job : Job}

/-- What a pull comes to with a beat. -/
def pull? (l : Loop) (b : Beat) : Option (ClaimStream × ClaimStream.Move) :=
  match l.phase, b with
  | .pulling s, .look now _ => some (s.look (Consumer.stream l.consumer.setup) now l.fired)
  | .pulling s, .answer _ _ reply =>
    if (s.request? (Consumer.stream l.consumer.setup)).isSome then some (s.answer l.fired reply) else none
  | _, _ => none

/-- The job that is settled, and by which request, if a beat answers that request. -/
def settlements (l : Loop) (b : Beat) : List (Job × Store.Request) :=
  match b, l.phase.job?, l.consumer.request? with
  | .answer _ _ _, some job, some request => if request.receipt?.isSome then [(job, request)] else []
  | _, _, _ => []

theorem pull?_eq_none (h : l.isPulling = false) (b : Beat) : l.pull? b = none := by
  unfold isPulling at h
  unfold pull?
  split at h
  · cases h
  · split <;> first | rfl | simp_all

theorem settlements_eq_nil (free : l.phase.job? = none) (b : Beat) : l.settlements b = [] := by
  unfold settlements
  rw [free]
  cases b <;> rfl

theorem step_pulling (was : l.phase = .pulling s) (b : Beat) :
    (l.pull? b = none ∧ (l.step b).phase = l.phase ∧ l.effects b = []) ∨
      ∃ step, l.pull? b = some step ∧ ClaimStream.Steps (Consumer.stream l.consumer.setup) l.fired s step ∧
        (l.step b).phase = (l.consumer.pulled step.1 step.2).1.phase ∧
        l.effects b = (l.consumer.pulled step.1 step.2).2 := by
  have hphase : l.consumer.phase = .pulling s := was
  cases b with
  | fire =>
    refine .inl ⟨?_, rfl, rfl⟩
    simp only [pull?, was]
  | finish outcome =>
    refine .inl ⟨by simp only [pull?, was], ?_, ?_⟩
    · show (l.consumer.finish outcome).1.phase = l.consumer.phase
      simp only [Consumer.finish, hphase]
    · simp only [effects, Consumer.finish, hphase]
  | look now publisher =>
    refine .inr ⟨_, by simp only [pull?, was], .looked, phase_look_pulling was now publisher, ?_⟩
    simp only [effects, Consumer.look, hphase, observe]
  | answer now publisher reply =>
    have hrequest := request?_pulling was
    by_cases asked : (s.request? (Consumer.stream l.consumer.setup)).isSome
    · refine .inr ⟨s.answer l.fired reply, ?_, .answered asked, phase_answer_pulling was asked now publisher reply, ?_⟩
      · simp only [pull?, was, asked, if_true]
      · simp only [effects, hrequest, asked, if_true, Consumer.answer, hphase, observe]
    · refine .inl ⟨?_, ?_, ?_⟩
      · simp only [pull?, was, asked, if_false, Bool.false_eq_true]
      · simp only [step, hrequest, asked, if_false, Bool.false_eq_true]
      · simp only [effects, hrequest, asked, if_false, Bool.false_eq_true]

end Loop

/-- Whether a consumer takes messages in hand and is not through with that. -/
def Phase.isGoing : Phase → Bool
  | .starting | .selecting _ | .pulling _ | .working _ _ => true
  | _ => false

namespace Loop

variable {l : Loop} {b : Beat} {s : ClaimStream} {job : Job}

/-- What a beat brings: where the consumer stands then, and what it has done. -/
inductive Comes (l : Loop) (b : Beat) : Phase → List Effect → Prop
  | still (pulls : l.pull? b = none) (settles : l.settlements b = []) : Comes l b l.phase []
  | starts {effects} (was : l.phase = .starting) (aside : effects.all Effect.isAside = true) :
      Comes l b (.selecting .start) effects
  | pulls {s : ClaimStream} (was : l.phase = .selecting s) (going : l.fired = false) : Comes l b (.pulling s) []
  | pulled {s : ClaimStream} {step} (was : l.phase = .pulling s) (pulls : l.pull? b = some step)
      (steps : ClaimStream.Steps (Consumer.stream l.consumer.setup) l.fired s step) :
      Comes l b (l.consumer.pulled step.1 step.2).1.phase (l.consumer.pulled step.1 step.2).2
  | works {s : ClaimStream} {job : Job} {work work' effects} (was : l.phase = .working s job)
      (at' : job.work? = some work) (onward : Work.Onward l.consumer.setup.settings.retry work work')
      (settles : l.settlements b = []) (ofWork : effects.all Effect.isWork = true) :
      Comes l b (.working s (job.withWork work')) effects
  | settles {s : ClaimStream} {job : Job} {request effects} (was : l.phase = .working s job)
      (settles : l.settlements b = [(job, request)]) (fits : Consumer.Settles l.consumer.setup job request)
      (ofWork : effects.all Effect.isWork = true) : Comes l b (.selecting s) effects
  /-- Nothing is taken in hand any more. -/
  | winds {p effects} (seen : l.fired = true) (free : l.phase.job? = none) (idle : l.isPulling = false)
      (gone : p.job? = none) (aside : effects.all Effect.isAside = true) : Comes l b p effects

theorem comes_look_working (was : l.phase = .working s job) (now : Instant) (publisher : Publisher) :
    Comes l (.look now publisher) (l.step (.look now publisher)).phase (l.effects (.look now publisher)) := by
  have hphase : l.consumer.phase = .working s job := was
  have hstill : l.consumer.look (l.observe now publisher) = (l.consumer, []) →
      Comes l (.look now publisher) (l.step (.look now publisher)).phase (l.effects (.look now publisher)) := by
    intro hlook
    simp only [step, effects, hlook, phase]
    exact .still (pull?_eq_none (isSelecting_eq_false was).2 _) rfl
  have htries : ∀ attempts, job.work? = some (.trying attempts) →
      l.consumer.look (l.observe now publisher) = l.consumer.lookAt (l.observe now publisher) s job attempts →
        Comes l (.look now publisher) (l.step (.look now publisher)).phase (l.effects (.look now publisher)) := by
    intro attempts hwork hlook
    have hall := Consumer.isWork_lookAt l.consumer (l.observe now publisher) s job attempts
    simp only [step, effects, hlook, phase]
    unfold Consumer.lookAt at hall ⊢
    split at hall
    · rename_i n delay
      cases job with
      | dispatch k context work => exact .works was hwork .begins rfl hall
      | forward k e work =>
        simp only [Consumer.beginAttempt] at hall ⊢
        split at hall
        · exact .works was hwork .begins rfl hall
        · rw [Consumer.phase_endAttempt]
          exact .works was hwork .fails rfl hall
      | refuse k => cases hwork
    · rename_i hready
      rw [Consumer.phase_carryOn]
      refine .works was hwork (.looks ?_) rfl hall
      cases attempts with
      | ready n delay => exact absurd rfl (hready n delay)
      | _ => rfl
  cases job with
  | dispatch k context work | forward k e work =>
    cases work with
    | trying attempts => exact htries attempts rfl (by simp only [Consumer.look, hphase])
    | acking | nacking => exact hstill (by simp only [Consumer.look, hphase])
  | refuse k => exact hstill (by simp only [Consumer.look, hphase])

theorem comes_finish_working (was : l.phase = .working s job) (outcome : Except Failure Unit) :
    Comes l (.finish outcome) (l.step (.finish outcome)).phase (l.effects (.finish outcome)) := by
  have hphase : l.consumer.phase = .working s job := was
  simp only [step, effects, phase, Consumer.finish]
  split
  · rename_i s' k context attempts heq
    rw [hphase] at heq
    cases heq
    rw [Consumer.phase_endAttempt]
    exact .works was rfl .finishes rfl (Consumer.isWork_endAttempt _ _ _ _ _)
  · exact .still (pull?_eq_none (isSelecting_eq_false was).2 _) rfl

theorem comes_answer_working (was : l.phase = .working s job) (now : Instant) (publisher : Publisher)
    (reply : Store.Reply) :
    Comes l (.answer now publisher reply) (l.step (.answer now publisher reply)).phase
      (l.effects (.answer now publisher reply)) := by
  have hphase : l.consumer.phase = .working s job := was
  have hjob : l.phase.job? = some job := by rw [was]; rfl
  have hrequest := request?_working was
  have hwork := Consumer.isWork_answerJob l.consumer s job reply
  cases hasks : l.consumer.jobRequest? job with
  | none =>
    rw [hasks] at hrequest
    simp only [step, effects, hrequest, Option.isSome_none, Bool.false_eq_true, if_false]
    refine .still (pull?_eq_none (isSelecting_eq_false was).2 _) ?_
    simp only [settlements, hrequest, hjob]
  | some request =>
    rw [hasks] at hrequest
    simp only [step, effects, hrequest, Option.isSome_some, if_true, phase, Consumer.answer, hphase]
    obtain ⟨hsettles, hreceipt, htried⟩ | ⟨k, e, n, delay, rfl, hreceipt⟩ := Consumer.jobRequest?_cases hasks
    · rw [Consumer.phase_answerJob l.consumer s htried]
      refine .settles was ?_ hsettles hwork
      simp only [settlements, hjob, hrequest, hreceipt, if_true]
    · have hnone : l.settlements (.answer now publisher reply) = [] := by
        simp only [settlements, hjob, hrequest, hreceipt, Option.isSome_none, Bool.false_eq_true, if_false]
      simp only [Consumer.answerJob] at hwork ⊢
      rw [Consumer.phase_endAttempt]
      exact .works was rfl .finishes hnone hwork

/-! ## Until the token fires -/

/-- What every life of a consumer keeps, if its period is not zero: its stream does not break, and it is not through
before its token has fired. -/
structure Lasting (l : Loop) : Prop where
  sound : l.Sound
  reads : l.phase.Reads l.consumer.setup
  counted : ∀ s job work, l.phase = .working s job → job.work? = some work → work.IsCounted
  idle : ∀ s job, l.phase = .working s job → s.isClaiming = false
  unbroken : ∀ s, l.phase.stream? = some s → s.poller ≠ .broken
  going : l.fired = false → l.phase.isGoing = true

theorem lasting_new (setup : Setup) (errorCapacity : Nat) : (new setup errorCapacity).Lasting where
  sound := sound_new setup errorCapacity
  reads := Phase.reads_starting setup
  counted _ _ _ h := by cases h
  idle _ _ h := by cases h
  unbroken _ h := by cases h
  going _ := rfl

theorem Comes.of_same (idle : l.isPulling = false) (free : l.phase.job? = none) (same : (l.step b).phase = l.phase)
    (nothing : l.effects b = []) : Comes l b (l.step b).phase (l.effects b) := by
  rw [same, nothing]
  exact .still (pull?_eq_none idle b) (settlements_eq_nil free b)

theorem comes_starting (was : l.phase = .starting) (b : Beat) : Comes l b (l.step b).phase (l.effects b) := by
  have hphase : l.consumer.phase = .starting := was
  have hidle : l.isPulling = false := by simp only [isPulling, was]
  have hfree : l.phase.job? = none := by rw [was]; rfl
  cases b with
  | fire => exact .of_same hidle hfree rfl rfl
  | look now publisher =>
    simp only [step, effects, phase, Consumer.look, hphase]
    refine .starts was ?_
    cases l.consumer.setup.role <;> rfl
  | finish outcome =>
    apply Comes.of_same hidle hfree <;> simp only [step, effects, phase, Consumer.finish, hphase]
  | answer now publisher reply =>
    have hrequest : l.consumer.request? = none := by simp only [Consumer.request?, hphase]
    apply Comes.of_same hidle hfree
    all_goals simp only [step, effects, hrequest, Option.isSome_none, Bool.false_eq_true, if_false]

theorem comes_selecting (was : l.phase = .selecting s) (b : Beat) : Comes l b (l.step b).phase (l.effects b) := by
  have hphase : l.consumer.phase = .selecting s := was
  have hidle : l.isPulling = false := by simp only [isPulling, was]
  have hfree : l.phase.job? = none := by rw [was]; rfl
  cases b with
  | fire => exact .of_same hidle hfree rfl rfl
  | look now publisher =>
    simp only [step, effects, phase, Consumer.look, hphase, observe]
    by_cases hfired : l.fired = true
    · simp only [hfired, if_true]
      exact .winds hfired hfree hidle rfl rfl
    · simp only [hfired, if_false, Bool.false_eq_true]
      exact .pulls was (Bool.eq_false_iff.2 hfired)
  | finish outcome =>
    apply Comes.of_same hidle hfree <;> simp only [step, effects, phase, Consumer.finish, hphase]
  | answer now publisher reply =>
    apply Comes.of_same hidle hfree <;> simp only [step, effects, phase, Consumer.answer, hphase]
    all_goals split <;> first | rfl | exact hphase

/-- Once the token has fired and nothing is in hand, nothing is taken in hand. -/
theorem comes_winding (seen : l.fired = true) (idle : l.isPulling = false)
    (going : l.phase.isGoing = false) (b : Beat) : Comes l b (l.step b).phase (l.effects b) := by
  have hfree : l.phase.job? = none := by
    cases hphase : l.phase <;> simp_all [Phase.isGoing, Phase.job?]
  have hsame : (l.step b).consumer.phase = l.consumer.phase → l.effects b = [] →
      Comes l b (l.step b).phase (l.effects b) := .of_same idle hfree
  have hwinds := @Comes.winds l b (l.step b).phase (l.effects b) seen hfree idle
  cases hphase : l.consumer.phase with
  | starting | selecting | pulling | working => simp [phase, hphase, Phase.isGoing] at going
  | draining s =>
    cases b with
    | fire => exact hsame rfl rfl
    | finish outcome => apply hsame <;> simp only [step, effects, Consumer.finish, hphase]
    | look now publisher =>
      simp only [step, effects, phase, Consumer.look, hphase] at hwinds ⊢
      exact hwinds (Consumer.drained_aside _ _ _).1 (Consumer.drained_aside _ _ _).2
    | answer now publisher reply =>
      by_cases asked : l.consumer.request?.isSome
      · simp only [step, effects, phase, asked, if_true, Consumer.answer, hphase] at hwinds ⊢
        exact hwinds (Consumer.drained_aside _ _ _).1 (Consumer.drained_aside _ _ _).2
      · apply hsame <;> simp only [step, effects, asked, Bool.false_eq_true, if_false]
  | forgetting =>
    cases b with
    | fire => exact hsame rfl rfl
    | finish outcome => apply hsame <;> simp only [step, effects, Consumer.finish, hphase]
    | look now publisher => apply hsame <;> simp only [step, effects, Consumer.look, hphase]
    | answer now publisher reply =>
      have hrequest : l.consumer.request?.isSome = true := by simp only [Consumer.request?, hphase, Option.isSome_some]
      simp only [step, effects, phase, hrequest, if_true, Consumer.answer, hphase] at hwinds ⊢
      refine hwinds rfl ?_
      rw [List.all_append, Consumer.isAside_farewell]
      cases reply <;> rfl
  | ended | crashed =>
    cases b with
    | fire => exact hsame rfl rfl
    | finish outcome => apply hsame <;> simp only [step, effects, Consumer.finish, hphase]
    | look now publisher => apply hsame <;> simp only [step, effects, Consumer.look, hphase]
    | answer now publisher reply =>
      have hrequest : l.consumer.request? = none := by simp only [Consumer.request?, hphase]
      apply hsame <;> simp only [step, effects, hrequest, Option.isSome_none, Bool.false_eq_true, if_false]

/-- **What a beat brings.** -/
theorem comes_step (h : l.Lasting) (b : Beat) : Comes l b (l.step b).phase (l.effects b) := by
  cases hphase : l.phase with
  | working s job =>
    cases b with
    | fire => exact .still (pull?_eq_none (isSelecting_eq_false hphase).2 _) rfl
    | look now publisher => exact comes_look_working hphase now publisher
    | finish outcome => exact comes_finish_working hphase outcome
    | answer now publisher reply => exact comes_answer_working hphase now publisher reply
  | pulling s =>
    obtain ⟨hnone, hstep, heffects⟩ | ⟨step, hpull, hsteps, hstep, heffects⟩ := step_pulling hphase b
    · rw [hstep, heffects]
      exact .still hnone (settlements_eq_nil (by rw [hphase]; rfl) b)
    · rw [hstep, heffects]
      exact .pulled hphase hpull hsteps
  | starting => exact comes_starting hphase b
  | selecting s => exact comes_selecting hphase b
  | _ =>
    -- who has got as far as this has seen its token
    have hseen : l.fired = true := by
      by_contra hfired
      simpa [hphase, Phase.isGoing] using h.going (Bool.eq_false_iff.2 hfired)
    exact comes_winding hseen (by simp only [isPulling, hphase]) (by simp only [hphase, Phase.isGoing]) b

/-- Only a stream whose period is zero breaks. -/
theorem Flows.unbroken {setup : ClaimStream.Setup} {fired : Bool} {s s' : ClaimStream} (h : Flows setup fired s s')
    (period : setup.period ≠ .zero) (unbroken : s.poller ≠ .broken) : s'.poller ≠ .broken := by
  have hfollow : ∀ batches move, (ClaimStream.follow fired batches move).1.poller = batches := by
    intro batches move
    have hfollows := ClaimStream.follows_follow fired batches move
    generalize ClaimStream.follow fired batches move = step at hfollows
    cases hfollows <;> rfl
  cases h with
  | still => exact unbroken
  | @looked now =>
    cases s with
    | pulling batches =>
      rw [ClaimStream.look_pulling, hfollow]
      cases batches with
      | idle => simp [Poller.look, period]
      | waiting | pausing =>
        simp only [Poller.look, Poller.await]
        repeat' split
        all_goals rintro ⟨⟩
      | handing due rest =>
        cases rest
        · simp only [Poller.look, Poller.pollUnless]
          split <;> rintro ⟨⟩
        · rintro ⟨⟩
      | broken => exact absurd rfl unbroken
      | _ => rintro ⟨⟩
    | renewing | releasing => exact unbroken
  | @answered reply asked =>
    cases s with
    | pulling batches =>
      rw [ClaimStream.answer_pulling, hfollow]
      cases batches with
      | polling => rcases reply with e | _ | offset | (_ | ⟨k, rest⟩) | still <;> rintro ⟨⟩
      | _ => exact unbroken
    | renewing => rcases reply with e | _ | offset | messages | (_ | _) <;> exact unbroken
    | releasing => rcases reply with e | a <;> exact unbroken

theorem reads_step (h : l.Lasting) (b : Beat) : (l.step b).phase.Reads (l.step b).consumer.setup := by
  rw [setup_step]
  cases b with
  | fire => exact h.reads
  | look now publisher => exact (Consumer.passes_look l.consumer (l.observe now publisher) h.sound.phase).reads h.reads
  | finish outcome => exact (Consumer.passes_finish l.consumer outcome h.sound.phase).reads h.reads
  | answer now publisher reply =>
    unfold step
    simp only
    split
    · obtain ⟨request, hrequest⟩ := Option.isSome_iff_exists.1 ‹_›
      exact (Consumer.passes_answer l.consumer (l.observe now publisher) reply h.sound.phase hrequest).reads h.reads
    · exact h.reads

theorem isCounted_jobFor {setup : Setup} {k : Claimed} {work : Work}
    (h : (Consumer.jobFor setup k).work? = some work) : work.IsCounted := by
  unfold Consumer.jobFor at h
  split at h
  · cases h
    exact Nat.le_refl 1
  · split at h <;> cases h
    exact Nat.le_refl 1

theorem Comes.counted {p : Phase} {effects : List Effect} (h : l.Comes b p effects)
    (counted : ∀ s job work, l.phase = .working s job → job.work? = some work → work.IsCounted) :
    ∀ s job work, p = .working s job → job.work? = some work → work.IsCounted := by
  intro s job work hp hwork
  cases h with
  | still => exact counted s job work hp hwork
  | starts | pulls | settles => cases hp
  | winds seen free idle gone =>
    rw [hp] at gone
    cases gone
  | @works _ job' _ _ _ was at' onward =>
    cases hp
    have hcounted := onward.isCounted (counted _ _ _ was at')
    cases job' with
    | refuse => cases at'
    | _ =>
      cases hwork
      exact hcounted
  | @pulled _ step was pulls steps =>
    by_cases hyields : ∃ k, step.2 = .yield (.ok k)
    · obtain ⟨k, hk⟩ := hyields
      rw [hk] at hp
      obtain ⟨-, rfl⟩ := Phase.working.inj ((Consumer.phase_take l.consumer step.1 k).symm.trans hp)
      exact isCounted_jobFor hwork
    · have hfree := job?_pulled (c := l.consumer) (s := step.1) fun k hk => hyields ⟨k, hk⟩
      rw [hp] at hfree
      cases hfree

theorem Comes.going {p : Phase} {effects : List Effect} (h : l.Comes b p effects) (lasting : l.Lasting)
    (period : l.consumer.setup.settings.pollInterval ≠ .zero) (unfired : l.fired = false)
    (draining : ∀ s, p ≠ .draining s) : p.isGoing = true := by
  cases h with
  | still => exact lasting.going unfired
  | starts | pulls | works | settles => rfl
  | winds seen => rw [unfired] at seen; cases seen
  | @pulled s step was pulls steps =>
    have hunbroken := steps.flows.unbroken period (lasting.unbroken s (by rw [was]; rfl))
    obtain ⟨s', move⟩ := step
    rcases move with _ | _ | _ | (e | k) | _ | _
    case yield.ok =>
      show (l.consumer.take s' k).1.phase.isGoing = true
      rw [Consumer.phase_take]
      rfl
    case finished => exact absurd rfl (draining s')
    case broke => exact absurd (steps.of_broke rfl) hunbroken
    all_goals rfl

theorem unfired_of_step (h : (l.step b).fired = false) : l.fired = false := by
  by_contra hfired
  rw [fired_step (Bool.not_eq_false _ ▸ hfired) b] at h
  cases h

/-- **Every beat keeps what lasts.** -/
theorem Lasting.step (h : l.Lasting) (period : l.consumer.setup.settings.pollInterval ≠ .zero) (b : Beat) :
    (l.step b).Lasting where
  sound := h.sound.step b
  reads := reads_step h b
  counted := (comes_step h b).counted h.counted
  idle s job works := by
    obtain ⟨job', was⟩ | hidle := working_step h.sound b works
    · exact h.idle s job' was
    · exact hidle
  unbroken s' hs' := by
    obtain rfl | ⟨s, hs, hflows⟩ := (moves_step h.sound.phase b).flows hs'
    · rintro ⟨⟩
    · exact hflows.unbroken period (h.unbroken s hs)
  going hunfired := by
    refine (comes_step h b).going h period (unfired_of_step hunfired) fun s hs => ?_
    have hfired := (h.sound.step b).draining s hs
    rw [hunfired] at hfired
    cases hfired

theorem lasting_run {setup : Setup} (period : setup.settings.pollInterval ≠ .zero) (errorCapacity : Nat)
    (beats : List Beat) : ((new setup errorCapacity).run beats).Lasting := by
  induction beats using List.reverseRecOn with
  | nil => exact lasting_new setup errorCapacity
  | append_singleton beats b ih =>
    rw [run_concat]
    exact ih.step (by rwa [setup_run]) b

/-! ## Failures -/

/-- The failure of a claim or of a renewal, if a beat brings one. While it selects a consumer takes no answer. -/
def failures (l : Loop) : Beat → List Store.Error
  | .answer _ _ (.error e) =>
    if !l.isSelecting && l.consumer.request?.any fun request => request.operation = .claim ∨ request.operation = .renew
      then [e] else []
  | _ => []

theorem failures_eq_nil (h : ∀ request, l.consumer.request? = some request →
    request.operation ≠ .claim ∧ request.operation ≠ .renew) (b : Beat) : l.failures b = [] := by
  rcases b with _ | _ | ⟨now, publisher, e | a⟩ | _
  case answer.error =>
    simp only [failures]
    cases hrequest : l.consumer.request? with
    | none => simp
    | some request => simp [h request hrequest]
  all_goals rfl

theorem failures_pulling (was : l.phase = .pulling s) (b : Beat) :
    l.failures b = (l.pull? b).toList.flatMap (·.2.errors) := by
  have hidle : l.isSelecting = false := by simp only [isSelecting, was]
  have hrequest := request?_pulling was
  cases b with
  | fire | finish => simp [failures, pull?, was]
  | look now publisher => simp [failures, pull?, was, ClaimStream.errors_look]
  | answer now publisher reply =>
    cases s with
    | pulling batches =>
      cases batches with
      | polling due =>
        rcases reply with e | _ | offset | (_ | ⟨k, rest⟩) | still
        case ok.claimed.cons =>
          simp [failures, pull?, was, ClaimStream.request?, ClaimStream.answer, ClaimStream.batch, Pending.ofBatch,
            Poller.answer, ClaimStream.follow, ClaimStream.errors_receive]
        all_goals
          simp only [failures, pull?, was, hidle, hrequest, ClaimStream.request?]
          rfl
      | _ => cases reply <;> simp [failures, pull?, was, hidle, hrequest, ClaimStream.request?]
    | renewing batches k | releasing batches k =>
      rcases reply with e | _ | offset | messages | (_ | _) <;>
        simp only [failures, pull?, was, hidle, hrequest, ClaimStream.request?] <;> rfl

theorem failures_of_pull? (h : l.pull? b = none) (going : l.phase.isGoing = true) : l.failures b = [] := by
  cases hphase : l.phase with
  | pulling s => rw [failures_pulling hphase, h]; rfl
  | working s job =>
    refine failures_eq_nil (fun request hrequest => ?_) b
    have hasks := Consumer.asks_of_request hrequest
    rw [show l.consumer.phase = .working s job from hphase] at hasks
    cases hasks with
    | claim free | renew free => cases free
    | release free => cases free
    | settle busy settles =>
      unfold Consumer.Settles at settles
      split at settles <;> rw [settles] <;> exact ⟨by rintro ⟨⟩, by rintro ⟨⟩⟩
    | forward | forget => exact ⟨by rintro ⟨⟩, by rintro ⟨⟩⟩
  | starting =>
    refine failures_eq_nil (fun request hrequest => ?_) b
    simp only [Consumer.request?, show l.consumer.phase = .starting from hphase] at hrequest
    cases hrequest
  | selecting s =>
    have hselecting : l.isSelecting = true := by simp only [isSelecting, hphase]
    rcases b with _ | _ | ⟨now, publisher, e | a⟩ | _ <;> simp [failures, hselecting]
  | _ => simp [hphase, Phase.isGoing] at going

theorem failure?_pulled (c : Consumer) (s : ClaimStream) (move : ClaimStream.Move) :
    (c.pulled s move).2.filterMap Effect.failure? = move.errors.map (c.setup.topic, ·) := by
  rcases move with _ | _ | _ | (e | k) | _ | _
  case started => exact Effect.failure?_isAside (Consumer.isAside_announce c)
  case proceed => exact Effect.failure?_isAside (Consumer.isAside_notes _)
  case yield.ok =>
    show (c.take s k).2.filterMap Effect.failure? = []
    unfold Consumer.take
    split
    · rfl
    · split <;> rfl
  all_goals rfl

/-- **The hook is told of each claim and each renewal that fails**, once. -/
theorem failures_step (h : l.Lasting) (unfired : l.fired = false) (b : Beat) :
    (l.effects b).filterMap Effect.failure? = (l.failures b).map (l.consumer.setup.topic, ·) := by
  have hcomes := comes_step h b
  generalize l.effects b = effects at hcomes
  generalize (l.step b).phase = p at hcomes
  have hnone : l.isPulling = false → l.failures b = [] := fun hidle =>
    failures_of_pull? (pull?_eq_none hidle b) (h.going unfired)
  cases hcomes with
  | still pulls => rw [failures_of_pull? pulls (h.going unfired)]; rfl
  | starts was aside => rw [Effect.failure?_isAside aside, hnone (by simp only [isPulling, was])]; rfl
  | pulls was => rw [hnone (by simp only [isPulling, was])]; rfl
  | pulled was pulls =>
    rw [failure?_pulled, failures_pulling was, pulls]
    simp
  | works was at' onward settles ofWork =>
    rw [Effect.failure?_isWork ofWork, hnone (isSelecting_eq_false was).2]; rfl
  | settles was settles fits ofWork => rw [Effect.failure?_isWork ofWork, hnone (isSelecting_eq_false was).2]; rfl
  | winds seen =>
    rw [unfired] at seen
    cases seen

/-- After a failure the consumer goes on with what waits. If it is a renewal that failed, its claim is left out. -/
theorem failing_step (h : l.Lasting) (unfired : l.fired = false) {e : Store.Error} (fails : e ∈ l.failures b) :
    (∃ s, (l.step b).phase = .selecting s) ∧
      (l.consumer.request? = some (.claim (Consumer.stream l.consumer.setup).request) ∧
          l.phase.waiting = (l.step b).phase.waiting ∨
        ∃ k, l.consumer.request? = some (.renew k.receipt l.consumer.setup.settings.claimLease) ∧
          l.phase.waiting = k :: (l.step b).phase.waiting) := by
  cases hphase : l.phase with
  | pulling s =>
    rw [failures_pulling hphase] at fails
    obtain ⟨hnone, -⟩ | ⟨step, hpull, hsteps, hstep, -⟩ := step_pulling hphase b
    · rw [hnone] at fails
      cases fails
    · have herrors : e ∈ step.2.errors := by simpa [hpull] using fails
      rw [hstep, request?_pulling hphase]
      cases hsteps with
      | looked =>
        rw [ClaimStream.errors_look] at herrors
        cases herrors
      | @answered reply asked =>
        cases s with
        | pulling batches =>
          cases batches with
          | polling due =>
            rcases reply with e' | _ | offset | (_ | ⟨k, rest⟩) | still
            case error => exact ⟨⟨_, rfl⟩, .inl ⟨rfl, rfl⟩⟩
            case ok.claimed.cons =>
              rw [ClaimStream.answer_pulling] at herrors
              simp [ClaimStream.batch, Pending.ofBatch, Poller.answer, ClaimStream.follow,
                ClaimStream.errors_receive] at herrors
            all_goals cases herrors
          | _ => cases asked
        | renewing batches k =>
          rcases reply with e' | _ | offset | messages | (_ | _)
          case error => exact ⟨⟨_, rfl⟩, .inr ⟨k, rfl, rfl⟩⟩
          all_goals cases herrors
        | releasing batches k => rcases reply with e' | a <;> cases herrors
  | _ =>
    rw [failures_of_pull? (pull?_eq_none (by simp only [isPulling, hphase]) b) (h.going unfired)] at fails
    cases fails

theorem failures_run {setup : Setup} (period : setup.settings.pollInterval ≠ .zero) (errorCapacity : Nat)
    (beats : List Beat) (unfired : ((new setup errorCapacity).run beats).fired = false) :
    (chronicle step effects (new setup errorCapacity) beats).filterMap Effect.failure? =
      (chronicle step failures (new setup errorCapacity) beats).map (setup.topic, ·) := by
  induction beats using List.reverseRecOn with
  | nil => rfl
  | append_singleton beats b ih =>
    rw [run_concat] at unfired
    have hstep := failures_step (lasting_run period errorCapacity beats) (unfired_of_step unfired) b
    rw [setup_run] at hstep
    rw [chronicle_concat, chronicle_concat, List.filterMap_append, List.map_append, ih (unfired_of_step unfired)]
    exact congrArg _ hstep

end Loop

end DurableBus
