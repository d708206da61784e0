import DurableBus.Proofs.Consumer.Order
import Mathlib.Data.Nat.Find

/-!
# Consumers get on

A consumer that gets what it waits for, again and again, gets on with its messages and polls again and again, whatever
fails.

* `Loop.IsServed` : a consumer gets what it waits for;
* `Phase.ahead` : how much is ahead of a consumer before its next poll;
* `ahead_step`, `ahead_served` : it never grows before that, and falls when the consumer gets what it waits for;
* `nears_poll` : the answer to a poll comes after so many things that the consumer waits for;
* `settles_eventually`, `polls_eventually`, `next_poll` : the message in hand is settled, and the next poll begins.
-/

set_option autoImplicit false

namespace DurableBus

open Consumer (Setup)
open Retry (reaches_end upTo)

/-! ## What is waited for -/

def Retry.Awaits (ends : Beat → Prop) (fired : Bool) : Retry Failure → Beat → Prop
  | .running _ _, b => ends b
  | .resting _ _ _ wakeAt, b => ∃ now publisher, b = .look now publisher ∧ (fired = true ∨ wakeAt ≤ now)
  | _, b => ∃ now publisher, b = .look now publisher

def Job.Awaits (fired : Bool) : Job → Beat → Prop
  | .dispatch _ _ (.trying attempts), b => attempts.Awaits (fun b => ∃ outcome, b = .finish outcome) fired b
  | .forward _ _ (.trying attempts), b =>
    attempts.Awaits (fun b => ∃ now publisher reply, b = .answer now publisher reply) fired b
  | _, b => ∃ now publisher reply, b = .answer now publisher reply

/-- What a stream waits for that is pulled: an answer, the tick, or a look. -/
def ClaimStream.Awaits (fired : Bool) : ClaimStream → Beat → Prop
  | .pulling (.polling _), b | .renewing _ _, b | .releasing _ _, b =>
    ∃ now publisher reply, b = .answer now publisher reply
  | .pulling (.waiting due), b | .pulling (.pausing due), b =>
    ∃ now publisher, b = .look now publisher ∧ (fired = true ∨ due ≤ now)
  | .pulling _, b => ∃ now publisher, b = .look now publisher

/-- The consumer gets what it waits for. If it selects it gets a look, and then what its stream waits for. -/
def Loop.IsServed (l : Loop) (b next : Beat) : Prop :=
  match l.phase with
  | .starting => ∃ now publisher, b = .look now publisher
  | .selecting s => (∃ now publisher, b = .look now publisher) ∧ (l.fired = true ∨ s.Awaits l.fired next)
  | .pulling s | .draining s => s.Awaits l.fired b
  | .working _ job => job.Awaits l.fired b
  | .forgetting => ∃ now publisher reply, b = .answer now publisher reply
  | .ended | .crashed => True

/-! ## What is ahead -/

section Ahead

variable (p : RetryPolicy)

/-- How much is ahead of an operation. Each attempt that is left begins, ends, is reported and is waited after. -/
def Retry.ahead {ε : Type} : Retry ε → Nat
  | .ready n _ => 4 * (p.maxAttempts - n) + 4
  | .running n _ => 4 * (p.maxAttempts - n) + 3
  | .reported n _ _ => 4 * max (p.maxAttempts - n) 1 + 2
  | .resting n _ _ _ => 4 * max (p.maxAttempts - n) 1 + 1
  | .over _ => 0

def Work.ahead : Work → Nat
  | .trying attempts => attempts.ahead p + 2
  | _ => 1

def Job.ahead (job : Job) : Nat := (job.work?.map (Work.ahead p)).getD 1

/-- What is at most ahead of a message that is taken in hand. -/
def RetryPolicy.ahead : Nat := 4 * p.maxAttempts + 6

end Ahead

/-- How much is ahead of a poller before its next poll, if so much is ahead of a message. -/
def Poller.ahead {α : Type} (most : Nat) : Poller α → Nat
  | .idle => 2
  | .waiting _ | .pausing _ => 1
  | .handing _ rest => rest.length * (most + 2) + 1
  | .polling _ | .over | .broken => 0

def ClaimStream.ahead (most : Nat) : ClaimStream → Nat
  | .pulling batches => batches.ahead most
  | .renewing batches _ => batches.ahead most + most + 1
  | .releasing batches _ => batches.ahead most + 1

def Phase.ahead (p : RetryPolicy) : Phase → Nat
  | .starting => 3
  | .selecting s | .pulling s => s.ahead p.ahead
  | .working s job => s.ahead p.ahead + job.ahead p
  | _ => 0

section Ahead

variable {p : RetryPolicy}

@[simp] theorem Job.ahead_withWork {job : Job} {work : Work} (at' : job.work? = some work) (work' : Work) :
    (job.withWork work').ahead p = work'.ahead p := by
  cases job with
  | refuse => cases at'
  | _ => rfl

theorem Job.ahead_of_work? {job : Job} {work : Work} (at' : job.work? = some work) : job.ahead p = work.ahead p := by
  simp [Job.ahead, at']

theorem Job.ahead_pos (job : Job) : 0 < job.ahead p := by
  cases job with
  | dispatch k context work | forward k e work => cases work <;> exact Nat.succ_pos _
  | refuse => exact Nat.one_pos

theorem Retry.ahead_work (attempts : Retry Failure) : attempts.work.ahead p ≤ attempts.ahead p + 2 := by
  cases attempts with
  | «over» result => cases result <;> simp [Retry.work, Work.ahead, Retry.ahead]
  | _ => exact Nat.le_refl _

theorem Retry.ahead_finish (n : Nat) (delay : Duration) (outcome : Except Failure Unit) :
    ((Retry.running n delay).finish p outcome).work.ahead p < (Retry.running n delay : Retry Failure).ahead p + 2 := by
  rcases outcome with e | ⟨⟩
  · by_cases hlast : p.maxAttempts ≤ n
    · rw [finish_last hlast]
      simp [Retry.work, Work.ahead, Retry.ahead]
    · rw [finish_more (Nat.lt_of_not_le hlast)]
      simp only [Retry.work, Work.ahead, Retry.ahead]
      omega
  · simp [finish, Retry.work, Work.ahead, Retry.ahead]

theorem Retry.ahead_look_le (attempts : Retry Failure) (now : Instant) (cancelled : Bool) :
    (attempts.look p now cancelled).work.ahead p ≤ attempts.ahead p + 2 := by
  refine Nat.le_trans (Retry.ahead_work _) (Nat.add_le_add_right ?_ 2)
  cases attempts with
  | reported | resting =>
    simp only [look]
    repeat' split
    all_goals simp only [Retry.ahead]
    all_goals omega
  | _ => exact Nat.le_refl _

theorem Retry.ahead_look {attempts : Retry Failure} (waits : ∀ n delay, attempts ≠ .running n delay)
    (going : attempts.isReady = false) {now : Instant} {cancelled : Bool}
    (due : ∀ n delay e wakeAt, attempts = .resting n delay e wakeAt → cancelled = true ∨ wakeAt ≤ now) :
    (attempts.look p now cancelled).work.ahead p < attempts.ahead p + 2 := by
  cases attempts with
  | ready => cases going
  | running n delay => exact absurd rfl (waits n delay)
  | «over» result => cases result <;> simp [look, Retry.work, Work.ahead, Retry.ahead]
  | reported n delay e =>
    simp only [look]
    split <;> simp [Retry.work, Work.ahead, Retry.ahead]
  | resting n delay e wakeAt =>
    simp only [look]
    split
    · simp [Retry.work, Work.ahead, Retry.ahead]
    · obtain hcancelled | hdue := due n delay e wakeAt rfl
      · contradiction
      · simp only [hdue, if_true, Retry.work, Work.ahead, Retry.ahead]
        omega

theorem Work.Onward.ahead_le {work work' : Work} (h : Onward p work work') : work'.ahead p ≤ work.ahead p := by
  cases h with
  | begins => exact Nat.le_succ _
  | @fails n delay e =>
    have hless := Retry.ahead_finish (p := p) n delay (.error e)
    simp only [Work.ahead, Retry.ahead] at hless ⊢
    omega
  | @looks attempts now cancelled => exact Retry.ahead_look_le attempts now cancelled
  | @finishes attempts outcome =>
    cases attempts with
    | running n delay => exact Nat.le_of_lt (Retry.ahead_finish n delay outcome)
    | _ => exact Retry.ahead_work _

theorem Job.ahead_jobFor (setup : Setup) (k : Claimed) :
    (Consumer.jobFor setup k).ahead setup.settings.retry ≤ setup.settings.retry.ahead := by
  unfold Consumer.jobFor RetryPolicy.ahead
  split
  · simp only [Job.ahead, Job.work?, Retry.start, Option.map_some, Option.getD_some, Work.ahead, Retry.ahead]
    omega
  · split
    · simp only [Job.ahead, Job.work?, Retry.start, Option.map_some, Option.getD_some, Work.ahead, Retry.ahead]
      omega
    · simp [Job.ahead, Job.work?]

end Ahead

namespace ClaimStream

variable {setup : Setup} {s : ClaimStream}

theorem Awaits.look_or_answer {fired : Bool} {b : Beat} (h : s.Awaits fired b) (setup : Setup) :
    (∃ now publisher, b = .look now publisher) ∨
      (s.request? setup).isSome ∧ ∃ now publisher reply, b = .answer now publisher reply := by
  cases s with
  | pulling batches =>
    cases batches with
    | polling due => exact .inr ⟨rfl, h⟩
    | waiting | pausing =>
      obtain ⟨now, publisher, rfl, -⟩ := h
      exact .inl ⟨now, publisher, rfl⟩
    | _ => exact .inl h
  | renewing | releasing => exact .inr ⟨rfl, h⟩

theorem ahead_await (most : Nat) (period : Duration) (now due : Instant) :
    (Poller.await (α := Pending) (ε := Store.Error) period now false due).1.ahead most ≤ 1 ∧
      (Poller.await (α := Pending) (ε := Store.Error) period now false due).2.items = [] ∧
      (due ≤ now → (Poller.await (α := Pending) (ε := Store.Error) period now false due).1.ahead most = 0) := by
  simp only [Poller.await, Bool.false_eq_true, if_false]
  split
  · exact ⟨Nat.zero_le _, rfl, fun _ => rfl⟩
  · exact ⟨Nat.le_refl _, rfl, fun hdue => absurd hdue ‹_›⟩

theorem ahead_follow (most : Nat) (batches : Poller Pending) {move : Poller.Move Pending Store.Error}
    (none : move.items = []) :
    (follow false batches move).1.ahead most + most * (follow false batches move).2.items.length =
      batches.ahead most := by
  rcases move with _ | _ | _ | _ | (e | p) | _ | _
  case yield.ok => cases none
  all_goals rfl

theorem ahead_receive (most : Nat) (due : Instant) (item : Pending) (rest : List Pending) :
    (receive false (.handing due rest) (.ok item)).1.ahead most +
      most * (receive false (.handing due rest) (.ok item)).2.items.length <
        (item :: rest).length * (most + 2) + 1 := by
  rw [List.length_cons, Nat.succ_mul]
  cases hwaited : item.waited with
  | true =>
    simp only [receive, hwaited, if_true, Bool.false_eq_true, if_false, ahead, Poller.ahead, Move.items,
      List.length_nil]
    omega
  | false =>
    simp only [receive, hwaited, Bool.false_eq_true, if_false, ahead, Poller.ahead, Move.items, List.length_singleton]
    omega

/-- Before the next poll a look leaves less ahead if it is what the stream waits for, and never more. -/
theorem ahead_look (setup : Setup) (most : Nat) (s : ClaimStream) (now : Instant) (publisher : Publisher) :
    (s.look setup now false).1.ahead most + most * (s.look setup now false).2.items.length ≤ s.ahead most ∧
      (s.Awaits false (.look now publisher) → s ≠ .pulling .over → s.poller ≠ .broken →
        (s.look setup now false).1.ahead most + most * (s.look setup now false).2.items.length < s.ahead most) := by
  cases s with
  | renewing | releasing =>
    refine ⟨Nat.le_refl _, fun hawaits => ?_⟩
    obtain ⟨_, _, _, hlook⟩ := hawaits
    cases hlook
  | pulling batches =>
    rw [look_pulling]
    cases batches with
    | idle =>
      simp only [Poller.look]
      split
      · rw [ahead_follow most _ rfl]
        exact ⟨Nat.zero_le _, fun _ _ _ => Nat.two_pos⟩
      · rw [ahead_follow most _ rfl]
        exact ⟨Nat.le_succ 1, fun _ _ _ => Nat.one_lt_two⟩
    | waiting due | pausing due =>
      obtain ⟨hle, hnone, hzero⟩ := ahead_await most setup.period now due
      simp only [Poller.look]
      rw [ahead_follow most _ hnone]
      refine ⟨hle, fun hawaits _ _ => ?_⟩
      obtain ⟨now', publisher', hlook, hfired | hdue⟩ := hawaits
      · cases hfired
      · cases hlook
        rw [hzero hdue]
        exact Nat.one_pos
    | polling due =>
      refine ⟨Nat.le_refl _, fun hawaits => ?_⟩
      obtain ⟨_, _, _, hlook⟩ := hawaits
      cases hlook
    | handing due rest =>
      cases rest with
      | nil =>
        simp only [Poller.look, Poller.pollUnless, Bool.false_eq_true, if_false]
        rw [ahead_follow most _ rfl]
        exact ⟨Nat.zero_le _, fun _ _ _ => Nat.succ_pos _⟩
      | cons item rest =>
        have hless := ahead_receive most due item rest
        exact ⟨Nat.le_of_lt hless, fun _ _ _ => hless⟩
    | «over» => exact ⟨Nat.le_refl _, fun _ hover => absurd rfl hover⟩
    | broken => exact ⟨Nat.le_refl _, fun _ _ hbroken => absurd rfl hbroken⟩

theorem ahead_answer (most : Nat) (asked : (s.request? setup).isSome) (idle : s.isClaiming = false)
    (reply : Store.Reply) :
    (s.answer false reply).1.ahead most + most * (s.answer false reply).2.items.length < s.ahead most := by
  cases s with
  | pulling batches =>
    cases batches with
    | polling => cases idle
    | _ => cases asked
  | renewing batches k =>
    rcases reply with e | _ | offset | messages | (_ | _)
    all_goals
      simp only [answer, ahead, Move.items, List.length_nil, List.length_singleton]
      omega
  | releasing batches k =>
    rcases reply with e | a
    all_goals
      simp only [answer, ahead, Move.items, List.length_nil]
      omega

end ClaimStream

namespace Loop

variable {l : Loop} {b next : Beat} {s : ClaimStream} {job : Job}

theorem ahead_pulled (c : Consumer) (s : ClaimStream) (move : ClaimStream.Move) :
    (c.pulled s move).1.phase.ahead c.setup.settings.retry ≤
      s.ahead c.setup.settings.retry.ahead + c.setup.settings.retry.ahead * move.items.length := by
  rcases move with _ | _ | _ | (e | k) | _ | _
  case yield.ok =>
    show (c.take s k).1.phase.ahead _ ≤ _
    rw [Consumer.phase_take]
    have hjob := Job.ahead_jobFor c.setup k
    simp only [Phase.ahead, ClaimStream.Move.items, List.length_singleton]
    omega
  all_goals simp [Consumer.pulled, Consumer.enter, Phase.ahead, ClaimStream.Move.items]

theorem ahead_step (h : l.Lasting) (unfired : l.fired = false) (idle : l.phase.isPolling = false) (b : Beat) :
    (l.step b).phase.ahead l.consumer.setup.settings.retry ≤ l.phase.ahead l.consumer.setup.settings.retry := by
  have hcomes := comes_step h b
  generalize l.effects b = effects at hcomes
  generalize (l.step b).phase = p at hcomes
  cases hcomes with
  | still => exact Nat.le_refl _
  | starts was | pulls was =>
    rw [was]
    simp [Phase.ahead, ClaimStream.start, ClaimStream.ahead, Poller.ahead]
  | @pulled s step was pulls steps =>
    refine Nat.le_trans (ahead_pulled l.consumer step.1 step.2) ?_
    rw [was] at idle ⊢
    rw [unfired] at steps
    cases steps with
    | @looked now => exact (ClaimStream.ahead_look _ _ s now (.new "" false .silent)).1
    | @answered reply asked => exact Nat.le_of_lt (ClaimStream.ahead_answer _ asked idle reply)
  | @works s job work work' effects was at' onward =>
    rw [was]
    have hle := onward.ahead_le
    simp only [Phase.ahead, Job.ahead_withWork at', Job.ahead_of_work? at']
    omega
  | settles was =>
    rw [was]
    exact Nat.le_add_right _ _
  | winds seen =>
    rw [unfired] at seen
    cases seen

theorem ahead_in_hand (h : l.Lasting) (was : l.phase = .working s job) {s' : ClaimStream} {job' : Job}
    (works : (l.step b).phase = .working s' job') :
    job'.ahead l.consumer.setup.settings.retry ≤ job.ahead l.consumer.setup.settings.retry := by
  have hcomes := comes_step h b
  generalize l.effects b = effects at hcomes
  rw [works] at hcomes
  generalize hp : Phase.working s' job' = p at hcomes
  cases hcomes with
  | still =>
    rw [was] at hp
    cases hp
    exact Nat.le_refl _
  | works was' at' onward =>
    rw [was] at was'
    cases was'
    cases hp
    rw [Job.ahead_withWork at', Job.ahead_of_work? at']
    exact onward.ahead_le
  | pulled was' =>
    rw [was] at was'
    cases was'
  | winds seen free =>
    rw [was] at free
    cases free
  | _ => cases hp

/-- The message in hand comes nearer to being settled. -/
def Nears (l : Loop) (b : Beat) (s : ClaimStream) (job : Job) : Prop :=
  ∃ job', (l.step b).phase = .working s job' ∧
    job'.ahead l.consumer.setup.settings.retry < job.ahead l.consumer.setup.settings.retry

theorem nears_begin {n : Nat} {delay : Duration} (was : l.phase = .working s job)
    (ready : job.work? = some (.trying (.ready n delay))) (now : Instant) (publisher : Publisher) :
    l.Nears (.look now publisher) s job := by
  have hphase : l.consumer.phase = .working s job := was
  cases job with
  | dispatch k context work =>
    obtain rfl := Option.some.inj ready
    refine ⟨.dispatch k context (.trying (.running n delay)), ?_, Nat.lt_succ_self _⟩
    simp only [step, phase, Consumer.look, hphase]
    rfl
  | forward k e work =>
    obtain rfl := Option.some.inj ready
    unfold Nears
    simp only [step, phase, Consumer.look, hphase, Consumer.lookAt, Consumer.beginAttempt, observe]
    split
    · exact ⟨.forward k e (.trying (.running n delay)), rfl, Nat.lt_succ_self _⟩
    · rw [Consumer.phase_endAttempt]
      exact ⟨_, rfl, Nat.lt_succ_of_lt (Retry.ahead_finish n delay _)⟩
  | refuse => cases ready

theorem nears_look {attempts : Retry Failure} (was : l.phase = .working s job)
    (tries : job.work? = some (.trying attempts)) (waits : ∀ n delay, attempts ≠ .running n delay) {now : Instant}
    (due : ∀ n delay e wakeAt, attempts = .resting n delay e wakeAt → l.fired = true ∨ wakeAt ≤ now)
    (publisher : Publisher) : l.Nears (.look now publisher) s job := by
  cases hready : attempts.isReady with
  | true =>
    cases attempts with
    | ready n delay => exact nears_begin was tries now publisher
    | _ => cases hready
  | false =>
    rw [Nears, phase_look_working was tries hready, Consumer.phase_carryOn]
    refine ⟨_, rfl, ?_⟩
    rw [Job.ahead_withWork tries, Job.ahead_of_work? tries]
    exact Retry.ahead_look waits hready due

/-- What its attempt waits for, however that ends, brings a message nearer to being settled. -/
theorem nears_awaited {attempts : Retry Failure} {ends : Beat → Prop} (was : l.phase = .working s job)
    (tries : job.work? = some (.trying attempts)) (awaits : attempts.Awaits ends l.fired b)
    (finishes : ∀ n delay, attempts = .running n delay → ends b → ∃ outcome, (l.step b).phase =
      .working s (job.withWork ((Retry.running n delay).finish l.consumer.setup.settings.retry outcome).work)) :
    l.Nears b s job := by
  cases attempts with
  | running n delay =>
    obtain ⟨outcome, hstep⟩ := finishes n delay rfl awaits
    refine ⟨_, hstep, ?_⟩
    rw [Job.ahead_withWork tries, Job.ahead_of_work? tries]
    exact Retry.ahead_finish n delay outcome
  | resting n delay e wakeAt =>
    obtain ⟨now, publisher, rfl, hdue⟩ := awaits
    exact nears_look was tries (by rintro _ _ ⟨⟩) (by rintro _ _ _ _ ⟨⟩; exact hdue) publisher
  | ready | reported | «over» =>
    obtain ⟨now, publisher, rfl⟩ := awaits
    exact nears_look was tries (by rintro _ _ ⟨⟩) (by rintro _ _ _ _ ⟨⟩) publisher

theorem selects_settled (was : l.phase = .working s job) (settling : ∀ attempts, job.work? ≠ some (.trying attempts))
    (now : Instant) (publisher : Publisher) (reply : Store.Reply) :
    (l.step (.answer now publisher reply)).phase = .selecting s := by
  have hphase : l.consumer.phase = .working s job := was
  have hrequest := request?_working was
  obtain ⟨k, -, hasks | hasks⟩ := waits_of_settling settling l.consumer
  all_goals
    simp only [step, hrequest, hasks, Option.isSome_some, if_true, phase, Consumer.answer, hphase]
    exact Consumer.phase_answerJob l.consumer s settling reply

/-- What a message in hand waits for brings it nearer to being settled. -/
theorem ahead_working (was : l.phase = .working s job) (awaits : job.Awaits l.fired b) :
    (l.step b).phase = .selecting s ∨ l.Nears b s job := by
  have hphase : l.consumer.phase = .working s job := was
  have hrequest := request?_working was
  cases job with
  | dispatch k context work =>
    cases work with
    | trying attempts =>
      refine .inr (nears_awaited was rfl awaits ?_)
      rintro n delay rfl ⟨outcome, rfl⟩
      refine ⟨outcome, ?_⟩
      simp only [step, phase, Consumer.finish, hphase]
      exact Consumer.phase_endAttempt _ _ _ _ _
    | acking | nacking =>
      obtain ⟨now, publisher, reply, rfl⟩ := awaits
      exact .inl (selects_settled was (by rintro _ ⟨⟩) now publisher reply)
  | forward k e work =>
    cases work with
    | trying attempts =>
      refine .inr (nears_awaited was rfl awaits ?_)
      rintro n delay rfl ⟨now, publisher, reply, rfl⟩
      simp only [step, hrequest, Consumer.jobRequest?, Option.isSome_some, if_true, phase, Consumer.answer, hphase]
      exact ⟨_, Consumer.phase_endAttempt _ _ _ _ _⟩
    | acking | nacking =>
      obtain ⟨now, publisher, reply, rfl⟩ := awaits
      exact .inl (selects_settled was (by rintro _ ⟨⟩) now publisher reply)
  | refuse =>
    obtain ⟨now, publisher, reply, rfl⟩ := awaits
    exact .inl (selects_settled was (by rintro _ ⟨⟩) now publisher reply)

/-- What a consumer waits for brings it nearer to its next poll. If it selects, it only looks at its token. -/
theorem ahead_served (h : l.Lasting) (unfired : l.fired = false) (idle : l.phase.isPolling = false)
    (served : l.IsServed b next) (going : l.isSelecting = false) :
    (l.step b).phase.ahead l.consumer.setup.settings.retry < l.phase.ahead l.consumer.setup.settings.retry := by
  unfold IsServed at served
  cases hphase : l.phase with
  | starting =>
    rw [hphase] at served
    obtain ⟨now, publisher, rfl⟩ := served
    rw [phase_look_starting hphase]
    exact Nat.lt_succ_self 2
  | selecting s => simp [isSelecting, hphase] at going
  | pulling s =>
    rw [hphase] at served idle
    simp only [unfired] at served
    have hover : s ≠ .pulling .over := by
      rintro rfl
      have hfired := h.sound.drained (by rw [hphase]; rfl)
      rw [unfired] at hfired
      cases hfired
    have hbroken := h.unbroken s (by rw [hphase]; rfl)
    obtain ⟨now, publisher, rfl⟩ | ⟨hasked, now, publisher, reply, rfl⟩ :=
      served.look_or_answer (Consumer.stream l.consumer.setup)
    · rw [phase_look_pulling hphase]
      refine Nat.lt_of_le_of_lt (ahead_pulled l.consumer _ _) ?_
      rw [unfired]
      exact (ClaimStream.ahead_look _ _ s now publisher).2 served hover hbroken
    · rw [phase_answer_pulling hphase hasked]
      refine Nat.lt_of_le_of_lt (ahead_pulled l.consumer _ _) ?_
      rw [unfired]
      exact ClaimStream.ahead_answer _ hasked idle reply
  | working s job =>
    rw [hphase] at served
    obtain hselects | ⟨job', hworks, hless⟩ := ahead_working hphase served
    · rw [hselects]
      exact Nat.lt_add_of_pos_right job.ahead_pos
    · rw [hworks]
      exact Nat.add_lt_add_left hless _
  | _ =>
    have hgoing := h.going unfired
    simp [hphase, Phase.isGoing] at hgoing

/-! ## Getting on -/

section After

variable {forever : Nat → Beat}

theorem setup_after (l : Loop) (forever : Nat → Beat) (n : Nat) :
    (l.after forever n).consumer.setup = l.consumer.setup := by
  induction n with
  | zero => rfl
  | succ n ih => exact (setup_step _ _).trans ih

theorem Lasting.after (h : l.Lasting) (period : l.consumer.setup.settings.pollInterval ≠ .zero)
    (forever : Nat → Beat) (n : Nat) : (l.after forever n).Lasting := by
  induction n with
  | zero => exact h
  | succ n ih => exact ih.step (by rwa [setup_after]) (forever n)

theorem unfired_step (unfired : l.fired = false) (fireless : b ≠ .fire) : (l.step b).fired = false := by
  cases b with
  | fire => exact absurd rfl fireless
  | look | finish => exact unfired
  | answer =>
    unfold step
    simp only
    split <;> exact unfired

theorem unfired_after (unfired : l.fired = false) (fireless : ∀ n, forever n ≠ .fire) (n : Nat) :
    (l.after forever n).fired = false := by
  induction n with
  | zero => exact unfired
  | succ n ih => exact unfired_step ih (fireless n)

/-- The consumer gets what it waits for, again and again. -/
def IsFair (l : Loop) (forever : Nat → Beat) : Prop :=
  ∀ n, ∃ m, n ≤ m ∧ (l.after forever m).IsServed (forever m) (forever (m + 1))

/-- Having looked at its token, a consumer gets what its stream waits for. -/
theorem IsFair.served (fair : l.IsFair forever) (unfired : ∀ n, (l.after forever n).fired = false) (n : Nat) :
    ∃ m next, n ≤ m ∧ (l.after forever m).IsServed (forever m) next ∧ (l.after forever m).isSelecting = false := by
  obtain ⟨m, hm, hserved⟩ := fair n
  cases hphase : (l.after forever m).phase with
  | selecting s =>
    have hstep : (l.after forever (m + 1)).phase = .pulling s := by
      simp only [IsServed, hphase] at hserved
      obtain ⟨⟨now, publisher, hb⟩, -⟩ := hserved
      have hphase' : (l.after forever m).consumer.phase = .selecting s := hphase
      show ((l.after forever m).step (forever m)).phase = .pulling s
      simp only [hb, step, phase, Consumer.look, hphase', observe, unfired m, Bool.false_eq_true, if_false]
      rfl
    refine ⟨m + 1, forever (m + 1), by omega, ?_, by simp only [isSelecting, hstep]⟩
    simp only [IsServed, hphase, unfired m, Bool.false_eq_true, false_or] at hserved
    simp only [IsServed, hstep, unfired (m + 1)]
    exact hserved.2
  | _ => exact ⟨m, forever (m + 1), hm, hserved, by simp only [isSelecting, hphase]⟩

/-- **The message in hand is settled**, also if the token fires. -/
theorem settles_eventually (h : l.Lasting) (period : l.consumer.setup.settings.pollInterval ≠ .zero)
    (fair : l.IsFair forever) : ∃ n, (l.after forever n).phase.job? = none := by
  by_contra hnever
  -- else it would be in hand for ever, although less is ahead of it each time it gets what it waits for
  have hworks : ∀ n, ∃ s job, (l.after forever n).phase = .working s job := by
    intro n
    cases hjob : (l.after forever n).phase.job? with
    | none => exact absurd ⟨n, hjob⟩ hnever
    | some job =>
      obtain ⟨s, hphase⟩ := Phase.working_of_job? hjob
      exact ⟨s, job, hphase⟩
  let toil : Nat → Nat := fun n =>
    ((l.after forever n).phase.job?.map (Job.ahead l.consumer.setup.settings.retry)).getD 0
  have htoil : ∀ {n s job}, (l.after forever n).phase = .working s job →
      toil n = job.ahead l.consumer.setup.settings.retry := by
    intro n s job hphase
    simp [toil, hphase, Phase.job?]
  have hnone : ∃ n : Nat, False := by
    refine @reaches_end toil (fun n => (l.after forever n).IsServed (forever n) (forever (n + 1))) (fun _ => False)
      (fun n => ?_) fair fun n hserved => .inr ?_
    · obtain ⟨s, job, hphase⟩ := hworks n
      obtain ⟨s', job', hphase'⟩ := hworks (n + 1)
      have hle := ahead_in_hand (h.after period forever n) hphase hphase'
      rwa [setup_after, ← htoil hphase, ← htoil hphase'] at hle
    · obtain ⟨s, job, hphase⟩ := hworks n
      obtain ⟨s', job', hphase'⟩ := hworks (n + 1)
      rw [htoil hphase, htoil hphase']
      simp only [IsServed, hphase] at hserved
      have hahead := ahead_working hphase hserved
      rw [Nears, setup_after, show ((l.after forever n).step (forever n)).phase = _ from hphase'] at hahead
      obtain hselects | ⟨job'', hworks, hless⟩ := hahead
      · cases hselects
      · cases hworks
        exact hless
  obtain ⟨-, ⟨⟩⟩ := hnone

theorem isPolling_pulled {c : Consumer} {move : ClaimStream.Move} (idle : s.isClaiming = false) :
    (c.pulled s move).1.phase.isPolling = false := by
  rcases move with _ | _ | _ | (e | k) | _ | _
  case yield.ok =>
    show (c.take s k).1.phase.isPolling = false
    rw [Consumer.phase_take]
    exact idle
  case broke => rfl
  all_goals exact idle

theorem polling_cases (h : l.Lasting) (unfired : l.fired = false) (polling : l.phase.isPolling = true) :
    ∃ due, l.phase = .selecting (.pulling (.polling due)) ∨ l.phase = .pulling (.pulling (.polling due)) := by
  obtain ⟨due, hstream⟩ := Phase.isPolling_iff.1 polling
  refine ⟨due, ?_⟩
  cases hphase : l.phase with
  | selecting s =>
    rw [hphase] at hstream
    exact .inl (congrArg _ (Option.some.inj hstream))
  | pulling s =>
    rw [hphase] at hstream
    exact .inr (congrArg _ (Option.some.inj hstream))
  | working s job =>
    rw [hphase] at polling
    have hidle := h.idle s job hphase
    simp [Phase.isPolling, Phase.stream?, hidle] at polling
  | starting =>
    rw [hphase] at hstream
    cases hstream
  | _ =>
    have hgoing := h.going unfired
    simp [hphase, Phase.isGoing] at hgoing

theorem stops_polling (h : l.Lasting) (unfired : l.fired = false) (polling : l.phase.isPolling = true)
    (served : l.IsServed b next) (going : l.isSelecting = false) : (l.step b).phase.isPolling = false := by
  obtain ⟨due, hphase | hphase⟩ := polling_cases h unfired polling
  · simp [isSelecting, hphase] at going
  · unfold IsServed at served
    rw [hphase] at served
    obtain ⟨now, publisher, reply, rfl⟩ := served
    rw [phase_answer_pulling hphase rfl]
    have hasked : ((ClaimStream.pulling (.polling due)).request? (Consumer.stream l.consumer.setup)).isSome := rfl
    have horderly := h.sound.orderly (.pulling (.polling due)) (by rw [hphase]; rfl)
    refine isPolling_pulled (ClaimStream.isClaiming_eq_false fun due' heq => ?_)
    exact (ClaimStream.answer_pulling_ne hasked horderly heq).1 due' rfl

/-- Nothing but its answer ends a poll that is under way. -/
theorem polling_kept (h : l.Lasting) (unfired : l.fired = false) (polling : l.phase.isPolling = true)
    (unserved : l.isSelecting = false → ¬ l.IsServed b next) : (l.step b).phase.isPolling = true := by
  obtain ⟨due, hphase | hphase⟩ := polling_cases h unfired polling
  · have hphase' : l.consumer.phase = .selecting (.pulling (.polling due)) := hphase
    cases b with
    | fire => exact polling
    | look now publisher =>
      simp only [step, phase, Consumer.look, hphase', observe, unfired, Bool.false_eq_true, if_false]
      rfl
    | finish outcome =>
      simp only [step, phase, Consumer.finish, hphase']
      rfl
    | answer now publisher reply =>
      simp only [step, Consumer.answer, hphase']
      split <;> exact polling
  · have hphase' : l.consumer.phase = .pulling (.pulling (.polling due)) := hphase
    cases b with
    | fire => exact polling
    | look now publisher =>
      rw [phase_look_pulling hphase]
      rfl
    | finish outcome =>
      simp only [step, phase, Consumer.finish, hphase']
      rfl
    | answer now publisher reply =>
      refine absurd ?_ (unserved (by simp only [isSelecting, hphase]))
      simp only [IsServed, hphase]
      exact ⟨now, publisher, reply, rfl⟩

theorem ahead_of_polling (h : l.Lasting) (unfired : l.fired = false) (polling : l.phase.isPolling = true)
    (p : RetryPolicy) : l.phase.ahead p = 0 := by
  obtain ⟨due, hphase | hphase⟩ := polling_cases h unfired polling
  · rw [hphase]
    rfl
  · rw [hphase]
    rfl

/-- **Unless the answer to a poll comes**, nothing takes a consumer farther from it, and what the consumer waits for brings
it nearer. -/
theorem nears_poll (h : l.Lasting) (period : l.consumer.setup.settings.pollInterval ≠ .zero) (unfired : l.fired = false)
    (fireless : b ≠ .fire) :
    (∃ due now publisher reply, l.phase = .pulling (.pulling (.polling due)) ∧ b = .answer now publisher reply) ∨
      (l.step b).phase.ahead l.consumer.setup.settings.retry ≤ l.phase.ahead l.consumer.setup.settings.retry ∧
      ∀ next, l.IsServed b next → l.isSelecting = false →
        (l.step b).phase.ahead l.consumer.setup.settings.retry < l.phase.ahead l.consumer.setup.settings.retry := by
  cases polling : l.phase.isPolling with
  | false => exact .inr ⟨ahead_step h unfired polling b, fun next => ahead_served h unfired polling⟩
  | true =>
    have hkept : (l.isSelecting = false → ¬ l.IsServed b b) →
        (l.step b).phase.ahead l.consumer.setup.settings.retry ≤ l.phase.ahead l.consumer.setup.settings.retry := by
      intro unserved
      have hpolling := polling_kept h unfired polling unserved
      rw [ahead_of_polling (h.step period b) (unfired_step unfired fireless) hpolling]
      exact Nat.zero_le _
    obtain ⟨due, hphase | hphase⟩ := polling_cases h unfired polling
    · have hselects : l.isSelecting = true := by simp only [isSelecting, hphase]
      refine .inr ⟨hkept fun hgoing => ?_, fun next _ hgoing => ?_⟩
      all_goals
        rw [hselects] at hgoing
        cases hgoing
    · by_cases hanswered : ∃ now publisher reply, b = .answer now publisher reply
      · obtain ⟨now, publisher, reply, rfl⟩ := hanswered
        exact .inl ⟨due, now, publisher, reply, hphase, rfl⟩
      · have hunserved : ∀ next, ¬ l.IsServed b next := by
          intro next hserved
          simp only [IsServed, hphase] at hserved
          exact hanswered hserved
        exact .inr ⟨hkept fun _ => hunserved b, fun next hserved => absurd hserved (hunserved next)⟩

/-- **The next poll comes.** -/
theorem polls_eventually (h : l.Lasting) (period : l.consumer.setup.settings.pollInterval ≠ .zero)
    (unfired : l.fired = false) (fireless : ∀ n, forever n ≠ .fire) (fair : l.IsFair forever) (start : Nat) :
    ∃ n, start ≤ n ∧ (l.after forever n).phase.isPolling = true := by
  by_contra hnever
  -- else less would be ahead of the consumer each time it gets what it waits for
  have hidle : ∀ n, (l.after forever (start + n)).phase.isPolling = false := by
    intro n
    by_contra hpolling
    exact hnever ⟨start + n, Nat.le_add_right _ _, Bool.not_eq_false _ ▸ hpolling⟩
  have hunfired := unfired_after unfired fireless
  have hnone : ∃ n : Nat, False := by
    refine @reaches_end (fun n => (l.after forever (start + n)).phase.ahead l.consumer.setup.settings.retry)
      (fun n => ∃ next, (l.after forever (start + n)).IsServed (forever (start + n)) next ∧
        (l.after forever (start + n)).isSelecting = false) (fun _ => False) (fun n => ?_) (fun n => ?_) fun n => ?_
    · have hstep := ahead_step (h.after period forever (start + n)) (hunfired _) (hidle n) (forever (start + n))
      rwa [setup_after] at hstep
    · obtain ⟨m, next, hm, hserved, hgoing⟩ := fair.served hunfired (start + n)
      obtain ⟨i, rfl⟩ := Nat.exists_eq_add_of_le (Nat.le_trans (Nat.le_add_right start n) hm)
      exact ⟨i, by omega, next, hserved, hgoing⟩
    · rintro ⟨next, hserved, hgoing⟩
      have hless := ahead_served (h.after period forever (start + n)) (hunfired _) (hidle n) hserved hgoing
      rw [setup_after] at hless
      exact .inr hless
  obtain ⟨-, ⟨⟩⟩ := hnone

theorem rests_eventually (h : l.Lasting) (period : l.consumer.setup.settings.pollInterval ≠ .zero)
    (unfired : l.fired = false) (fireless : ∀ n, forever n ≠ .fire) (fair : l.IsFair forever) :
    ∃ n, (l.after forever n).phase.isPolling = false := by
  have hunfired := unfired_after unfired fireless
  obtain ⟨m, next, -, hserved, hgoing⟩ := fair.served hunfired 0
  cases hpolling : (l.after forever m).phase.isPolling with
  | false => exact ⟨m, hpolling⟩
  | true => exact ⟨m + 1, stops_polling (h.after period forever m) (hunfired m) hpolling hserved hgoing⟩

/-- A poll begins with the next beat. -/
def Polls (l : Loop) (b : Beat) : Prop := l.phase.isPolling = false ∧ (l.step b).phase.isPolling = true

/-- From a moment at which no poll is under way, the next that begins. -/
theorem next_poll (h : l.Lasting) (period : l.consumer.setup.settings.pollInterval ≠ .zero)
    (unfired : l.fired = false) (fireless : ∀ n, forever n ≠ .fire) (fair : l.IsFair forever) {start : Nat}
    (idle : (l.after forever start).phase.isPolling = false) :
    ∃ n, start ≤ n ∧ (l.after forever n).Polls (forever n) ∧
      ∀ i, start ≤ i → i ≤ n → (l.after forever i).phase.isPolling = false := by
  classical
  have hsome : ∃ n, start ≤ n ∧ (l.after forever n).phase.isPolling = true :=
    polls_eventually h period unfired fireless fair start
  obtain ⟨hstart, hpolling⟩ := Nat.find_spec hsome
  have hbefore : ∀ i, start ≤ i → i < Nat.find hsome → (l.after forever i).phase.isPolling = false := by
    intro i hi hless
    by_contra htrue
    exact Nat.find_min hsome hless ⟨hi, Bool.not_eq_false _ ▸ htrue⟩
  obtain ⟨n, hn⟩ : ∃ n, Nat.find hsome = n + 1 := by
    refine Nat.exists_eq_succ_of_ne_zero fun hzero => ?_
    rw [hzero] at hpolling hstart
    obtain rfl := Nat.le_zero.1 hstart
    rw [idle] at hpolling
    cases hpolling
  rw [hn] at hpolling hstart hbefore
  have hless : start ≤ n := by
    refine Nat.le_of_lt_succ (Nat.lt_of_le_of_ne hstart ?_)
    rintro rfl
    rw [idle] at hpolling
    cases hpolling
  exact ⟨n, hless, ⟨hbefore n hless (Nat.lt_succ_self n), hpolling⟩,
    fun i hi hin => hbefore i hi (Nat.lt_succ_of_le hin)⟩

end After

end Loop

end DurableBus
