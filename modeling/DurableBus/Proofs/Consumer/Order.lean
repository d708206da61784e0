import DurableBus.Proofs.Consumer.Lasting

/-!
# Messages in their turn

* `settled_run` : every message that the stream hands out is settled once, in its turn, or is still in hand;
* `signs_run` : every one of them turns out to be dispatched, once and in its turn: its handler is invoked with it, or
  it is known what becomes of the envelope.
-/

set_option autoImplicit false

namespace DurableBus

open Consumer (Setup)

namespace Effect

/-- Whether an effect shows that a message is dispatched: its handler is invoked for the first time, or it is known
what becomes of an envelope. -/
def isSign (role : Role) (effect : Effect) : Bool :=
  match role, effect with
  | .subscriber _, .invoke d => d.attempt = 1
  | .forwarder, .hook (.forwarded _ _) | .forwarder, .hook (.nacked _ _ _) | .forwarder, .hook (.rejected _ _) => true
  | _, _ => false

theorem isSign_isAside {effects : List Effect} (h : effects.all isAside = true) (role : Role) :
    effects.filter (isSign role) = [] := by
  rw [List.filter_eq_nil_iff]
  intro effect heffect
  have haside := List.all_eq_true.1 h effect heffect
  unfold isAside at haside
  split at haside
  case h_7 => cases haside
  all_goals cases role <;> simp [isSign]

theorem isSign_quiet {effects : List Effect} (h : Quiet effects) (ephemeral : Bool) :
    effects.filter (isSign (.subscriber ephemeral)) = [] := by
  rw [List.filter_eq_nil_iff]
  intro effect heffect
  cases effect with
  | invoke d => exact absurd heffect (h d)
  | _ => simp [isSign]

end Effect

def Phase.inHand (p : Phase) : List Claimed := (p.job?.map Job.claimed).toList

/-- Whether nothing has shown yet that the message is dispatched: no attempt at it has begun, or it is not known yet
what becomes of its envelope. -/
def Job.isUnseen : Job → Bool
  | .dispatch _ _ (.trying (.ready n _)) => n = 1
  | .forward _ _ (.trying _) => true
  | _ => false

/-- The claim of the message in hand, if nothing has shown yet that it is dispatched. -/
def Phase.unseen (p : Phase) : List Claimed := ((p.job?.filter Job.isUnseen).map Job.claimed).toList

/-- What shows that a message is dispatched: its handler is invoked with it, what is in its envelope is passed on or
given up, or it is rejected because it is no envelope. -/
inductive Consumer.Sign (setup : Setup) (k : Claimed) : Effect → Prop
  | invoked {ephemeral} (role : setup.role = .subscriber ephemeral) : Sign setup k
      (.invoke (Delivery.ofClaimed setup.topic k (setup.settings.propagator.extract k.message.metadata)))
  | forwarded {e} (role : setup.role = .forwarder) (unwraps : Envelope.unwrap k.message = .ok e) :
      Sign setup k (.hook (.forwarded e.destination e.message.id))
  | nacked {e error} (role : setup.role = .forwarder) (unwraps : Envelope.unwrap k.message = .ok e) :
      Sign setup k (.hook (.nacked setup.topic e.message.id error))
  | rejected {problem} (role : setup.role = .forwarder) (unwraps : Envelope.unwrap k.message = .error problem) :
      Sign setup k (.hook (.rejected k.message.id problem))

namespace Loop

variable {l : Loop} {b : Beat} {s : ClaimStream} {job : Job}

/-- The messages that the stream hands out with a beat. -/
def yields (l : Loop) (b : Beat) : List Claimed := (l.pull? b).toList.flatMap (·.2.items)

theorem inHand_pulled (c : Consumer) (s : ClaimStream) (move : ClaimStream.Move) :
    (c.pulled s move).1.phase.inHand = move.items := by
  rcases move with _ | _ | _ | (e | k) | _ | _
  case yield.ok =>
    show (c.take s k).1.phase.inHand = [k]
    rw [Consumer.phase_take]
    exact congrArg (fun k' => [k']) (Consumer.claimed_jobFor c.setup k)
  all_goals rfl

/-- **A message that is handed out is in hand until it is settled.** -/
theorem settled_step (h : l.Lasting) (b : Beat) :
    l.phase.inHand ++ l.yields b = (l.settlements b).map (·.1.claimed) ++ (l.step b).phase.inHand := by
  have hfree : ∀ {p : Phase}, p.job? = none → p.inHand = [] := fun hp => by rw [Phase.inHand, hp]; rfl
  have hcomes := comes_step h b
  generalize l.effects b = effects at hcomes
  generalize (l.step b).phase = p at hcomes
  have hidle : l.isPulling = false → l.yields b = [] := fun hidle => by rw [yields, pull?_eq_none hidle]; rfl
  cases hcomes with
  | still pulls settles => rw [yields, pulls, settles]; simp
  | starts was | pulls was =>
    rw [hidle (by simp only [isPulling, was]), settlements_eq_nil (by rw [was]; rfl), was]
    rfl
  | pulled was pulls =>
    rw [inHand_pulled, settlements_eq_nil (by rw [was]; rfl), was, yields, pulls]
    simp [Phase.inHand, Phase.job?]
  | works was at' onward settles =>
    rw [hidle (isSelecting_eq_false was).2, settles, was]
    simp [Phase.inHand, Phase.job?]
  | settles was settles =>
    rw [hidle (isSelecting_eq_false was).2, settles, was]
    simp [Phase.inHand, Phase.job?]
  | winds seen free idle gone =>
    rw [hidle idle, settlements_eq_nil free, hfree free, hfree gone]
    rfl

/-- A success is acknowledged, anything else is given back. -/
theorem fits_settlements (h : l.Lasting) {request : Store.Request} (settles : (job, request) ∈ l.settlements b) :
    Consumer.Settles l.consumer.setup job request ∧ job.Fits l.consumer.setup.role := by
  unfold settlements at settles
  split at settles
  case h_1 job' request' hjob hrequest =>
    split at settles
    case isTrue hreceipt =>
      cases List.mem_singleton.1 settles
      obtain ⟨s, hphase⟩ := Phase.working_of_job? hjob
      rw [request?_working hphase] at hrequest
      refine ⟨?_, h.sound.phase.fits job hjob⟩
      obtain ⟨hsettles, -⟩ | ⟨k, e, n, delay, -, hnone⟩ := Consumer.jobRequest?_cases hrequest
      · exact hsettles
      · rw [hnone] at hreceipt
        cases hreceipt
    case isFalse => cases settles
  case h_2 => cases settles

/-- Which messages turn out to be dispatched with a beat. -/
def Signs (l : Loop) (b : Beat) : Prop :=
  ∃ done, l.phase.unseen ++ l.yields b = done ++ (l.step b).phase.unseen ∧
    List.Forall₂ (Consumer.Sign l.consumer.setup) done
      ((l.effects b).filter (Effect.isSign l.consumer.setup.role))

theorem signs_pulled (l : Loop) (s : ClaimStream) (move : ClaimStream.Move) :
    ∃ done, move.items = done ++ (l.consumer.pulled s move).1.phase.unseen ∧
      List.Forall₂ (Consumer.Sign l.consumer.setup) done
        ((l.consumer.pulled s move).2.filter (Effect.isSign l.consumer.setup.role)) := by
  rcases move with _ | _ | _ | (e | k) | _ | _
  case started =>
    have hnone : (l.consumer.pulled s .started).2.filter (Effect.isSign l.consumer.setup.role) = [] :=
      Effect.isSign_isAside (Consumer.isAside_announce _) _
    rw [hnone]
    exact ⟨[], rfl, .nil⟩
  case proceed notice =>
    have hnone : (l.consumer.pulled s (.proceed notice)).2.filter (Effect.isSign l.consumer.setup.role) = [] :=
      Effect.isSign_isAside (Consumer.isAside_notes _) _
    rw [hnone]
    exact ⟨[], rfl, .nil⟩
  case yield.ok =>
    show ∃ done, [k] = done ++ (l.consumer.take s k).1.phase.unseen ∧
      List.Forall₂ _ done ((l.consumer.take s k).2.filter _)
    cases hrole : l.consumer.setup.role with
    | subscriber ephemeral =>
      simp only [Consumer.take, hrole]
      exact ⟨[], rfl, .nil⟩
    | forwarder =>
      simp only [Consumer.take, hrole]
      cases hunwrap : Envelope.unwrap k.message with
      | ok e => exact ⟨[], rfl, .nil⟩
      | error problem => exact ⟨[k], rfl, .cons (.rejected hrole hunwrap) .nil⟩
  case yield.error =>
    refine ⟨[], rfl, ?_⟩
    cases l.consumer.setup.role <;> exact .nil
  all_goals exact ⟨[], rfl, .nil⟩

theorem isUnseen_finish (p : RetryPolicy) (k : Claimed) (context : TraceContext) (attempts : Retry Failure)
    (outcome : Except Failure Unit) :
    (Job.dispatch k context (attempts.finish p outcome).work).isUnseen =
      (Job.dispatch k context (.trying attempts)).isUnseen := by
  cases attempts with
  | running n delay =>
    rcases outcome with e | ⟨⟩
    · simp only [Retry.finish]
      split <;> rfl
    · rfl
  | «over» result => cases result <;> rfl
  | _ => rfl

/-- After a wait the first attempt is over. -/
theorem isUnseen_look (p : RetryPolicy) (k : Claimed) (context : TraceContext) {attempts : Retry Failure}
    (counted : 1 ≤ attempts.number) (going : attempts.isReady = false) (now : Instant) (cancelled : Bool) :
    (Job.dispatch k context (attempts.look p now cancelled).work).isUnseen = false := by
  cases attempts with
  | ready => cases going
  | running => rfl
  | «over» result => cases result <;> rfl
  | reported =>
    simp only [Retry.look]
    split <;> rfl
  | resting n delay e wakeAt =>
    have hlater : n ≠ 0 := Nat.pos_iff_ne_zero.1 counted
    simp only [Retry.look]
    repeat' split
    all_goals simp [Retry.work, Job.isUnseen, hlater]

theorem signs_nothing (h : l.isPulling = false) (same : (l.step b).phase.unseen = l.phase.unseen)
    (none : (l.effects b).filter (Effect.isSign l.consumer.setup.role) = []) : l.Signs b := by
  refine ⟨[], ?_, by rw [none]; exact .nil⟩
  rw [same, yields, pull?_eq_none h]
  simp

theorem subscriber_of_dispatch (h : l.Lasting) {k : Claimed} {context : TraceContext} {work : Work}
    (was : l.phase = .working s (.dispatch k context work)) :
    ∃ ephemeral, l.consumer.setup.role = .subscriber ephemeral := by
  obtain ⟨hrole, -⟩ := h.sound.phase.fits _ (by rw [was]; rfl)
  cases hsetup : l.consumer.setup.role with
  | subscriber ephemeral => exact ⟨ephemeral, rfl⟩
  | forwarder => exact absurd hsetup hrole

/-- A handler is invoked for the first time when nothing has shown yet that its message is dispatched. -/
theorem signs_begin (h : l.Lasting) {k : Claimed} {context : TraceContext} {n : Nat} {delay : Duration}
    (was : l.phase = .working s (.dispatch k context (.trying (.ready n delay)))) (now : Instant)
    (publisher : Publisher) : l.Signs (.look now publisher) := by
  have hphase : l.consumer.phase = .working s (.dispatch k context (.trying (.ready n delay))) := was
  have hpulling := (isSelecting_eq_false was).2
  obtain ⟨ephemeral, hrole⟩ := subscriber_of_dispatch h was
  have hlook : l.consumer.look (l.observe now publisher) =
      (l.consumer.workOn s (.dispatch k context (.trying (.ready n delay))) (.trying (.running n delay)),
        [.invoke { Delivery.ofClaimed l.consumer.setup.topic k context with attempt := n }]) := by
    simp only [Consumer.look, hphase, Consumer.lookAt, Consumer.beginAttempt]
  have hstep : (l.step (.look now publisher)).phase =
      .working s (.dispatch k context (.trying (.running n delay))) := by
    simp only [step, hlook, phase]
    rfl
  by_cases hfirst : n = 1
  · subst hfirst
    refine ⟨[k], ?_, ?_⟩
    · rw [yields, pull?_eq_none hpulling, hstep, was]
      rfl
    · have hcontext := h.reads k context _ (by rw [was]; rfl)
      simp only [effects, hlook, hrole]
      exact .cons (hcontext ▸ .invoked hrole) .nil
  · refine signs_nothing hpulling ?_ ?_
    · simp [Phase.unseen, Phase.job?, hstep, was, Option.filter, Job.isUnseen, hfirst]
    · simp [effects, hlook, hrole, Effect.isSign, hfirst]

theorem signs_look_dispatch (h : l.Lasting) {k : Claimed} {context : TraceContext} {attempts : Retry Failure}
    (was : l.phase = .working s (.dispatch k context (.trying attempts))) (now : Instant) (publisher : Publisher) :
    l.Signs (.look now publisher) := by
  cases hgoing : attempts.isReady with
  | true =>
    cases attempts with
    | ready n delay => exact signs_begin h was now publisher
    | _ => cases hgoing
  | false =>
    obtain ⟨ephemeral, hrole⟩ := subscriber_of_dispatch h was
    have hunseen : (Job.dispatch k context (.trying attempts)).isUnseen = false := by
      cases attempts with
      | ready => cases hgoing
      | _ => rfl
    have hstep : (l.step (.look now publisher)).phase = .working s
        (.dispatch k context (attempts.look l.consumer.setup.settings.retry now l.fired).work) := by
      rw [phase_look_working was rfl hgoing, Consumer.phase_carryOn]
      rfl
    refine signs_nothing (isSelecting_eq_false was).2 ?_ ?_
    · have hcounted := h.counted _ _ _ was rfl
      simp [Phase.unseen, Phase.job?, hstep, was, Option.filter, hunseen, isUnseen_look _ _ _ hcounted hgoing]
    · rw [hrole]
      refine Effect.isSign_quiet (fun d hd => ?_) ephemeral
      obtain ⟨s', k', context', n, delay, heq, -⟩ := Consumer.invoke_mem_look hd
      rw [show l.consumer.phase = _ from was] at heq
      cases heq
      cases hgoing

theorem signs_dispatch (h : l.Lasting) {k : Claimed} {context : TraceContext} {work : Work}
    (was : l.phase = .working s (.dispatch k context work)) (b : Beat) : l.Signs b := by
  have hphase : l.consumer.phase = .working s (.dispatch k context work) := was
  have hpulling := (isSelecting_eq_false was).2
  obtain ⟨ephemeral, hrole⟩ := subscriber_of_dispatch h was
  cases b with
  | fire => exact signs_nothing hpulling rfl rfl
  | look now publisher =>
    cases work with
    | trying attempts => exact signs_look_dispatch h was now publisher
    | acking | nacking => apply signs_nothing hpulling <;> simp [step, effects, phase, Consumer.look, hphase]
  | finish outcome =>
    refine signs_nothing hpulling ?_ (hrole ▸ Effect.isSign_quiet (Consumer.quiet_finish _ _) ephemeral)
    cases work with
    | trying attempts =>
      have hstep : (l.step (.finish outcome)).phase =
          .working s (.dispatch k context (attempts.finish l.consumer.setup.settings.retry outcome).work) := by
        simp only [step, phase, Consumer.finish, hphase, Consumer.phase_endAttempt]
        rfl
      simp only [Phase.unseen, Phase.job?, hstep, was, Option.filter, isUnseen_finish]
      split <;> rfl
    | _ => simp only [step, phase, Consumer.finish, hphase]
  | answer now publisher reply =>
    have hrequest := request?_working was
    refine signs_nothing hpulling ?_ ?_
    · cases work with
      | trying attempts =>
        have hnone : l.consumer.jobRequest? (.dispatch k context (.trying attempts)) = none := by
          cases attempts <;> rfl
        simp only [step, hrequest, hnone, Option.isSome_none, Bool.false_eq_true, if_false]
      | acking | nacking =>
        simp only [step, hrequest, Consumer.jobRequest?, Option.isSome_some, if_true, phase, Consumer.answer, hphase]
        rfl
    · simp only [effects]
      split
      · exact hrole ▸ Effect.isSign_quiet (Consumer.quiet_answer _ _ _) ephemeral
      · rfl

/-- What an attempt to pass a message on comes to: it goes on, or it is known what becomes of the envelope. -/
def Tells (setup : Setup) (k : Claimed) (step : Consumer × List Effect) : Prop :=
  ∃ done, [k] = done ++ step.1.phase.unseen ∧
    List.Forall₂ (Consumer.Sign setup) done (step.2.filter (Effect.isSign .forwarder))

section Forward

variable {c : Consumer} {k : Claimed} {e : Envelope}

theorem tells_carryOn (role : c.setup.role = .forwarder) (unwraps : Envelope.unwrap k.message = .ok e) (work : Work)
    (attempts : Retry Failure) : Tells c.setup k (c.carryOn s (.forward k e work) attempts) := by
  cases attempts with
  | «over» result =>
    cases result with
    | ok n => exact ⟨[k], rfl, .cons (.forwarded role unwraps) .nil⟩
    | error error => exact ⟨[k], rfl, .cons (.nacked role unwraps) .nil⟩
  | _ => exact ⟨[], rfl, .nil⟩

theorem tells_endAttempt (role : c.setup.role = .forwarder) (unwraps : Envelope.unwrap k.message = .ok e) (work : Work)
    (attempts : Retry Failure) (outcome : Except Failure Unit) :
    Tells c.setup k (c.endAttempt s (.forward k e work) attempts outcome) := by
  unfold Consumer.endAttempt
  split
  · exact ⟨[], rfl, .nil⟩
  · exact tells_carryOn role unwraps work _

theorem tells_lookAt (role : c.setup.role = .forwarder) (unwraps : Envelope.unwrap k.message = .ok e) (work : Work)
    (o : Observation) (attempts : Retry Failure) :
    Tells c.setup k (c.lookAt o s (.forward k e work) attempts) := by
  unfold Consumer.lookAt
  split
  · simp only [Consumer.beginAttempt]
    split
    · exact ⟨[], rfl, .nil⟩
    · exact tells_endAttempt role unwraps work _ _
  · exact tells_carryOn role unwraps work _

theorem isSign_settled (c : Consumer) (job : Job) (reply : Store.Reply) (role : Role) :
    (c.settled job reply).filter (Effect.isSign role) = [] := by
  cases reply <;> cases role <;> rfl

end Forward

theorem signs_forward (h : l.Lasting) {k : Claimed} {e : Envelope} {work : Work}
    (was : l.phase = .working s (.forward k e work)) (b : Beat) : l.Signs b := by
  have hphase : l.consumer.phase = .working s (.forward k e work) := was
  have hpulling := (isSelecting_eq_false was).2
  obtain ⟨hrole, hunwraps, -⟩ := h.sound.phase.fits _ (by rw [was]; rfl)
  have htells : ∀ {step : Consumer × List Effect}, l.phase.unseen = [k] → (l.step b).phase = step.1.phase →
      l.effects b = step.2 → Tells l.consumer.setup k step → l.Signs b := by
    rintro step hunseen hstep heffects ⟨done, hdone, hsigns⟩
    refine ⟨done, ?_, by rwa [heffects, hrole]⟩
    rw [hunseen, hstep, ← hdone, yields, pull?_eq_none hpulling]
    rfl
  cases b with
  | fire => exact signs_nothing hpulling rfl rfl
  | finish outcome => apply signs_nothing hpulling <;> simp [step, effects, phase, Consumer.finish, hphase]
  | look now publisher =>
    cases work with
    | trying attempts =>
      refine htells (by rw [was]; rfl) ?_ ?_
        (tells_lookAt (s := s) hrole hunwraps (.trying attempts) (l.observe now publisher) attempts)
      · simp only [step, phase, Consumer.look, hphase]
      · simp only [effects, Consumer.look, hphase]
    | acking | nacking => apply signs_nothing hpulling <;> simp [step, effects, phase, Consumer.look, hphase]
  | answer now publisher reply =>
    have hrequest := request?_working was
    cases work with
    | trying attempts =>
      cases attempts with
      | running n delay =>
        obtain ⟨outcome, hanswer⟩ : ∃ outcome, l.consumer.answer (l.observe now publisher) reply =
            l.consumer.endAttempt s (.forward k e (.trying (.running n delay))) (.running n delay) outcome := by
          simp only [Consumer.answer, hphase]
          exact ⟨_, rfl⟩
        refine htells (by rw [was]; rfl) ?_ ?_
          (tells_endAttempt (s := s) hrole hunwraps (.trying (.running n delay)) (.running n delay) outcome)
        · simp only [step, hrequest, Consumer.jobRequest?, Option.isSome_some, if_true, phase, hanswer]
        · simp only [effects, hrequest, Consumer.jobRequest?, Option.isSome_some, if_true, hanswer]
      | _ => apply signs_nothing hpulling <;> simp [step, effects, hrequest, Consumer.jobRequest?]
    | acking | nacking =>
      obtain ⟨job, hanswer⟩ : ∃ job, l.consumer.answer (l.observe now publisher) reply =
          (l.consumer.enter (.selecting s), l.consumer.settled job reply) := by
        simp only [Consumer.answer, hphase]
        exact ⟨_, rfl⟩
      apply signs_nothing hpulling
      · simp only [step, hrequest, Consumer.jobRequest?, Option.isSome_some, if_true, hanswer, was]
        rfl
      · simp only [effects, hrequest, Consumer.jobRequest?, Option.isSome_some, if_true, hanswer, isSign_settled]

theorem signs_refuse {k : Claimed} (was : l.phase = .working s (.refuse k)) (b : Beat) : l.Signs b := by
  have hphase : l.consumer.phase = .working s (.refuse k) := was
  have hpulling := (isSelecting_eq_false was).2
  cases b with
  | fire => exact signs_nothing hpulling rfl rfl
  | finish outcome => apply signs_nothing hpulling <;> simp [step, effects, phase, Consumer.finish, hphase]
  | look now publisher => apply signs_nothing hpulling <;> simp [step, effects, phase, Consumer.look, hphase]
  | answer now publisher reply =>
    have hrequest := request?_working was
    have hanswer : l.consumer.answer (l.observe now publisher) reply =
        (l.consumer.enter (.selecting s), l.consumer.settled (.refuse k) reply) := by
      simp only [Consumer.answer, hphase]
      rfl
    apply signs_nothing hpulling
    · simp only [step, hrequest, Consumer.jobRequest?, Option.isSome_some, if_true, hanswer, was]
      rfl
    · simp only [effects, hrequest, Consumer.jobRequest?, Option.isSome_some, if_true, hanswer, isSign_settled]

theorem signs_free (h : l.Lasting) (free : l.phase.job? = none) (idle : l.isPulling = false) (b : Beat) :
    l.Signs b := by
  have hcomes := comes_step h b
  have hsigns : (l.step b).phase.job? = none → (l.effects b).all Effect.isAside = true → l.Signs b := by
    intro hgone haside
    refine signs_nothing idle ?_ (Effect.isSign_isAside haside _)
    rw [Phase.unseen, Phase.unseen, free, hgone]
  generalize hp : (l.step b).phase = p at hcomes hsigns
  generalize heffects : l.effects b = effects at hcomes hsigns
  cases hcomes with
  | still => exact hsigns free rfl
  | starts was aside => exact hsigns rfl aside
  | pulls => exact hsigns rfl rfl
  | winds seen was at' gone aside => exact hsigns gone aside
  | pulled was => simp [isPulling, was] at idle
  | works was | settles was =>
    rw [was] at free
    cases free

/-- **A message that is handed out turns out to be dispatched**, once and in its turn. -/
theorem signs_step (h : l.Lasting) (b : Beat) : l.Signs b := by
  cases hphase : l.phase with
  | working s job =>
    cases job with
    | dispatch => exact signs_dispatch h hphase b
    | forward => exact signs_forward h hphase b
    | refuse => exact signs_refuse hphase b
  | pulling s =>
    obtain ⟨hnone, hstep, heffects⟩ | ⟨step, hpull, -, hstep, heffects⟩ := step_pulling hphase b
    · refine ⟨[], ?_, by rw [heffects]; exact .nil⟩
      rw [hstep, yields, hnone]
      simp
    · obtain ⟨done, hdone, hsigns⟩ := signs_pulled l step.1 step.2
      refine ⟨done, ?_, by rwa [heffects]⟩
      rw [hphase, hstep, yields, hpull, ← hdone]
      simp [Phase.unseen, Phase.job?]
  | _ => exact signs_free h (by rw [hphase]; rfl) (by simp only [isPulling, hphase]) b

/-! ## Every life -/

section Run

variable {setup : Setup} (period : setup.settings.pollInterval ≠ .zero) (errorCapacity : Nat) (beats : List Beat)
include period

theorem settled_run :
    chronicle step yields (new setup errorCapacity) beats =
      (chronicle step settlements (new setup errorCapacity) beats).map (·.1.claimed) ++
        ((new setup errorCapacity).run beats).phase.inHand := by
  induction beats using List.reverseRecOn with
  | nil => rfl
  | append_singleton beats b ih =>
    have hstep := settled_step (lasting_run period errorCapacity beats) b
    rw [run_concat, chronicle_concat, chronicle_concat, ih, List.map_append, List.append_assoc, List.append_assoc]
    exact congrArg _ hstep

theorem signs_run :
    ∃ done, chronicle step yields (new setup errorCapacity) beats =
        done ++ ((new setup errorCapacity).run beats).phase.unseen ∧
      List.Forall₂ (Consumer.Sign setup) done
        ((chronicle step effects (new setup errorCapacity) beats).filter (Effect.isSign setup.role)) := by
  induction beats using List.reverseRecOn with
  | nil => exact ⟨[], rfl, .nil⟩
  | append_singleton beats b ih =>
    obtain ⟨done, hdone, hsigns⟩ := ih
    obtain ⟨done', hdone', hsigns'⟩ := signs_step (lasting_run period errorCapacity beats) b
    rw [setup_run] at hsigns'
    refine ⟨done ++ done', ?_, ?_⟩
    · rw [run_concat, chronicle_concat, hdone, List.append_assoc, List.append_assoc]
      exact congrArg _ hdone'
    · rw [chronicle_concat, List.filter_append]
      exact List.rel_append hsigns hsigns'

theorem settlements_run {job : Job} {request : Store.Request}
    (h : (job, request) ∈ chronicle step settlements (new setup errorCapacity) beats) :
    Consumer.Settles setup job request ∧ job.Fits setup.role := by
  obtain ⟨earlier, b, later, -, hmem⟩ := mem_chronicle.1 h
  have hfits := fits_settlements (lasting_run period errorCapacity earlier) hmem
  rwa [setup_run] at hfits

end Run

end Loop

end DurableBus
