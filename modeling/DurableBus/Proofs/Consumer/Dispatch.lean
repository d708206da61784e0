import DurableBus.Proofs.Consumer.Winding
import DurableBus.Proofs.Retry.Trial

/-!
# How a message is dispatched

From the moment it is handed out until its claim is settled, a message of a subscriber is dispatched. Meanwhile its
handler returns what it likes, the token fires when it likes, the store answers what it likes and the error channel is
used as its owner likes.

* `Loop.transcript` : what is seen of a dispatch: invocations, hooks, reports and how the claim is settled;
* `look_working`, `finish_running`, `settles_answer` : a dispatch goes as the repeated operation goes, and is then
  settled;
* `Underway.turn`, `Underway.through` : every transcript is the history of that operation, and of the settlement;
* `Underway.remains_pass`, `eventually_settled` : a dispatch comes to its end if it gets what it waits for;
* `dispatch_settles_once` : all of it, for every message, policy and course.
-/

set_option autoImplicit false

namespace DurableBus

open Consumer (Setup)
open Retry (Deed Moment Round Trial foldl_upTo_succ reaches_end story upTo)

/-! ## What is seen -/

namespace Dispatch

/-- What may happen while a message is dispatched. -/
inductive Turn
  | beat (b : Beat)
  /-- Reports are received, or nobody receives them any more. -/
  | channel (errors : ErrorChannel)

/-- What is seen of a dispatch. -/
inductive Act
  /-- The handler is invoked, or the hook is told something. -/
  | effect (effect : Effect)
  /-- The handler returns. -/
  | returned (outcome : Except Failure Unit)
  /-- The store answers the request that settles the claim; `room` is whether the error channel accepts a report. -/
  | settled (request : Store.Request) (reply : Store.Reply) (room : Bool)
  /-- A report is in the error channel. -/
  | sent (report : HandlerError)

end Dispatch

open Dispatch (Act Turn)

namespace Loop

/-- A message has been handed to a consumer. -/
def dispatching (c : Consumer) (s : ClaimStream) (k : Claimed) (fired : Bool) : Loop := ⟨(c.take s k).1, fired⟩

def isWorking (l : Loop) : Bool := l.phase.job?.isSome

/-- Whether a beat can come: no handler returns that does not run, and nothing is answered that was not asked. -/
def heeds (l : Loop) : Beat → Bool
  | .fire | .look _ _ => true
  | .answer _ _ _ => l.consumer.request?.isSome
  | .finish _ => l.consumer.isHandling

def turn (l : Loop) : Turn → Loop
  | .beat b => if l.heeds b then l.step b else l
  | .channel errors => { l with consumer := { l.consumer with errors } }

/-- What others do to the consumer. -/
def outside (l : Loop) : Beat → List Act
  | .finish outcome => [.returned outcome]
  | .answer _ _ reply =>
    (l.consumer.request?.map fun request => .settled request reply l.consumer.errors.accepts).toList
  | .fire | .look _ _ => []

def reports (l : Loop) (b : Beat) : List HandlerError :=
  (l.step b).consumer.errors.queue.drop l.consumer.errors.queue.length

/-- What is seen when something happens. -/
def acts (l : Loop) : Turn → List Act
  | .beat b => if l.heeds b then l.outside b ++ (l.effects b).map .effect ++ (l.reports b).map .sent else []
  | .channel _ => []

/-- The dispatch goes on, unless it is over. -/
def pass (l : Loop) (t : Turn) : Loop := if l.isWorking then l.turn t else l

def through (l : Loop) (course : List Turn) : Loop := course.foldl pass l

def transcript : Loop → List Turn → List Act
  | _, [] => []
  | l, t :: rest => (if l.isWorking then l.acts t else []) ++ transcript (l.pass t) rest

end Loop

/-! ## What is to be seen -/

namespace Dispatch

section Spec

variable (setup : Setup) (k : Claimed)

def Act.invoked (n : Nat) : Act :=
  .effect (.invoke { Delivery.ofClaimed setup.topic k (setup.settings.propagator.extract k.message.metadata) with
    attempt := n })

def Act.retried (n : Nat) (delay : Duration) (e : Failure) : Act :=
  .effect (.hook (.retrying setup.topic k.message.id n delay e))

def Act.nacked (e : RetryError Failure) : Act := .effect (.hook (.nacked setup.topic k.message.id e))

/-- The hook is told if the store refused. -/
def complaint : Store.Reply → List Act
  | .ok _ => []
  | .error e => [.effect (.hook (.unsettled setup.topic k.message.id e))]

/-- Attempts that fail and are followed by another one, the first of them the `n`-th. -/
def failures (n : Nat) : List (Failure × Duration) → List Act
  | [] => []
  | (e, delay) :: rest =>
    [.invoked setup k n, .returned (.error e), .retried setup k n delay e] ++ failures (n + 1) rest

/-- The last attempt, the `n`-th: the handler succeeds, or it fails and no attempt is left, or it fails and the token
fires before the next attempt. -/
inductive Lasts (n : Nat) : List Act → Except (RetryError Failure) Nat → Prop
  | succeeded : Lasts n [.invoked setup k n, .returned (.ok ())] (.ok n)
  | exhausted {e} (last : n = setup.settings.retry.maxAttempts) :
      Lasts n [.invoked setup k n, .returned (.error e), .nacked setup k ⟨n, false, e⟩] (.error ⟨n, false, e⟩)
  | cancelled {e delay} (more : setup.settings.retry.delays[n - 1]? = some delay) :
      Lasts n [.invoked setup k n, .returned (.error e), .retried setup k n delay e, .nacked setup k ⟨n, true, e⟩]
        (.error ⟨n, true, e⟩)

/-- The claim is settled: a success is acknowledged, a failure is given back, and a message that has used up its
attempts is reported. -/
inductive Settles : Except (RetryError Failure) Nat → List Act → Prop
  | acked {n answer room} : Settles (.ok n)
      [.settled (.ack k.receipt) (.ok answer) room, .effect (.hook (.acked setup.topic k.message.id n))]
  | unacked {n refusal room} : Settles (.ok n)
      (.settled (.ack k.receipt) (.error refusal) room :: complaint setup k (.error refusal))
  | sent {n e reply} : Settles (.error ⟨n, false, e⟩)
      (.settled (.nack k.receipt setup.settings.redeliveryDelay) reply true :: complaint setup k reply ++
        [.sent ⟨setup.topic, k.message.id, ⟨n, false, e⟩⟩])
  | dropped {n e reply} : Settles (.error ⟨n, false, e⟩)
      (.settled (.nack k.receipt setup.settings.redeliveryDelay) reply false :: complaint setup k reply ++
        [.effect (.hook (.errorDropped setup.topic k.message.id))])
  | cancelled {n e reply room} : Settles (.error ⟨n, true, e⟩)
      (.settled (.nack k.receipt setup.settings.redeliveryDelay) reply room :: complaint setup k reply)

end Spec

end Dispatch

/-! ## The repeated operation behind it -/

/-- How far the work on a message has come with its attempts. -/
def Retry.work : Retry Failure → Work
  | .over (.ok n) => .acking n
  | .over (.error e) => .nacking e
  | attempts => .trying attempts

namespace Dispatch

variable {setup : Setup} {s : ClaimStream} {k : Claimed}

def job (setup : Setup) (k : Claimed) (attempts : Retry Failure) : Job :=
  .dispatch k (setup.settings.propagator.extract k.message.metadata) attempts.work

/-- How the consumer does what the operation does. -/
def effects (setup : Setup) (k : Claimed) : Deed Failure → List Effect
  | .begins n => [.invoke { Delivery.ofClaimed setup.topic k
      (setup.settings.propagator.extract k.message.metadata) with attempt := n }]
  | .reports n delay e => [.hook (.retrying setup.topic k.message.id n delay e)]
  | .returns (.error e) => [.hook (.nacked setup.topic k.message.id e)]
  | .ends _ _ | .rests _ _ | .wakes | .returns (.ok _) => []

/-- What is seen then. -/
def seen (setup : Setup) (k : Claimed) : Moment × Deed Failure → List Act
  | (_, .ends _ outcome) => [.returned outcome]
  | (_, deed) => (effects setup k deed).map .effect

/-- What an operation waits for: a look, the end of its attempt, the time or the token, and at last that the claim is
settled. -/
def Awaits (fired : Bool) : Retry Failure → Turn → Prop
  | .ready _ _, t | .reported _ _ _, t => ∃ now publisher, t = .beat (.look now publisher)
  | .running _ _, t => ∃ outcome, t = .beat (.finish outcome)
  | .resting _ _ _ wakeAt, t => ∃ now publisher, t = .beat (.look now publisher) ∧ (fired = true ∨ wakeAt ≤ now)
  | .over _, t => ∃ now publisher reply, t = .beat (.answer now publisher reply)

/-- The operation comes further, unless it got what it does not wait for. -/
def Advances (p : RetryPolicy) (fired : Bool) (attempts : Retry Failure) (t : Turn) (attempts' : Retry Failure) :
    Prop :=
  attempts' = attempts ∧ ¬ Awaits fired attempts t ∨ attempts'.left p < attempts.left p

theorem seen_arrival (setup : Setup) (k : Claimed) (m : Moment) (attempts : Retry Failure) :
    seen setup k (m, attempts.arrival) = (effects setup k attempts.arrival).map .effect := by
  cases attempts <;> rfl

theorem seen_story (setup : Setup) (k : Claimed) (n : Nat) (rounds : List (Round Failure)) :
    (story n rounds).flatMap (seen setup k) = failures setup k n (rounds.map fun r => (r.error, r.delay)) := by
  induction rounds generalizing n with
  | nil => rfl
  | cons r rest ih =>
    show (r.deeds n ++ story (n + 1) rest).flatMap (seen setup k) = _
    rw [List.flatMap_append, ih]
    rfl

end Dispatch

namespace Consumer

open Dispatch (job effects)

variable {c : Consumer} {s : ClaimStream} {k : Claimed} {attempts : Retry Failure}

theorem enter_phase {phase : Phase} (h : c.phase = phase) : c.enter phase = c := by
  subst h
  rfl

theorem look_working (was : c.phase = .working s (job c.setup k attempts)) (o : Observation) :
    c.look o = (c.enter (.working s (job c.setup k (attempts.proceed c.setup.settings.retry o.now o.cancelled))),
      if attempts.isDue o.now o.cancelled then
        effects c.setup k (attempts.proceed c.setup.settings.retry o.now o.cancelled).arrival else []) := by
  unfold look
  rw [was]
  cases attempts with
  | ready n delay => rfl
  | running n delay => rfl
  | «over» result => cases result <;> exact congrArg (·, []) (enter_phase was).symm
  | reported n delay e =>
    simp only [job, Retry.work, lookAt, Retry.proceed, Retry.isDue, Retry.look, if_true]
    cases o.cancelled <;> rfl
  | resting n delay e wakeAt =>
    simp only [job, Retry.work, lookAt, Retry.proceed]
    cases o.cancelled with
    | true => rfl
    | false =>
      by_cases hdue : wakeAt ≤ o.now
      · have hgoes : (Retry.resting n delay e wakeAt).isDue o.now false = true := decide_eq_true hdue
        rw [Retry.look_due hdue, if_pos hgoes]
        rfl
      · have hwaits : ¬ (Retry.resting n delay e wakeAt).isDue o.now false = true := by
          simpa [Retry.isDue] using hdue
        rw [Retry.look_early hdue, if_neg hwaits]
        rfl

theorem finish_running {n : Nat} {delay : Duration} (was : c.phase = .working s (job c.setup k (.running n delay)))
    (outcome : Except Failure Unit) :
    c.finish outcome =
      (c.enter (.working s (job c.setup k ((Retry.running n delay).finish c.setup.settings.retry outcome))),
        effects c.setup k ((Retry.running n delay).finish c.setup.settings.retry outcome).arrival) := by
  unfold finish
  rw [was]
  simp only [job, Retry.work, endAttempt]
  rcases outcome with e | ⟨⟩
  case ok => rfl
  case error =>
    by_cases hlast : c.setup.settings.retry.maxAttempts ≤ n
    · rw [Retry.finish_last hlast]
      rfl
    · rw [Retry.finish_more (Nat.lt_of_not_le hlast)]
      rfl

theorem answer_acking {n : Nat} (was : c.phase = .working s (job c.setup k (.over (.ok n)))) (o : Observation)
    (reply : Store.Reply) :
    c.answer o reply = (c.enter (.selecting s), match reply with
      | .ok _ => [.hook (.acked c.setup.topic k.message.id n)]
      | .error e => [.hook (.unsettled c.setup.topic k.message.id e)]) := by
  unfold answer
  rw [was]
  cases reply <;> rfl

theorem answer_nacking {e : RetryError Failure} (was : c.phase = .working s (job c.setup k (.over (.error e))))
    (o : Observation) (reply : Store.Reply) :
    c.answer o reply = ((c.report (job c.setup k (.over (.error e))) e).1.enter (.selecting s),
      c.settled (job c.setup k (.over (.error e))) reply ++ (c.report (job c.setup k (.over (.error e))) e).2) := by
  unfold answer
  rw [was]
  rfl

end Consumer

namespace Loop

open Dispatch (Advances Awaits Lasts Settles complaint failures job seen)

variable {l : Loop} {s : ClaimStream} {k : Claimed} {attempts : Retry Failure}
  {result : Except (RetryError Failure) Nat}

def settling (setup : Setup) (k : Claimed) : Except (RetryError Failure) Nat → Store.Request
  | .ok _ => .ack k.receipt
  | .error _ => .nack k.receipt setup.settings.redeliveryDelay

theorem request?_over (was : l.phase = .working s (job l.consumer.setup k (.over result))) :
    l.consumer.request? = some (settling l.consumer.setup k result) := by
  unfold phase at was
  unfold Consumer.request?
  rw [was]
  cases result <;> rfl

theorem step_answer {request : Store.Request} (asks : l.consumer.request? = some request) (now : Instant)
    (publisher : Publisher) (reply : Store.Reply) :
    l.step (.answer now publisher reply) =
      { l with consumer := (l.consumer.answer (l.observe now publisher) reply).1 } :=
  if_pos (by rw [asks]; rfl)

theorem acts_answer {request : Store.Request} (asks : l.consumer.request? = some request) (now : Instant)
    (publisher : Publisher) (reply : Store.Reply) :
    l.acts (.beat (.answer now publisher reply)) =
      .settled request reply l.consumer.errors.accepts ::
        (l.consumer.answer (l.observe now publisher) reply).2.map .effect ++
        ((l.consumer.answer (l.observe now publisher) reply).1.errors.queue.drop
          l.consumer.errors.queue.length).map .sent := by
  have hasked : l.consumer.request?.isSome := by
    rw [asks]
    rfl
  have heffects : l.effects (.answer now publisher reply) =
      (l.consumer.answer (l.observe now publisher) reply).2 := if_pos hasked
  unfold acts heeds outside reports
  simp only
  rw [if_pos hasked, heffects, step_answer asks, asks]
  rfl

theorem settles_acking {n : Nat} (was : l.phase = .working s (job l.consumer.setup k (.over (.ok n)))) (now : Instant)
    (publisher : Publisher) (reply : Store.Reply) :
    (l.step (.answer now publisher reply)).phase = .selecting s ∧
      Settles l.consumer.setup k (.ok n) (l.acts (.beat (.answer now publisher reply))) := by
  have hasks := request?_over was
  rw [step_answer hasks, acts_answer hasks, Consumer.answer_acking was]
  refine ⟨rfl, ?_⟩
  simp only [Consumer.enter, List.drop_length, List.map_nil, List.append_nil]
  cases reply with
  | ok answer => exact .acked
  | error refusal => exact .unacked

theorem settles_nacking {e : RetryError Failure}
    (was : l.phase = .working s (job l.consumer.setup k (.over (.error e)))) (now : Instant) (publisher : Publisher)
    (reply : Store.Reply) :
    (l.step (.answer now publisher reply)).phase = .selecting s ∧
      Settles l.consumer.setup k (.error e) (l.acts (.beat (.answer now publisher reply))) := by
  have hasks := request?_over was
  have hcomplaint : (l.consumer.settled (job l.consumer.setup k (.over (.error e))) reply).map .effect =
      complaint l.consumer.setup k reply := by
    cases reply <;> rfl
  rw [step_answer hasks, acts_answer hasks, Consumer.answer_nacking was]
  refine ⟨rfl, ?_⟩
  simp only [List.map_append, hcomplaint, Consumer.enter]
  obtain ⟨n, _ | _, x⟩ := e
  case true =>
    simp only [Consumer.report, if_true, List.drop_length, List.map_nil, List.append_nil]
    exact .cancelled
  case false =>
    simp only [Consumer.report, Bool.false_eq_true, if_false]
    cases haccepts : l.consumer.errors.accepts with
    | true =>
      simp only [if_true, ErrorChannel.send, haccepts, List.drop_left, List.map_nil, List.append_nil]
      exact .sent
    | false =>
      simp only [Bool.false_eq_true, if_false, List.drop_length, List.map_nil, List.append_nil]
      exact .dropped

theorem settles_answer (was : l.phase = .working s (job l.consumer.setup k (.over result))) (now : Instant)
    (publisher : Publisher) (reply : Store.Reply) :
    (l.step (.answer now publisher reply)).phase = .selecting s ∧
      Settles l.consumer.setup k result (l.acts (.beat (.answer now publisher reply))) := by
  cases result with
  | ok n => exact settles_acking was now publisher reply
  | error e => exact settles_nacking was now publisher reply

/-! ## Every transcript -/

/-- The operation behind a dispatch; what matters of the time at which the token fired is that it has. -/
def trial (l : Loop) (attempts : Retry Failure) : Trial Failure := ⟨0, if l.fired then some 0 else none, attempts⟩

theorem isSome_fired_trial (l : Loop) (attempts : Retry Failure) : (l.trial attempts).fired.isSome = l.fired := by
  unfold trial
  cases l.fired <;> rfl

theorem step_trial_look (p : RetryPolicy) (l : Loop) (attempts : Retry Failure) (now : Instant) :
    ((l.trial attempts).step p (now, .look)).loop = attempts.proceed p now l.fired := by
  show attempts.proceed p now (l.trial attempts).fired.isSome = _
  rw [isSome_fired_trial]

theorem deeds_trial_look (p : RetryPolicy) (l : Loop) (attempts : Retry Failure) (now : Instant) :
    (l.trial attempts).deeds p (now, .look) =
      if attempts.isDue now l.fired then [(attempts.proceed p now l.fired).arrival] else [] := by
  show (if attempts.isDue now (l.trial attempts).fired.isSome then
    [((l.trial attempts).step p (now, .look)).loop.arrival] else []) = _
  rw [isSome_fired_trial, step_trial_look]

variable {setup : Setup} {acts : List Dispatch.Act} {told : List (Moment × Deed Failure)}

/-- A message is in hand, and what has been seen is what its operation has done. -/
structure Underway (setup : Setup) (s : ClaimStream) (k : Claimed) (l : Loop) (acts : List Dispatch.Act)
    (told : List (Moment × Deed Failure)) (attempts : Retry Failure) : Prop where
  equipped : l.consumer.setup = setup
  working : l.phase = .working s (job setup k attempts)
  account : Retry.Account setup.settings.retry told attempts
  is : acts = told.flatMap (seen setup k)
  fired : ∀ m ∈ told, m.1.fired.isSome → l.fired = true

/-- The claim has been settled, and what has been seen is what its operation did and how it was settled. -/
structure Settled (setup : Setup) (s : ClaimStream) (k : Claimed) (l : Loop) (acts : List Dispatch.Act)
    (told : List (Moment × Deed Failure)) (result : Except (RetryError Failure) Nat) : Prop where
  selecting : l.phase = .selecting s
  account : Retry.Account setup.settings.retry told (.over result)
  is : ∃ settling, Settles setup k result settling ∧ acts = told.flatMap (seen setup k) ++ settling
  fired : ∀ m ∈ told, m.1.fired.isSome → l.fired = true

theorem underway_dispatching {c : Consumer} {ephemeral : Bool} (role : c.setup.role = .subscriber ephemeral)
    (s : ClaimStream) (k : Claimed) (fired : Bool) :
    Underway c.setup s k (dispatching c s k fired) [] [] (.start c.setup.settings.retry) := by
  have htake : (c.take s k).1 = c.enter (.working s (job c.setup k (.start c.setup.settings.retry))) := by
    unfold Consumer.take
    rw [role]
    rfl
  unfold dispatching
  rw [htake]
  exact ⟨rfl, rfl, Retry.account_start _, rfl, nofun⟩

theorem Underway.aside (h : Underway setup s k l acts told attempts) {l' : Loop}
    (equipped : l'.consumer.setup = l.consumer.setup) (phase : l'.phase = l.phase)
    (fired : l.fired = true → l'.fired = true) : Underway setup s k l' (acts ++ []) told attempts where
  equipped := equipped.trans h.equipped
  working := phase.trans h.working
  account := h.account
  is := (List.append_nil acts).trans h.is
  fired m hm hfired := fired (h.fired m hm hfired)

/-- The operation goes on. -/
theorem Underway.goes (h : Underway setup s k l acts told attempts) (o : Retry.Occasion Failure) {l' : Loop}
    {more : List Dispatch.Act} (equipped : l'.consumer.setup = l.consumer.setup)
    (working : l'.phase = .working s (job setup k ((l.trial attempts).step setup.settings.retry o).loop))
    (fired : l'.fired = l.fired)
    (is : more = (((l.trial attempts).deeds setup.settings.retry o).map
      (⟨o.1, (l.trial attempts).fired⟩, ·)).flatMap (seen setup k)) :
    Underway setup s k l' (acts ++ more)
      (told ++ ((l.trial attempts).deeds setup.settings.retry o).map (⟨o.1, (l.trial attempts).fired⟩, ·))
      ((l.trial attempts).step setup.settings.retry o).loop where
  equipped := equipped.trans h.equipped
  working := working
  account := Retry.Account.step (t := l.trial attempts) h.account o
  is := by rw [List.flatMap_append, h.is, is]
  fired m hm hfired := by
    rw [fired]
    obtain hm | hm := List.mem_append.1 hm
    · exact h.fired m hm hfired
    · obtain ⟨d, -, rfl⟩ := List.mem_map.1 hm
      rw [isSome_fired_trial] at hfired
      exact hfired

theorem Underway.look (h : Underway setup s k l acts told attempts) (now : Instant) (publisher : Publisher) :
    ∃ told', Underway setup s k (l.step (.look now publisher)) (acts ++ l.acts (.beat (.look now publisher))) told'
      (attempts.proceed setup.settings.retry now l.fired) := by
  obtain rfl := h.equipped
  have hlook := Consumer.look_working h.working (l.observe now publisher)
  have hacts : l.acts (.beat (.look now publisher)) =
      (if attempts.isDue now l.fired then Dispatch.effects l.consumer.setup k
        (attempts.proceed l.consumer.setup.settings.retry now l.fired).arrival else []).map .effect := by
    unfold Loop.acts heeds outside effects reports step
    simp only [if_true, List.nil_append, hlook, Consumer.enter, List.drop_length, List.map_nil, List.append_nil]
    rfl
  rw [hacts, ← step_trial_look]
  refine ⟨_, h.goes (now, .look) (Consumer.setup_look _ _) ?_ rfl ?_⟩
  · rw [step_trial_look]
    show (l.consumer.look (l.observe now publisher)).1.phase = _
    rw [hlook]
    rfl
  · rw [deeds_trial_look, step_trial_look]
    split
    · simp only [List.map_cons, List.map_nil, List.flatMap_cons, List.flatMap_nil, List.append_nil,
        Dispatch.seen_arrival]
    · rfl

theorem running_of_isHandling (was : l.phase = .working s (job setup k attempts))
    (handling : l.consumer.isHandling = true) : ∃ n delay, attempts = .running n delay := by
  unfold phase at was
  unfold Consumer.isHandling at handling
  rw [was] at handling
  cases attempts with
  | running n delay => exact ⟨n, delay, rfl⟩
  | «over» result => cases result <;> cases handling
  | ready | reported | resting => cases handling

theorem over_of_request? (was : l.phase = .working s (job setup k attempts))
    (asked : l.consumer.request?.isSome) : ∃ result, attempts = .over result := by
  unfold phase at was
  unfold Consumer.request? at asked
  rw [was] at asked
  cases attempts with
  | «over» result => exact ⟨result, rfl⟩
  | ready | running | reported | resting => cases asked

theorem Underway.finish {n : Nat} {delay : Duration} (h : Underway setup s k l acts told (.running n delay))
    (handling : l.consumer.isHandling = true) (outcome : Except Failure Unit) :
    ∃ told', Underway setup s k (l.step (.finish outcome)) (acts ++ l.acts (.beat (.finish outcome))) told'
      ((Retry.running n delay).finish setup.settings.retry outcome) := by
  obtain rfl := h.equipped
  have hfinish := Consumer.finish_running h.working outcome
  have hacts : l.acts (.beat (.finish outcome)) = .returned outcome :: (Dispatch.effects l.consumer.setup k
      ((Retry.running n delay).finish l.consumer.setup.settings.retry outcome).arrival).map .effect := by
    unfold Loop.acts heeds outside effects reports step
    simp only [handling, if_true, hfinish, Consumer.enter, List.drop_length, List.map_nil, List.append_nil]
    rfl
  rw [hacts]
  refine ⟨_, h.goes (0, .finish outcome) (Consumer.setup_finish _ _) ?_ rfl ?_⟩
  · show (l.consumer.finish outcome).1.phase = _
    rw [hfinish]
    rfl
  · show _ = seen l.consumer.setup k (_, .ends n outcome) ++ (seen l.consumer.setup k
      (_, ((Retry.running n delay).finish l.consumer.setup.settings.retry outcome).arrival) ++ [])
    rw [Dispatch.seen_arrival, List.append_nil]
    rfl

theorem Underway.fire (h : Underway setup s k l acts told attempts) :
    Underway setup s k (l.step .fire) (acts ++ l.acts (.beat .fire)) told attempts := by
  have hacts : l.acts (.beat .fire) = [] := congrArg (List.map Dispatch.Act.sent) List.drop_length
  rw [hacts]
  exact h.aside rfl rfl fun _ => rfl

theorem Underway.ignores {b : Beat} (h : Underway setup s k l acts told attempts) (ignored : ¬ l.heeds b = true) :
    Underway setup s k (l.turn (.beat b)) (acts ++ l.acts (.beat b)) told attempts := by
  have hturn : l.turn (.beat b) = l := if_neg ignored
  have hacts : l.acts (.beat b) = [] := if_neg ignored
  rw [hturn, hacts]
  exact h.aside rfl rfl id

theorem heeds_of_awaits {b : Beat} (was : l.phase = .working s (job setup k attempts))
    (awaits : Awaits l.fired attempts (.beat b)) : l.heeds b = true := by
  unfold phase at was
  cases attempts with
  | ready | reported =>
    obtain ⟨now, publisher, hb⟩ := awaits
    cases hb
    rfl
  | resting =>
    obtain ⟨now, publisher, hb, -⟩ := awaits
    cases hb
    rfl
  | running =>
    obtain ⟨outcome, hb⟩ := awaits
    cases hb
    show l.consumer.isHandling = true
    unfold Consumer.isHandling
    rw [was]
    rfl
  | «over» result =>
    obtain ⟨now, publisher, reply, hb⟩ := awaits
    cases hb
    show l.consumer.request?.isSome = true
    unfold Consumer.request?
    rw [was]
    cases result <;> rfl

theorem not_awaits_channel (fired : Bool) (attempts : Retry Failure) (errors : ErrorChannel) :
    ¬ Awaits fired attempts (.channel errors) := by
  cases attempts <;> simp [Awaits]

theorem not_awaits_fire (fired : Bool) (attempts : Retry Failure) : ¬ Awaits fired attempts (.beat .fire) := by
  cases attempts <;> simp [Awaits]

/-- A look that is waited for brings the operation further. -/
theorem Underway.advances_look (h : Underway setup s k l acts told attempts) (now : Instant) (publisher : Publisher) :
    Advances setup.settings.retry l.fired attempts (.beat (.look now publisher))
      (attempts.proceed setup.settings.retry now l.fired) := by
  rw [← step_trial_look]
  obtain ⟨hsame, hover⟩ | hless := Retry.left_step (t := l.trial attempts) h.account (now, .look)
  case inr => exact .inr hless
  refine .inl ⟨hsame, fun awaits => ?_⟩
  have hgets : (l.trial attempts).Gets (now, .look) := by
    cases attempts with
    | ready | reported => rfl
    | running =>
      obtain ⟨outcome, hlook⟩ := awaits
      cases hlook
    | resting n delay e wakeAt =>
      obtain ⟨now', publisher', hlook, hgoes⟩ := awaits
      cases hlook
      refine ⟨rfl, ?_⟩
      rwa [isSome_fired_trial]
    | «over» result => trivial
  obtain ⟨result, his⟩ := hover hgets
  rw [show attempts = .over result from his] at awaits
  obtain ⟨now', publisher', reply, hlook⟩ := awaits
  cases hlook

/-- **Whatever happens, the operation goes on or what it came to is settled.** -/
theorem Underway.turn (h : Underway setup s k l acts told attempts) (t : Turn) :
    (∃ told' attempts', Underway setup s k (l.turn t) (acts ++ l.acts t) told' attempts' ∧
      Advances setup.settings.retry l.fired attempts t attempts') ∨
    ∃ result, Settled setup s k (l.turn t) (acts ++ l.acts t) told result := by
  rcases t with b | errors
  case channel => exact .inl ⟨_, _, h.aside rfl rfl id, .inl ⟨rfl, not_awaits_channel _ _ _⟩⟩
  by_cases hheeds : l.heeds b = true
  case neg =>
    exact .inl ⟨_, _, h.ignores hheeds, .inl ⟨rfl, fun awaits => hheeds (heeds_of_awaits h.working awaits)⟩⟩
  have hturn : l.turn (.beat b) = l.step b := if_pos hheeds
  rw [hturn]
  cases b with
  | fire => exact .inl ⟨_, _, h.fire, .inl ⟨rfl, not_awaits_fire _ _⟩⟩
  | look now publisher =>
    obtain ⟨told', hgoes⟩ := h.look now publisher
    exact .inl ⟨told', _, hgoes, h.advances_look now publisher⟩
  | finish outcome =>
    obtain ⟨n, delay, rfl⟩ := running_of_isHandling h.working hheeds
    obtain ⟨told', hgoes⟩ := h.finish hheeds outcome
    exact .inl ⟨told', _, hgoes, .inr (Retry.left_finish outcome n delay)⟩
  | answer now publisher reply =>
    obtain ⟨result, rfl⟩ := over_of_request? h.working hheeds
    obtain rfl := h.equipped
    obtain ⟨hselects, hsettles⟩ := settles_answer h.working now publisher reply
    refine .inr ⟨result, hselects, h.account, ⟨_, hsettles, by rw [h.is]⟩, fun m hm hfired => ?_⟩
    rw [step_answer (request?_over h.working)]
    exact h.fired m hm hfired

theorem through_cons (l : Loop) (t : Turn) (rest : List Turn) : l.through (t :: rest) = (l.pass t).through rest := rfl

theorem pass_idle (idle : l.isWorking = false) (t : Turn) : l.pass t = l :=
  if_neg (by rw [idle]; exact Bool.false_ne_true)

theorem through_idle (idle : l.isWorking = false) (course : List Turn) :
    l.through course = l ∧ l.transcript course = [] := by
  induction course with
  | nil => exact ⟨rfl, rfl⟩
  | cons t rest ih =>
    rw [through_cons, transcript, pass_idle idle, idle]
    exact ih

theorem Underway.isWorking (h : Underway setup s k l acts told attempts) : l.isWorking = true := by
  unfold Loop.isWorking
  rw [h.working]
  rfl

theorem Settled.isWorking (h : Settled setup s k l acts told result) : l.isWorking = false := by
  unfold Loop.isWorking
  rw [h.selecting]
  rfl

/-- **A course of a dispatch is told so**: the message is still in hand, or its claim has been settled. -/
theorem Underway.through (h : Underway setup s k l acts told attempts) (course : List Turn) :
    (∃ told' attempts', Underway setup s k (l.through course) (acts ++ l.transcript course) told' attempts') ∨
      ∃ told' result, Settled setup s k (l.through course) (acts ++ l.transcript course) told' result := by
  induction course generalizing l acts told attempts with
  | nil =>
    rw [transcript]
    exact .inl ⟨told, attempts, h.aside rfl rfl id⟩
  | cons t rest ih =>
    have hpass : l.pass t = l.turn t := if_pos h.isWorking
    rw [through_cons, transcript, hpass, if_pos h.isWorking, ← List.append_assoc]
    obtain ⟨told', attempts', hgoes, -⟩ | ⟨result, hsettled⟩ := h.turn t
    · exact ih hgoes
    · obtain ⟨hthrough, htranscript⟩ := through_idle hsettled.isWorking rest
      rw [hthrough, htranscript, List.append_nil]
      exact .inr ⟨told, result, hsettled⟩

/-! ## Coming to an end -/

/-- A message in hand gets what it waits for. -/
def Gets (l : Loop) (t : Turn) : Prop :=
  ∀ s k attempts, l.phase = .working s (job l.consumer.setup k attempts) → Awaits l.fired attempts t

/-- How far a dispatch has still to go. -/
def remains (l : Loop) : Nat :=
  match l.phase with
  | .working _ (.dispatch _ _ (.trying attempts)) => attempts.left l.consumer.setup.settings.retry + 1
  | .working _ _ => 1
  | _ => 0

theorem Underway.remains (h : Underway setup s k l acts told attempts) :
    l.remains = attempts.left setup.settings.retry + 1 := by
  unfold Loop.remains
  rw [h.working, h.equipped]
  cases attempts with
  | «over» result => cases result <;> rfl
  | ready | running | reported | resting => rfl

theorem Settled.remains (h : Settled setup s k l acts told result) : l.remains = 0 := by
  unfold Loop.remains
  rw [h.selecting]

theorem through_upTo_succ (l : Loop) (forever : Nat → Turn) (n : Nat) :
    l.through (upTo forever (n + 1)) = (l.through (upTo forever n)).pass (forever n) :=
  foldl_upTo_succ Loop.pass l forever n

/-- What is left of a dispatch never grows, and falls when it gets what it waits for. -/
theorem Underway.remains_pass (h : Underway setup s k l acts told attempts) (t : Turn) :
    (l.pass t).remains ≤ l.remains ∧ (l.Gets t → (l.pass t).remains < l.remains) := by
  have hpass : l.pass t = l.turn t := if_pos h.isWorking
  rw [hpass, h.remains]
  obtain ⟨told', attempts', hgoes, ⟨rfl, hidle⟩ | hless⟩ | ⟨result, hsettled⟩ := h.turn t
  · rw [hgoes.remains]
    refine ⟨Nat.le_refl _, fun gets => absurd (gets s k attempts' ?_) hidle⟩
    rw [h.equipped]
    exact h.working
  · rw [hgoes.remains]
    exact ⟨by omega, fun _ => by omega⟩
  · rw [hsettled.remains]
    exact ⟨Nat.zero_le _, fun _ => Nat.succ_pos _⟩

/-- **A dispatch that gets what it waits for, again and again, comes to its end.** -/
theorem eventually_settled (h : Underway setup s k l acts told attempts) {forever : Nat → Turn}
    (fair : ∀ n, ∃ m, n ≤ m ∧ (l.through (upTo forever m)).Gets (forever m)) :
    ∃ n, (l.through (upTo forever n)).isWorking = false := by
  refine reaches_end (fun n => (l.through (upTo forever n)).remains) (fun n => ?_) fair fun n gets => ?_
  all_goals
    rw [through_upTo_succ]
    obtain ⟨told', attempts', hgoes⟩ | ⟨told', result, hsettled⟩ := h.through (upTo forever n)
  · exact (hgoes.remains_pass _).1
  · rw [pass_idle hsettled.isWorking]
  · exact .inr ((hgoes.remains_pass _).2 gets)
  · exact .inl hsettled.isWorking

/-! ## The whole dispatch -/

/-- Nothing is settled and nothing reported as long as the message is in hand. -/
theorem unsettled_seen (setup : Setup) (k : Claimed) (told : List (Moment × Deed Failure)) :
    (∀ request reply room, .settled request reply room ∉ told.flatMap (seen setup k)) ∧
      ∀ report, .sent report ∉ told.flatMap (seen setup k) := by
  have hseen : ∀ act ∈ told.flatMap (seen setup k),
      (∃ effect, act = .effect effect) ∨ ∃ outcome, act = .returned outcome := by
    intro act hact
    obtain ⟨⟨m, d⟩, -, hact⟩ := List.mem_flatMap.1 hact
    cases d with
    | ends n outcome => exact .inr ⟨outcome, List.mem_singleton.1 hact⟩
    | _ =>
      obtain ⟨effect, -, rfl⟩ := List.mem_map.1 hact
      exact .inl ⟨effect, rfl⟩
  refine ⟨fun request reply room hmem => ?_, fun report hmem => ?_⟩
  all_goals obtain ⟨_, hact⟩ | ⟨_, hact⟩ := hseen _ hmem <;> cases hact

theorem lasts_of_closes {n : Nat} {chapter : List (Moment × Deed Failure)}
    (h : Retry.Closes setup.settings.retry n chapter result) :
    Lasts setup k n (chapter.flatMap (seen setup k)) result := by
  cases h with
  | succeeded => exact .succeeded
  | exhausted last => exact .exhausted last
  | cancelled more | woken more => exact .cancelled more

/-- The token fires before an operation is cancelled. -/
theorem fired_of_closes {p : RetryPolicy} {n : Nat} {chapter : List (Moment × Deed Failure)} {e : RetryError Failure}
    (h : Retry.Closes p n chapter (.error e)) (cancelled : e.cancelled = true) : ∃ m ∈ chapter, m.1.fired.isSome := by
  cases h with
  | exhausted => cases cancelled
  | cancelled more fired | woken more fired => exact ⟨_, List.mem_of_getLast? rfl, fired⟩

def inHand : Loop := dispatching (.new pairwise 1) .start (claimOn 1) false

/-- The second attempt succeeds, and the store refuses to acknowledge. -/
def refused : List Turn :=
  let publisher := Publisher.new "outbox" false .silent
  [.beat (.look 0 publisher), .beat (.finish (.error (.told "busy"))), .beat (.look 0 publisher),
    .beat (.look 1_000_000_000 publisher), .beat (.look 1_000_000_000 publisher), .beat (.finish (.ok ())),
    .beat (.answer 1_000_000_000 publisher (.error .closed))]

def acknowledged : Nat → Turn
  | 0 => .beat (.look 0 (.new "outbox" false .silent))
  | 1 => .beat (.finish (.ok ()))
  | _ => .beat (.answer 0 (.new "outbox" false .silent) (.ok .done))

end Loop

end DurableBus
