import DurableBus.Proofs.Consumer.Progress

/-!
# Consumers survive every failure

* `waiting_upTo` : what waits is handed out, lost or reported before the next poll;
* `fair_exists` : a consumer can always be given what it waits for;
* `loop_lasts` : what a consumer does until its token fires, whatever fails.
-/

set_option autoImplicit false

namespace DurableBus

open Consumer (Setup)
open Retry (upTo)

namespace ClaimStream

variable {setup : Setup} {fired : Bool} {s : ClaimStream} {step : ClaimStream × Move}

theorem released_follow (batches : Poller Pending) (move : Poller.Move Pending Store.Error) :
    (follow false batches move).1.released = [] := by
  have hfollows := follows_follow false batches move
  generalize follow false batches move = step at hfollows
  cases hfollows with
  | releases seen => cases seen
  | _ => rfl

theorem Steps.givenBack (h : Steps setup false s step) : givenBack s step.1 = [] := by
  cases h with
  | @looked now =>
    cases s with
    | pulling batches => simp [look_pulling, ClaimStream.givenBack, released_follow]
    | renewing | releasing => exact givenBack_self _
  | @answered reply asked =>
    cases s with
    | pulling batches => simp [answer_pulling, ClaimStream.givenBack, released_follow]
    | renewing => rcases reply with e | _ | offset | messages | (_ | _) <;> rfl
    | releasing => rcases reply with e | a <;> rfl

end ClaimStream

namespace Loop

variable {l : Loop} {b : Beat} {forever : Nat → Beat}

/-! ## What waits -/

theorem givenBack_step (h : l.Lasting) (unfired : l.fired = false) (b : Beat) :
    l.phase.givenBack (l.step b).phase = [] := by
  have hcomes := comes_step h b
  generalize l.effects b = effects at hcomes
  generalize (l.step b).phase = p at hcomes
  cases hcomes with
  | still => exact Phase.givenBack_self _
  | starts was =>
    rw [was]
    rfl
  | pulls was | works was | settles was =>
    rw [was]
    exact ClaimStream.givenBack_self _
  | @pulled s step was pulls steps =>
    rw [unfired] at steps
    have hnone := steps.givenBack
    obtain ⟨s', move⟩ := step
    rw [was]
    rcases move with _ | _ | _ | (e | k) | _ | _
    case yield.ok =>
      show Phase.givenBack (.pulling s) (l.consumer.take s' k).1.phase = []
      rw [Consumer.phase_take]
      exact hnone
    case broke => rfl
    all_goals exact hnone
  | winds seen =>
    rw [unfired] at seen
    cases seen

/-- Before the token fires a claim ends with its message in hand, with the answer that it is lost, or with a failure. -/
theorem endings_going (h : l.Lasting) (unfired : l.fired = false) {k : Claimed} {ending : Ending}
    (ends : (k, ending) ∈ l.endings b) : ending = .handed ∨ ending = .lost ∨ ending = .failed := by
  have hshows := shows_endings h.sound ends
  cases ending with
  | handed => exact .inl rfl
  | lost => exact .inr (.inl rfl)
  | failed => exact .inr (.inr rfl)
  | released =>
    unfold endings Phase.endings at ends
    rw [givenBack_step h unfired, List.map_nil, List.append_nil, List.mem_append] at ends
    obtain htaken | hrenewed := ends
    · obtain ⟨_, -, ⟨⟩⟩ := List.mem_map.1 htaken
    · unfold Phase.renewed at hrenewed
      split at hrenewed
      · rename_i reply
        split at hrenewed <;> rcases reply with e | _ | offset | messages | (_ | _) <;>
          simp [Phase.renewal] at hrenewed
      · cases hrenewed
  | dropped =>
    obtain ⟨-, ⟨batches, hphase⟩, -⟩ := hshows
    have hgoing := h.going unfired
    simp [hphase, Phase.isGoing] at hgoing

theorem received_eq_nil (idle : l.phase.isPolling = false) (b : Beat) : l.phase.received b = [] := by
  cases b with
  | answer now publisher reply =>
    cases hphase : l.phase with
    | pulling s | draining s =>
      have hidle : s.isClaiming = false := by simpa [hphase, Phase.isPolling, Phase.stream?] using idle
      simp [Phase.received, Phase.isClaiming, hidle]
    | _ => simp [Phase.received, Phase.isClaiming]
  | _ => rfl

theorem foldl_upTo (l : Loop) (forever : Nat → Beat) (n : Nat) :
    (upTo forever n).foldl step l = l.after forever n := by
  induction n with
  | zero => rfl
  | succ n ih => rw [Retry.foldl_upTo_succ, ih, after]

theorem chronicle_upTo_succ {γ : Type} (seen : Loop → Beat → List γ) (l : Loop) (forever : Nat → Beat) (n : Nat) :
    chronicle step seen l (upTo forever (n + 1)) =
      chronicle step seen l (upTo forever n) ++ seen (l.after forever n) (forever n) := by
  rw [← foldl_upTo, ← chronicle_concat]
  simp [upTo, List.range_succ]

/-- **What waits has ended in its turn, or still waits**, while nothing is polled. -/
theorem waiting_upTo (h : l.Lasting) (period : l.consumer.setup.settings.pollInterval ≠ .zero) (n : Nat)
    (idle : ∀ i < n, (l.after forever i).phase.isPolling = false) :
    l.phase.waiting =
      (chronicle step endings l (upTo forever n)).map Prod.fst ++ (l.after forever n).phase.waiting := by
  induction n with
  | zero => rfl
  | succ n ih =>
    have hbalanced : _ ++ _ = _ := balanced_step (h.after period forever n).sound (forever n)
    rw [received_eq_nil (idle n (Nat.lt_succ_self n)), List.nil_append] at hbalanced
    rw [ih fun i hi => idle i (Nat.lt_succ_of_lt hi), hbalanced, chronicle_upTo_succ, List.map_append,
      List.append_assoc]
    rfl

theorem endings_upTo (h : l.Lasting) (period : l.consumer.setup.settings.pollInterval ≠ .zero)
    (unfired : l.fired = false) (fireless : ∀ n, forever n ≠ .fire) (n : Nat) :
    ∀ x ∈ chronicle step endings l (upTo forever n), x.2 = .handed ∨ x.2 = .lost ∨ x.2 = .failed := by
  induction n with
  | zero => exact fun x hx => by cases hx
  | succ n ih =>
    intro x hx
    rw [chronicle_upTo_succ, List.mem_append] at hx
    obtain hx | hx := hx
    · exact ih x hx
    · exact endings_going (h.after period forever n) (unfired_after unfired fireless n) hx

/-- What waits is handed out, lost or reported, and then comes the next poll. -/
theorem rest_then_poll (h : l.Lasting) (period : l.consumer.setup.settings.pollInterval ≠ .zero)
    (unfired : l.fired = false) (fireless : ∀ n, forever n ≠ .fire) (fair : l.IsFair forever)
    (idle : l.phase.isPolling = false) :
    ∃ n, (l.after forever n).Polls (forever n) ∧
      l.phase.waiting = (chronicle step endings l (upTo forever (n + 1))).map Prod.fst ∧
      ∀ x ∈ chronicle step endings l (upTo forever (n + 1)), x.2 = .handed ∨ x.2 = .lost ∨ x.2 = .failed := by
  obtain ⟨n, -, hpolls, hidle⟩ := @next_poll l forever h period unfired fireless fair 0 idle
  refine ⟨n, hpolls, ?_, endings_upTo h period unfired fireless (n + 1)⟩
  have hwaiting := waiting_upTo h period (n + 1) fun i hi => hidle i (Nat.zero_le i) (Nat.le_of_lt_succ hi)
  obtain ⟨due, hstream⟩ := Phase.isPolling_iff.1 hpolls.2
  have hnone : (l.after forever (n + 1)).phase.waiting = [] := by
    rw [Phase.waiting, show (l.after forever (n + 1)).phase.stream? = _ from hstream]
    rfl
  rwa [hnone, List.append_nil] at hwaiting

/-! ## Fair courses -/

/-- What a consumer waits for, be it a look from some time on, the end of an attempt or an answer. -/
inductive Wants (l : Loop) : Prop
  | look (t : Instant) (served : ∀ now publisher next, t ≤ now → l.IsServed (.look now publisher) next)
  | ending (served : ∀ outcome next, l.IsServed (.finish outcome) next)
  | reply (asks : l.consumer.request?.isSome)
      (served : ∀ now publisher reply next, l.IsServed (.answer now publisher reply) next)

theorem wants_of_stream {s : ClaimStream} (served : ∀ b next, l.IsServed b next ↔ s.Awaits l.fired b)
    (request : l.consumer.request? = s.request? (Consumer.stream l.consumer.setup)) : l.Wants := by
  cases s with
  | pulling batches =>
    cases batches with
    | polling due =>
      refine .reply (by rw [request]; rfl) fun now publisher reply next => (served _ next).2 ?_
      exact ⟨now, publisher, reply, rfl⟩
    | waiting due | pausing due =>
      refine .look due fun now publisher next reached => (served _ next).2 ?_
      exact ⟨now, publisher, rfl, .inr reached⟩
    | _ => exact .look 0 fun now publisher next _ => (served _ next).2 ⟨now, publisher, rfl⟩
  | renewing | releasing =>
    refine .reply (by rw [request]; rfl) fun now publisher reply next => (served _ next).2 ?_
    exact ⟨now, publisher, reply, rfl⟩

theorem wants_of_working {s : ClaimStream} {job : Job} (was : l.phase = .working s job) : l.Wants := by
  have hrequest : l.consumer.request? = l.consumer.jobRequest? job := by
    unfold phase at was
    rw [Consumer.request?, was]
  have hserved : ∀ b next, l.IsServed b next ↔ job.Awaits l.fired b := by
    intro b next
    simp only [IsServed, was]
  have hreply : (l.consumer.jobRequest? job).isSome →
      (∀ now publisher reply, job.Awaits l.fired (.answer now publisher reply)) → l.Wants := fun hasks hawaits =>
    .reply (by rw [hrequest, hasks]) fun now publisher reply next => (hserved _ next).2 (hawaits now publisher reply)
  have hlook : ∀ t, (∀ now publisher, t ≤ now → job.Awaits l.fired (.look now publisher)) → l.Wants :=
    fun t hawaits => .look t fun now publisher next reached => (hserved _ next).2 (hawaits now publisher reached)
  cases job with
  | refuse k => exact hreply rfl fun now publisher reply => ⟨now, publisher, reply, rfl⟩
  | dispatch k context work =>
    cases work with
    | trying attempts =>
      cases attempts with
      | running n delay => exact .ending fun outcome next => (hserved _ next).2 ⟨outcome, rfl⟩
      | resting n delay e wakeAt => exact hlook wakeAt fun now publisher reached => ⟨now, publisher, rfl, .inr reached⟩
      | _ => exact hlook 0 fun now publisher _ => ⟨now, publisher, rfl⟩
    | _ => exact hreply rfl fun now publisher reply => ⟨now, publisher, reply, rfl⟩
  | forward k envelope work =>
    cases work with
    | trying attempts =>
      cases attempts with
      | running n delay => exact hreply rfl fun now publisher reply => ⟨now, publisher, reply, rfl⟩
      | resting n delay e wakeAt => exact hlook wakeAt fun now publisher reached => ⟨now, publisher, rfl, .inr reached⟩
      | _ => exact hlook 0 fun now publisher _ => ⟨now, publisher, rfl⟩
    | _ => exact hreply rfl fun now publisher reply => ⟨now, publisher, reply, rfl⟩

theorem wants_of_going (going : l.isSelecting = false) : l.Wants := by
  cases hphase : l.phase with
  | selecting s => simp [isSelecting, hphase] at going
  | pulling s =>
    refine wants_of_stream (fun b next => ?_) (request?_pulling hphase)
    simp only [IsServed, hphase]
  | draining s =>
    refine wants_of_stream (fun b next => ?_) (request?_draining hphase)
    simp only [IsServed, hphase]
  | working s job => exact wants_of_working hphase
  | starting =>
    refine .look 0 fun now publisher next _ => ?_
    simp only [IsServed, hphase]
    exact ⟨now, publisher, rfl⟩
  | forgetting =>
    have hphase' : l.consumer.phase = .forgetting := hphase
    refine .reply (by simp only [Consumer.request?, hphase', Option.isSome_some]) fun now publisher reply next => ?_
    simp only [IsServed, hphase]
    exact ⟨now, publisher, reply, rfl⟩
  | ended | crashed =>
    refine .look 0 fun now publisher next _ => ?_
    simp only [IsServed, hphase]

/-- A consumer can be given what it waits for. If it selects, that depends on what comes next. -/
theorem served_exists (l : Loop) :
    ∃ b, b ≠ .fire ∧ (∀ s, l.phase = .pulling s → s.Awaits l.fired b) ∧
      ∀ next, (∀ s, (l.step b).phase = .pulling s → s.Awaits (l.step b).fired next) → l.IsServed b next := by
  have publisher := Publisher.new "" false .silent
  have hserves : ∀ b, b ≠ .fire → (∀ next, l.IsServed b next) →
      ∃ b, b ≠ .fire ∧ (∀ s, l.phase = .pulling s → s.Awaits l.fired b) ∧
        ∀ next, (∀ s, (l.step b).phase = .pulling s → s.Awaits (l.step b).fired next) → l.IsServed b next := by
    intro b hb hserved
    refine ⟨b, hb, fun s hs => ?_, fun next _ => hserved next⟩
    have hawaits := hserved .fire
    simp only [IsServed, hs] at hawaits
    exact hawaits
  cases hphase : l.phase with
  | selecting s =>
    refine ⟨.look 0 publisher, by rintro ⟨⟩, by rintro _ ⟨⟩, fun next hnext => ?_⟩
    simp only [IsServed, hphase]
    refine ⟨⟨0, publisher, rfl⟩, ?_⟩
    by_contra hneither
    obtain ⟨hunfired, hawaits⟩ := not_or.1 hneither
    have hlook : (l.step (.look 0 publisher)).phase = .pulling s := by
      have hphase' : l.consumer.phase = .selecting s := hphase
      simp only [step, phase, Consumer.look, hphase', observe, hunfired, if_false, Bool.false_eq_true]
      rfl
    exact hawaits (hnext s hlook)
  | _ =>
    rw [← hphase]
    cases wants_of_going (l := l) (by simp only [isSelecting, hphase]) with
    | look t served => exact hserves (.look t publisher) (by rintro ⟨⟩) fun next => served t publisher next (Nat.le_refl t)
    | ending served => exact hserves (.finish (.ok ())) (by rintro ⟨⟩) (served _)
    | reply _ served => exact hserves (.answer 0 publisher (.ok .done)) (by rintro ⟨⟩) (served 0 publisher _)

/-- **A consumer can be given what it waits for, again and again.** -/
theorem fair_exists (l : Loop) : ∃ forever : Nat → Beat, (∀ n, forever n ≠ .fire) ∧ l.IsFair forever := by
  choose give fireless pulls serves using served_exists
  -- what is given depends on where the beats before it have led
  let states : Nat → Loop := Nat.rec l fun _ now => now.step (give now)
  have hafter : ∀ n, l.after (fun n => give (states n)) n = states n := by
    intro n
    induction n with
    | zero => rfl
    | succ n ih => rw [after, ih]
  refine ⟨fun n => give (states n), fun n => fireless _, fun n => ⟨n, Nat.le_refl n, ?_⟩⟩
  rw [hafter]
  exact serves _ _ fun s hs => pulls _ s hs

/-! ## Until the token fires -/

/-- **What a consumer does until its token fires**, whatever the store answers, handlers come to and messages hold, if
its period is not zero.

* It has not ended before.
* The hook is told of each claim and of each renewal that fails, once and in order. The consumer goes on with what
  waits, but for the claim whose renewal has failed.
* What the stream hands out is settled once and in its turn, as the work on it came out, or is still in hand.
* What the stream hands out turns out to be dispatched, once and in its turn, unless this is still to come.
* A consumer can be given what it waits for, again and again. Then the message in hand is settled, also if the token
  fires. If it does not fire, what waits is handed out, lost or reported in its turn, and then comes the next poll. -/
theorem loop_lasts (setup : Setup) (errorCapacity : Nat) (period : setup.settings.pollInterval ≠ .zero)
    (beats : List Beat) :
    (((new setup errorCapacity).run beats).consumer.isOver = true →
      ((new setup errorCapacity).run beats).fired = true) ∧
    (((new setup errorCapacity).run beats).fired = false →
      ((new setup errorCapacity).run beats).phase.isGoing = true ∧
      (chronicle step effects (new setup errorCapacity) beats).filterMap Effect.failure? =
        (chronicle step failures (new setup errorCapacity) beats).map (setup.topic, ·) ∧
      ∀ b e, e ∈ ((new setup errorCapacity).run beats).failures b →
        (∃ s, (((new setup errorCapacity).run beats).step b).phase = .selecting s) ∧
          (((new setup errorCapacity).run beats).consumer.request? = some (.claim (Consumer.stream setup).request) ∧
              ((new setup errorCapacity).run beats).phase.waiting =
                (((new setup errorCapacity).run beats).step b).phase.waiting ∨
            ∃ k, ((new setup errorCapacity).run beats).consumer.request? =
                some (.renew k.receipt setup.settings.claimLease) ∧
              ((new setup errorCapacity).run beats).phase.waiting =
                k :: (((new setup errorCapacity).run beats).step b).phase.waiting)) ∧
    (chronicle step yields (new setup errorCapacity) beats =
        (chronicle step settlements (new setup errorCapacity) beats).map (·.1.claimed) ++
          ((new setup errorCapacity).run beats).phase.inHand ∧
      ∀ job request, (job, request) ∈ chronicle step settlements (new setup errorCapacity) beats →
        Consumer.Settles setup job request ∧ job.Fits setup.role) ∧
    (∃ done, chronicle step yields (new setup errorCapacity) beats =
        done ++ ((new setup errorCapacity).run beats).phase.unseen ∧
      List.Forall₂ (Consumer.Sign setup) done
        ((chronicle step effects (new setup errorCapacity) beats).filter (Effect.isSign setup.role))) ∧
    (∃ forever, (∀ n, forever n ≠ .fire) ∧ ((new setup errorCapacity).run beats).IsFair forever) ∧
    ∀ forever, ((new setup errorCapacity).run beats).IsFair forever →
      (∃ n, (((new setup errorCapacity).run beats).after forever n).phase.job? = none) ∧
      (((new setup errorCapacity).run beats).fired = false → (∀ n, forever n ≠ .fire) →
        (∃ n, (((new setup errorCapacity).run beats).after forever n).Polls (forever n)) ∧
        (((new setup errorCapacity).run beats).phase.isPolling = false →
          ∃ n, (((new setup errorCapacity).run beats).after forever n).Polls (forever n) ∧
            ((new setup errorCapacity).run beats).phase.waiting =
              (chronicle step endings ((new setup errorCapacity).run beats) (upTo forever (n + 1))).map Prod.fst ∧
            ∀ x ∈ chronicle step endings ((new setup errorCapacity).run beats) (upTo forever (n + 1)),
              x.2 = .handed ∨ x.2 = .lost ∨ x.2 = .failed)) := by
  have hlasting := lasting_run period errorCapacity beats
  have hsetup : ((new setup errorCapacity).run beats).consumer.setup = setup := setup_run _ beats
  have hperiod : ((new setup errorCapacity).run beats).consumer.setup.settings.pollInterval ≠ .zero := by
    rwa [hsetup]
  refine ⟨fun hover => ?_, fun unfired => ⟨hlasting.going unfired, ?_, fun b e fails => ?_⟩,
    ⟨settled_run period errorCapacity beats, fun job request => settlements_run period errorCapacity beats⟩,
    signs_run period errorCapacity beats, fair_exists _, fun forever fair => ⟨?_, fun unfired fireless => ⟨?_, ?_⟩⟩⟩
  · by_contra hunfired
    have hgoing := hlasting.going (Bool.eq_false_iff.2 hunfired)
    unfold phase Phase.isGoing at hgoing
    unfold Consumer.isOver at hover
    split at hover <;> simp_all
  · exact failures_run period errorCapacity beats unfired
  · have hfailing := failing_step hlasting unfired fails
    rwa [hsetup] at hfailing
  · exact settles_eventually hlasting hperiod fair
  · obtain ⟨start, hidle⟩ := rests_eventually hlasting hperiod unfired fireless fair
    obtain ⟨n, -, hpolls, -⟩ := next_poll hlasting hperiod unfired fireless fair hidle
    exact ⟨n, hpolls⟩
  · exact rest_then_poll hlasting hperiod unfired fireless fair

/-- The store refuses a claim, then hands out two messages, and refuses the acknowledgement of the first and the renewal
of the second. -/
def refusing : List Beat :=
  let publisher := Publisher.new "outbox" false .silent
  let later : Instant := 1_000_000_000_000
  [.look 0 publisher, .look 0 publisher, .look 0 publisher, .look 0 publisher, .answer 0 publisher (.error .closed),
    .look 0 publisher, .look later publisher, .answer later publisher (.ok (.claimed [claimOn 1, claimOn 2])),
    .look later publisher, .finish (.ok ()), .answer later publisher (.error .closed), .look later publisher,
    .look later publisher, .answer later publisher (.error .closed)]

theorem loop_lasts_refusing :
    pairwise.settings.pollInterval ≠ .zero ∧ ((new pairwise 1).run refusing).phase.isGoing = true ∧
      (chronicle step effects (new pairwise 1) refusing).filterMap Effect.failure? =
        [("items", .closed), ("items", .closed)] ∧
      ∃ forever n, (((new pairwise 1).run refusing).after forever n).Polls (forever n) := by
  have hperiod : pairwise.settings.pollInterval ≠ .zero := by decide
  have hunfired : ((new pairwise 1).run refusing).fired = false := by decide +kernel
  obtain ⟨-, hlasts, -, -, ⟨forever, hfireless, hfair⟩, hfairly⟩ := loop_lasts pairwise 1 hperiod refusing
  obtain ⟨hgoing, hfailures, -⟩ := hlasts hunfired
  obtain ⟨⟨n, hpolls⟩, -⟩ := (hfairly forever hfair).2 hunfired hfireless
  exact ⟨hperiod, hgoing, hfailures.trans (by decide +kernel), forever, n, hpolls⟩

end Loop

end DurableBus
