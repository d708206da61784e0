import DurableBus.Proofs.Consumer.Release

/-!
# How a consumer parts with its claims

Here a consumer does nothing else while a request of its is under way: it looks only when it waits for nothing.

* `goes_step` : what a beat makes of such a consumer;
* `keeps_step` : a claim at hand stays at hand until the store is asked to settle it or answers that it is lost;
* `attached_step` : an ephemeral subscriber that has begun to poll does not end before it has forgotten its group;
* `calm_step` : a consumer that has not claimed anything when its token fires never does.
-/

set_option autoImplicit false

namespace DurableBus

open Consumer (Setup Passes)

/-! ## Streams -/

namespace ClaimStream

def IsIdle (s : ClaimStream) : Prop := ∃ batches, s = .pulling batches ∧ ∀ due, batches ≠ .polling due

def poller : ClaimStream → Poller Pending
  | .pulling batches | .renewing batches _ | .releasing batches _ => batches

def HasStarted (s : ClaimStream) : Prop := s.poller ≠ .idle ∧ s.poller ≠ .broken

def Move.Pauses : Move → Prop
  | .blocked | .yield _ => True
  | _ => False

/-- What a stream does in a beat: it looks when it asks for nothing, or it is answered. -/
inductive Goes (setup : Setup) (fired : Bool) (s : ClaimStream) : ClaimStream × Move → Prop
  | looked {now} (idle : s.IsIdle) : Goes setup fired s (s.look setup now fired)
  | answered {reply} (asked : (s.request? setup).isSome) : Goes setup fired s (s.answer fired reply)

variable {setup : Setup} {fired : Bool} {s : ClaimStream} {step : ClaimStream × Move}

theorem isIdle_of_request? (h : s.request? setup = none) : s.IsIdle := by
  cases s with
  | pulling batches =>
    refine ⟨batches, rfl, ?_⟩
    rintro due rfl
    cases h
  | renewing | releasing => cases h

theorem IsIdle.request? (h : s.IsIdle) (setup : Setup) : s.request? setup = none := by
  obtain ⟨batches, rfl, hpolling⟩ := h
  cases batches with
  | polling due => exact absurd rfl (hpolling due)
  | _ => rfl

/-- A stream that is left until it is pulled again asks for nothing. -/
theorem Goes.idle (h : Goes setup fired s step) (orderly : s.Orderly) (pauses : step.2.Pauses) : step.1.IsIdle := by
  cases h with
  | @looked now idle =>
    obtain ⟨batches, rfl, hpolling⟩ := idle
    rw [look_pulling] at pauses ⊢
    have hlooks := @Poller.looks_look _ Store.Error setup.period now fired batches
    generalize batches.look setup.period now fired = move at hlooks pauses ⊢
    cases hlooks with
    | @hands due item rest =>
      have hfollows := follows_follow fired (.handing due rest) (.yield (.ok item))
      generalize follow fired (.handing due rest) (.yield (.ok item)) = step at hfollows pauses ⊢
      cases hfollows with
      | passes => exact ⟨_, rfl, by rintro _ ⟨⟩⟩
      | renews | releases => exact pauses.elim
    | polling => exact absurd rfl (hpolling _)
    | waits => exact ⟨_, rfl, by rintro _ ⟨⟩⟩
    | starts | polls | finishes | breaks => exact pauses.elim
  | @answered reply asked =>
    cases s with
    | pulling batches =>
      cases batches with
      | polling due =>
        rcases reply with e | _ | offset | (_ | ⟨c, rest⟩) | still
        case error => exact ⟨_, rfl, by rintro _ ⟨⟩⟩
        case ok.claimed.cons =>
          cases fired with
          | true => exact pauses.elim
          | false => exact ⟨_, rfl, by rintro _ ⟨⟩⟩
        all_goals exact pauses.elim
      | _ => cases asked
    | renewing batches k =>
      obtain ⟨due, rest, rfl⟩ := orderly
      rcases reply with e | _ | offset | messages | (_ | _)
      case ok.held.false => exact pauses.elim
      all_goals exact ⟨_, rfl, by rintro _ ⟨⟩⟩
    | releasing batches k => rcases reply with e | a <;> exact pauses.elim

theorem Goes.started (h : Goes setup fired s step) (started : s.HasStarted) :
    step.1.HasStarted ∧ step.2 ≠ .broke := by
  have hpoller : ∀ {batches move}, batches ≠ .idle → batches ≠ .broken → move ≠ .broke →
      (follow fired batches move).1.HasStarted ∧ (follow fired batches move).2 ≠ .broke := by
    intro batches move hidle hbroken hmove
    have hfollows := follows_follow fired batches move
    refine ⟨?_, fun hbroke => hmove (hfollows.of_broke hbroke).1⟩
    generalize follow fired batches move = step at hfollows
    cases hfollows <;> exact ⟨hidle, hbroken⟩
  cases h with
  | @looked now idle =>
    obtain ⟨batches, rfl, hpolling⟩ := idle
    rw [look_pulling]
    cases batches with
    | idle => exact absurd rfl started.1
    | broken => exact absurd rfl started.2
    | polling due => exact absurd rfl (hpolling due)
    | handing due rest =>
      cases rest with
      | nil => cases fired <;> exact hpoller (by rintro ⟨⟩) (by rintro ⟨⟩) (by rintro ⟨⟩)
      | cons item rest => exact hpoller (by rintro ⟨⟩) (by rintro ⟨⟩) (by rintro ⟨⟩)
    | waiting due | pausing due =>
      unfold Poller.look Poller.await
      simp only
      split
      · exact hpoller (by rintro ⟨⟩) (by rintro ⟨⟩) (by rintro ⟨⟩)
      · split <;> exact hpoller (by rintro ⟨⟩) (by rintro ⟨⟩) (by rintro ⟨⟩)
    | «over» => exact hpoller (by rintro ⟨⟩) (by rintro ⟨⟩) (by rintro ⟨⟩)
  | @answered reply asked =>
    refine ⟨?_, (answer_ne _ reply s).2⟩
    cases s with
    | pulling batches =>
      cases batches with
      | polling due =>
        rw [answer_pulling]
        rcases reply with e | _ | offset | (_ | ⟨c, rest⟩) | still <;>
          exact (hpoller (by rintro ⟨⟩) (by rintro ⟨⟩) (by rintro ⟨⟩)).1
      | _ => cases asked
    | renewing batches k => rcases reply with e | _ | offset | messages | (_ | _) <;> exact started
    | releasing batches k => rcases reply with e | a <;> exact started

theorem Goes.finished (h : Goes setup fired s step) (ended : step.2 = .finished) : step.1 = .pulling .over := by
  cases h with
  | looked => exact finished_look _ _ _ ended
  | answered => exact absurd ended (answer_ne _ _ s).1

theorem isClaiming_eq_false (h : ∀ due, s ≠ .pulling (.polling due)) : s.isClaiming = false := by
  cases s with
  | pulling batches =>
    cases batches with
    | polling due => exact absurd rfl (h due)
    | _ => rfl
  | renewing | releasing => rfl

theorem Goes.flows (h : Goes setup fired s step) : Loop.Flows setup fired s step.1 := by
  cases h with
  | looked => exact .looked
  | answered asked => exact .answered asked

end ClaimStream

/-! ## Beats -/

namespace Loop

/-- Where a consumer may stand after a beat. -/
inductive Goes (c : Consumer) (fired : Bool) : Phase → Prop
  | still : Goes c fired c.phase
  | starts (was : c.phase = .starting) : Goes c fired (.selecting .start)
  | sees {s} (was : c.phase = .selecting s) (seen : fired = true) : Goes c fired (.draining s)
  | pulls {s} (was : c.phase = .selecting s) (going : fired = false) : Goes c fired (.pulling s)
  | works {s job job'} (was : c.phase = .working s job) : Goes c fired (.working s job')
  | settles {s job} (was : c.phase = .working s job) : Goes c fired (.selecting s)
  | pulled {s step} (was : c.phase = .pulling s) (goes : ClaimStream.Goes (Consumer.stream c.setup) fired s step) :
      Goes c fired (c.pulled step.1 step.2).1.phase
  | drained {s step} (was : c.phase = .draining s) (goes : ClaimStream.Goes (Consumer.stream c.setup) fired s step) :
      Goes c fired (c.drained step.1 step.2).1.phase
  | ends (was : c.phase = .forgetting) : Goes c fired .ended

/-- Whether a consumer that looks waits for no answer. -/
def Waits (l : Loop) : Beat → Prop
  | .look _ _ => l.consumer.request? = none
  | _ => True

variable {l : Loop} {b : Beat}

theorem goes_working {s : ClaimStream} {job : Job} {p' : Phase} {occasion : Option (Store.Request × Store.Reply)}
    (was : l.consumer.phase = .working s job) (h : Passes l.consumer.setup (.working s job) occasion p') :
    Goes l.consumer l.fired p' := by
  cases h with
  | free was' | taken was' => cases was'
  | continued => exact .works was
  | settled => exact .settles was

theorem goes_look (h : l.phase.Sound l.consumer.setup.role) (idle : l.consumer.request? = none) (now : Instant)
    (publisher : Publisher) : Goes l.consumer l.fired (l.consumer.look (l.observe now publisher)).1.phase := by
  have hpasses := Consumer.passes_look l.consumer (l.observe now publisher) h
  unfold Consumer.request? at idle
  cases hphase : l.consumer.phase with
  | starting =>
    unfold Consumer.look
    rw [hphase]
    exact .starts hphase
  | selecting s =>
    unfold Consumer.look
    rw [hphase]
    simp only
    split
    case isTrue seen => exact .sees hphase seen
    case isFalse going => exact .pulls hphase (Bool.eq_false_iff.2 going)
  | pulling s =>
    rw [hphase] at idle
    unfold Consumer.look
    rw [hphase]
    exact .pulled hphase (.looked (ClaimStream.isIdle_of_request? idle))
  | draining s =>
    rw [hphase] at idle
    unfold Consumer.look
    rw [hphase]
    exact .drained hphase (.looked (ClaimStream.isIdle_of_request? idle))
  | working s job =>
    rw [hphase] at hpasses
    exact goes_working hphase hpasses
  | forgetting | ended | crashed =>
    unfold Consumer.look
    rw [hphase]
    exact .still

theorem goes_finish (h : l.phase.Sound l.consumer.setup.role) (outcome : Except Failure Unit) :
    Goes l.consumer l.fired (l.consumer.finish outcome).1.phase := by
  have hpasses := Consumer.passes_finish l.consumer outcome h
  unfold Consumer.finish at hpasses ⊢
  split at hpasses
  case h_1 s k context attempts hphase =>
    rw [hphase] at hpasses
    exact goes_working hphase hpasses
  case h_2 => exact .still

theorem goes_answer (h : l.phase.Sound l.consumer.setup.role) (asked : l.consumer.request?.isSome) (now : Instant)
    (publisher : Publisher) (reply : Store.Reply) :
    Goes l.consumer l.fired (l.consumer.answer (l.observe now publisher) reply).1.phase := by
  obtain ⟨request, hrequest⟩ := Option.isSome_iff_exists.1 asked
  have hpasses := Consumer.passes_answer l.consumer (l.observe now publisher) reply h hrequest
  unfold Consumer.request? at asked
  cases hphase : l.consumer.phase with
  | working s job =>
    rw [hphase] at hpasses
    exact goes_working hphase hpasses
  | pulling s =>
    rw [hphase] at asked
    unfold Consumer.answer
    rw [hphase]
    exact .pulled hphase (.answered asked)
  | draining s =>
    rw [hphase] at asked
    unfold Consumer.answer
    rw [hphase]
    exact .drained hphase (.answered asked)
  | selecting s =>
    unfold Consumer.answer
    rw [hphase]
    exact .still
  | forgetting =>
    unfold Consumer.answer
    rw [hphase]
    exact .ends hphase
  | starting | ended | crashed =>
    rw [hphase] at asked
    cases asked

/-- **What a beat makes of a consumer.** -/
theorem goes_step (h : l.phase.Sound l.consumer.setup.role) (waits : l.Waits b) :
    Goes l.consumer l.fired (l.step b).phase := by
  cases b with
  | fire => exact .still
  | look now publisher => exact goes_look h waits now publisher
  | finish outcome => exact goes_finish h outcome
  | answer now publisher reply =>
    unfold step
    simp only
    split
    case isTrue asked => exact goes_answer h asked now publisher reply
    case isFalse => exact .still

end Loop

/-! ## Phases -/

namespace Phase

/-- Where a consumer may stand whose requests are answered before it does anything else: it asks for nothing while it
selects or has a message in hand, and does not begin to drain with a claim or a renewal under way. -/
def IsOrdered : Phase → Prop
  | .selecting s | .working s _ => s.IsIdle
  | .draining s => s.isClaiming = false ∧ ∀ batches k, s ≠ .renewing batches k
  | _ => True

/-- Whether a consumer has begun to poll and has not ended. -/
def IsAttached : Phase → Prop
  | .selecting s | .pulling s | .working s _ | .draining s => s.HasStarted
  | .forgetting => True
  | _ => False

/-- Whether a consumer has not claimed anything, or is done with it. -/
def IsCalm : Phase → Prop
  | .starting | .forgetting | .ended | .crashed => True
  | .selecting s => s = .start
  | .draining s => s = .start ∨ ∃ due, s = .pulling (.waiting due)
  | _ => False

theorem IsCalm.held {p : Phase} (h : p.IsCalm) : p.held = [] := by
  cases p with
  | pulling | working => exact h.elim
  | selecting s =>
    obtain rfl : s = .start := h
    rfl
  | draining s => rcases h with rfl | ⟨due, rfl⟩ <;> rfl
  | _ => rfl

end Phase

namespace Consumer

variable {c : Consumer}

theorem isCalm_of_isOver (h : c.isOver = true) : c.phase.IsCalm := by
  unfold isOver at h
  split at h
  case h_1 hphase | h_2 hphase =>
    rw [hphase]
    trivial
  case h_3 => cases h

theorem not_isAttached_of_isOver (h : c.isOver = true) : ¬ c.phase.IsAttached := by
  unfold isOver at h
  split at h
  case h_1 hphase | h_2 hphase =>
    rw [hphase]
    exact fun hattached => hattached.elim
  case h_3 => cases h

/-- A calm consumer asks for nothing but to forget its group. -/
theorem request?_of_isCalm (h : c.phase.IsCalm) {request : Store.Request} (asks : c.request? = some request) :
    request = .forgetGroup c.setup.topic c.setup.group := by
  unfold request? at asks
  cases hphase : c.phase with
  | pulling | working =>
    rw [hphase] at h
    exact h.elim
  | selecting s =>
    rw [hphase] at h asks
    obtain rfl : s = .start := h
    cases asks
  | draining s =>
    rw [hphase] at h asks
    rcases h with rfl | ⟨due, rfl⟩ <;> cases asks
  | forgetting =>
    rw [hphase] at asks
    exact (Option.some.inj asks).symm
  | starting | ended | crashed =>
    rw [hphase] at asks
    cases asks

theorem claiming_of_request? (ordered : c.phase.IsOrdered) {q : ClaimRequest} (asks : c.request? = some (.claim q)) :
    c.phase.isClaiming = true ∧ c.phase.IsAttached := by
  have hstream : ∀ {s : ClaimStream}, s.request? (stream c.setup) = some (.claim q) →
      s.isClaiming = true ∧ s.HasStarted := by
    intro s hs
    cases s with
    | pulling batches =>
      cases batches with
      | polling due => exact ⟨rfl, by rintro ⟨⟩, by rintro ⟨⟩⟩
      | _ => cases hs
    | renewing | releasing => cases hs
  unfold request? at asks
  cases hphase : c.phase with
  | selecting s =>
    rw [hphase] at asks ordered
    have hnone := ordered.request? (stream c.setup)
    exact absurd asks (by simp only [hnone]; rintro ⟨⟩)
  | pulling s | draining s =>
    rw [hphase] at asks
    exact hstream asks
  | working s job =>
    rw [hphase] at asks
    have hasks : Asks c.setup (.working s job) (.claim q) := asks_of_job rfl asks
    cases hasks with
    | claim free => cases free
    | settle busy settles =>
      unfold Settles at settles
      split at settles <;> cases settles
  | forgetting | starting | ended | crashed =>
    rw [hphase] at asks
    cases asks

end Consumer

namespace Loop

variable {l : Loop} {b : Beat}

theorem sound_of_starting (h : l.phase = .starting) : l.Sound where
  phase := h ▸ Phase.sound_starting _
  orderly s hs := by
    rw [h] at hs
    cases hs
  drained hs := by
    rw [h] at hs
    cases hs
  draining s hs := by
    rw [h] at hs
    cases hs

/-- Soundness is about where a consumer stands, and its token may fire. -/
theorem Sound.congr (h : l.Sound) {l' : Loop} (setup : l'.consumer.setup = l.consumer.setup)
    (phase : l'.phase = l.phase) (fired : l.fired = true → l'.fired = true) : l'.Sound where
  phase := by
    rw [setup, phase]
    exact h.phase
  orderly := by
    rw [phase]
    exact h.orderly
  drained hs := fired (h.drained (phase ▸ hs))
  draining s hs := fired (h.draining s (phase ▸ hs))

theorem setup_step (l : Loop) (b : Beat) : (l.step b).consumer.setup = l.consumer.setup := by
  cases b with
  | fire => rfl
  | look => exact Consumer.setup_look _ _
  | finish => exact Consumer.setup_finish _ _
  | answer =>
    unfold step
    simp only
    split
    · exact Consumer.setup_answer _ _ _
    · rfl

theorem ordered_step (h : l.Sound) (ordered : l.phase.IsOrdered) (waits : l.Waits b) :
    (l.step b).phase.IsOrdered := by
  have hgoes := goes_step h.phase waits
  have hphase : ∀ {p}, l.consumer.phase = p → l.phase.stream? = p.stream? := fun was => congrArg Phase.stream? was
  have hordered : ∀ {p}, l.consumer.phase = p → p.IsOrdered := fun was => was ▸ ordered
  generalize (l.step b).phase = p' at hgoes ⊢
  cases hgoes with
  | still => exact ordered
  | starts => exact ⟨_, rfl, by rintro _ ⟨⟩⟩
  | sees was seen =>
    obtain ⟨batches, rfl, hpolling⟩ := hordered was
    refine ⟨ClaimStream.isClaiming_eq_false fun due hsame => ?_, by rintro _ _ ⟨⟩⟩
    exact hpolling due (ClaimStream.pulling.inj hsame)
  | pulls => trivial
  | works was | settles was =>
    have hidle := hordered was
    exact hidle
  | @pulled s step was goes =>
    have hidle := goes.idle (h.orderly s (hphase was))
    obtain ⟨s', move⟩ := step
    rcases move with _ | _ | _ | (e | k) | _ | _
    case blocked | yield.error => exact hidle trivial
    case started | proceed | broke => trivial
    case yield.ok =>
      show (l.consumer.take s' k).1.phase.IsOrdered
      rw [Consumer.phase_take]
      exact hidle trivial
    case finished =>
      obtain rfl : s' = .pulling .over := goes.finished rfl
      exact ⟨rfl, by rintro _ _ ⟨⟩⟩
  | @drained s step was goes =>
    obtain ⟨hclaiming, hrenewing⟩ := hordered was
    have horderly := h.orderly s (hphase was)
    have hflows := goes.flows
    rw [h.draining s was] at hflows
    rcases stream_drained l.consumer step.1 step.2 with hgone | ⟨hdraining, -, -⟩
    · generalize (l.consumer.drained step.1 step.2).1.phase = p' at hgone ⊢
      cases p' with
      | selecting | pulling | working | draining => cases hgone
      | _ => trivial
    · rw [hdraining]
      refine ⟨ClaimStream.isClaiming_eq_false fun due hsame => ?_, fun batches k hsame => ?_⟩
      · rw [hflows.claiming horderly hsame] at hclaiming
        cases hclaiming
      · exact hrenewing batches k (hflows.renewing hsame)
  | ends => trivial

/-- What parts a consumer from a claim: it is settled, or the store does not confirm that it is still held. -/
def Parts (l : Loop) (r : Receipt) : Beat → Prop
  | .answer _ _ reply => ∃ request, l.consumer.request? = some request ∧ request.receipt? = some r ∧
      (request.operation = .renew → ∀ a, reply = .ok a → a = .held false)
  | _ => False

theorem keeps_working {s : ClaimStream} {job : Job} {p' : Phase} {occasion : Option (Store.Request × Store.Reply)}
    {setup : Setup} (h : Passes setup (.working s job) occasion p') :
    (∃ k' ∈ p'.held, k'.receipt = job.claimed.receipt) ∨
      ∃ request reply, occasion = some (request, reply) ∧ request.receipt? = some job.claimed.receipt ∧
        request.operation ≠ .renew := by
  cases h with
  | free was | taken was => cases was
  | continued =>
    refine Or.inl ⟨_, List.mem_cons_self, ?_⟩
    rw [Job.claimed_withWork]
  | settled settles =>
    refine Or.inr ⟨_, _, rfl, ?_⟩
    unfold Consumer.Settles at settles
    split at settles
    all_goals
      rw [settles]
      exact ⟨rfl, by rintro ⟨⟩⟩

/-- The message in hand stays in hand until its claim is settled. -/
theorem keeps_job (h : l.Sound) (b : Beat) {job : Job} (busy : l.phase.job? = some job) :
    (∃ k' ∈ (l.step b).phase.held, k'.receipt = job.claimed.receipt) ∨ l.Parts job.claimed.receipt b := by
  obtain ⟨s, hphase⟩ := Phase.working_of_job? busy
  have hstill : ∃ k' ∈ l.phase.held, k'.receipt = job.claimed.receipt := ⟨_, Phase.claimed_mem_held busy, rfl⟩
  have hphase' : l.consumer.phase = .working s job := hphase
  cases b with
  | fire => exact Or.inl hstill
  | look now publisher =>
    have hpasses := Consumer.passes_look l.consumer (l.observe now publisher) h.phase
    rw [hphase'] at hpasses
    rcases keeps_working hpasses with hkept | ⟨_, _, hnone, -⟩
    · exact Or.inl hkept
    · cases hnone
  | finish outcome =>
    have hpasses := Consumer.passes_finish l.consumer outcome h.phase
    rw [hphase'] at hpasses
    rcases keeps_working hpasses with hkept | ⟨_, _, hnone, -⟩
    · exact Or.inl hkept
    · cases hnone
  | answer now publisher reply =>
    unfold step
    simp only
    split
    case isFalse => exact Or.inl hstill
    case isTrue asked =>
      obtain ⟨request, hrequest⟩ := Option.isSome_iff_exists.1 asked
      have hpasses := Consumer.passes_answer l.consumer (l.observe now publisher) reply h.phase hrequest
      rw [hphase'] at hpasses
      rcases keeps_working hpasses with hkept | ⟨_, _, hsome, hreceipt, hrenew⟩
      · exact Or.inl hkept
      · cases hsome
        exact Or.inr ⟨request, hrequest, hreceipt, fun h => absurd h hrenew⟩

/-- A claim that is being given back stays at hand until the store is asked. -/
theorem keeps_released (ordered : l.phase.IsOrdered) (waits : l.Waits b) {s : ClaimStream}
    (hs : l.phase.stream? = some s) {k : Claimed} (hk : k ∈ s.released) :
    (∃ k' ∈ (l.step b).phase.held, k'.receipt = k.receipt) ∨ l.Parts k.receipt b := by
  cases s with
  | pulling | renewing => cases hk
  | releasing batches k' =>
    obtain rfl := List.mem_singleton.1 hk
    have hphase : l.consumer.phase = .pulling (.releasing batches k) ∨
        l.consumer.phase = .draining (.releasing batches k) := by
      unfold phase at hs ordered
      cases hp : l.consumer.phase with
      | selecting | working =>
        rw [hp] at hs ordered
        obtain rfl := Option.some.inj hs
        obtain ⟨_, hpulling, -⟩ := ordered
        cases hpulling
      | pulling | draining =>
        rw [hp] at hs
        simp [Option.some.inj hs]
      | _ =>
        rw [hp] at hs
        cases hs
    have hrequest : l.consumer.request? = some (.nack k.receipt .zero) := by
      unfold Consumer.request?
      rcases hphase with hphase | hphase <;> rw [hphase] <;> rfl
    have hheld : ∃ k' ∈ l.phase.held, k'.receipt = k.receipt := by
      unfold phase
      rcases hphase with hphase | hphase <;> rw [hphase] <;> exact ⟨k, List.mem_cons_self, rfl⟩
    cases b with
    | fire => exact Or.inl hheld
    | look now publisher =>
      have hnone : l.consumer.request? = none := waits
      rw [hrequest] at hnone
      cases hnone
    | finish outcome =>
      left
      unfold step phase Consumer.finish
      rcases hphase with hphase | hphase <;> rw [hphase] <;> simp only <;> rw [hphase] <;>
        exact ⟨k, List.mem_cons_self, rfl⟩
    | answer now publisher reply => exact Or.inr ⟨_, hrequest, rfl, by rintro ⟨⟩⟩

theorem mem_held_of_waiting {p : Phase} {k : Claimed} (hk : k ∈ p.waiting) : k ∈ p.held := by
  have hstream : ∀ {s : ClaimStream}, k ∈ s.waiting → k ∈ s.held := fun {s} hs => by
    rw [← s.released_append_waiting]
    exact List.mem_append_right _ hs
  cases p with
  | working s job => exact List.mem_cons_of_mem _ (hstream hk)
  | selecting | pulling | draining => exact hstream hk
  | _ => cases hk

theorem mem_held {p : Phase} {k : Claimed} (hk : k ∈ p.held) :
    (∃ job, p.job? = some job ∧ job.claimed = k) ∨ (∃ s, p.stream? = some s ∧ k ∈ s.released) ∨ k ∈ p.waiting := by
  have hstream : ∀ {s : ClaimStream}, k ∈ s.held → k ∈ s.released ∨ k ∈ s.waiting := fun {s} hs => by
    rw [← s.released_append_waiting] at hs
    exact List.mem_append.1 hs
  cases p with
  | working s job =>
    rcases List.mem_cons.1 hk with rfl | hk
    · exact Or.inl ⟨job, rfl, rfl⟩
    · exact Or.inr ((hstream hk).imp_left fun hk => ⟨s, rfl, hk⟩)
  | selecting s | pulling s | draining s => exact Or.inr ((hstream hk).imp_left fun hk => ⟨s, rfl, hk⟩)
  | _ => cases hk

/-- **A claim at hand stays at hand** until the consumer is parted from it. -/
theorem keeps_step (h : l.Sound) (ordered : l.phase.IsOrdered) (waits : l.Waits b) {k : Claimed}
    (hk : k ∈ l.phase.held ∨ k ∈ l.phase.received b) :
    (∃ k' ∈ (l.step b).phase.held, k'.receipt = k.receipt) ∨ l.Parts k.receipt b := by
  have hwaiting : k ∈ l.phase.received b ++ l.phase.waiting →
      (∃ k' ∈ (l.step b).phase.held, k'.receipt = k.receipt) ∨ l.Parts k.receipt b := by
    intro hk
    rw [balanced_step h b] at hk
    rcases List.mem_append.1 hk with hended | hk
    · obtain ⟨⟨_, ending⟩, hmem, rfl⟩ := List.mem_map.1 hended
      have hshows := shows_endings h hmem
      cases ending with
      | handed =>
        obtain ⟨s, job, hphase, rfl⟩ := hshows
        refine Or.inl ⟨job.claimed, ?_, rfl⟩
        rw [hphase]
        exact List.mem_cons_self
      | lost =>
        obtain ⟨hrequest, now, publisher, rfl⟩ := hshows
        exact Or.inr ⟨_, hrequest, rfl, fun _ a ha => (Except.ok.inj ha).symm⟩
      | failed =>
        obtain ⟨hrequest, now, publisher, e, rfl⟩ := hshows
        exact Or.inr ⟨_, hrequest, rfl, fun _ a ha => by cases ha⟩
      | released => exact Or.inl ((Consumer.asks_of_request hshows).held rfl)
      | dropped =>
        obtain ⟨-, ⟨batches, hphase⟩, -⟩ := hshows
        rw [hphase] at ordered
        exact absurd rfl (ordered.2 batches _)
    · exact Or.inl ⟨k, mem_held_of_waiting hk, rfl⟩
  rcases hk with hk | hk
  · rcases mem_held hk with ⟨job, busy, rfl⟩ | ⟨s, hs, hk⟩ | hk
    · exact keeps_job h b busy
    · exact keeps_released ordered waits hs hk
    · exact hwaiting (List.mem_append_right _ hk)
  · exact hwaiting (List.mem_append_left _ hk)

/-- **An ephemeral subscriber that has begun to poll** does not end before it has forgotten its group. -/
theorem attached_step (h : l.Sound) (attached : l.phase.IsAttached) (waits : l.Waits b)
    (ephemeral : l.consumer.setup.role = .subscriber true) :
    (l.step b).phase.IsAttached ∨ l.phase = .forgetting ∧ (l.step b).phase = .ended := by
  have hgoes := goes_step h.phase waits
  have hattached : ∀ {p}, l.consumer.phase = p → p.IsAttached := fun was => was ▸ attached
  generalize (l.step b).phase = p' at hgoes ⊢
  cases hgoes with
  | still => exact Or.inl attached
  | starts was => exact (hattached was).elim
  | ends was => exact Or.inr ⟨was, rfl⟩
  | sees was | pulls was | works was | settles was =>
    have hstarted := hattached was
    exact Or.inl hstarted
  | @pulled s step was goes =>
    obtain ⟨hstarted, hbroke⟩ := goes.started (hattached was)
    obtain ⟨s', move⟩ := step
    left
    rcases move with _ | _ | _ | (e | k) | _ | _
    case yield.ok =>
      show (l.consumer.take s' k).1.phase.IsAttached
      rw [Consumer.phase_take]
      exact hstarted
    case broke => exact absurd rfl hbroke
    all_goals exact hstarted
  | @drained s step was goes =>
    obtain ⟨hstarted, hbroke⟩ := goes.started (hattached was)
    obtain ⟨s', move⟩ := step
    left
    cases move with
    | finished =>
      show l.consumer.leave.1.phase.IsAttached
      unfold Consumer.leave
      rw [if_pos ephemeral]
      trivial
    | broke => exact absurd rfl hbroke
    | _ => exact hstarted

/-- **A consumer that has not claimed anything** when its token fires never does. -/
theorem calm_step (h : l.Sound) (calm : l.phase.IsCalm) (waits : l.Waits b) (fired : l.fired = true) :
    (l.step b).phase.IsCalm := by
  have hgoes := goes_step h.phase waits
  have hcalm : ∀ {p}, l.consumer.phase = p → p.IsCalm := fun was => was ▸ calm
  generalize (l.step b).phase = p' at hgoes ⊢
  cases hgoes with
  | still => exact calm
  | starts => rfl
  | sees was => exact Or.inl (hcalm was)
  | pulls was going =>
    rw [fired] at going
    cases going
  | works was | settles was | pulled was => exact (hcalm was).elim
  | ends => trivial
  | @drained s step was goes =>
    rw [fired] at goes
    rcases hcalm was with rfl | ⟨due, rfl⟩
    · cases goes with
      | looked =>
        unfold ClaimStream.start
        rw [ClaimStream.look_pulling]
        unfold Poller.look
        simp only
        split
        · trivial
        · exact Or.inr ⟨_, rfl⟩
      | answered asked => cases asked
    · cases goes with
      | looked =>
        show l.consumer.leave.1.phase.IsCalm
        unfold Consumer.leave
        split <;> trivial
      | answered asked => cases asked

end Loop

end DurableBus
