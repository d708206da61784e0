import DurableBus.Proofs.Consumer.Holding

/-!
# The life of a consumer

A `Loop` is a consumer with its token, on its own: whatever a store answers, whatever handlers do and whenever the token
fires is a list of beats.

* `Loop.moves_step` : what a beat does to the stream of a consumer;
* `Loop.Sound.step` : only the token ends a stream or makes a consumer drain it;
* `Loop.claiming_step` : once the token has fired no claim is begun any more;
* `Loop.drain_ends` : a consumer that drains comes to an end with it.
-/

set_option autoImplicit false

namespace DurableBus

open Consumer (Setup Passes)

/-! ## Streams -/

namespace Poller

variable {α ε : Type} {cancelled : Bool} {p : Poller α} {step : Poller α × Move α ε}

/-- Once the token has fired no poll begins. -/
theorem Looks.eq_of_polling (h : Looks true p step) {due : Instant} (polling : step.1 = .polling due) :
    p = .polling due := by
  cases h with
  | polling => exact polling
  | polls going => cases going
  | _ => cases polling

theorem Looks.handing (h : Looks cancelled p step) {item : α} (yields : step.2 = .yield (.ok item)) :
    ∃ due rest, step.1 = .handing due rest := by
  cases h with
  | @hands due item' rest => exact ⟨due, rest, rfl⟩
  | _ => cases yields

theorem handing_answer {batch : Except ε (List α)} {item : α} (h : (p.answer batch).2 = .yield (.ok item)) :
    ∃ due rest, (p.answer batch).1 = .handing due rest := by
  cases p with
  | polling due =>
    rcases batch with e | _ | ⟨item', rest⟩
    case ok.cons => exact ⟨due, rest, rfl⟩
    all_goals cases h
  | _ => cases h

/-- Only the token ends a poller. -/
theorem Looks.of_over (h : Looks cancelled p step) (gone : step.1 = .over) : p = .over ∨ cancelled = true := by
  cases h with
  | finishes seen => exact seen
  | _ => cases gone

theorem Looks.of_finished (h : Looks cancelled p step) (ended : step.2 = .finished) : step.1 = .over := by
  cases h with
  | finishes => rfl
  | _ => cases ended

def left : Poller α → Nat
  | .idle => 2
  | .handing _ rest => 2 * rest.length + 2
  | _ => 1

theorem left_pos (p : Poller α) : 0 < p.left := by cases p <;> exact Nat.succ_pos _

end Poller

namespace ClaimStream

def isClaiming : ClaimStream → Bool
  | .pulling (.polling _) => true
  | _ => false

variable {s : ClaimStream} (setup : Setup) (now : Instant) (cancelled : Bool)

/-- A message that is dealt with by itself comes from a batch. -/
def Orderly : ClaimStream → Prop
  | .pulling _ => True
  | .renewing batches _ | .releasing batches _ => ∃ due rest, batches = .handing due rest

section Follows

variable {cancelled : Bool} {batches : Poller Pending} {move : Poller.Move Pending Store.Error}
  {step : ClaimStream × Move}

theorem Follows.orderly (h : Follows cancelled batches move step)
    (handing : ∀ p, move = .yield (.ok p) → ∃ due rest, batches = .handing due rest) : step.1.Orderly := by
  cases h with
  | passes => trivial
  | renews | releases => exact handing _ rfl

theorem Follows.eq_of_pulling (h : Follows cancelled batches move step) {batches' : Poller Pending}
    (pulling : step.1 = .pulling batches') : batches = batches' := by
  cases h with
  | passes => exact ClaimStream.pulling.inj pulling
  | renews | releases => cases pulling

theorem Follows.of_finished (h : Follows cancelled batches move step) (ended : step.2 = .finished) :
    move = .finished ∧ step.1 = .pulling batches := by
  cases h with
  | passes items fresh finished => exact ⟨finished ended, rfl⟩
  | renews | releases => cases ended

theorem Follows.of_broke (h : Follows cancelled batches move step) (broken : step.2 = .broke) :
    move = .broke ∧ step.1 = .pulling batches := by
  cases h with
  | passes items fresh finished broke => exact ⟨broke broken, rfl⟩
  | renews | releases => cases broken

theorem Follows.of_yield (h : Follows cancelled batches move step) {k : Claimed} (yields : step.2 = .yield (.ok k)) :
    step.1 = .pulling batches := by
  cases h with
  | passes => rfl
  | renews | releases => cases yields

/-- Once the token has fired no claim begins to be renewed. -/
theorem Follows.ne_renewing (h : Follows true batches move step) (batches' : Poller Pending) (k : Claimed) :
    step.1 ≠ .renewing batches' k := by
  cases h with
  | passes | releases => rintro ⟨⟩
  | renews going => cases going

end Follows

theorem finished_look {s : ClaimStream} (h : (s.look setup now cancelled).2 = .finished) :
    (s.look setup now cancelled).1 = .pulling .over := by
  cases s with
  | pulling batches =>
    rw [look_pulling] at h ⊢
    obtain ⟨hmove, hstream⟩ := (follows_follow _ _ _).of_finished h
    rw [hstream]
    exact congrArg pulling ((Poller.looks_look _ _ _ _).of_finished hmove)
  | renewing | releasing => cases h

theorem yield_look {s : ClaimStream} {k : Claimed} (h : (s.look setup now cancelled).2 = .yield (.ok k)) :
    ∃ batches, (s.look setup now cancelled).1 = .pulling batches := by
  cases s with
  | pulling batches => exact ⟨_, (follows_follow _ _ _).of_yield h⟩
  | renewing | releasing => cases h

theorem yield_answer {s : ClaimStream} {reply : Store.Reply} {k : Claimed}
    (h : (s.answer cancelled reply).2 = .yield (.ok k)) :
    ∃ batches, (s.answer cancelled reply).1 = .pulling batches := by
  cases s with
  | pulling batches => exact ⟨_, (follows_follow _ _ _).of_yield h⟩
  | renewing batches k' => rcases reply with e | _ | offset | messages | (_ | _) <;> exact ⟨batches, rfl⟩
  | releasing batches k' => rcases reply with e | a <;> exact ⟨batches, rfl⟩

/-- With an answer a poll ends, and no other begins. -/
theorem answer_pulling_ne {s : ClaimStream} {setup : Setup} {cancelled : Bool} {reply : Store.Reply}
    {batches : Poller Pending} (asked : (s.request? setup).isSome) (orderly : s.Orderly)
    (h : (s.answer cancelled reply).1 = .pulling batches) : (∀ due, batches ≠ .polling due) ∧ batches ≠ .over := by
  cases s with
  | pulling batches' =>
    cases batches' with
    | polling due =>
      rw [answer_pulling] at h
      rw [← (follows_follow _ _ _).eq_of_pulling h]
      rcases reply with e | _ | offset | (_ | ⟨c, rest⟩) | still <;> exact ⟨by rintro _ ⟨⟩, by rintro ⟨⟩⟩
    | _ => cases asked
  | renewing batches' k =>
    obtain ⟨due, rest, rfl⟩ := orderly
    rcases reply with e | _ | offset | messages | (_ | _) <;> cases h <;> exact ⟨by rintro _ ⟨⟩, by rintro ⟨⟩⟩
  | releasing batches' k =>
    obtain ⟨due, rest, rfl⟩ := orderly
    rcases reply with e | a <;> cases h <;> exact ⟨by rintro _ ⟨⟩, by rintro ⟨⟩⟩

theorem answer_ne (reply : Store.Reply) (s : ClaimStream) :
    (s.answer cancelled reply).2 ≠ .finished ∧ (s.answer cancelled reply).2 ≠ .broke := by
  cases s with
  | pulling batches =>
    rw [answer_pulling]
    cases batches with
    | polling due =>
      rcases reply with e | _ | offset | (_ | ⟨c, rest⟩) | still
      case ok.claimed.cons =>
        show (receive _ _ _).2 ≠ _ ∧ (receive _ _ _).2 ≠ _
        unfold receive
        cases cancelled <;> simp
      all_goals exact ⟨by rintro ⟨⟩, by rintro ⟨⟩⟩
    | _ => exact ⟨by rintro ⟨⟩, by rintro ⟨⟩⟩
  | renewing | releasing =>
    rcases reply with e | _ | offset | messages | (_ | _) <;> exact ⟨by rintro ⟨⟩, by rintro ⟨⟩⟩

def left : ClaimStream → Nat
  | .pulling batches => batches.left
  | .renewing batches _ | .releasing batches _ => batches.left + 1

theorem left_pos (s : ClaimStream) : 0 < s.left := by
  cases s with
  | pulling batches => exact batches.left_pos
  | renewing | releasing => exact Nat.succ_pos _

theorem left_look {s : ClaimStream} {setup : Setup} {now : Instant} (idle : ¬ (s.request? setup).isSome)
    (finished : (s.look setup now true).2 ≠ .finished) (broke : (s.look setup now true).2 ≠ .broke) :
    (s.look setup now true).1.isClaiming = false ∧ (s.look setup now true).1.left < s.left := by
  cases s with
  | pulling batches =>
    cases batches with
    | idle =>
      rw [look_pulling] at finished broke ⊢
      unfold Poller.look at finished broke ⊢
      simp only at finished broke ⊢
      split at broke
      case isTrue => exact absurd rfl broke
      case isFalse hperiod =>
        rw [if_neg hperiod]
        exact ⟨rfl, Nat.lt_succ_self 1⟩
    | handing due rest =>
      cases rest with
      | nil => exact absurd rfl finished
      | cons item rest =>
        refine ⟨rfl, ?_⟩
        show 2 * rest.length + 2 + 1 < 2 * (item :: rest).length + 2
        rw [List.length_cons]
        omega
    | polling due => exact absurd rfl idle
    | broken => exact absurd rfl broke
    | waiting | pausing | «over» => exact absurd rfl finished
  | renewing | releasing => exact absurd rfl idle

/-- An answer leaves less to be done, unless it brings what has been claimed. -/
theorem left_answer {s : ClaimStream} {setup : Setup} {reply : Store.Reply} (asked : (s.request? setup).isSome)
    (orderly : s.Orderly) : (s.answer true reply).1.isClaiming = false ∧
      (s.isClaiming = true ∨ (s.answer true reply).1.left < s.left) := by
  cases s with
  | pulling batches =>
    cases batches with
    | polling due =>
      refine ⟨?_, Or.inl rfl⟩
      rcases reply with e | _ | offset | (_ | ⟨c, rest⟩) | still <;> rfl
    | _ => cases asked
  | renewing batches k =>
    obtain ⟨due, rest, rfl⟩ := orderly
    rcases reply with e | _ | offset | messages | (_ | _) <;> exact ⟨rfl, Or.inr (Nat.lt_succ_self _)⟩
  | releasing batches k =>
    obtain ⟨due, rest, rfl⟩ := orderly
    rcases reply with e | a <;> exact ⟨rfl, Or.inr (Nat.lt_succ_self _)⟩

end ClaimStream

/-! ## Beats -/

/-- A consumer and its token. -/
structure Loop where
  consumer : Consumer
  /-- Whether the token has fired. -/
  fired : Bool

/-- What may happen to a consumer. -/
inductive Beat
  | fire
  | look (now : Instant) (publisher : Publisher)
  | answer (now : Instant) (publisher : Publisher) (reply : Store.Reply)
  | finish (outcome : Except Failure Unit)

namespace Loop

def phase (l : Loop) : Phase := l.consumer.phase

def observe (l : Loop) (now : Instant) (publisher : Publisher) : Observation := ⟨now, l.fired, publisher⟩

/-- Something happens. An answer that nobody waits for changes nothing. -/
def step (l : Loop) : Beat → Loop
  | .fire => { l with fired := true }
  | .look now publisher => { l with consumer := (l.consumer.look (l.observe now publisher)).1 }
  | .answer now publisher reply =>
    if l.consumer.request?.isSome then { l with consumer := (l.consumer.answer (l.observe now publisher) reply).1 }
    else l
  | .finish outcome => { l with consumer := (l.consumer.finish outcome).1 }

def new (setup : Setup) (errorCapacity : Nat) : Loop := ⟨.new setup errorCapacity, false⟩

/-- How a stream changes with a beat. -/
inductive Flows (setup : ClaimStream.Setup) (fired : Bool) : ClaimStream → ClaimStream → Prop
  | still {s} : Flows setup fired s s
  | looked {s now} : Flows setup fired s (s.look setup now fired).1
  | answered {s reply} (asked : (s.request? setup).isSome) : Flows setup fired s (s.answer fired reply).1

/-- How the phase of a consumer changes with a beat, as far as its stream goes. -/
inductive Moves (setup : ClaimStream.Setup) (fired : Bool) : Phase → Phase → Prop
  | still {p} : Moves setup fired p p
  | starts : Moves setup fired .starting (.selecting .start)
  | sees {s} (seen : fired = true) : Moves setup fired (.selecting s) (.draining s)
  | pulls {s} : Moves setup fired (.selecting s) (.pulling s)
  | works {s job job'} : Moves setup fired (.working s job) (.working s job')
  | settles {s job} : Moves setup fired (.working s job) (.selecting s)
  | selects {s s'} (flows : Flows setup fired s s') : Moves setup fired (.pulling s) (.selecting s')
  | goesOn {s s'} (flows : Flows setup fired s s') : Moves setup fired (.pulling s) (.pulling s')
  | takes {s batches job} (flows : Flows setup fired s (.pulling batches)) :
      Moves setup fired (.pulling s) (.working (.pulling batches) job)
  | ends {s} (flows : Flows setup fired s (.pulling .over)) :
      Moves setup fired (.pulling s) (.draining (.pulling .over))
  | drains {s s'} (flows : Flows setup fired s s') : Moves setup fired (.draining s) (.draining s')
  /-- There is no stream any more. -/
  | leaves {p p'} (gone : p'.stream? = none) : Moves setup fired p p'

section Moves

variable {setup : ClaimStream.Setup} {fired : Bool} {c : Consumer} {s s' : ClaimStream} {move : ClaimStream.Move}

theorem moves_pulled (flows : Flows setup fired s s') (finished : move = .finished → s' = .pulling .over)
    (yields : ∀ k, move = .yield (.ok k) → ∃ batches, s' = .pulling batches) :
    Moves setup fired (.pulling s) (c.pulled s' move).1.phase := by
  rcases move with _ | _ | _ | (e | k) | _ | _
  case blocked | yield.error => exact .selects flows
  case started | proceed => exact .goesOn flows
  case yield.ok =>
    obtain ⟨batches, rfl⟩ := yields k rfl
    show Moves _ _ _ (c.take (.pulling batches) k).1.phase
    rw [Consumer.phase_take]
    exact .takes flows
  case finished =>
    obtain rfl := finished rfl
    exact .ends flows
  case broke => exact .leaves rfl

theorem moves_drained (flows : Flows setup fired s s') :
    Moves setup fired (.draining s) (c.drained s' move).1.phase := by
  cases move with
  | finished =>
    show Moves _ _ _ c.leave.1.phase
    unfold Consumer.leave
    split <;> exact .leaves rfl
  | broke => exact .leaves rfl
  | _ => exact .drains flows

theorem moves_working {setup' : Setup} {job : Job} {p' : Phase} {occasion : Option (Store.Request × Store.Reply)}
    (h : Passes setup' (.working s job) occasion p') : Moves setup fired (.working s job) p' := by
  cases h with
  | free was | taken was => cases was
  | continued => exact .works
  | settled => exact .settles

end Moves

variable {l : Loop}

theorem moves_look (h : l.phase.Sound l.consumer.setup.role) (now : Instant) (publisher : Publisher) :
    Moves (Consumer.stream l.consumer.setup) l.fired l.phase (l.step (.look now publisher)).phase := by
  have hpasses := Consumer.passes_look l.consumer (l.observe now publisher) h
  show Moves _ _ l.consumer.phase (l.consumer.look (l.observe now publisher)).1.phase
  cases hphase : l.consumer.phase with
  | working s job =>
    rw [hphase] at hpasses
    exact moves_working hpasses
  | starting =>
    unfold Consumer.look
    rw [hphase]
    exact .starts
  | selecting s =>
    unfold Consumer.look
    rw [hphase]
    simp only
    split
    case isTrue hfired => exact .sees hfired
    case isFalse => exact .pulls
  | pulling s =>
    unfold Consumer.look
    rw [hphase]
    exact moves_pulled .looked (fun hfinished => ClaimStream.finished_look _ _ _ hfinished) fun k hk =>
      ClaimStream.yield_look _ _ _ hk
  | draining s =>
    unfold Consumer.look
    rw [hphase]
    exact moves_drained .looked
  | forgetting | ended | crashed =>
    refine .leaves ?_
    unfold Consumer.look
    rw [hphase]
    exact congrArg Phase.stream? hphase

theorem moves_answer (h : l.phase.Sound l.consumer.setup.role) (asked : l.consumer.request?.isSome) (now : Instant)
    (publisher : Publisher) (reply : Store.Reply) :
    Moves (Consumer.stream l.consumer.setup) l.fired l.phase
      (l.consumer.answer (l.observe now publisher) reply).1.phase := by
  obtain ⟨request, hrequest⟩ := Option.isSome_iff_exists.1 asked
  have hpasses := Consumer.passes_answer l.consumer (l.observe now publisher) reply h hrequest
  show Moves _ _ l.consumer.phase _
  unfold Consumer.request? at asked
  cases hphase : l.consumer.phase with
  | working s job =>
    rw [hphase] at hpasses
    exact moves_working hpasses
  | pulling s =>
    rw [hphase] at asked
    unfold Consumer.answer
    rw [hphase]
    exact moves_pulled (.answered asked) (fun hfinished => absurd hfinished (ClaimStream.answer_ne _ _ _).1)
      fun k hk => ClaimStream.yield_answer _ hk
  | draining s =>
    rw [hphase] at asked
    unfold Consumer.answer
    rw [hphase]
    exact moves_drained (.answered asked)
  | selecting s =>
    have hstill : (l.consumer.answer (l.observe now publisher) reply).1.phase = .selecting s := by
      unfold Consumer.answer
      rw [hphase]
      exact hphase
    rw [hstill]
    exact .still
  | forgetting =>
    unfold Consumer.answer
    rw [hphase]
    exact .leaves rfl
  | starting | ended | crashed =>
    rw [hphase] at asked
    cases asked

/-- **Every beat moves a consumer so.** -/
theorem moves_step (h : l.phase.Sound l.consumer.setup.role) (b : Beat) :
    Moves (Consumer.stream l.consumer.setup) l.fired l.phase (l.step b).phase := by
  cases b with
  | fire => exact .still
  | look now publisher => exact moves_look h now publisher
  | finish outcome =>
    have hpasses := Consumer.passes_finish l.consumer outcome h
    show Moves _ _ l.consumer.phase (l.consumer.finish outcome).1.phase
    unfold Consumer.finish at hpasses ⊢
    split at hpasses
    case h_1 s k context attempts hphase =>
      rw [hphase] at hpasses ⊢
      exact moves_working hpasses
    case h_2 => exact .still
  | answer now publisher reply =>
    unfold step
    simp only
    split
    case isTrue asked => exact moves_answer h asked now publisher reply
    case isFalse => exact .still

theorem Moves.flows {setup : ClaimStream.Setup} {fired : Bool} {p p' : Phase} (h : Moves setup fired p p')
    {s' : ClaimStream} (hs : p'.stream? = some s') :
    s' = .start ∨ ∃ s, p.stream? = some s ∧ Flows setup fired s s' := by
  cases h with
  | still => exact Or.inr ⟨s', hs, .still⟩
  | starts => exact Or.inl (Option.some.inj hs).symm
  | sees | pulls | works | settles =>
    obtain rfl := Option.some.inj hs
    exact Or.inr ⟨_, rfl, .still⟩
  | selects flows | goesOn flows | takes flows | ends flows | drains flows =>
    obtain rfl := Option.some.inj hs
    exact Or.inr ⟨_, rfl, flows⟩
  | leaves gone =>
    rw [gone] at hs
    cases hs

theorem Flows.orderly {setup : ClaimStream.Setup} {fired : Bool} {s s' : ClaimStream} (h : Flows setup fired s s')
    (orderly : s.Orderly) : s'.Orderly := by
  cases h with
  | still => exact orderly
  | looked =>
    cases s with
    | pulling batches =>
      exact (ClaimStream.follows_follow _ _ _).orderly fun p hp => (Poller.looks_look _ _ _ _).handing hp
    | renewing | releasing => exact orderly
  | answered asked =>
    cases s with
    | pulling batches => exact (ClaimStream.follows_follow _ _ _).orderly fun p hp => Poller.handing_answer hp
    | renewing batches k =>
      unfold ClaimStream.answer
      simp only
      split <;> trivial
    | releasing batches k =>
      unfold ClaimStream.answer
      simp only
      split <;> trivial

/-! ## The token -/

theorem Flows.claiming {setup : ClaimStream.Setup} {s s' : ClaimStream} (h : Flows setup true s s')
    (orderly : s.Orderly) {due : Instant} (claiming : s' = .pulling (.polling due)) : s = .pulling (.polling due) := by
  cases h with
  | still => exact claiming
  | looked =>
    cases s with
    | pulling batches =>
      rw [ClaimStream.look_pulling] at claiming
      have hpoller := (ClaimStream.follows_follow _ _ _).eq_of_pulling claiming
      rw [(Poller.looks_look _ _ _ _).eq_of_polling hpoller]
    | renewing | releasing => cases claiming
  | answered asked => exact absurd rfl ((ClaimStream.answer_pulling_ne asked orderly claiming).1 due)

theorem Flows.over {setup : ClaimStream.Setup} {fired : Bool} {s s' : ClaimStream} (h : Flows setup fired s s')
    (orderly : s.Orderly) (gone : s' = .pulling .over) : s = .pulling .over ∨ fired = true := by
  cases h with
  | still => exact Or.inl gone
  | looked =>
    cases s with
    | pulling batches =>
      rw [ClaimStream.look_pulling] at gone
      have hpoller := (ClaimStream.follows_follow _ _ _).eq_of_pulling gone
      exact ((Poller.looks_look _ _ _ _).of_over hpoller).imp_left (congrArg _)
    | renewing | releasing => cases gone
  | answered asked => exact absurd rfl (ClaimStream.answer_pulling_ne asked orderly gone).2

theorem Flows.renewing {setup : ClaimStream.Setup} {s s' : ClaimStream} (h : Flows setup true s s')
    {batches : Poller Pending} {k : Claimed} (renewing : s' = .renewing batches k) : s = .renewing batches k := by
  cases h with
  | still => exact renewing
  | looked =>
    cases s with
    | pulling batches' => exact absurd renewing ((ClaimStream.follows_follow _ _ _).ne_renewing _ _)
    | renewing | releasing => exact renewing
  | @answered reply asked =>
    cases s with
    | pulling batches' => exact absurd renewing ((ClaimStream.follows_follow _ _ _).ne_renewing _ _)
    | renewing batches' k' => rcases reply with e | _ | offset | messages | (_ | _) <;> cases renewing
    | releasing batches' k' => rcases reply with e | a <;> cases renewing

/-! ## Every life -/

/-- What every life of a consumer keeps: what waits is marked and comes from a batch, and only the token ends the
stream or makes the consumer drain it. -/
structure Sound (l : Loop) : Prop where
  phase : l.phase.Sound l.consumer.setup.role
  orderly : ∀ s, l.phase.stream? = some s → s.Orderly
  drained : l.phase.stream? = some (.pulling .over) → l.fired = true
  draining : ∀ s, l.phase = .draining s → l.fired = true

theorem sound_new (setup : Setup) (errorCapacity : Nat) : (new setup errorCapacity).Sound where
  phase := Phase.sound_starting _
  orderly _ h := by cases h
  drained h := by cases h
  draining _ h := by cases h

theorem fired_step (h : l.fired = true) (b : Beat) : (l.step b).fired = true := by
  cases b with
  | fire => rfl
  | look | finish => exact h
  | answer now publisher reply =>
    unfold step
    simp only
    split <;> exact h

theorem phase_step (h : l.phase.Sound l.consumer.setup.role) (b : Beat) :
    (l.step b).phase.Sound (l.step b).consumer.setup.role := by
  cases b with
  | fire => exact h
  | look now publisher =>
    show Phase.Sound _ _
    rw [step, Consumer.setup_look]
    exact (Consumer.passes_look _ _ h).sound h
  | finish outcome =>
    show Phase.Sound _ _
    rw [step, Consumer.setup_finish]
    exact (Consumer.passes_finish _ _ h).sound h
  | answer now publisher reply =>
    unfold step
    simp only
    split
    case isFalse => exact h
    case isTrue asked =>
      obtain ⟨request, hrequest⟩ := Option.isSome_iff_exists.1 asked
      show Phase.Sound _ _
      rw [Consumer.setup_answer]
      exact (Consumer.passes_answer _ _ _ h hrequest).sound h

theorem over_step (h : l.Sound) (b : Beat) (gone : (l.step b).phase.stream? = some (.pulling .over)) :
    (l.step b).fired = true := by
  rcases (moves_step h.phase b).flows gone with hstart | ⟨s, hs, hflows⟩
  · cases hstart
  · rcases hflows.over (h.orderly s hs) rfl with rfl | hfired
    · exact fired_step (h.drained hs) b
    · exact fired_step hfired b

/-- **Every beat keeps a life sound.** -/
theorem Sound.step (h : l.Sound) (b : Beat) : (l.step b).Sound where
  phase := phase_step h.phase b
  orderly s' hs' := by
    rcases (moves_step h.phase b).flows hs' with rfl | ⟨s, hs, hflows⟩
    · trivial
    · exact hflows.orderly (h.orderly s hs)
  drained := over_step h b
  draining s' hs' := by
    have hmoves := moves_step h.phase b
    rw [hs'] at hmoves
    generalize hphase : l.phase = p at hmoves
    cases hmoves with
    | still => exact fired_step (h.draining s' hphase) b
    | sees seen => exact fired_step seen b
    | ends => exact over_step h b (by rw [hs']; rfl)
    | drains => exact fired_step (h.draining _ hphase) b
    | leaves gone => cases gone

/-- **Once the token has fired no claim is begun any more.** -/
theorem claiming_step (h : l.Sound) (fired : l.fired = true) (b : Beat) {due : Instant}
    (claiming : (l.step b).phase.stream? = some (.pulling (.polling due))) :
    l.phase.stream? = some (.pulling (.polling due)) := by
  rcases (moves_step h.phase b).flows claiming with hstart | ⟨s, hs, hflows⟩
  · cases hstart
  · rw [fired] at hflows
    rw [hs, hflows.claiming (h.orderly s hs) rfl]

/-! ## The end of a drain -/

def after (l : Loop) (later : Nat → Beat) : Nat → Loop
  | 0 => l
  | n + 1 => (l.after later n).step (later n)

theorem after_succ (l : Loop) (later : Nat → Beat) (n : Nat) :
    l.after later (n + 1) = (l.step (later 0)).after (fun n => later (n + 1)) n := by
  induction n with
  | zero => rfl
  | succ n ih => exact congrArg (fun l' => step l' (later (n + 1))) ih

/-- The consumer waits for the answer to its request, and looks when there is none. -/
def IsPrompt (l : Loop) : Beat → Prop
  | .look _ _ => ¬ l.consumer.request?.isSome
  | .answer _ _ _ => l.consumer.request?.isSome
  | _ => False

theorem request?_draining {s : ClaimStream} (draining : l.phase = .draining s) :
    l.consumer.request? = s.request? (Consumer.stream l.consumer.setup) := by
  unfold phase at draining
  rw [Consumer.request?, draining]

theorem phase_look_draining {s : ClaimStream} (draining : l.phase = .draining s) (now : Instant)
    (publisher : Publisher) : (l.step (.look now publisher)).phase = (l.consumer.drained
      (s.look (Consumer.stream l.consumer.setup) now l.fired).1
      (s.look (Consumer.stream l.consumer.setup) now l.fired).2).1.phase := by
  unfold phase at draining
  unfold step phase Consumer.look observe
  rw [draining]

theorem phase_answer_draining {s : ClaimStream} (draining : l.phase = .draining s)
    (asked : (s.request? (Consumer.stream l.consumer.setup)).isSome) (now : Instant) (publisher : Publisher)
    (reply : Store.Reply) : (l.step (.answer now publisher reply)).phase =
      (l.consumer.drained (s.answer l.fired reply).1 (s.answer l.fired reply).2).1.phase := by
  rw [← request?_draining draining] at asked
  unfold phase at draining
  unfold step phase
  simp only
  rw [if_pos asked]
  unfold Consumer.answer observe
  rw [draining]

theorem stream_drained (c : Consumer) (s : ClaimStream) (move : ClaimStream.Move) :
    (c.drained s move).1.phase.stream? = none ∨
      (c.drained s move).1.phase = .draining s ∧ move ≠ .finished ∧ move ≠ .broke := by
  cases move with
  | finished =>
    left
    show c.leave.1.phase.stream? = none
    unfold Consumer.leave
    split <;> rfl
  | broke => exact Or.inl rfl
  | _ => exact Or.inr ⟨rfl, by rintro ⟨⟩, by rintro ⟨⟩⟩

theorem drain_step (h : l.Sound) {s : ClaimStream} (draining : l.phase = .draining s) {b : Beat}
    (prompt : l.IsPrompt b) :
    (l.step b).phase.stream? = none ∨ ∃ s', (l.step b).phase = .draining s' ∧ s'.isClaiming = false ∧
      (s.isClaiming = true ∨ s'.left < s.left) := by
  have hfired := h.draining s draining
  have hrequest := request?_draining draining
  cases b with
  | look now publisher =>
    have hidle : ¬ (s.request? (Consumer.stream l.consumer.setup)).isSome := by
      rw [← hrequest]
      exact prompt
    rw [phase_look_draining draining, hfired]
    rcases stream_drained l.consumer (s.look (Consumer.stream l.consumer.setup) now true).1
      (s.look (Consumer.stream l.consumer.setup) now true).2 with hover | ⟨hphase, hfinished, hbroke⟩
    · exact Or.inl hover
    · obtain ⟨hclaiming, hless⟩ := ClaimStream.left_look hidle hfinished hbroke
      exact Or.inr ⟨_, hphase, hclaiming, Or.inr hless⟩
  | answer now publisher reply =>
    have hasked : (s.request? (Consumer.stream l.consumer.setup)).isSome := by
      rw [← hrequest]
      exact prompt
    rw [phase_answer_draining draining hasked, hfired]
    rcases stream_drained l.consumer (s.answer true reply).1 (s.answer true reply).2 with hover | ⟨hphase, -, -⟩
    · exact Or.inl hover
    · exact Or.inr ⟨_, hphase, ClaimStream.left_answer hasked (h.orderly s (by rw [draining]; rfl))⟩
  | fire | finish => exact prompt.elim

theorem prompt_succ {later : Nat → Beat} (h : ∀ n, (l.after later n).IsPrompt (later n)) :
    ∀ n, ((l.step (later 0)).after (fun n => later (n + 1)) n).IsPrompt (later (n + 1)) := by
  intro n
  rw [← after_succ]
  exact h (n + 1)

/-- Without a claim under way, what is left to be done bounds the beats of a drain. -/
theorem drain_ends_of_left (fuel : Nat) {l : Loop} (h : l.Sound) {s : ClaimStream} (draining : l.phase = .draining s)
    (idle : s.isClaiming = false) (enough : s.left ≤ fuel) {later : Nat → Beat}
    (prompt : ∀ n, (l.after later n).IsPrompt (later n)) : ∃ n, (l.after later n).phase.stream? = none := by
  induction fuel generalizing l s later with
  | zero => exact absurd enough (Nat.not_le.2 s.left_pos)
  | succ fuel ih =>
    rcases drain_step h draining (prompt 0) with hover | ⟨s', hs', hidle, hclaiming | hless⟩
    · exact ⟨1, hover⟩
    · rw [idle] at hclaiming
      cases hclaiming
    · obtain ⟨n, hn⟩ := ih (h.step _) hs' hidle (by omega) (prompt_succ prompt)
      exact ⟨n + 1, by rwa [after_succ]⟩

/-- **A drain ends**, if the store answers and the consumer looks. -/
theorem drain_ends (h : l.Sound) {s : ClaimStream} (draining : l.phase = .draining s) {later : Nat → Beat}
    (prompt : ∀ n, (l.after later n).IsPrompt (later n)) : ∃ n, (l.after later n).phase.stream? = none := by
  -- the first beat ends a claim that is under way, and may bring a batch: only from then on is less left with each beat
  rcases drain_step h draining (prompt 0) with hover | ⟨s', hs', hidle, -⟩
  · exact ⟨1, hover⟩
  · obtain ⟨n, hn⟩ := drain_ends_of_left s'.left (h.step _) hs' hidle (Nat.le_refl _) (prompt_succ prompt)
    exact ⟨n + 1, by rwa [after_succ]⟩

end Loop

end DurableBus
