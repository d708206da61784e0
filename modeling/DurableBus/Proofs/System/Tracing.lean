import DurableBus.Proofs.Consumer.Invocation
import DurableBus.Proofs.System.Outbox
import DurableBus.Proofs.System.Publication
import DurableBus.Proofs.Trace.TraceParent

/-!
# Trace contexts from publishers to handlers

The trace context that a message is published in reaches every handler that is given the message, in every attempt and
after every claim, whichever way the message takes.

* `Carries` : the stored messages that come from a publication;
* `Carries.travels` : they stand for it;
* `invoke_mem_turn` : a handler is invoked by a consumer that looks, with the message it works on;
* `Publication.Arrives`, `trace_context_travels` : what handlers are given is what has been published.
-/

set_option autoImplicit false

namespace DurableBus

open Consumer (Setup)

namespace System

/-! ## The way of a publication -/

/-- The message that is stored at an offset comes from a publication: it has been stored for it, or a consumer has stored
it while it worked on a message that comes from it. -/
inductive Carries (acts : List Act) : Publication → Int → Prop
  | stored {before a rest topic p m} (moment : acts = before ++ a :: rest)
      (pair : (p, m) ∈ ((perform before).published a topic).zip ((perform before).stored a topic)) :
      Carries acts p m.offset
  | forwarded {p offset topic m} (carried : Carries acts p offset) (copy : m ∈ caused (turnsOf acts) offset topic) :
      Carries acts p m.offset

variable {reserved : String} {acts : List Act}

theorem ready_perform {before rest : List Act} (traced : ∀ t ∈ turnsOf (before ++ rest), t.Traces reserved) :
    (perform before).Ready reserved := by
  refine (Exchange.ready_start reserved).after fun t ht => traced t ?_
  unfold turnsOf
  rw [Exchange.turnsFrom_append]
  exact List.mem_append_left _ ht

theorem mem_trail_turn (before : List Act) (t : Turn) (rest : List Act) :
    ((perform before).system, t) ∈ trail (turnsOf (before ++ .turn t :: rest)) := by
  have hturns : turnsOf (before ++ .turn t :: rest) =
      turnsOf before ++ t :: ((perform before).act (.turn t)).turnsFrom rest :=
    Exchange.turnsFrom_append Exchange.start before _
  unfold trail
  rw [hturns, trailFrom_append, system_perform]
  exact List.mem_append_right _ List.mem_cons_self

theorem stored_mem_log {before rest : List Act} {a : Act} {topic : String} {m : Stored}
    (h : m ∈ (perform before).stored a topic) :
    m ∈ ((run (turnsOf (before ++ a :: rest))).store.log topic).toList := by
  obtain ⟨l, hrefines⟩ := refines_perform before
  obtain ⟨l', hrefines', hext⟩ := extends_after hrefines ((perform before).turns a)
  obtain ⟨last, hlast, hext'⟩ := extends_after hrefines' (((perform before).act a).turnsFrom rest)
  obtain ⟨new, hlog, -⟩ := hext.log topic
  have hsame : (run (turnsOf (before ++ a :: rest))).store.Refines last := by
    rw [← system_perform]
    unfold perform
    rw [Exchange.after_append]
    show (((perform before).act a).after rest).system.store.Refines last
    rw [Exchange.system_after]
    exact hlast
  rw [hsame.log]
  refine hext'.mem_log ?_
  rw [(hrefines.log_writtenOn hrefines' ⟨new, hlog, rfl⟩).1]
  exact List.mem_append_right _ h

/-- What is passed on stands for what the envelope stands for. -/
theorem travels_of_caused (traced : ∀ t ∈ turnsOf acts, t.Traces reserved) {p : Publication} {m₀ m : Stored}
    {topic₀ topic : String} (hm₀ : m₀ ∈ ((run (turnsOf acts)).store.log topic₀).toList)
    (travels : p.Travels reserved topic₀ m₀.message) (copy : m ∈ caused (turnsOf acts) m₀.offset topic) :
    m ∈ ((run (turnsOf acts)).store.log topic).toList ∧ p.Travels reserved topic m.message := by
  obtain ⟨s, t, hst, hworks, hadded⟩ := mem_caused copy
  obtain ⟨l, l', last, hrefines, hrefines', hlast, hsound, hstep, hext⟩ :=
    run_on_trail _ Core.sound_start (fun _ _ _ hsound => hsound.step) hst
  have hlog := log_added hrefines hrefines' hstep.extends topic
  have hmem : m ∈ last.log topic := hext.mem_log (hlog ▸ List.mem_append_right _ hadded)
  refine ⟨hlast.log topic ▸ hmem, ?_⟩
  -- who has something stored is a forwarder with an envelope in hand
  unfold worksOn at hworks
  cases hmover : t.mover? with
  | none =>
    rw [hmover] at hworks
    cases hworks
  | some i =>
    rw [hmover, Option.bind_some] at hworks
    rcases hstep.ships_or_rests hmover with ⟨setup, k, e, hships⟩ | hrests
    · obtain ⟨work, hbusy, -⟩ := hships.workAt
      rw [Core.workAt_core] at hbusy
      rw [hbusy, Option.any_some, beq_iff_eq] at hworks
      obtain ⟨hrole, -, m', hm', ho, hunwrap⟩ := hships.envelope hsound
      have htopic : setup.topic = reserved :=
        ((equipped_of_mem_trail traced hst).of_workAt hbusy).2.1 hrole
      rw [hlast.log] at hm₀
      obtain ⟨rfl, rfl⟩ := hlast.sound.unique hm₀ (hext.mem_log (hstep.extends.mem_log hm')) (hworks.symm.trans ho.symm)
      obtain ⟨hfree, ⟨hown, -⟩ | ⟨-, henvelope⟩⟩ := travels
      · exact absurd (hown.symm.trans htopic) hfree
      · rw [henvelope] at hunwrap
        obtain rfl := Except.ok.inj hunwrap
        have hmessage : m.message ∈ (s.added t topic).map (·.message) := List.mem_map_of_mem hadded
        rw [hships.writes hlog] at hmessage
        split at hmessage
        case isTrue hdestination => exact ⟨hfree, Or.inl ⟨hdestination.symm, List.mem_singleton.1 hmessage⟩⟩
        case isFalse => cases hmessage
    · obtain ⟨new, hnew, hnothing⟩ := hrests topic
      rw [List.map_eq_nil_iff.1 hnothing] at hnew
      rw [List.append_cancel_left (hlog.symm.trans hnew)] at hadded
      cases hadded

/-- **What comes from a publication stands for it.** -/
theorem Carries.travels (traced : ∀ t ∈ turnsOf acts, t.Traces reserved) {p : Publication} {offset : Int}
    (h : Carries acts p offset) :
    ∃ topic, ∃ m ∈ ((run (turnsOf acts)).store.log topic).toList, m.offset = offset ∧
      p.Travels reserved topic m.message := by
  induction h with
  | @stored before a rest topic p m moment pair =>
    subst moment
    obtain ⟨l, hrefines⟩ := refines_perform before
    exact ⟨topic, m, stored_mem_log (List.of_mem_zip pair).2, rfl,
      (ready_perform traced).travels_of_mem hrefines pair⟩
  | forwarded carried copy ih =>
    obtain ⟨topic₀, m₀, hm₀, rfl, htravels⟩ := ih
    obtain ⟨hm, htravels'⟩ := travels_of_caused traced hm₀ htravels copy
    exact ⟨_, _, hm, rfl, htravels'⟩

/-! ## Invocations -/

/-- Consumers know the trace context of what they have in hand. -/
theorem Core.Step.reads {c c' : Core} {t : Turn} (hstep : Core.Step c t c') (sound : c.Sound)
    (h : ∀ p ∈ c.posts, p.2.Reads p.1) : ∀ p ∈ c'.posts, p.2.Reads p.1 :=
  hstep.posts sound Phase.reads_starting (fun _ _ _ hreads passes => passes.reads hreads)
    (fun _ _ _ _ _ hreads _ passes => passes.reads hreads) h

/-- **A handler is invoked with the message in hand** of a consumer that looks. -/
theorem invoke_mem_turn {s : System} {t : Turn} {d : Delivery} (h : .invoke d ∈ (s.turn t).2) :
    ∃ i setup k context work n, t.mover? = some i ∧ s.workAt i = some (setup, .dispatch k context work) ∧
      d = { Delivery.ofClaimed setup.topic k context with attempt := n } := by
  cases t with
  | look i =>
    replace h : .invoke d ∈ (s.look i).2 := h
    unfold look at h
    split at h
    case h_1 m hm =>
      obtain ⟨cs, k, context, n, delay, hphase, hd⟩ := Consumer.invoke_mem_look h
      refine ⟨i, m.consumer.setup, k, context, .trying (.ready n delay), n, rfl, ?_, hd⟩
      unfold workAt
      rw [hm, Option.bind_some, hphase]
      rfl
    case h_2 => cases h
  | answer i fate =>
    replace h : .invoke d ∈ (s.answer i fate).2 := h
    unfold answer at h
    split at h
    · split at h
      · exact absurd h ((quiet_notes _).append (Consumer.quiet_answer _ _ _) d)
      · cases h
    · cases h
  | finish i outcome =>
    replace h : .invoke d ∈ (s.finish i outcome).2 := h
    unfold finish at h
    split at h
    · exact absurd h (Consumer.quiet_finish _ _ d)
    · cases h
  | publish bus context topic messages fate =>
    replace h : .invoke d ∈ (s.publish bus context topic messages fate).2 := h
    unfold publish at h
    split at h
    · cases h
    · split at h
      · exact absurd h (quiet_notes _ d)
      · cases h
  | ask fate request => exact absurd h (quiet_notes _ d)
  | lookShutdown bus =>
    replace h : .invoke d ∈ (s.lookShutdown bus).2 := h
    unfold lookShutdown at h
    split at h
    · exact absurd h (quiet_map (by simp) _ d)
    · cases h
  | _ => cases h

/-- What a handler is given is what has been published: the message with its identifier and payload, and its metadata
apart from the entries that carry trace contexts. A valid context, if its trace state can be read back, arrives as that of
another process; with an invalid one the metadata stays as it is. -/
structure Publication.Arrives (p : Publication) (d : Delivery) : Prop where
  topic : d.topic = p.topic
  id : d.message.id = p.message.id
  payload : d.message.payload = p.message.payload
  others : ∀ key, key ≠ "traceparent" → key ≠ "tracestate" →
    d.message.metadata.get? key = p.message.metadata.get? key
  context : ∀ c, p.context.valid? = some c → TraceState.parse? c.state.header = some c.state →
    d.context = some { c with remote := true }
  untouched : p.context.valid? = none → d.message.metadata = p.message.metadata

/-- A stamped message is what has been published, if its context is read from its metadata. -/
theorem Publication.arrives_of_stamped {p : Publication} {d : Delivery} (topic : d.topic = p.topic)
    (stamped : d.message = p.stamped) (reads : d.context = Propagator.w3c.extract d.message.metadata) : p.Arrives d where
  topic := topic
  id := by
    rw [stamped]
    rfl
  payload := by
    rw [stamped]
    rfl
  others key hparent hstate := by
    rw [stamped]
    exact Propagator.get?_inject p.context p.message.metadata hparent hstate
  context c valid readable := by
    rw [reads, stamped]
    exact Propagator.extract_inject valid readable p.message.metadata
  untouched invalid := by
    rw [stamped]
    exact Propagator.inject_of_invalid invalid p.message.metadata

/-- **Trace contexts travel end to end.** Take any run, with transactions, in which every bus reserves the same topic and
uses the W3C propagator; requests may be rejected, attempts may fail, and buses may shut down at any time. Then

* whatever is published is stored if the store takes it, by itself or when its transaction is committed;
* whenever a handler is invoked, it is given the message that a consumer has in hand, and if that comes from a
  publication, directly or through the outbox, what has been published arrives with its trace context. -/
theorem trace_context_travels (traced : ∀ t ∈ turnsOf acts, t.Traces reserved) :
    (∀ before a rest, acts = before ++ a :: rest → (perform before).takes a →
      ∀ topic, ∀ p ∈ (perform before).published a topic, ∃ offset, Carries acts p offset) ∧
    ∀ s t, (s, t) ∈ trail (turnsOf acts) → ∀ d, .invoke d ∈ (s.turn t).2 →
      ∃ i setup job, t.mover? = some i ∧ s.workAt i = some (setup, job) ∧
        ∀ p, Carries acts p job.claimed.receipt.offset → p.Arrives d := by
  refine ⟨?_, fun s t hst d hinvoke => ?_⟩
  · rintro before a rest rfl takes topic p hp
    obtain ⟨l, hrefines⟩ := refines_perform before
    obtain ⟨m, hm⟩ := (ready_perform traced).mem_of_takes hrefines takes hp
    exact ⟨m.offset, .stored rfl hm⟩
  · obtain ⟨i, setup, k, context, work, n, hmover, hbusy, rfl⟩ := invoke_mem_turn hinvoke
    refine ⟨i, setup, _, hmover, hbusy, fun p hcarries => ?_⟩
    obtain ⟨l, l', last, hrefines, -, hlast, ⟨hsound, hreads⟩, hstep, hext⟩ :=
      run_on_trail (fun c => c.Sound ∧ ∀ p ∈ c.posts, p.2.Reads p.1)
        ⟨Core.sound_start, fun _ h => by cases h⟩
        (fun _ _ _ hinv hstep => ⟨hinv.1.step hstep, hstep.reads hinv.1 hinv.2⟩) hst
    obtain ⟨phase, hpost, hjob⟩ := Core.post_of_workAt ((Core.workAt_core s l).symm ▸ hbusy)
    obtain ⟨⟨-, m, hm, ho, hmessage⟩, -⟩ := hsound.held _ hpost k (Phase.claimed_mem_held hjob)
    obtain ⟨hw3c, hserves⟩ := (equipped_of_mem_trail traced hst).of_workAt hbusy
    have hsubscriber : setup.topic ≠ reserved := fun hreserved =>
      ((hsound.phases _ hpost).fits _ hjob).1 (hserves.2 hreserved)
    -- the message in hand is the one that stands for the publication
    obtain ⟨topic, m₀, hm₀, ho₀, htravels⟩ := hcarries.travels traced
    rw [hlast.log] at hm₀
    obtain ⟨rfl, rfl⟩ := hlast.sound.unique hm₀ (hext.mem_log (hstep.extends.mem_log hm)) (ho₀.trans ho.symm)
    obtain ⟨hfree, ⟨hown, hstamped⟩ | ⟨hreserved, -⟩⟩ := htravels
    · have hcontext := hreads _ hpost k context work hjob
      rw [hw3c] at hcontext
      exact Publication.arrives_of_stamped hown (hmessage.symm.trans hstamped) hcontext
    · exact absurd hreserved hsubscriber

/-- A span of a trace, with an entry of a vendor. -/
def checkoutSpan : SpanContext :=
  ⟨0x0af7651916cd43dd8448eb211c80319c, 0xb7ad6b7169203331, true, false, ⟨[(['k'], ['v'])]⟩⟩

def staleOrder : Message :=
  (((Message.new (.ofNat 7) [1]).withMetadata "traceparent" "stale").withMetadata "tracestate" "x=y").withMetadata
    "shop" "7"

/-- The order is published in a transaction and committed, passed on, and handed to a subscriber, whose handler takes too
long at the first attempt. The second attempt is about to begin. -/
def beforeRetry : List Act :=
  [.turn (.addBus outboxConfig .w3c), .publishIn "tx" 0 (some checkoutSpan) "orders" [staleOrder] .performed,
    .commit "tx", .turn (.startForwarder 0 "main"), .turn (.subscribe 0 "orders" (.named "billing") 0),
    .turn (.look 0), .turn (.look 0), .turn (.look 0), .turn (.look 0), .turn (.answer 0 .performed), .turn (.look 0),
    .turn (.answer 0 .performed), .turn (.answer 0 .performed),
    .turn (.look 1), .turn (.look 1), .turn (.look 1), .turn (.look 1), .turn (.answer 1 .performed), .turn (.look 1),
    .turn (.finish 1 (.error .timedOut)), .turn (.look 1), .turn (.wait 30_000_000_000), .turn (.look 1)]

/-- At the second attempt the handler sees the span that the order was published in. -/
theorem trace_context_travels_retried :
    (∀ t ∈ turnsOf (beforeRetry ++ [.turn (.look 1)]), t.Traces "_forwarder_queue") ∧
      ∃ d, .invoke d ∈ ((perform beforeRetry).system.turn (.look 1)).2 ∧ d.attempt = 2 ∧
        (⟨some checkoutSpan, "orders", staleOrder⟩ : Publication).Arrives d ∧
        d.context = some { checkoutSpan with remote := true } := by
  have traced : ∀ t ∈ turnsOf (beforeRetry ++ [.turn (.look 1)]), t.Traces "_forwarder_queue" := by decide +kernel
  have hstored : (((perform (beforeRetry.take 2)).published (.commit "tx") "_forwarder_queue").zip
      ((perform (beforeRetry.take 2)).stored (.commit "tx") "_forwarder_queue")).any (fun pair =>
        pair.1 = ⟨some checkoutSpan, "orders", staleOrder⟩ && pair.2.offset = 1) := by decide +kernel
  have hcaused : (caused (turnsOf (beforeRetry ++ [.turn (.look 1)])) 1 "orders").any (·.offset = 2) := by
    decide +kernel
  have hinvoked : ((perform beforeRetry).system.turn (.look 1)).2.any (Effect.invokes fun d => d.attempt = 2) := by
    decide +kernel
  have hwork : ((perform beforeRetry).system.workAt 1).map (·.2.claimed.receipt.offset) = some 2 := by decide +kernel
  obtain ⟨⟨p, m⟩, hpair, hfacts⟩ := List.any_eq_true.1 hstored
  simp only [Bool.and_eq_true, decide_eq_true_eq] at hfacts
  obtain ⟨rfl, ho⟩ := hfacts
  obtain ⟨copy, hcopy, hcopied⟩ := List.any_eq_true.1 hcaused
  obtain ⟨e, he, hattempt⟩ := List.any_eq_true.1 hinvoked
  have hcarries : Carries (beforeRetry ++ [.turn (.look 1)]) ⟨some checkoutSpan, "orders", staleOrder⟩ 2 := by
    have hmoment : beforeRetry ++ [.turn (.look 1)] =
      beforeRetry.take 2 ++ .commit "tx" :: (beforeRetry.drop 3 ++ [.turn (.look 1)]) := rfl
    have hfirst := Carries.stored hmoment hpair
    rw [ho] at hfirst
    exact of_decide_eq_true hcopied ▸ Carries.forwarded hfirst hcopy
  cases e with
  | invoke d =>
    obtain ⟨i, setup, job, hmover, hbusy, harrives⟩ :=
      (trace_context_travels traced).2 _ _ (mem_trail_turn beforeRetry (.look 1) []) d he
    obtain rfl := Option.some.inj hmover
    rw [hbusy] at hwork
    have hoffset : job.claimed.receipt.offset = 2 := Option.some.inj hwork
    have harrives := harrives _ (hoffset ▸ hcarries)
    exact ⟨traced, d, he, of_decide_eq_true hattempt, harrives, harrives.context checkoutSpan (by decide) (by decide)⟩
  | _ => cases hattempt

end System

end DurableBus
