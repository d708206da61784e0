import DurableBus.Proofs.System.Shutdown
import DurableBus.Proofs.System.Tracing

/-!
# Broadcast subscriptions

A broadcast subscription reads the head of its topic and begins some time after. It sees what is stored behind the head,
whatever the others do meanwhile, and forgets its group when it ends.

* `Core.Behind`, `behind_outcome` : what consumers hold is behind the offset after which they claim;
* `acknowledged_of_isFinal` : what is final for a broadcast group has been acknowledged by its subscription;
* `sweeping_outcome` : as long as the store is open, broadcast groups are unknown to it once they have been forgotten;
* `Sees`, `broadcast_sees_what_follows` : what a subscription sees in a course.
-/

set_option autoImplicit false

namespace DurableBus

open Consumer (Setup Passes Asks)
open Store (Call)

/-- Whether a claim of a group behind an offset returns a message: one that is made when the message is visible and has
room for the whole topic. -/
def InMemory.Returns (s : InMemory) (topic group : String) (behind : Int) (m : Stored) : Prop :=
  ∀ now token limit lease, (s.log topic).size ≤ limit →
    (∀ d, s.deliveries.get? (m.offset, group) = some d → d.visibleAt ≤ now) →
    ∃ messages, (s.perform now token (.claim ⟨topic, group, behind, limit, lease⟩)).2 = (.ok (.claimed messages), []) ∧
      ∃ k ∈ messages, k.receipt.offset = m.offset ∧ k.message = m.message

namespace System

variable {bus ids : Nat} {s : System} {l : Ledger} {events before : List Event} {e : Event} {topic group : String}

/-! ## What consumers hold -/

namespace Core

/-- What a consumer holds is behind the offset after which it claims. -/
def Behind (setup : Setup) (p : Phase) : Prop := ∀ k ∈ p.held, setup.after < k.receipt.offset

variable {c c' : Core}

/-- What is claimed is behind the offset of the claim. -/
theorem behind_of_answer {setup : Setup} {p p' : Phase} {fate : Fate} {request : Store.Request}
    (h : Behind setup p) (asks : Asks setup p request)
    (passes : Passes setup p (some (request, (c.ask fate request).2)) p') : Behind setup p' := by
  intro k hk
  rcases List.mem_append.1 (passes.held.subset hk) with hk | hk
  · exact h k hk
  · obtain ⟨r, rfl, hreply, -, -⟩ := ask_claimed hk
    obtain rfl := asks.claim_eq
    rw [Consumer.brought, hreply] at hk
    obtain ⟨m, hm, rfl⟩ := List.mem_map.1 hk
    exact (Ledger.mem_chosen hm).2.1

theorem Step.behind {t : Turn} (hstep : Step c t c') (sound : c.Sound) (h : ∀ q ∈ c.posts, Behind q.1 q.2) :
    ∀ q ∈ c'.posts, Behind q.1 q.2 := by
  refine hstep.posts sound (fun setup k hk => by cases hk) (fun setup p p' hbehind passes k hk => hbehind k ?_)
    (fun _ _ _ _ _ hbehind asks passes => behind_of_answer hbehind asks passes) h
  have hheld := passes.held.subset hk
  rwa [Consumer.brought, List.append_nil] at hheld

theorem Follows.behind (follows : Follows c e c') (sound : c.Sound) (h : ∀ q ∈ c.posts, Behind q.1 q.2) :
    ∀ q ∈ c'.posts, Behind q.1 q.2 := by
  cases follows with
  | still => exact h
  | turned step => exact step.behind sound h
  | subscribed | forwarding =>
    intro q hq
    rcases List.mem_append.1 hq with hq | hq
    · exact h q hq
    · rw [List.mem_singleton.1 hq]
      exact fun k hk => by cases hk

end Core

/-- **What consumers hold in a course** is theirs to hold, and behind the offset after which they claim. -/
theorem behind_outcome (events : List Event) :
    ∃ l, (outcome events).store.Refines l ∧ ((outcome events).core l).Sound ∧
      ∀ q ∈ ((outcome events).core l).posts, Core.Behind q.1 q.2 :=
  @outcome_induction (fun c => c.Sound ∧ ∀ q ∈ c.posts, Core.Behind q.1 q.2)
    ⟨Core.sound_start, fun _ hp => by cases hp⟩
    (fun _ _ _ h follows => ⟨h.1.follows follows, follows.behind h.1 h.2⟩) events

/-! ## Members -/

theorem member_of_broadcast {head : Int}
    (begins : e = .turn (.subscribe bus topic .broadcast head) ∨ e = .subscribed bus topic .broadcast head)
    (joins : s.members.length < (s.occur e).1.members.length) :
    ∃ settings m, (s.occur e).1.members[s.members.length]? = some m ∧ m.bus = bus ∧
      m.consumer.setup = ⟨.subscriber true, topic, broadcastGroup (.drawn s.drawn), head, settings⟩ := by
  have hoccurs : (s.occur e).1 = s.subscribe bus topic .broadcast head := by
    rcases begins with rfl | rfl
    · change s.members.length < (ite _ _ _ : System).members.length at joins
      change (ite _ _ _ : System) = _
      split at joins
      case isTrue permitted => exact if_pos permitted
      case isFalse => exact absurd joins (Nat.lt_irrefl _)
    · rfl
  rw [hoccurs] at joins ⊢
  unfold subscribe at joins ⊢
  cases hb : s.buses[bus]? with
  | none =>
    rw [hb] at joins
    exact absurd joins (Nat.lt_irrefl _)
  | some b =>
    exact ⟨b.settings, _, List.getElem?_concat_length, rfl, rfl⟩

/-- Whoever asks for a claim to be settled or renewed asks for one of its group. -/
theorem group_of_receipt {i : Nat} {m : Member} (hm : (outcome events).members[i]? = some m) {request : Store.Request}
    (asks : m.consumer.request? = some request) {r : Receipt} (settles : request.receipt? = some r) :
    r.group = m.consumer.setup.group := by
  obtain ⟨l, -, hsound, -⟩ := behind_outcome events
  obtain ⟨k, hk, rfl⟩ := (Consumer.asks_of_request asks).held settles
  exact (hsound.held _ (List.mem_of_getElem? (post_of_member hm)) k hk).1.1

/-! ## Acknowledgements -/

def Event.acks? : Event → Option Receipt
  | .turn (.ask _ (.ack r)) => some r
  | _ => none

/-- Whether a member acknowledges a message for its group in an event: with a receipt that is held. -/
def Acknowledges (i : Nat) (offset : Int) (group : String) (x : System × Event) : Prop :=
  x.2 = .turn (.answer i .performed) ∧ ∃ c, x.1.call? x.2 = some c ∧ InMemory.Visit.Acks offset group (x.1.store, c)

theorem acks_of_isFinal {m : Stored} (hm : m ∈ (ledgerOf events).log topic)
    (final : (ledgerOf events).isFinal group m.offset) :
    ∃ x ∈ course events, ∃ c, x.1.call? x.2 = some c ∧ InMemory.Visit.Acks m.offset group (x.1.store, c) := by
  obtain ⟨_, y, _, htrail, hacks, -⟩ := InMemory.acked_of_isFinal (callsOf events) hm final
  have hy : y ∈ InMemory.trail (callsOf events) := htrail ▸ List.mem_append_right _ List.mem_cons_self
  rw [trail_callsOf] at hy
  obtain ⟨x, hx, hmap⟩ := List.mem_filterMap.1 hy
  obtain ⟨c, hcall, rfl⟩ := Option.map_eq_some_iff.1 hmap
  exact ⟨x, hx, c, hcall, hacks⟩

/-- **What is final for a broadcast group** has been acknowledged by its subscription, unless callers acknowledge. -/
theorem acknowledged_of_isFinal (naming : Naming ids (outcome events))
    (own : ∀ e ∈ events, ∀ r ∈ e.acks?, ¬ IsBroadcastGroup ids r.group) {i : Nat} {m : Member}
    (hm : (outcome events).members[i]? = some m) (ephemeral : m.IsEphemeral) {stored : Stored}
    (hstored : stored ∈ (ledgerOf events).log topic)
    (final : (ledgerOf events).isFinal m.consumer.setup.group stored.offset) :
    ∃ x ∈ course events, Acknowledges i stored.offset m.consumer.setup.group x := by
  obtain ⟨x, hx, c, hcall, hacks⟩ := acks_of_isFinal hstored final
  obtain ⟨r, haction, hoffset, hgroup, hheld⟩ := hacks
  refine ⟨x, hx, ?_, c, hcall, r, haction, hoffset, hgroup, hheld⟩
  rcases asker_of_call? hcall haction (by rintro ⟨⟩) (by rintro ⟨⟩) with ⟨j, he, hasks⟩ | he
  · obtain ⟨before, after, hevents, hbefore⟩ := mem_course hx
    rw [hbefore] at hasks
    obtain ⟨n, hn, hasks⟩ := Option.bind_eq_some_iff.1 hasks
    have hown := group_of_receipt hn hasks rfl
    obtain ⟨n', hn', -, hsetup⟩ := member_append hn (x.2 :: after)
    rw [← hevents] at hn'
    by_cases hij : i = j
    · rw [he, hij]
    · refine absurd ?_ (naming.apart i j m n' hm hn' hij ephemeral)
      rw [hsetup, ← hown, hgroup]
  · have hevent : x.2 ∈ events := mem_of_mem_courseFrom hx
    refine absurd (naming.broadcast i m hm ephemeral) (hgroup ▸ own x.2 hevent r ?_)
    rw [he]
    rfl

/-! ## Groups -/

/-- As long as the store is open, a broadcast group is known to it only while its subscription has yet to forget it. -/
theorem sweeping_outcome (undisturbed : ∀ x ∈ course events, Undisturbed bus ids x.1 x.2)
    (bound : (outcome events).drawn ≤ ids) (supply : ids ≤ Uuid.supply)
    (opened : (outcome events).store.closed = false) : Sweeping bus ids (outcome events) (ledgerOf events) := by
  induction events using List.reverseRecOn with
  | nil => exact sweeping_start
  | append_singleton events e ih =>
    obtain ⟨hbefore, hlast⟩ := undisturbed_concat undisturbed
    have hmore := drawn_concat events e
    have hrefines := refines_outcome events
    have hopened : (outcome events).store.closed = false := by
      rw [← Bool.not_eq_true]
      intro hclosed
      rw [outcome_concat, closed_occur hrefines hclosed e] at opened
      cases opened
    rw [outcome_concat] at bound hmore
    rw [outcome_concat, ledgerOf_concat]
    refine (ih hbefore (by omega) hopened).occur (naming_outcome hbefore (by omega) supply) hrefines
      (ordered_outcome hbefore) hlast bound fun hclosed => ?_
    rw [hopened] at hclosed
    cases hclosed

/-! ## Subscriptions -/

/-- Whether the handler of a member is given a delivery in an event. -/
def GivesHandler (i : Nat) (d : Delivery) (x : System × Event) : Prop :=
  ∃ t, x.2 = .turn t ∧ t.mover? = some i ∧ .invoke d ∈ (x.1.turn t).2

/-- What a broadcast subscription sees that has read the head of its topic in a store. -/
structure Sees (topic : String) (past : InMemory) (events : List Event) (i : Nat) (m : Member) : Prop where
  /-- What is behind the head has been stored since then. -/
  later : ∀ stored ∈ (outcome events).store.log topic, past.head topic < stored.offset ↔ stored ∉ past.log topic
  /-- Its handler is given messages of the topic that are behind the head. -/
  given : ∀ x ∈ course events, ∀ d, GivesHandler i d x → d.topic = topic ∧
    ∃ job, x.1.workAt i = some (m.consumer.setup, job) ∧ ∃ stored ∈ x.1.store.log topic,
      stored.offset = job.claimed.receipt.offset ∧ stored.message = d.message ∧ past.head topic < stored.offset
  /-- Whatever is behind the head has been acknowledged by itself for good, or is returned by a claim. -/
  kept : (outcome events).store.closed = false → ∀ stored ∈ (outcome events).store.log topic,
    past.head topic < stored.offset →
      (outcome events).store.isFinal topic m.consumer.setup.group stored.offset = true ∧
        (∃ x ∈ course events, Acknowledges i stored.offset m.consumer.setup.group x) ∨
      (outcome events).store.isFinal topic m.consumer.setup.group stored.offset = false ∧
        (outcome events).store.Returns topic m.consumer.setup.group (past.head topic) stored
  /-- When it has ended, no record and no watermark of its group is left. -/
  forgotten : (outcome events).store.closed = false → m.consumer.isOver = true →
    (outcome events).store.IsUnknown m.consumer.setup.group

theorem given_of_course {i : Nat} {m : Member} (hm : (outcome events).members[i]? = some m) {x : System × Event}
    (hx : x ∈ course events) {d : Delivery} (gives : GivesHandler i d x) :
    d.topic = m.consumer.setup.topic ∧ ∃ job, x.1.workAt i = some (m.consumer.setup, job) ∧
      ∃ stored ∈ x.1.store.log m.consumer.setup.topic, stored.offset = job.claimed.receipt.offset ∧
        stored.message = d.message ∧ m.consumer.setup.after < stored.offset := by
  obtain ⟨t, he, hmover, hinvoke⟩ := gives
  obtain ⟨j, setup, k, context, work, n, hmoves, hbusy, rfl⟩ := invoke_mem_turn hinvoke
  obtain rfl := Option.some.inj (hmover.symm.trans hmoves)
  obtain ⟨before, after, hevents, hbefore⟩ := mem_course hx
  -- the member was started with the same setup
  rw [hbefore] at hbusy ⊢
  obtain ⟨m₀, hm₀, hjob⟩ := Option.bind_eq_some_iff.1 hbusy
  obtain ⟨job, hjob, hsame⟩ := Option.map_eq_some_iff.1 hjob
  obtain ⟨rfl, rfl⟩ := Prod.mk.inj hsame
  obtain ⟨m', hm', -, hsetup⟩ := member_append hm₀ (x.2 :: after)
  rw [← hevents] at hm'
  obtain rfl := Option.some.inj (hm.symm.trans hm')
  rw [hsetup]
  obtain ⟨l, hrefines, hsound, hbehind⟩ := behind_outcome before
  have hpost := List.mem_of_getElem? (post_of_member (l := l) hm₀)
  have hheld := Phase.claimed_mem_held hjob
  obtain ⟨⟨-, stored, hstored, hoffset, hmessage⟩, -⟩ := hsound.held _ hpost k hheld
  refine ⟨rfl, _, hbusy, stored, ?_, hoffset, hmessage, hoffset ▸ hbehind _ hpost k hheld⟩
  rw [← Array.mem_toList_iff, hrefines.log]
  exact hstored

/-- **A broadcast sees exactly what is stored after it has read the head of its topic.** It may begin later, and its
group is its own as long as identifiers do not come again and callers do not acknowledge for it. -/
theorem broadcast_sees_what_follows {read between after : List Event}
    (moment : events = read ++ between ++ e :: after)
    (begins : e = .turn (.subscribe bus topic .broadcast ((outcome read).store.head topic)) ∨
      e = .subscribed bus topic .broadcast ((outcome read).store.head topic))
    (joins : (outcome (read ++ between)).members.length < (outcome (read ++ between ++ [e])).members.length)
    (undisturbed : ∀ x ∈ course events, Undisturbed bus (outcome events).drawn x.1 x.2)
    (own : ∀ e ∈ events, ∀ r ∈ e.acks?, ¬ IsBroadcastGroup (outcome events).drawn r.group)
    (supply : (outcome events).drawn ≤ Uuid.supply) :
    ∃ m, (outcome events).members[(outcome (read ++ between)).members.length]? = some m ∧ m.bus = bus ∧
      m.IsEphemeral ∧ m.consumer.setup.topic = topic ∧
      m.consumer.setup.after = (outcome read).store.head topic ∧
      Sees topic (outcome read).store events (outcome (read ++ between)).members.length m := by
  rw [outcome_concat] at joins
  obtain ⟨settings, m₀, hm₀, hbus₀, hsetup₀⟩ := member_of_broadcast begins joins
  rw [← outcome_concat] at hm₀
  obtain ⟨m, hm, hbus, hsetup⟩ := member_append hm₀ after
  have hevents : read ++ between ++ [e] ++ after = events := by
    rw [moment, List.append_assoc _ [e], List.singleton_append]
  rw [hevents] at hm
  rw [hbus₀] at hbus
  rw [hsetup₀] at hsetup
  have hephemeral : m.IsEphemeral := congrArg Setup.role hsetup
  have htopic : m.consumer.setup.topic = topic := congrArg Setup.topic hsetup
  have hafter : m.consumer.setup.after = (outcome read).store.head topic := congrArg Setup.after hsetup
  have hrefines := refines_outcome events
  have hmem : ∀ m, m ∈ (outcome events).store.log topic ↔ m ∈ (ledgerOf events).log topic := fun m => by
    rw [← hrefines.log, Array.mem_toList_iff]
  refine ⟨m, hm, hbus, hephemeral, htopic, hafter, fun stored hstored => ?_, fun x hx d hd => ?_,
    fun opened stored hstored behind => ?_, fun opened ends => ?_⟩
  · have hpast := refines_outcome read
    have hextends := extends_outcome read (between ++ e :: after)
    rw [← List.append_assoc, ← moment] at hextends
    rw [← Array.mem_toList_iff, hpast.log, hpast.head]
    exact hextends.head_lt_iff hpast.sound ((hmem stored).1 hstored)
  · have hgiven := given_of_course hm hx hd
    rwa [htopic, hafter] at hgiven
  · cases hfinal : (outcome events).store.isFinal topic m.consumer.setup.group stored.offset with
    | true =>
      have hlog := (hmem stored).1 hstored
      have hnaming := naming_outcome undisturbed (Nat.le_refl _) supply
      rw [hrefines.isFinal hlog] at hfinal
      exact Or.inl ⟨rfl, acknowledged_of_isFinal hnaming own hm hephemeral hlog hfinal⟩
    | false =>
      exact Or.inr ⟨rfl, fun now token limit lease room visible =>
        hrefines.claim_returns opened hstored hfinal visible behind room⟩
  · have hsweeping := sweeping_outcome undisturbed (Nat.le_refl _) supply opened
    exact ((hsweeping.swept _ m hm hbus hephemeral).resolve_right
      (Consumer.not_isAttached_of_isOver ends)).isUnknown hrefines

/-- A bus in direct mode whose subscribers claim one message at a time. -/
def newsConfig : Config := Config.standard.withBatchSize 1

def headRead : List Event :=
  [.turn (.addBus newsConfig .silent), .turn (.publish 0 none "news" [.new (.ofNat 7) [1]] .performed)]

/-- A second message is stored before the subscription begins. -/
def storedMeanwhile : List Event := [.turn (.commit [("news", [.new (.ofNat 8) [2]])])]

/-- A broadcast begins with one message behind the head of its topic. -/
def lateJoiner (after : List Event) : List Event :=
  headRead ++ storedMeanwhile ++ .subscribed 0 "news" .broadcast 1 :: after

/-- A third message is published. The broadcast acknowledges the second one, while another group works through the topic
from its start. -/
def twoReaders : List Event :=
  [.turn (.subscribe 0 "news" (.named "archive") 0), .turn (.publish 0 none "news" [.new (.ofNat 9) [3]] .performed),
    .turn (.look 0), .turn (.look 0), .turn (.look 0), .turn (.look 0), .turn (.answer 0 .performed), .turn (.look 0),
    .turn (.look 1), .turn (.look 1), .turn (.look 1), .turn (.look 1), .turn (.answer 1 .performed), .turn (.look 1),
    .turn (.finish 1 (.ok ())), .turn (.answer 1 .performed), .turn (.finish 0 (.ok ())),
    .turn (.answer 0 .performed)]

/-- The bus is told to shut down, and the broadcast ends. -/
def broadcastEnds : List Event :=
  [.turn (.beginShutdown 0), .turn (.look 0), .turn (.look 0), .turn (.answer 0 .performed)]

/-- The second message has been acknowledged and the third one is returned by a claim; when the broadcast has ended,
nothing of its group is left. -/
theorem broadcast_sees_what_follows_lateJoiner :
    (∀ x ∈ course (lateJoiner twoReaders), Undisturbed 0 (outcome (lateJoiner twoReaders)).drawn x.1 x.2) ∧
      (∃ x ∈ course (lateJoiner twoReaders), Acknowledges 0 2 (broadcastGroup (.drawn 1)) x) ∧
      (outcome (lateJoiner twoReaders)).store.Returns "news" (broadcastGroup (.drawn 1)) 1
        ⟨3, .new (.ofNat 9) [3], 0⟩ ∧
      (outcome (lateJoiner (twoReaders ++ broadcastEnds))).store.IsUnknown (broadcastGroup (.drawn 1)) := by
  have hhead : (outcome headRead).store.head "news" = 1 := by decide +kernel
  have hfirst : (outcome (headRead ++ storedMeanwhile)).members.length = 0 := by decide +kernel
  have hsees : ∀ after, (∀ x ∈ course (lateJoiner after), Undisturbed 0 (outcome (lateJoiner after)).drawn x.1 x.2) →
      (∀ e ∈ lateJoiner after, ∀ r ∈ e.acks?, ¬ IsBroadcastGroup (outcome (lateJoiner after)).drawn r.group) →
      (outcome (lateJoiner after)).drawn ≤ Uuid.supply →
      ∃ m, (outcome (lateJoiner after)).members[0]? = some m ∧
        Sees "news" (outcome headRead).store (lateJoiner after) 0 m := by
    intro after undisturbed own supply
    have moment : lateJoiner after = headRead ++ storedMeanwhile ++
        .subscribed 0 "news" .broadcast ((outcome headRead).store.head "news") :: after := by
      rw [hhead]
      rfl
    obtain ⟨m, hm, -, -, -, -, hsees⟩ :=
      broadcast_sees_what_follows moment (Or.inr rfl) (by decide +kernel) undisturbed own supply
    rw [hfirst] at hm hsees
    exact ⟨m, hm, hsees⟩
  have hgroup : ∀ after ∈ [twoReaders, twoReaders ++ broadcastEnds], ∀ m ∈ (outcome (lateJoiner after)).members[0]?,
      m.consumer.setup.group = broadcastGroup (.drawn 1) := by decide +kernel
  have undisturbed : ∀ x ∈ course (lateJoiner twoReaders),
      Undisturbed 0 (outcome (lateJoiner twoReaders)).drawn x.1 x.2 := by decide +kernel
  obtain ⟨m, hm, hmidway⟩ := hsees twoReaders undisturbed (by decide +kernel) (by decide +kernel)
  obtain ⟨m', hm', hended⟩ :=
    hsees (twoReaders ++ broadcastEnds) (by decide +kernel) (by decide +kernel) (by decide +kernel)
  have hkept := hmidway.kept (by decide +kernel)
  have hforgotten := hended.forgotten (by decide +kernel)
  rw [hhead, hgroup _ List.mem_cons_self m hm] at hkept
  rw [hgroup _ (List.mem_cons_of_mem _ List.mem_cons_self) m' hm'] at hforgotten
  refine ⟨undisturbed, ?_, ?_, hforgotten ?_⟩
  · rcases hkept ⟨2, .new (.ofNat 8) [2], 0⟩ (by decide +kernel) (by decide) with ⟨-, hacked⟩ | ⟨hopen, -⟩
    · exact hacked
    · exact absurd hopen (by decide +kernel)
  · rcases hkept ⟨3, .new (.ofNat 9) [3], 0⟩ (by decide +kernel) (by decide) with ⟨hfinal, -⟩ | ⟨-, hreturns⟩
    · exact absurd hfinal (by decide +kernel)
    · exact hreturns
  · have hover : ∀ m ∈ (outcome (lateJoiner (twoReaders ++ broadcastEnds))).members[0]?, m.consumer.isOver = true := by
      decide +kernel
    exact hover m' hm'

end System

end DurableBus
