import DurableBus.Proofs.System.Course
import DurableBus.Proofs.System.Tracing

/-!
# The reserved topic

Only envelopes are stored on the topic that buses reserve, and only forwarders work on them, as long as everybody else
writes through the buses.

* `Publication.StandsOn` : what is stored for a publication, and where;
* `Confined` : everything that is stored stands for a publication, and subscribers serve other topics;
* `Confined.forwards`, `Posting.Stands` : what forwarders write is so, and what buses make of messages;
* `Confined.occur`, `Confines.live` : every event keeps that, and so does whatever callers do with transactions;
* `reserved_topic_confined` : what follows for a run.
-/

set_option autoImplicit false

namespace DurableBus

open Consumer (Setup)

/-- Whether a bus was made with a configuration and a propagator. -/
structure Bus.IsMade (config : Config) (propagator : Propagator) (b : Bus) : Prop where
  settings : b.config = config
  reserved : b.publisher.reserved = config.forwarderTopic
  outbox : b.publisher.outbox = config.forwarderEnabled
  stamps : b.publisher.propagator = propagator

theorem Bus.isMade_new (config : Config) (propagator : Propagator) :
    (Bus.new config propagator).IsMade config propagator :=
  ⟨rfl, rfl, rfl, rfl⟩

namespace System

/-! ## What is stored for publications -/

namespace Publication

def stampedBy (propagator : Propagator) (p : Publication) : Message :=
  { p.message with metadata := propagator.inject p.context p.message.metadata }

/-- What is stored for a publication: the stamped message on its topic or, through an outbox, an envelope of that on the
reserved topic. Nothing is published on the reserved topic itself. -/
def StandsOn (config : Config) (propagator : Propagator) (p : Publication) (topic : String) (m : Message) : Prop :=
  p.topic ≠ config.forwarderTopic ∧
    (topic = p.topic ∧ m = p.stampedBy propagator ∨
      config.forwarderEnabled = true ∧ topic = config.forwarderTopic ∧
        Envelope.unwrap m = .ok ⟨p.topic, p.stampedBy propagator⟩)

end Publication

variable {config : Config} {propagator : Propagator} {ps ps' : List Publication} {s : System} {l : Ledger} {e : Event}
  {topic : String} {m : Message}

def IsStored (config : Config) (propagator : Propagator) (ps : List Publication) (topic : String) (m : Message) :
    Prop :=
  ∃ p ∈ ps, p.StandsOn config propagator topic m

theorem IsStored.mono (h : IsStored config propagator ps topic m) (more : ∀ p ∈ ps, p ∈ ps') :
    IsStored config propagator ps' topic m := by
  obtain ⟨p, hp, hstands⟩ := h
  exact ⟨p, more p hp, hstands⟩

/-- On the reserved topic there are envelopes. -/
theorem IsStored.envelope (h : IsStored config propagator ps config.forwarderTopic m) :
    config.forwarderEnabled = true ∧
      ∃ p ∈ ps, p.topic ≠ config.forwarderTopic ∧ Envelope.unwrap m = .ok ⟨p.topic, p.stampedBy propagator⟩ := by
  obtain ⟨p, hp, hfree, ⟨hown, -⟩ | ⟨houtbox, -, hunwrap⟩⟩ := h
  · exact absurd hown.symm hfree
  · exact ⟨houtbox, p, hp, hfree, hunwrap⟩

theorem IsStored.stamped (h : IsStored config propagator ps topic m) (free : topic ≠ config.forwarderTopic) :
    ∃ p ∈ ps, p.topic = topic ∧ m = p.stampedBy propagator := by
  obtain ⟨p, hp, -, ⟨hown, hstamped⟩ | ⟨-, hreserved, -⟩⟩ := h
  · exact ⟨p, hp, hown.symm, hstamped⟩
  · exact absurd hreserved free

def Posting.Stands (config : Config) (propagator : Propagator) (q : Posting) : Prop :=
  ∀ m ∈ q.written, IsStored config propagator q.publications q.target m

theorem mem_envelopes {drawn : Nat} {messages : List Message} (h : m ∈ Publisher.envelopes topic drawn messages) :
    ∃ m' ∈ messages, Envelope.unwrap m = .ok ⟨topic, m'⟩ := by
  induction messages generalizing drawn with
  | nil => cases h
  | cons m' rest ih =>
    rcases List.mem_cons.1 h with rfl | h
    · exact ⟨m', List.mem_cons_self, Envelope.unwrap_wrap _ _⟩
    · obtain ⟨m'', hm'', hunwrap⟩ := ih h
      exact ⟨m'', List.mem_cons_of_mem _ hm'', hunwrap⟩

/-- **What a bus makes of messages stands for them**, in either mode. -/
theorem stands_of_posting? (made : ∀ (i : Nat) (b : Bus), s.buses[i]? = some b → b.IsMade config propagator) {bus : Nat}
    {context : TraceContext} {messages : List Message} {q : Posting}
    (hq : s.posting? bus context topic messages = some q) : q.Stands config propagator := by
  obtain ⟨b, hb, hpublications, hprepared⟩ := of_posting? hq
  obtain ⟨-, hreserved, houtbox, hpropagator⟩ := made bus b hb
  have hstamp : ∀ m, b.publisher.stamp context m = (⟨context, topic, m⟩ : Publication).stampedBy propagator := by
    intro m
    unfold Publisher.stamp
    rw [hpropagator]
    rfl
  obtain ⟨hfree, hwritten⟩ := of_prepare hprepared
  rw [hreserved] at hfree
  intro m hm
  unfold IsStored
  rw [hpublications]
  rcases hwritten with ⟨-, htarget, hwritten⟩ | ⟨hmode, htarget, hwritten⟩
  · rw [hwritten] at hm
    obtain ⟨m', hm', rfl⟩ := List.mem_map.1 hm
    exact ⟨_, List.mem_map_of_mem hm', hfree, Or.inl ⟨htarget, hstamp m'⟩⟩
  · rw [hwritten] at hm
    obtain ⟨_, hm, hunwrap⟩ := mem_envelopes hm
    obtain ⟨m', hm', rfl⟩ := List.mem_map.1 hm
    refine ⟨_, List.mem_map_of_mem hm', hfree, Or.inr ⟨houtbox ▸ hmode, htarget.trans hreserved, ?_⟩⟩
    rw [hunwrap, hstamp]

/-! ## Events -/

/-- Whether an event makes no bus of another kind and lets no subscriber join on the reserved topic. (A turn does not:
it asks for permission.) -/
def Event.Respects (config : Config) (propagator : Propagator) : Event → Prop
  | .turn (.addBus config' propagator') => config' = config ∧ propagator' = propagator
  | .subscribed _ topic _ _ => topic ≠ config.forwarderTopic
  | _ => True

/-- Everything that is stored stands for one of the publications, buses are of one kind, and subscribers serve other
topics than the reserved one. -/
structure Confined (config : Config) (propagator : Propagator) (ps : List Publication) (s : System) (l : Ledger) :
    Prop where
  refines : s.store.Refines l
  sound : (s.core l).Sound
  serves : ∀ p ∈ (s.core l).posts, Core.Serves config.forwarderTopic config.forwarderGroup p.1
  made : ∀ (i : Nat) (b : Bus), s.buses[i]? = some b → b.IsMade config propagator
  stored : ∀ topic, ∀ m ∈ (s.store.log topic).toList, IsStored config propagator ps topic m.message

theorem confined_start (config : Config) (propagator : Propagator) : Confined config propagator [] start .empty where
  refines := InMemory.refines_empty
  sound := Core.sound_start
  serves _ h := by cases h
  made _ _ h := by cases h
  stored _ _ h := by cases h

theorem Confined.mono (h : Confined config propagator ps s l) (more : ∀ p ∈ ps, p ∈ ps') :
    Confined config propagator ps' s l :=
  { h with stored := fun topic m hm => (h.stored topic m hm).mono more }

theorem made_occur (h : ∀ (i : Nat) (b : Bus), s.buses[i]? = some b → b.IsMade config propagator)
    (respects : e.Respects config propagator) :
    ∀ (i : Nat) (b : Bus), (s.occur e).1.buses[i]? = some b → b.IsMade config propagator := by
  intro i b' hb'
  cases hb : s.buses[i]? with
  | none =>
    obtain ⟨config', propagator', rfl, rfl⟩ := bus_new hb hb'
    obtain ⟨rfl, rfl⟩ := respects
    exact Bus.isMade_new config' propagator'
  | some b =>
    obtain ⟨b₁, _, hshifts, hsome, hkeeps⟩ := bus_occur hb e
    obtain rfl := Option.some.inj (hb'.symm.trans hsome)
    have hmade : b₁.IsMade config propagator := by
      have hbefore := h i b hb
      cases hshifts with
      | stays => exact hbefore
      | begins =>
        unfold Bus.beginShutdown
        split <;> exact ⟨hbefore.settings, hbefore.reserved, hbefore.outbox, hbefore.stamps⟩
      | looks =>
        unfold Bus.lookShutdown
        split
        · split
          · exact ⟨hbefore.settings, hbefore.reserved, hbefore.outbox, hbefore.stamps⟩
          · split <;> exact ⟨hbefore.settings, hbefore.reserved, hbefore.outbox, hbefore.stamps⟩
        · exact hbefore
      | answers =>
        unfold Bus.answerShutdown
        split <;> exact ⟨hbefore.settings, hbefore.reserved, hbefore.outbox, hbefore.stamps⟩
    exact ⟨hkeeps.config ▸ hmade.settings, hkeeps.publisher ▸ hmade.reserved, hkeeps.publisher ▸ hmade.outbox,
      hkeeps.publisher ▸ hmade.stamps⟩

/-- Forwarders serve the reserved topic, and whoever joins else another one. -/
theorem Core.Follows.serves {c c' : Core} (follows : Core.Follows c e c') (respects : e.Respects config propagator)
    (configs : ∀ config' ∈ c.configs, config' = config)
    (h : ∀ p ∈ c.posts, Core.Serves config.forwarderTopic config.forwarderGroup p.1) :
    ∀ p ∈ c'.posts, Core.Serves config.forwarderTopic config.forwarderGroup p.1 := by
  have hjoined : ∀ setup : Setup, Core.Serves config.forwarderTopic config.forwarderGroup setup →
      ∀ p ∈ c.posts ++ [(setup, .starting)], Core.Serves config.forwarderTopic config.forwarderGroup p.1 := by
    intro setup hsetup p hp
    rcases List.mem_append.1 hp with hp | hp
    · exact h p hp
    · rwa [List.mem_singleton.1 hp]
  have hmoved : ∀ {i : Nat} {setup : Setup} {p p' : Phase}, c.posts[i]? = some (setup, p) →
      ∀ q ∈ c.posts.set i (setup, p'), Core.Serves config.forwarderTopic config.forwarderGroup q.1 := by
    intro i setup p p' post q hq
    rcases List.mem_or_eq_of_mem_set hq with hq | rfl
    · exact h q hq
    · exact h (setup, p) (List.mem_of_getElem? post)
  have hsubscriber : ∀ {topic name : String} {ephemeral : Bool} {after : Int} {settings : ConsumerSettings},
      topic ≠ config.forwarderTopic →
        Core.Serves config.forwarderTopic config.forwarderGroup
          ⟨.subscriber ephemeral, topic, name, after, settings⟩ := by
    intro topic name ephemeral after settings hfree
    rw [Core.Serves, if_neg (by simp)]
    exact hfree
  have hforwarder : ∀ {config' : Config} {settings : ConsumerSettings}, config' ∈ c.configs →
      Core.Serves config.forwarderTopic config.forwarderGroup
        ⟨.forwarder, config'.forwarderTopic, config'.forwarderGroup, 0, settings⟩ := by
    intro config' settings hknown
    rw [configs config' hknown, Core.Serves, if_pos rfl]
    exact ⟨rfl, rfl⟩
  cases follows with
  | still => exact h
  | subscribed more => exact hjoined _ (hsubscriber respects)
  | forwarding known => exact hjoined _ (hforwarder known)
  | turned step =>
    cases step with
    | still | waited | drew | opened | committed => exact h
    | subscribed known free more => exact hjoined _ (hsubscriber (configs _ known ▸ free))
    | forwarding known => exact hjoined _ (hforwarder known)
    | published | asked | closed =>
      rw [Core.posts_ask]
      exact h
    | looked post | finished post => exact hmoved post
    | answered post =>
      unfold Core.enter
      rw [Core.posts_ask]
      exact hmoved post

/-- **What a forwarder writes stands for a publication**: it comes out of an envelope of the reserved topic. -/
theorem Confined.forwards (h : Confined config propagator ps s l) {i : Nat} {c : Store.Call}
    (hcall : s.call? (.turn (.answer i .performed)) = some c) (written : m ∈ c.action.writes topic) :
    IsStored config propagator ps topic m := by
  obtain ⟨request, hrequest, rfl⟩ := Option.map_eq_some_iff.1 hcall
  obtain ⟨member, hmember, hasks⟩ := Option.bind_eq_some_iff.1 hrequest
  cases request with
  | enqueue target messages =>
    obtain ⟨k, envelope, work, hbusy, rfl, rfl⟩ := (Consumer.asks_of_request hasks).enqueue
    have hpost := List.mem_of_getElem? (post_of_member (l := l) hmember)
    obtain ⟨hrole, hunwrap, -⟩ := (h.sound.phases _ hpost).fits _ hbusy
    obtain ⟨⟨-, m₀, hm₀, -, hmessage⟩, -⟩ := h.sound.held _ hpost k (Phase.claimed_mem_held hbusy)
    have hserves := h.serves _ hpost
    rw [Core.Serves, if_pos hrole] at hserves
    have hstored := h.stored config.forwarderTopic m₀ (by
      rw [h.refines.log, ← hserves.1]
      exact hm₀)
    obtain ⟨-, p, hp, hfree, hcarried⟩ := hstored.envelope
    rw [hmessage, hunwrap] at hcarried
    obtain rfl := Except.ok.inj hcarried
    change m ∈ (if p.topic = topic then [p.stampedBy propagator] else []) at written
    split at written
    case isTrue htopic => exact ⟨p, hp, hfree, Or.inl ⟨htopic.symm, List.mem_singleton.1 written⟩⟩
    case isFalse => cases written
  | _ => cases written

/-- What anybody but a consumer writes in an event stands for one of the publications. -/
def Justified (config : Config) (propagator : Propagator) (ps : List Publication) (x : System × Event) : Prop :=
  x.2.Respects config propagator ∧ ∀ c, x.1.call? x.2 = some c → (∀ i, x.2 ≠ .turn (.answer i .performed)) →
    ∀ topic, ∀ m ∈ c.action.writes topic, IsStored config propagator ps topic m

/-- **Every event keeps the reserved topic to envelopes.** -/
theorem Confined.occur (h : Confined config propagator ps s l) (justified : Justified config propagator ps (s, e)) :
    ∃ l', Confined config propagator ps (s.occur e).1 l' := by
  obtain ⟨hrespects, hwrites⟩ := justified
  obtain ⟨l', hrefines, hfollows⟩ := follows_occur h.refines e
  have hconfigs : ∀ config' ∈ (s.core l).configs, config' = config := by
    intro config' hconfig
    obtain ⟨b, hb, rfl⟩ := List.mem_map.1 hconfig
    obtain ⟨i, hi⟩ := List.mem_iff_getElem?.1 hb
    exact (h.made i b hi).settings
  refine ⟨l', hrefines, h.sound.follows hfollows, hfollows.serves hrespects hconfigs h.serves,
    made_occur h.made hrespects, fun topic m hm => ?_⟩
  rw [store_occur, storeAfter] at hm
  cases hcall : s.call? e with
  | none =>
    rw [hcall] at hm
    exact h.stored topic m hm
  | some c =>
    rw [hcall] at hm
    change m ∈ ((s.store.call c).1.log topic).toList at hm
    rw [(h.refines.call c).1.log] at hm
    rcases l.mem_log_call topic hm with hbefore | hwritten
    · exact h.stored topic m (by rwa [h.refines.log])
    · by_cases hanswer : ∃ i, e = .turn (.answer i .performed)
      · obtain ⟨i, rfl⟩ := hanswer
        exact h.forwards hcall hwritten
      · exact hwrites c hcall (fun i hi => hanswer ⟨i, hi⟩) topic _ hwritten

theorem Confined.course {events : List Event} (h : Confined config propagator ps s l)
    (justified : ∀ x ∈ s.courseFrom events, Justified config propagator ps x) :
    (∃ l', Confined config propagator ps (events.foldl (fun s e => (s.occur e).1) s) l') ∧
      ∀ x ∈ s.courseFrom events, ∃ l l', Confined config propagator ps x.1 l ∧
        Confined config propagator ps (x.1.occur x.2).1 l' := by
  induction events generalizing s l with
  | nil => exact ⟨⟨l, h⟩, fun x hx => by cases hx⟩
  | cons e rest ih =>
    obtain ⟨l', hnext⟩ := h.occur (justified (s, e) List.mem_cons_self)
    obtain ⟨hlast, hall⟩ := ih hnext fun x hx => justified x (List.mem_cons_of_mem _ hx)
    refine ⟨hlast, fun x hx => ?_⟩
    rcases List.mem_cons.1 hx with rfl | hx
    · exact ⟨l, l', h, hnext⟩
    · exact hall x hx

/-! ## Runs with transactions -/

/-- Something that callers do with a bus, also within transactions, or a task that begins late. -/
inductive Episode
  | act (a : Act)
  | subscribed (bus : Nat) (topic : String) (group : Group) (head : Int)
  | forwarding (bus : Nat) (caller : String)
deriving Repr

/-- Whether everything that is written goes through buses of one kind. A task that begins late has been permitted. -/
def Episode.GoesThrough (config : Config) (propagator : Propagator) : Episode → Prop
  | .act (.turn (.addBus config' propagator')) => config' = config ∧ propagator' = propagator
  | .act (.turn (.commit _)) | .act (.turn (.ask _ (.enqueue _ _))) => False
  | .subscribed _ topic _ _ => topic ≠ config.forwarderTopic
  | _ => True

namespace Exchange

variable {x : Exchange} {a : Episode}

def events (x : Exchange) : Episode → List Event
  | .act a => (x.turns a).map .turn
  | .subscribed bus topic group head => [.subscribed bus topic group head]
  | .forwarding bus caller => [.forwarding bus caller]

def live (x : Exchange) : Episode → Exchange
  | .act a => x.act a
  | .subscribed bus topic group head => { x with system := x.system.subscribe bus topic group head }
  | .forwarding bus caller => { x with system := x.system.startForwarder bus caller }

def publications (x : Exchange) : Episode → List Publication
  | .act a => (x.postings a).flatMap Posting.publications
  | _ => []

/-- The events that episodes come to from some point on. -/
def eventsFrom : Exchange → List Episode → List Event
  | _, [] => []
  | x, a :: rest => x.events a ++ eventsFrom (x.live a) rest

def publishedFrom : Exchange → List Episode → List Publication
  | _, [] => []
  | x, a :: rest => x.publications a ++ publishedFrom (x.live a) rest

theorem system_live (x : Exchange) (a : Episode) :
    (x.live a).system = (x.events a).foldl (fun s e => (s.occur e).1) x.system := by
  cases a with
  | act a =>
    show x.system.after (x.turns a) = ((x.turns a).map Event.turn).foldl _ _
    rw [List.foldl_map]
    rfl
  | subscribed | forwarding => rfl

/-- The system is confined, and so is what transactions are to write. -/
structure Confines (config : Config) (propagator : Propagator) (ps : List Publication) (x : Exchange) (l : Ledger) :
    Prop where
  system : x.system.Confined config propagator ps l
  pending : ∀ transaction, ∀ q ∈ x.pending transaction, q.Stands config propagator

theorem confines_start (config : Config) (propagator : Propagator) : start.Confines config propagator [] .empty where
  system := confined_start config propagator
  pending _ _ h := by cases h

theorem Confines.postings (h : x.Confines config propagator ps l) (a : Act) :
    ∀ q ∈ x.postings a, q.Stands config propagator := by
  intro q hq
  cases a with
  | turn t =>
    cases t with
    | publish => exact stands_of_posting? h.system.made (Option.mem_toList.1 hq)
    | _ => cases hq
  | commit transaction => exact h.pending transaction q hq
  | publishIn | rollback => cases hq

theorem Confines.isStored (h : x.Confines config propagator ps l) {a : Act} {q : Posting} (hq : q ∈ x.postings a)
    (hm : m ∈ q.written) : IsStored config propagator (x.publications (.act a)) q.target m :=
  (h.postings a q hq m hm).mono fun _ hp => List.mem_flatMap.2 ⟨q, hq, hp⟩

/-- An event that has nothing written is justified. -/
theorem justified_of_silent (respects : e.Respects config propagator)
    (silent : ∀ c, s.call? e = some c → (∀ i, e ≠ .turn (.answer i .performed)) → ∀ topic, c.action.writes topic = []) :
    Justified config propagator ps (s, e) := by
  refine ⟨respects, fun c hcall hanswer topic m hm => ?_⟩
  rw [silent c hcall hanswer topic] at hm
  cases hm

/-- What a turn writes is published with it, unless a consumer writes it. -/
theorem Confines.justified_turn (h : x.Confines config propagator ps l) {t : Turn}
    (through : (Episode.act (.turn t)).GoesThrough config propagator) :
    Justified config propagator (x.publications (.act (.turn t))) (x.system, .turn t) := by
  cases t with
  | publish bus context topic messages fate =>
    refine ⟨trivial, fun c hcall _ topic m hm => ?_⟩
    cases fate with
    | rejected => cases hcall
    | performed =>
      obtain ⟨q, hq, rfl⟩ := Option.map_eq_some_iff.1 hcall
      change m ∈ (if q.target = topic then q.written else []) at hm
      split at hm
      case isTrue htarget => exact htarget ▸ h.isStored (Option.mem_toList.2 hq) hm
      case isFalse => cases hm
  | ask fate request =>
    refine justified_of_silent trivial fun c hcall _ topic => ?_
    cases fate with
    | rejected => cases hcall
    | performed =>
      obtain rfl := Option.some.inj hcall
      cases request with
      | enqueue => exact through.elim
      | _ => rfl
  | answer i fate =>
    refine justified_of_silent trivial fun c hcall hanswer => ?_
    cases fate with
    | rejected => cases hcall
    | performed => exact absurd rfl (hanswer i)
  | answerShutdown i fate =>
    refine justified_of_silent trivial fun c hcall _ topic => ?_
    cases fate with
    | rejected => cases hcall
    | performed =>
      obtain rfl := Option.some.inj hcall
      rfl
  | commit => exact through.elim
  | addBus => exact justified_of_silent through fun c hcall => by cases hcall
  | _ => exact justified_of_silent trivial fun c hcall => by cases hcall

theorem Confines.justified_commit (h : x.Confines config propagator ps l) (transaction : String) :
    Justified config propagator (x.publications (.act (.commit transaction)))
      (x.system, .turn (.commit (x.writes transaction))) := by
  refine ⟨trivial, fun c hcall _ topic m hm => ?_⟩
  obtain rfl := Option.some.inj hcall
  obtain ⟨w, hw, hm⟩ := List.mem_flatMap.1 hm
  obtain ⟨q, hq, rfl⟩ := List.mem_map.1 hw
  split at hm
  case isTrue htarget => exact htarget ▸ h.isStored (a := .commit transaction) hq hm
  case isFalse => cases hm

/-- Staging writes nothing: identifiers are drawn, and the store is asked whether it takes the messages. -/
theorem justified_staging {fate : Fate} {q : Posting} (he : e ∈ (staging fate q).map Event.turn) :
    Justified config propagator ps (s, e) := by
  obtain ⟨t, ht, rfl⟩ := List.mem_map.1 he
  rcases List.mem_append.1 ht with ht | ht
  · rw [List.eq_of_mem_replicate ht]
    exact justified_of_silent trivial fun c hcall => by cases hcall
  · obtain rfl := List.mem_singleton.1 ht
    refine justified_of_silent trivial fun c hcall _ topic => ?_
    cases fate with
    | rejected => cases hcall
    | performed =>
      obtain rfl := Option.some.inj hcall
      rfl

/-- Whatever is written in an episode stands for what is published in it, unless a consumer writes it. -/
theorem Confines.justified (h : x.Confines config propagator ps l) (through : a.GoesThrough config propagator) :
    ∀ y ∈ x.system.courseFrom (x.events a), Justified config propagator (x.publications a) y := by
  intro y hy
  cases a with
  | subscribed | forwarding =>
    obtain rfl := List.mem_singleton.1 hy
    exact justified_of_silent through fun c hcall => by cases hcall
  | act a =>
    cases a with
    | turn t =>
      obtain rfl := List.mem_singleton.1 hy
      exact h.justified_turn through
    | publishIn transaction bus context topic messages fate =>
      have he := mem_of_mem_courseFrom hy
      unfold events turns at he
      simp only at he
      split at he
      case h_1 => exact justified_staging he
      case h_2 => cases he
    | commit transaction =>
      obtain rfl := List.mem_singleton.1 hy
      exact h.justified_commit transaction
    | rollback => cases hy

/-- **Every episode keeps the reserved topic to envelopes.** -/
theorem Confines.live (h : x.Confines config propagator ps l) (through : a.GoesThrough config propagator) :
    (∃ l', (x.live a).Confines config propagator (ps ++ x.publications a) l') ∧
      ∀ y ∈ x.system.courseFrom (x.events a), ∃ l l', y.1.Confined config propagator (ps ++ x.publications a) l ∧
        (y.1.occur y.2).1.Confined config propagator (ps ++ x.publications a) l' := by
  have hconfined := h.system.mono fun p hp => List.mem_append_left (x.publications a) hp
  obtain ⟨⟨l', hlast⟩, hall⟩ := hconfined.course fun y hy => by
    obtain ⟨hrespects, hwrites⟩ := h.justified through y hy
    exact ⟨hrespects, fun c hcall hanswer topic m hm =>
      (hwrites c hcall hanswer topic m hm).mono fun p hp => List.mem_append_right ps hp⟩
  refine ⟨⟨l', x.system_live a ▸ hlast, fun name q hq => ?_⟩, hall⟩
  -- whatever is put into a transaction stands for what is published in it
  have hput : ∀ transaction postings, (∀ q ∈ postings, q.Stands config propagator) →
      q ∈ (x.put transaction postings).pending name → q.Stands config propagator := by
    intro transaction postings hstands hmem
    unfold put at hmem
    simp only at hmem
    split at hmem
    · exact hstands q hmem
    · exact h.pending name q hmem
  cases a with
  | subscribed | forwarding => exact h.pending name q hq
  | act a =>
    cases a with
    | turn => exact h.pending name q hq
    | publishIn transaction bus context topic messages fate =>
      refine hput transaction _ (fun q hq => ?_) hq
      rcases List.mem_append.1 hq with hbefore | hnew
      · exact h.pending transaction q hbefore
      · exact stands_of_posting? h.system.made (Option.filter_eq_some_iff.1 (Option.mem_toList.1 hnew)).1
    | commit transaction | rollback transaction => exact hput transaction [] (fun q hq => by cases hq) hq

theorem Confines.lives {episodes : List Episode} (h : x.Confines config propagator ps l)
    (through : ∀ a ∈ episodes, a.GoesThrough config propagator) :
    (∃ l', ((x.eventsFrom episodes).foldl (fun s e => (s.occur e).1) x.system).Confined config propagator
        (ps ++ x.publishedFrom episodes) l') ∧
      ∀ y ∈ x.system.courseFrom (x.eventsFrom episodes), ∃ l l',
        y.1.Confined config propagator (ps ++ x.publishedFrom episodes) l ∧
          (y.1.occur y.2).1.Confined config propagator (ps ++ x.publishedFrom episodes) l' := by
  induction episodes generalizing x ps l with
  | nil => exact ⟨⟨l, h.system.mono fun _ hp => List.mem_append_left _ hp⟩, fun y hy => by cases hy⟩
  | cons a rest ih =>
    obtain ⟨⟨l₁, hlive⟩, hnow⟩ := h.live (through a List.mem_cons_self)
    have hrest := ih hlive fun b hb => through b (List.mem_cons_of_mem _ hb)
    unfold eventsFrom publishedFrom
    rw [List.foldl_append, ← system_live, courseFrom_append, ← system_live, ← List.append_assoc]
    refine ⟨hrest.1, fun y hy => ?_⟩
    rcases List.mem_append.1 hy with hy | hy
    · obtain ⟨l, l', hbefore, hafter⟩ := hnow y hy
      exact ⟨l, l', hbefore.mono fun _ hp => List.mem_append_left _ hp,
        hafter.mono fun _ hp => List.mem_append_left _ hp⟩
    · exact hrest.2 y hy

end Exchange

def eventsOf (episodes : List Episode) : List Event := Exchange.start.eventsFrom episodes

/-- What callers publish for good in a run. -/
def publishedIn (episodes : List Episode) : List Publication := Exchange.start.publishedFrom episodes

/-! ## What is told -/

def IsRefusing (s : System) : Prop :=
  ∃ (i : Nat) (m : Member), s.members[i]? = some m ∧ ∃ st k, m.consumer.phase = .working st (.refuse k)

theorem isRefusing_moved {i : Nat} {member : Member} (hm : s.members[i]? = some member)
    {step : Consumer × List Effect} (refuses : Consumer.Refuses step) (rejects : step.2.any Effect.rejects = true) :
    (s.moved i member step).1.IsRefusing := by
  obtain ⟨st, k, hphase⟩ := refuses rejects
  refine ⟨i, { member with consumer := step.1, announced := member.announced || step.2.any isReady }, ?_, st, k, hphase⟩
  show (s.members.set i _)[i]? = _
  rw [List.getElem?_set, if_pos rfl, if_pos (List.getElem?_eq_some_iff.1 hm).1]

theorem isRefusing_answer {i : Nat} {fate : Fate} (rejects : (s.answer i fate).2.any Effect.rejects = true) :
    (s.answer i fate).1.IsRefusing := by
  unfold answer at rejects ⊢
  cases hm : s.members[i]? with
  | none =>
    rw [hm] at rejects
    cases rejects
  | some member =>
    rw [hm] at rejects
    simp only at rejects ⊢
    cases hasks : member.consumer.request? with
    | none =>
      simp only [hasks] at rejects
      cases rejects
    | some request =>
      simp only [hasks] at rejects
      simp only
      rw [List.any_append, rejects_notes, Bool.false_or] at rejects
      refine isRefusing_moved ?_ (Consumer.refuses_answer _ _ _) rejects
      cases fate <;> exact hm

theorem rejects_lookShutdown (b : Bus) (now : Instant) :
    ((b.lookShutdown now).2.map Effect.hook).any Effect.rejects = false := by
  unfold Bus.lookShutdown
  split
  · split
    · rfl
    · split <;> rfl
  · rfl

/-- **Whoever rejects an envelope** refuses the message then. -/
theorem isRefusing_occur (rejects : (s.occur e).2.any Effect.rejects = true) : (s.occur e).1.IsRefusing := by
  have hsilent : ∀ {effects : List Effect}, effects.any Effect.rejects = false → effects.any Effect.rejects = true →
      (s.occur e).1.IsRefusing := fun hnone hsome => by
    rw [hnone] at hsome
    cases hsome
  cases e with
  | subscribed | forwarding => cases rejects
  | turn t =>
    cases t with
    | look i =>
      change (s.look i).2.any Effect.rejects = true at rejects
      show (s.look i).1.IsRefusing
      unfold look at rejects ⊢
      cases hm : s.members[i]? with
      | none =>
        rw [hm] at rejects
        cases rejects
      | some member =>
        rw [hm] at rejects
        exact isRefusing_moved hm (Consumer.refuses_look _ _) rejects
    | answer i fate => exact isRefusing_answer rejects
    | finish i outcome =>
      change (s.finish i outcome).2.any Effect.rejects = true at rejects
      unfold finish at rejects
      split at rejects
      · exact hsilent (Consumer.rejects_finish _ _) rejects
      · cases rejects
    | publish bus context topic messages fate =>
      change (s.publish bus context topic messages fate).2.any Effect.rejects = true at rejects
      unfold publish at rejects
      split at rejects
      · cases rejects
      · split at rejects
        · exact hsilent (rejects_notes _) rejects
        · cases rejects
    | ask fate request => exact hsilent (rejects_notes _) rejects
    | lookShutdown bus =>
      change (s.lookShutdown bus).2.any Effect.rejects = true at rejects
      unfold lookShutdown at rejects
      split at rejects
      case h_1 b _ => exact hsilent (rejects_lookShutdown b s.now) rejects
      case h_2 => cases rejects
    | _ => cases rejects

/-- **What a handler is given** is stored on the topic of its subscription, which is not the reserved one. -/
theorem Confined.given (h : Confined config propagator ps s l) {d : Delivery} (invoked : .invoke d ∈ (s.occur e).2) :
    d.topic ≠ config.forwarderTopic ∧ ∃ m ∈ (s.store.log d.topic).toList, m.message = d.message := by
  cases e with
  | subscribed | forwarding => cases invoked
  | turn t =>
    obtain ⟨i, setup, k, context, work, n, -, hbusy, rfl⟩ := invoke_mem_turn invoked
    obtain ⟨phase, hpost, hjob⟩ := Core.post_of_workAt ((Core.workAt_core s l).symm ▸ hbusy)
    obtain ⟨hrole, -⟩ := (h.sound.phases _ hpost).fits _ hjob
    obtain ⟨⟨-, m, hm, -, hmessage⟩, -⟩ := h.sound.held _ hpost k (Phase.claimed_mem_held hjob)
    have hserves := h.serves _ hpost
    rw [Core.Serves, if_neg hrole] at hserves
    exact ⟨hserves, m, by rwa [h.refines.log], hmessage⟩

/-- **No envelope is rejected**: what forwarders work on are envelopes. -/
theorem Confined.accepts (h : Confined config propagator ps (s.occur e).1 l) :
    (s.occur e).2.any Effect.rejects = false := by
  rw [← Bool.not_eq_true]
  intro hrejects
  obtain ⟨i, member, hmember, st, k, hphase⟩ := isRefusing_occur hrejects
  have hpost := List.mem_of_getElem? (post_of_member (l := l) hmember)
  have hjob : member.consumer.phase.job? = some (.refuse k) := by
    rw [hphase]
    rfl
  obtain ⟨hrole, problem, hproblem⟩ := (h.sound.phases _ hpost).fits _ hjob
  obtain ⟨⟨-, m, hm, -, hmessage⟩, -⟩ := h.sound.held _ hpost k (Phase.claimed_mem_held hjob)
  have hserves := h.serves _ hpost
  rw [Core.Serves, if_pos hrole] at hserves
  have hstored := h.stored config.forwarderTopic m (by
    rw [h.refines.log, ← hserves.1]
    exact hm)
  obtain ⟨-, p, -, -, hunwrap⟩ := hstored.envelope
  rw [hmessage, hproblem] at hunwrap
  cases hunwrap

/-- **The reserved topic is confined.** Take any run, with transactions and tasks that begin late, in which all writes
go through buses of one kind and their forwarders. Then

* whatever is stored on the reserved topic is an envelope of a message that somebody has published on another topic, and
  if the buses have no outbox nothing is;
* whatever is stored on another topic is a message that somebody has published there, stamped;
* handlers are given nothing from the reserved topic, and no envelope is ever rejected. -/
theorem reserved_topic_confined (config : Config) (propagator : Propagator) (episodes : List Episode)
    (through : ∀ a ∈ episodes, a.GoesThrough config propagator) :
    let events := eventsOf episodes
    let log topic := ((outcome events).store.log topic).toList
    (∀ m ∈ log config.forwarderTopic, ∃ p ∈ publishedIn episodes,
      Envelope.unwrap m.message = .ok ⟨p.topic, p.stampedBy propagator⟩ ∧ p.topic ≠ config.forwarderTopic) ∧
    (config.forwarderEnabled = false → log config.forwarderTopic = []) ∧
    (∀ topic, topic ≠ config.forwarderTopic → ∀ m ∈ log topic, ∃ p ∈ publishedIn episodes,
      p.topic = topic ∧ m.message = p.stampedBy propagator) ∧
    ∀ x ∈ course events,
      (∀ d, .invoke d ∈ (x.1.occur x.2).2 → d.topic ≠ config.forwarderTopic ∧
        ∃ m ∈ (x.1.store.log d.topic).toList, m.message = d.message) ∧
      ∀ id problem, .hook (.rejected id problem) ∉ (x.1.occur x.2).2 := by
  obtain ⟨⟨l, hlast⟩, hall⟩ := (Exchange.confines_start config propagator).lives through
  rw [List.nil_append] at hlast hall
  refine ⟨fun m hm => ?_, fun direct => ?_, fun topic free m hm => (hlast.stored topic m hm).stamped free,
    fun x hx => ?_⟩
  · obtain ⟨-, p, hp, hfree, hunwrap⟩ := (hlast.stored _ m hm).envelope
    exact ⟨p, hp, hunwrap, hfree⟩
  · refine List.eq_nil_iff_forall_not_mem.2 fun m hm => ?_
    obtain ⟨houtbox, -⟩ := (hlast.stored _ m hm).envelope
    rw [direct] at houtbox
    cases houtbox
  · obtain ⟨l, l', hbefore, hafter⟩ := hall x hx
    refine ⟨fun d hd => hbefore.given hd, fun id problem hrejects => ?_⟩
    have haccepts := hafter.accepts
    rw [List.any_eq_false] at haccepts
    exact haccepts _ hrejects rfl

/-- A message whose payload is an envelope for the reserved topic. -/
def forgery : Message := (Envelope.mk "_forwarder_queue" (.new (.ofNat 5) [1])).wrap (.ofNat 7)

/-- The forgery is published as an order. It is also published on the reserved topic, which is refused, and within a
transaction on a topic with a similar name. The order is passed on and handed to a subscriber who joins late. -/
def forgedOrder : List Episode :=
  [.act (.turn (.addBus outboxConfig .w3c)), .act (.turn (.publish 0 none "orders" [forgery] .performed)),
    .act (.turn (.publish 0 none "_forwarder_queue" [forgery] .performed)),
    .act (.publishIn "tx" 0 none "_forwarder_queue " [forgery] .performed), .act (.commit "tx"),
    .act (.turn (.startForwarder 0 "main")), .subscribed 0 "orders" (.named "billing") 0,
    .act (.turn (.look 0)), .act (.turn (.look 0)), .act (.turn (.look 0)), .act (.turn (.look 0)),
    .act (.turn (.answer 0 .performed)), .act (.turn (.look 0)), .act (.turn (.answer 0 .performed)),
    .act (.turn (.answer 0 .performed)), .act (.turn (.look 1)), .act (.turn (.look 1)), .act (.turn (.look 1)),
    .act (.turn (.look 1)), .act (.turn (.answer 1 .performed)), .act (.turn (.look 1))]

/-- Two envelopes are on the reserved topic, and the handler is given the forgery as the order that it was published
as. -/
theorem reserved_topic_confined_forgedOrder :
    (∀ a ∈ forgedOrder, a.GoesThrough outboxConfig .w3c) ∧
      ((outcome (eventsOf forgedOrder)).store.log "_forwarder_queue").size = 2 ∧
      (∀ m ∈ ((outcome (eventsOf forgedOrder)).store.log "_forwarder_queue").toList, ∃ p ∈ publishedIn forgedOrder,
        Envelope.unwrap m.message = .ok ⟨p.topic, p.stampedBy .w3c⟩ ∧ p.topic ≠ "_forwarder_queue") ∧
      ∃ x ∈ course (eventsOf forgedOrder), ∃ d, .invoke d ∈ (x.1.occur x.2).2 ∧ d.message = forgery ∧
        d.topic ≠ "_forwarder_queue" := by
  have hthrough : ∀ a ∈ forgedOrder, a.GoesThrough outboxConfig .w3c := by
    unfold forgedOrder
    simp only [List.forall_mem_cons, Episode.GoesThrough, outboxConfig, and_self, true_and]
    exact ⟨by decide, fun _ h => by cases h⟩
  have hinvoked : ((course (eventsOf forgedOrder)).any fun x =>
      (x.1.occur x.2).2.any (Effect.invokes fun d => d.message = forgery)) = true := by decide +kernel
  obtain ⟨henvelopes, -, -, htold⟩ := reserved_topic_confined outboxConfig .w3c forgedOrder hthrough
  obtain ⟨x, hx, heffects⟩ := List.any_eq_true.1 hinvoked
  obtain ⟨effect, heffect, hmessage⟩ := List.any_eq_true.1 heffects
  cases effect with
  | invoke d =>
    exact ⟨hthrough, by decide +kernel, henvelopes, x, hx, d, heffect, of_decide_eq_true hmessage,
      ((htold x hx).1 d heffect).1⟩
  | _ => cases hmessage

end System

end DurableBus
