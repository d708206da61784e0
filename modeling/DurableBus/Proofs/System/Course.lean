import DurableBus.Proofs.Consumer.Parting
import DurableBus.Proofs.Store.Groups
import DurableBus.Proofs.System.Equipment
import DurableBus.Proofs.System.Exclusive
import DurableBus.Proofs.System.Transactions

/-!
# Courses

A subscription or a start of the forwarder is permitted first and begins its task some time after, when its bus may have
been told to shut down already. A course is a list of events: turns of the system, and tasks that begin late.

* `outcome`, `course` : the system after a course, and its events with the system that each of them finds;
* `store_occur` : an event has the store do one thing at most;
* `follows_occur` : what an event does to the core;
* `recasts_occur` : an event moves one member at most, or starts one;
* `bus_occur` : what an event does to a bus that shuts down.
-/

set_option autoImplicit false

namespace DurableBus

open Consumer (Setup)
open Store (Call)

namespace System

/-- Something that happens. -/
inductive Event
  | turn (t : Turn)
  /-- A subscription begins that has been permitted before. -/
  | subscribed (bus : Nat) (topic : String) (group : Group) (head : Int)
  /-- A forwarder begins whose start has been permitted before. -/
  | forwarding (bus : Nat) (caller : String)
deriving Repr

def occur (s : System) : Event → System × List Effect
  | .turn t => s.turn t
  | .subscribed bus topic group head => (s.subscribe bus topic group head, [])
  | .forwarding bus caller => (s.startForwarder bus caller, [])

def outcome (events : List Event) : System := events.foldl (fun s e => (s.occur e).1) start

/-- Events from some point on, each with the system that it finds. -/
def courseFrom : System → List Event → List (System × Event)
  | _, [] => []
  | s, e :: rest => (s, e) :: courseFrom (s.occur e).1 rest

/-- The events of a course, each with the system that it finds. -/
def course (events : List Event) : List (System × Event) := courseFrom start events

theorem outcome_concat (events : List Event) (e : Event) :
    outcome (events ++ [e]) = ((outcome events).occur e).1 := by
  unfold outcome
  rw [List.foldl_append]
  rfl

theorem courseFrom_append (s : System) (events events' : List Event) :
    s.courseFrom (events ++ events') =
      s.courseFrom events ++ (events.foldl (fun s e => (s.occur e).1) s).courseFrom events' := by
  induction events generalizing s with
  | nil => rfl
  | cons e rest ih => exact congrArg ((s, e) :: ·) (ih (s.occur e).1)

theorem course_append (events events' : List Event) :
    course (events ++ events') = course events ++ (outcome events).courseFrom events' :=
  courseFrom_append start events events'

theorem course_concat (events : List Event) (e : Event) :
    course (events ++ [e]) = course events ++ [(outcome events, e)] :=
  course_append events [e]

theorem courseFrom_concat (events events' : List Event) (e : Event) :
    (outcome events).courseFrom (events' ++ [e]) =
      (outcome events).courseFrom events' ++ [(outcome (events ++ events'), e)] := by
  rw [courseFrom_append]
  unfold outcome
  rw [List.foldl_append]
  rfl

theorem mem_of_mem_courseFrom {s : System} {events : List Event} {x : System × Event} (h : x ∈ s.courseFrom events) :
    x.2 ∈ events := by
  induction events generalizing s with
  | nil => cases h
  | cons e rest ih =>
    rcases List.mem_cons.1 h with rfl | h
    · exact List.mem_cons_self
    · exact List.mem_cons_of_mem _ (ih h)

theorem mem_course {events : List Event} {x : System × Event} (h : x ∈ course events) :
    ∃ before after, events = before ++ x.2 :: after ∧ x.1 = outcome before := by
  induction events using List.reverseRecOn with
  | nil => cases h
  | append_singleton events e ih =>
    rw [course_concat] at h
    rcases List.mem_append.1 h with h | h
    · obtain ⟨before, after, hevents, hx⟩ := ih h
      exact ⟨before, after ++ [e], by rw [hevents, List.append_assoc, List.cons_append], hx⟩
    · rw [List.mem_singleton.1 h]
      exact ⟨events, [], rfl, rfl⟩

/-! ## The store -/

def call? (s : System) : Event → Option Call
  | .turn (.answer i .performed) => (s.requestAt i).map fun request => ⟨s.now, .drawn s.drawn, .request request⟩
  | .turn (.ask .performed request) => some ⟨s.now, .drawn s.drawn, .request request⟩
  | .turn (.publish bus context topic messages .performed) =>
    (s.posting? bus context topic messages).map fun p =>
      ⟨s.now, .drawn (s.drawn + p.written.length), .request (.enqueue p.target p.written)⟩
  | .turn (.commit staged) => some ⟨s.now, .drawn s.drawn, .commit staged⟩
  | .turn (.answerShutdown _ .performed) => some ⟨s.now, .drawn s.drawn, .request .close⟩
  | _ => none

def storeAfter (s : System) (e : Event) : InMemory := ((s.call? e).map fun c => (s.store.call c).1).getD s.store

theorem store_subscribe (s : System) (bus : Nat) (topic : String) (group : Group) (head : Int) :
    (s.subscribe bus topic group head).store = s.store := by
  unfold subscribe
  split
  · rfl
  · split <;> rfl

/-- **An event has the store do one thing at most.** -/
theorem store_occur (s : System) (e : Event) : (s.occur e).1.store = s.storeAfter e := by
  cases e with
  | subscribed bus topic group head => exact store_subscribe s bus topic group head
  | forwarding bus caller => exact store_startForwarder s bus caller
  | turn t =>
    cases t with
    | look i =>
      show (s.look i).1.store = s.store
      unfold look
      split <;> rfl
    | finish i outcome =>
      show (s.finish i outcome).1.store = s.store
      unfold finish
      split <;> rfl
    | receive i =>
      show (s.receive i).1.store = s.store
      unfold receive
      split <;> rfl
    | lookLink j => exact store_lookLink s j
    | fire token =>
      show (s.fire token).store = s.store
      unfold fire
      split <;> rfl
    | subscribe bus topic group head =>
      show (ite _ _ _ : System).store = s.store
      split
      · exact store_subscribe s bus topic group head
      · rfl
    | startForwarder bus caller =>
      show (ite _ _ _ : System).store = s.store
      split
      · exact store_startForwarder s bus caller
      · rfl
    | publish bus context topic messages fate =>
      show (s.publish bus context topic messages fate).1.store = _
      rw [publish_of_posting?]
      unfold storeAfter call?
      cases fate <;> simp only <;> cases s.posting? bus context topic messages <;> rfl
    | commit staged =>
      show (s.commit staged).1.store = (s.store.call _).1
      unfold commit InMemory.call
      simp only
      cases s.store.commit s.now staged <;> rfl
    | answer i fate =>
      show (s.answer i fate).1.store = _
      have hcall : s.call? (.turn (.answer i .performed)) =
          (s.members[i]?.bind (·.consumer.request?)).map fun request => ⟨s.now, .drawn s.drawn, .request request⟩ := rfl
      unfold answer storeAfter
      cases fate with
      | rejected =>
        split
        · split <;> rfl
        · rfl
      | performed =>
        rw [hcall]
        cases s.members[i]? with
        | none => rfl
        | some m =>
          rw [Option.bind_some]
          cases hasks : m.consumer.request? with
          | none =>
            simp only [hasks]
            rfl
          | some request =>
            simp only [hasks]
            rfl
    | ask fate request => cases fate <;> rfl
    | answerShutdown bus fate => cases fate <;> rfl
    | lookShutdown bus =>
      show (s.lookShutdown bus).1.store = s.store
      unfold lookShutdown
      split <;> rfl
    | abandon | wait | draw | addBus | beginShutdown => rfl

/-- Who has the store carry out a request, but to write messages or to be closed: a member, or a caller. -/
theorem asker_of_call? {s : System} {e : Event} {c : Call} (hcall : s.call? e = some c) {request : Store.Request}
    (asked : c.action = .request request) (writes : request.operation ≠ .enqueue) (closes : request ≠ .close) :
    (∃ i, e = .turn (.answer i .performed) ∧ s.requestAt i = some request) ∨ e = .turn (.ask .performed request) := by
  unfold call? at hcall
  split at hcall
  case h_1 i =>
    obtain ⟨request', hrequest, rfl⟩ := Option.map_eq_some_iff.1 hcall
    obtain rfl : request' = request := Store.Action.request.inj asked
    exact Or.inl ⟨i, rfl, hrequest⟩
  case h_2 request' =>
    obtain rfl := Option.some.inj hcall
    obtain rfl : request' = request := Store.Action.request.inj asked
    exact Or.inr rfl
  case h_3 =>
    obtain ⟨p, -, rfl⟩ := Option.map_eq_some_iff.1 hcall
    obtain rfl := Store.Action.request.inj asked
    exact absurd rfl writes
  case h_4 =>
    obtain rfl := Option.some.inj hcall
    cases asked
  case h_5 =>
    obtain rfl := Option.some.inj hcall
    exact absurd (Store.Action.request.inj asked).symm closes
  case h_6 => cases hcall

theorem claims_of_call? {s : System} {e : Event} {c : Call} (hcall : s.call? e = some c) {q : ClaimRequest}
    (claims : c.action = .request (.claim q)) :
    c.token = .drawn s.drawn ∧ (s.occur e).1.drawn = s.drawn + 1 ∧
      ((∃ i, e = .turn (.answer i .performed) ∧ s.requestAt i = some (.claim q)) ∨
        e = .turn (.ask .performed (.claim q))) := by
  rcases asker_of_call? hcall claims (by rintro ⟨⟩) (by rintro ⟨⟩) with ⟨i, rfl, hrequest⟩ | rfl
  · obtain ⟨request, -, rfl⟩ := Option.map_eq_some_iff.1 hcall
    refine ⟨rfl, ?_, Or.inl ⟨i, rfl, hrequest⟩⟩
    unfold requestAt at hrequest
    obtain ⟨m, hm, hasks⟩ := Option.bind_eq_some_iff.1 hrequest
    show (s.answer i .performed).1.drawn = _
    unfold answer
    rw [hm]
    simp only [hasks]
    rfl
  · obtain rfl := Option.some.inj hcall
    exact ⟨rfl, rfl, Or.inr rfl⟩

theorem drawn_subscribe (s : System) (bus : Nat) (topic : String) (group : Group) (head : Int) :
    s.drawn ≤ (s.subscribe bus topic group head).drawn := by
  unfold subscribe
  split
  · exact Nat.le_refl _
  · split
    · exact Nat.le_refl _
    · exact Nat.le_succ _

theorem drawn_occur {s : System} {l : Ledger} (h : s.store.Refines l) (e : Event) :
    s.drawn ≤ (s.occur e).1.drawn := by
  cases e with
  | turn t =>
    obtain ⟨l', -, hstep⟩ := step_turn h t
    exact hstep.drawn_le
  | subscribed bus topic group head => exact drawn_subscribe s bus topic group head
  | forwarding bus caller =>
    show s.drawn ≤ (s.startForwarder bus caller).drawn
    unfold startForwarder
    split <;> exact Nat.le_refl _

theorem now_subscribe (s : System) (bus : Nat) (topic : String) (group : Group) (head : Int) :
    (s.subscribe bus topic group head).now = s.now := by
  unfold subscribe
  split
  · rfl
  · split <;> rfl

theorem now_occur {s : System} {l : Ledger} (h : s.store.Refines l) (e : Event) : s.now ≤ (s.occur e).1.now := by
  cases e with
  | turn t =>
    obtain ⟨l', -, hstep⟩ := step_turn h t
    exact hstep.now_le
  | subscribed bus topic group head => exact Nat.le_of_eq (now_subscribe s bus topic group head).symm
  | forwarding bus caller =>
    show s.now ≤ (s.startForwarder bus caller).now
    unfold startForwarder
    split <;> exact Nat.le_refl _

theorem opened_call {store : InMemory} {l : Ledger} (h : store.Refines l) (opened : store.closed = false) {c : Call}
    (hclose : c.action ≠ .request .close) : (store.call c).1.closed = false := by
  have hopened : l.closed = false := h.closed.symm.trans opened
  rw [(h.call c).1.closed]
  obtain ⟨now, token, action⟩ := c
  cases action with
  | request request => exact Ledger.opened_perform hopened fun hsame => hclose (congrArg _ hsame)
  | commit staged =>
    unfold Ledger.call
    cases hcommit : l.commit now staged with
    | ok l' =>
      simp only [hcommit]
      exact (l.extends_commit hcommit).2.2.trans hopened
    | error e =>
      simp only [hcommit]
      exact hopened

def callsOf (events : List Event) : List Call := (course events).filterMap fun x => x.1.call? x.2

/-- The ledger that the store stands for after a course. -/
def ledgerOf (events : List Event) : Ledger := (Ledger.run (callsOf events)).1

theorem callsOf_concat (events : List Event) (e : Event) :
    callsOf (events ++ [e]) = callsOf events ++ ((outcome events).call? e).toList := by
  unfold callsOf
  rw [course_concat, List.filterMap_append]
  cases hcall : (outcome events).call? e <;> simp [hcall]

theorem store_outcome (events : List Event) : (outcome events).store = (InMemory.run (callsOf events)).1 := by
  induction events using List.reverseRecOn with
  | nil => rfl
  | append_singleton events e ih =>
    rw [outcome_concat, store_occur, callsOf_concat, storeAfter]
    cases (outcome events).call? e with
    | none =>
      rw [Option.toList_none, List.append_nil]
      exact ih
    | some c =>
      rw [Option.toList_some, InMemory.run_concat, ← ih]
      rfl

theorem refines_outcome (events : List Event) : (outcome events).store.Refines (ledgerOf events) := by
  rw [store_outcome]
  exact InMemory.refines_run _

theorem now_append (before after : List Event) : (outcome before).now ≤ (outcome (before ++ after)).now := by
  induction after using List.reverseRecOn with
  | nil => exact Nat.le_of_eq (by rw [List.append_nil])
  | append_singleton after e ih =>
    rw [← List.append_assoc, outcome_concat]
    exact Nat.le_trans ih (now_occur (refines_outcome _) e)

theorem trail_callsOf (events : List Event) :
    InMemory.trail (callsOf events) =
      (course events).filterMap fun x => (x.1.call? x.2).map fun c => (x.1.store, c) := by
  induction events using List.reverseRecOn with
  | nil => rfl
  | append_singleton events e ih =>
    rw [callsOf_concat, course_concat, List.filterMap_append, ← ih]
    cases hcall : (outcome events).call? e with
    | none => simp [hcall]
    | some c =>
      rw [Option.toList_some, InMemory.trail_concat, ← store_outcome]
      simp [hcall]

/-- What is stored in a course stays stored. -/
theorem extends_outcome (before after : List Event) : (ledgerOf before).Extends (ledgerOf (before ++ after)) := by
  have hcalls : callsOf (before ++ after) =
      callsOf before ++ ((outcome before).courseFrom after).filterMap fun x => x.1.call? x.2 := by
    unfold callsOf
    rw [course_append, List.filterMap_append]
  unfold ledgerOf Ledger.run
  rw [hcalls, Store.play_append]
  exact Ledger.extends_play _ _

/-! ## Cores -/

namespace Core

/-- What an event may do to the core: it is a turn, or somebody joins who has been permitted to before. -/
inductive Follows (c : Core) : Event → Core → Prop
  | still {e} : Follows c e c
  | turned {t c'} (step : Step c t c') : Follows c (.turn t) c'
  | subscribed {bus topic group head ephemeral name after settings drawn} (more : c.drawn ≤ drawn) :
      Follows c (.subscribed bus topic group head)
        { c with drawn, posts := c.posts ++ [(⟨.subscriber ephemeral, topic, name, after, settings⟩, .starting)] }
  | forwarding {bus caller settings config} (known : config ∈ c.configs) :
      Follows c (.forwarding bus caller)
        { c with posts := c.posts ++
          [(⟨.forwarder, config.forwarderTopic, config.forwarderGroup, 0, settings⟩, .starting)] }

theorem Sound.follows {c c' : Core} (h : c.Sound) {e : Event} (follows : Follows c e c') : c'.Sound := by
  cases follows with
  | still => exact h
  | turned step => exact h.step step
  | subscribed more => exact (h.joined _).grow rfl more rfl
  | forwarding known => exact h.joined _

end Core

/-- **What an event does to the core.** -/
theorem follows_occur {s : System} {l : Ledger} (h : s.store.Refines l) (e : Event) :
    ∃ l', (s.occur e).1.store.Refines l' ∧ Core.Follows (s.core l) e ((s.occur e).1.core l') := by
  cases e with
  | turn t =>
    obtain ⟨l', hrefines, hstep⟩ := step_turn h t
    exact ⟨l', hrefines, .turned hstep⟩
  | subscribed bus topic group head =>
    refine ⟨l, (store_subscribe s bus topic group head).symm ▸ h, ?_⟩
    show Core.Follows _ _ ((s.subscribe bus topic group head).core l)
    unfold subscribe
    split
    · exact .still
    · split
      · rw [core_spawn]
        exact .subscribed (Nat.le_refl _)
      · rw [core_spawn]
        exact .subscribed (Nat.le_succ _)
  | forwarding bus caller =>
    refine ⟨l, (store_startForwarder s bus caller).symm ▸ h, ?_⟩
    show Core.Follows _ _ ((s.startForwarder bus caller).core l)
    cases hbus : s.buses[bus]? with
    | none =>
      unfold startForwarder
      rw [hbus]
      exact .still
    | some b =>
      rw [core_startForwarder hbus]
      exact .forwarding (mem_configs hbus)

/-- What every event keeps of a core, a course keeps. -/
theorem outcome_induction {inv : Core → Prop} (base : inv Core.start)
    (keeps : ∀ c e c', inv c → Core.Follows c e c' → inv c') (events : List Event) :
    ∃ l, (outcome events).store.Refines l ∧ inv ((outcome events).core l) := by
  induction events using List.reverseRecOn with
  | nil => exact ⟨.empty, InMemory.refines_empty, base⟩
  | append_singleton events e ih =>
    obtain ⟨l, hrefines, hinv⟩ := ih
    obtain ⟨l', hrefines', hfollows⟩ := follows_occur hrefines e
    rw [outcome_concat]
    exact ⟨l', hrefines', keeps _ _ _ hinv hfollows⟩

/-! ## Members -/

/-- The group of a broadcast subscription. -/
def broadcastGroup (u : Uuid) : String := "broadcast-" ++ u.text

/-- A member as a consumer with its token. -/
def loop (s : System) (m : Member) : Loop := ⟨m.consumer, s.isCancelled m⟩

/-- What happens to a member in an event of its own. -/
inductive Drives (s : System) (i : Nat) (m : Member) : Event → Beat → Prop
  | look {publisher} : Drives s i m (.turn (.look i)) (.look s.now publisher)
  | finish {outcome} : Drives s i m (.turn (.finish i outcome)) (.finish outcome)
  | answer {fate request publisher} (asks : m.consumer.request? = some request) :
      Drives s i m (.turn (.answer i fate)) (.answer s.now publisher (s.ask fate request).2.1)

/-- How a member is found after an event. -/
structure Succeeds (s : System) (e : Event) (i : Nat) (m m' : Member) : Prop where
  bus : m'.bus = m.bus
  setup : m'.consumer.setup = m.consumer.setup
  stopped : m.stopped = true → m'.stopped = true
  phase : m'.consumer.phase = m.consumer.phase ∨
    ∃ b, Drives s i m e b ∧ m'.consumer.phase = ((s.loop m).step b).phase

/-- How a member joins. -/
inductive Joins (s : System) : Event → Setup → Prop
  | named {e bus topic name head settings}
      (permitted : e = .turn (.subscribe bus topic (.named name) head) ∨ e = .subscribed bus topic (.named name) head) :
      Joins s e ⟨.subscriber false, topic, name, 0, settings⟩
  | broadcast {e topic head settings} (drawn : (s.occur e).1.drawn = s.drawn + 1) :
      Joins s e ⟨.subscriber true, topic, broadcastGroup (.drawn s.drawn), head, settings⟩
  | forwarder {e bus caller b} (permitted : e = .turn (.startForwarder bus caller) ∨ e = .forwarding bus caller)
      (known : s.buses[bus]? = some b) : Joins s e b.forwarder

/-- What an event makes of the members: one of them moves, or one joins behind all others. -/
structure Recasts (s : System) (e : Event) (members : List Member) : Prop where
  old : ∀ i m, s.members[i]? = some m → ∃ m', members[i]? = some m' ∧ Succeeds s e i m m'
  new : ∀ i m', members[i]? = some m' → s.members[i]? = none →
    i = s.members.length ∧ Joins s e m'.consumer.setup ∧ m'.consumer.phase = .starting

variable {s : System} {e : Event}

theorem Drives.fired {i : Nat} {m : Member} {b : Beat} (h : Drives s i m e b) :
    ((s.loop m).step b).fired = (s.loop m).fired := by
  cases h with
  | look | finish => rfl
  | answer =>
    unfold Loop.step
    simp only
    split <;> rfl

theorem Succeeds.refl (i : Nat) (m : Member) : Succeeds s e i m m := ⟨rfl, rfl, fun h => h, Or.inl rfl⟩

theorem Recasts.refl : Recasts s e s.members where
  old i m hm := ⟨m, hm, .refl i m⟩
  new i m' hm' hnone := by
    rw [hnone] at hm'
    cases hm'

theorem Recasts.set {i : Nat} {m m' : Member} (hm : s.members[i]? = some m) (succeeds : Succeeds s e i m m') :
    Recasts s e (s.members.set i m') where
  old j n hn := by
    obtain ⟨hj, -⟩ := List.getElem?_eq_some_iff.1 hn
    rw [List.getElem?_set]
    split
    case isTrue hij =>
      subst hij
      obtain rfl := Option.some.inj (hm.symm.trans hn)
      exact ⟨m', if_pos hj, succeeds⟩
    case isFalse => exact ⟨n, hn, .refl j n⟩
  new j n hn hnone := by
    rw [List.getElem?_eq_none_iff] at hnone
    obtain ⟨hj, -⟩ := List.getElem?_eq_some_iff.1 hn
    rw [List.length_set] at hj
    omega

theorem Recasts.modify (i : Nat) {f : Member → Member} (succeeds : ∀ m, Succeeds s e i m (f m)) :
    Recasts s e (s.members.modify i f) where
  old j n hn := by
    rw [List.getElem?_modify, hn]
    by_cases hij : i = j
    · exact ⟨f n, by simp [hij], hij ▸ succeeds n⟩
    · exact ⟨n, by simp [hij], .refl j n⟩
  new j n hn hnone := by
    rw [List.getElem?_modify, hnone] at hn
    cases hn

theorem Recasts.joined {m : Member} (joins : Joins s e m.consumer.setup) (starts : m.consumer.phase = .starting) :
    Recasts s e (s.members ++ [m]) where
  old j n hn := by
    refine ⟨n, ?_, .refl j n⟩
    rwa [List.getElem?_append_left (List.getElem?_eq_some_iff.1 hn).1]
  new j n hn hnone := by
    rw [List.getElem?_eq_none_iff] at hnone
    rw [List.getElem?_append_right hnone] at hn
    obtain ⟨hj, rfl⟩ := List.getElem?_eq_some_iff.1 hn
    rw [List.length_singleton] at hj
    refine ⟨by omega, ?_⟩
    simp only [List.getElem_singleton]
    exact ⟨joins, starts⟩

theorem recasts_subscribe {bus : Nat} {topic : String} {group : Group} {head : Int}
    (occurs : (s.occur e).1 = s.subscribe bus topic group head)
    (permitted : e = .turn (.subscribe bus topic group head) ∨ e = .subscribed bus topic group head) :
    Recasts s e (s.occur e).1.members := by
  have hjoins : ∀ {name}, group = .named name → ∀ settings : ConsumerSettings,
      Joins s e ⟨.subscriber false, topic, name, 0, settings⟩ := by
    rintro name rfl settings
    exact .named permitted
  rw [occurs]
  unfold subscribe
  cases hb : s.buses[bus]? with
  | none => exact .refl
  | some b =>
    cases group with
    | named name => exact .joined (hjoins rfl _) rfl
    | broadcast =>
      refine .joined (.broadcast ?_) rfl
      rw [occurs]
      unfold subscribe
      rw [hb]
      rfl

theorem recasts_startForwarder {bus : Nat} {caller : String} (occurs : (s.occur e).1 = s.startForwarder bus caller)
    (permitted : e = .turn (.startForwarder bus caller) ∨ e = .forwarding bus caller) :
    Recasts s e (s.occur e).1.members := by
  rw [occurs]
  unfold startForwarder
  cases hb : s.buses[bus]? with
  | none => exact .refl
  | some b => exact .joined (.forwarder permitted hb) rfl

theorem recasts_moved {i : Nat} {m : Member} (hm : s.members[i]? = some m) {b : Beat} (drives : Drives s i m e b)
    {c : Consumer} (setup : c.setup = m.consumer.setup) (phase : c.phase = ((s.loop m).step b).phase)
    (announced : Bool) : Recasts s e (s.members.set i { m with consumer := c, announced }) :=
  .set hm ⟨rfl, setup, fun h => h, Or.inr ⟨b, drives, phase⟩⟩

/-- What an answer makes of the members. -/
theorem members_answer {i : Nat} {m : Member} (hm : s.members[i]? = some m) {request : Store.Request}
    (asks : m.consumer.request? = some request) (fate : Fate) :
    ∃ c announced, (s.answer i fate).1.members = s.members.set i { m with consumer := c, announced } ∧
      c.setup = m.consumer.setup ∧ c.phase =
        ((s.loop m).step (.answer s.now (s.observe m).publisher (s.ask fate request).2.1)).phase := by
  have hphase : ∀ s₁ : System, s₁.now = s.now → s₁.buses = s.buses →
      (m.consumer.answer (s₁.observe m) (s.ask fate request).2.1).1.phase =
        ((s.loop m).step (.answer s.now (s.observe m).publisher (s.ask fate request).2.1)).phase := by
    intro s₁ hnow hbuses
    have hobserve : s₁.observe m = s.observe m := by
      unfold observe isCancelled isShutDown
      rw [hnow, hbuses]
    unfold Loop.step
    simp only [loop, asks, Option.isSome_some, if_true]
    rw [hobserve]
    rfl
  unfold answer
  rw [hm]
  simp only [asks]
  cases fate with
  | performed => exact ⟨_, _, rfl, Consumer.setup_answer _ _ _, hphase _ rfl rfl⟩
  | rejected => exact ⟨_, _, rfl, Consumer.setup_answer _ _ _, hphase _ rfl rfl⟩

theorem recasts_answer (s : System) (i : Nat) (fate : Fate) :
    Recasts s (.turn (.answer i fate)) (s.answer i fate).1.members := by
  cases hm : s.members[i]? with
  | none =>
    unfold answer
    rw [hm]
    exact .refl
  | some m =>
    cases asks : m.consumer.request? with
    | none =>
      unfold answer
      rw [hm]
      simp only [asks]
      exact .refl
    | some request =>
      obtain ⟨c, announced, hmembers, hsetup, hphase⟩ := members_answer hm asks fate
      rw [hmembers]
      exact recasts_moved hm (.answer asks) hsetup hphase announced

/-- **An event moves one member at most, or starts one.** -/
theorem recasts_occur (s : System) (e : Event) : Recasts s e (s.occur e).1.members := by
  cases e with
  | subscribed bus topic group head => exact recasts_subscribe rfl (Or.inr rfl)
  | forwarding bus caller => exact recasts_startForwarder rfl (Or.inr rfl)
  | turn t =>
    cases t with
    | look i =>
      show Recasts _ _ (s.look i).1.members
      unfold look
      cases hm : s.members[i]? with
      | none => exact .refl
      | some m => exact recasts_moved hm .look (Consumer.setup_look _ _) rfl _
    | answer i fate => exact recasts_answer s i fate
    | finish i outcome =>
      show Recasts _ _ (s.finish i outcome).1.members
      unfold finish
      cases hm : s.members[i]? with
      | none => exact .refl
      | some m => exact recasts_moved hm .finish (Consumer.setup_finish _ _) rfl _
    | receive i =>
      show Recasts _ _ (s.receive i).1.members
      unfold receive
      split
      · exact .modify i fun m => ⟨rfl, rfl, fun h => h, Or.inl rfl⟩
      · exact .refl
    | abandon i => exact .modify i fun m => ⟨rfl, rfl, fun h => h, Or.inl rfl⟩
    | lookLink j =>
      show Recasts _ _ (s.lookLink j).members
      unfold lookLink
      split
      case h_1 l _ =>
        split
        · exact .refl
        · split
          · exact .modify l.member fun m => ⟨rfl, rfl, fun _ => rfl, Or.inl rfl⟩
          · split <;> exact .refl
      case h_2 => exact .refl
    | fire token =>
      show Recasts _ _ (s.fire token).members
      unfold fire
      split <;> exact .refl
    | subscribe bus topic group head =>
      by_cases permitted : (s.buses[bus]?.any fun b => (b.permit topic).isOk) = true
      · exact recasts_subscribe (if_pos permitted) (Or.inl rfl)
      · show Recasts _ _ (ite _ _ _ : System).members
        rw [if_neg permitted]
        exact .refl
    | startForwarder bus caller =>
      by_cases permitted : (s.buses[bus]?.any fun b => b.permitForwarder.isOk) = true
      · exact recasts_startForwarder (if_pos permitted) (Or.inl rfl)
      · show Recasts _ _ (ite _ _ _ : System).members
        rw [if_neg permitted]
        exact .refl
    | publish bus context topic messages fate =>
      show Recasts _ _ (s.publish bus context topic messages fate).1.members
      rw [publish_of_posting?]
      cases s.posting? bus context topic messages with
      | none => exact .refl
      | some p => cases fate <;> exact .refl
    | commit staged =>
      show Recasts _ _ (s.commit staged).1.members
      unfold commit
      split <;> exact .refl
    | ask fate request => cases fate <;> exact .refl
    | answerShutdown bus fate => cases fate <;> exact .refl
    | lookShutdown bus =>
      show Recasts _ _ (s.lookShutdown bus).1.members
      unfold lookShutdown
      split <;> exact .refl
    | wait | draw | addBus | beginShutdown => exact .refl

theorem old_or_new {i : Nat} {m' : Member} (hm' : (s.occur e).1.members[i]? = some m') :
    (∃ m, s.members[i]? = some m ∧ Succeeds s e i m m') ∨
      i = s.members.length ∧ Joins s e m'.consumer.setup ∧ m'.consumer.phase = .starting := by
  cases hm : s.members[i]? with
  | none => exact Or.inr ((recasts_occur s e).new i m' hm' hm)
  | some m =>
    obtain ⟨_, hsome, hsucceeds⟩ := (recasts_occur s e).old i m hm
    obtain rfl := Option.some.inj (hm'.symm.trans hsome)
    exact Or.inl ⟨m, rfl, hsucceeds⟩

theorem member_append {before : List Event} {i : Nat} {m : Member} (hm : (outcome before).members[i]? = some m)
    (after : List Event) : ∃ m', (outcome (before ++ after)).members[i]? = some m' ∧ m'.bus = m.bus ∧
      m'.consumer.setup = m.consumer.setup := by
  induction after using List.reverseRecOn with
  | nil =>
    rw [List.append_nil]
    exact ⟨m, hm, rfl, rfl⟩
  | append_singleton after e ih =>
    obtain ⟨m', hm', hbus, hsetup⟩ := ih
    obtain ⟨m'', hm'', hsucceeds⟩ := (recasts_occur _ e).old i m' hm'
    rw [← List.append_assoc, outcome_concat]
    exact ⟨m'', hm'', hsucceeds.bus.trans hbus, hsucceeds.setup.trans hsetup⟩

/-! ## Buses -/

/-- How a bus is found after an event, but for what the event does to it. It is noted whether it is without tasks. -/
structure Keeps (s' : System) (bus : Nat) (b b' : Bus) : Prop where
  shutdown : b'.shutdown = b.shutdown
  publisher : b'.publisher = b.publisher
  config : b'.config = b.config
  drained : b.drained = true → b'.drained = true
  noted : b'.drained = true → b.drained = true ∨ b.isShutDown = true ∧ s'.hasTask bus = false

/-- The bus whose shutdown an event moves on. -/
def Event.shuts? : Event → Option Nat
  | .turn (.beginShutdown i) | .turn (.lookShutdown i) | .turn (.answerShutdown i _) => some i
  | _ => none

/-- What an event does to a bus. -/
inductive Shifts (s : System) (bus : Nat) : Event → Bus → Bus → Prop
  | stays {e b} (other : e.shuts? ≠ some bus) : Shifts s bus e b b
  | begins {b} : Shifts s bus (.turn (.beginShutdown bus)) b (b.beginShutdown s.now)
  | looks {b} : Shifts s bus (.turn (.lookShutdown bus)) b (b.lookShutdown s.now).1
  | answers {fate b} :
      Shifts s bus (.turn (.answerShutdown bus fate)) b (b.answerShutdown (s.ask fate .close).2.1)

/-- A bus after an event. -/
def Leads (s : System) (bus : Nat) (e : Event) (b : Bus) (s' : System) : Prop :=
  ∃ b₁ b', Shifts s bus e b b₁ ∧ s'.buses[bus]? = some b' ∧ Keeps s' bus b₁ b'

variable {bus : Nat} {b : Bus} {s' : System}

theorem Keeps.refl (s' : System) (bus : Nat) (b : Bus) : Keeps s' bus b b := ⟨rfl, rfl, rfl, fun h => h, Or.inl⟩

theorem keeps_noteDrained (h : s.buses[bus]? = some b) :
    ∃ b', s.noteDrained.buses[bus]? = some b' ∧ Keeps s.noteDrained bus b b' := by
  refine ⟨{ b with drained := b.drained || (b.isShutDown && !s.hasTask bus) }, ?_, rfl, rfl, rfl, fun hd => ?_,
    fun hd => ?_⟩
  · show (s.buses.mapIdx _)[bus]? = _
    rw [List.getElem?_mapIdx, h]
    rfl
  · show (_ || _) = true
    rw [hd, Bool.true_or]
  · change (b.drained || (b.isShutDown && !s.hasTask bus)) = true at hd
    rw [Bool.or_eq_true, Bool.and_eq_true, Bool.not_eq_true'] at hd
    exact hd

theorem Leads.same (other : e.shuts? ≠ some bus) (h : s.buses[bus]? = some b) (same : s'.buses = s.buses) :
    Leads s bus e b s' :=
  ⟨b, b, .stays other, by rw [same, h], .refl s' bus b⟩

theorem Leads.noted (other : e.shuts? ≠ some bus) (h : s.buses[bus]? = some b) (same : s'.buses = s.buses) :
    Leads s bus e b s'.noteDrained := by
  obtain ⟨b', hb', hkeeps⟩ := keeps_noteDrained (s := s') (by rw [same, h])
  exact ⟨b, b', .stays other, hb', hkeeps⟩

theorem leads_startForwarder (other : e.shuts? ≠ some bus) (h : s.buses[bus]? = some b) (i : Nat) (caller : String) :
    Leads s bus e b (s.startForwarder i caller) := by
  unfold startForwarder
  cases s.buses[i]? with
  | none => exact .same other h rfl
  | some b' =>
    show Leads s bus e b (System.spawn _ _ _ _)
    by_cases hi : i = bus
    · refine ⟨b, { b with forwarderStarted := true }, .stays other, ?_, rfl, rfl, rfl, fun h => h, Or.inl⟩
      show (s.buses.modify i _)[bus]? = _
      rw [List.getElem?_modify, h]
      simp [hi]
    · refine ⟨b, b, .stays other, ?_, .refl _ bus b⟩
      show (s.buses.modify i _)[bus]? = _
      rw [List.getElem?_modify, h]
      simp [hi]

theorem buses_subscribe (s : System) (i : Nat) (topic : String) (group : Group) (head : Int) :
    (s.subscribe i topic group head).buses = s.buses := by
  unfold subscribe
  split
  · rfl
  · split <;> rfl

theorem leads_beginShutdown (h : s.buses[bus]? = some b) (i : Nat) :
    Leads s bus (.turn (.beginShutdown i)) b (s.beginShutdown i) := by
  unfold beginShutdown
  by_cases hi : i = bus
  · subst hi
    have hbus : (s.modifyBus i fun b => b.beginShutdown s.now).buses[i]? = some (b.beginShutdown s.now) := by
      show (s.buses.modify i _)[i]? = _
      rw [List.getElem?_modify, h]
      simp
    obtain ⟨b', hb', hkeeps⟩ := keeps_noteDrained hbus
    exact ⟨_, b', .begins, hb', hkeeps⟩
  · have hbus : (s.modifyBus i fun b => b.beginShutdown s.now).buses[bus]? = some b := by
      show (s.buses.modify i _)[bus]? = _
      rw [List.getElem?_modify, h]
      simp [hi]
    obtain ⟨b', hb', hkeeps⟩ := keeps_noteDrained hbus
    exact ⟨b, b', .stays fun hsame => hi (Option.some.inj hsame), hb', hkeeps⟩

theorem leads_lookShutdown (h : s.buses[bus]? = some b) (i : Nat) :
    Leads s bus (.turn (.lookShutdown i)) b (s.lookShutdown i).1 := by
  unfold lookShutdown
  by_cases hi : i = bus
  · subst hi
    rw [h]
    refine ⟨_, _, .looks, ?_, .refl _ i _⟩
    show (s.buses.set i _)[i]? = _
    rw [List.getElem?_set, if_pos rfl, if_pos (List.getElem?_eq_some_iff.1 h).1]
  · have hother : (Event.turn (.lookShutdown i)).shuts? ≠ some bus := fun hsame => hi (Option.some.inj hsame)
    cases s.buses[i]? with
    | none => exact .same hother h rfl
    | some b' =>
      refine ⟨b, b, .stays hother, ?_, .refl _ bus b⟩
      show (s.buses.set i _)[bus]? = _
      rw [List.getElem?_set, if_neg hi, h]

theorem leads_answerShutdown (h : s.buses[bus]? = some b) (i : Nat) (fate : Fate) :
    Leads s bus (.turn (.answerShutdown i fate)) b (s.answerShutdown i fate) := by
  have hbuses : (s.answerShutdown i fate).buses =
      s.buses.modify i fun b => b.answerShutdown (s.ask fate .close).2.1 := by cases fate <;> rfl
  by_cases hi : i = bus
  · subst hi
    refine ⟨_, _, .answers, ?_, .refl _ i _⟩
    rw [hbuses, List.getElem?_modify, h]
    simp
  · refine ⟨b, b, .stays fun hsame => hi (Option.some.inj hsame), ?_, .refl _ bus b⟩
    rw [hbuses, List.getElem?_modify, h]
    simp [hi]

/-- **What an event does to a bus.** -/
theorem bus_occur (h : s.buses[bus]? = some b) (e : Event) : Leads s bus e b (s.occur e).1 := by
  have hother : ∀ {e : Event}, e.shuts? = none → e.shuts? ≠ some bus := fun hnone => by
    rw [hnone]
    rintro ⟨⟩
  cases e with
  | subscribed i topic group head => exact .same (hother rfl) h (buses_subscribe s i topic group head)
  | forwarding i caller => exact leads_startForwarder (hother rfl) h i caller
  | turn t =>
    cases t with
    | look i =>
      show Leads _ _ _ _ (s.look i).1
      unfold look
      split
      · exact .noted (hother rfl) h rfl
      · exact .same (hother rfl) h rfl
    | answer i fate =>
      show Leads _ _ _ _ (s.answer i fate).1
      unfold answer
      split
      · split
        · cases fate <;> exact .noted (hother rfl) h rfl
        · exact .same (hother rfl) h rfl
      · exact .same (hother rfl) h rfl
    | finish i outcome =>
      show Leads _ _ _ _ (s.finish i outcome).1
      unfold finish
      split
      · exact .noted (hother rfl) h rfl
      · exact .same (hother rfl) h rfl
    | receive i =>
      show Leads _ _ _ _ (s.receive i).1
      unfold receive
      split <;> exact .same (hother rfl) h rfl
    | lookLink j =>
      show Leads _ _ _ _ (s.lookLink j)
      unfold lookLink
      split
      · split
        · exact .same (hother rfl) h rfl
        · split
          · exact .noted (hother rfl) h rfl
          · split
            · exact .noted (hother rfl) h rfl
            · exact .same (hother rfl) h rfl
      · exact .same (hother rfl) h rfl
    | fire token =>
      show Leads _ _ _ _ (s.fire token)
      unfold fire
      split <;> exact .same (hother rfl) h rfl
    | addBus config propagator =>
      refine ⟨b, b, .stays (hother rfl), ?_, .refl _ bus b⟩
      show (s.buses ++ _)[bus]? = _
      rw [List.getElem?_append_left (List.getElem?_eq_some_iff.1 h).1, h]
    | subscribe i topic group head =>
      show Leads _ _ _ _ (ite _ _ _)
      split
      · exact .same (hother rfl) h (buses_subscribe s i topic group head)
      · exact .same (hother rfl) h rfl
    | startForwarder i caller =>
      show Leads _ _ _ _ (ite _ _ _)
      split
      · exact leads_startForwarder (hother rfl) h i caller
      · exact .same (hother rfl) h rfl
    | publish i context topic messages fate =>
      show Leads _ _ _ _ (s.publish i context topic messages fate).1
      rw [publish_of_posting?]
      cases s.posting? i context topic messages with
      | none => exact .same (hother rfl) h rfl
      | some p => cases fate <;> exact .same (hother rfl) h rfl
    | commit staged =>
      show Leads _ _ _ _ (s.commit staged).1
      unfold commit
      split <;> exact .same (hother rfl) h rfl
    | ask fate request => cases fate <;> exact .same (hother rfl) h rfl
    | beginShutdown i => exact leads_beginShutdown h i
    | lookShutdown i => exact leads_lookShutdown h i
    | answerShutdown i fate => exact leads_answerShutdown h i fate
    | abandon | wait | draw => exact .same (hother rfl) h rfl

/-- A bus that has been told to shut down stays so. -/
theorem isShutDown_occur (h : s.isShutDown bus = true) (e : Event) : (s.occur e).1.isShutDown bus = true := by
  obtain ⟨b, hb, hshut⟩ := (Option.any_eq_true _ _).1 h
  obtain ⟨b₁, b', hshifts, hb', hkeeps⟩ := bus_occur hb e
  unfold isShutDown
  rw [hb', Option.any_some, Bus.isShutDown, hkeeps.shutdown]
  unfold Bus.isShutDown at hshut
  cases hshifts with
  | stays => exact hshut
  | begins =>
    unfold Bus.beginShutdown
    split
    · exact hshut
    · rfl
  | looks =>
    unfold Bus.lookShutdown
    split
    · split
      · rfl
      · split
        · rfl
        · exact hshut
    · exact hshut
  | answers =>
    unfold Bus.answerShutdown
    split <;> first | rfl | exact hshut

theorem Succeeds.cancelled {i : Nat} {m m' : Member} (h : Succeeds s e i m m') (fired : s.isCancelled m = true) :
    (s.occur e).1.isCancelled m' = true := by
  unfold isCancelled at fired ⊢
  rw [Bool.or_eq_true] at fired ⊢
  refine fired.imp h.stopped fun hshut => ?_
  rw [h.bus]
  exact isShutDown_occur hshut e

theorem kits_startForwarder (s : System) (i : Nat) (caller : String) : (s.startForwarder i caller).kits = s.kits := by
  unfold startForwarder
  split
  · rfl
  · exact map_modify_of_eq (f := Bus.kit) (g := fun b => { b with forwarderStarted := true }) (fun _ => rfl) s.buses i

/-- **What the buses were made with stays as it is.** -/
theorem kits_occur (s : System) (e : Event) : (s.occur e).1.kits = s.kits ∨
    ∃ config propagator, e = .turn (.addBus config propagator) ∧
      (s.occur e).1.kits = s.kits ++ [(Bus.new config propagator).kit] := by
  cases e with
  | subscribed i topic group head => exact Or.inl (congrArg (List.map Bus.kit) (buses_subscribe s i topic group head))
  | forwarding i caller => exact Or.inl (kits_startForwarder s i caller)
  | turn t =>
    cases hstarts : t.starts with
    | false => exact Or.inl (alike_turn s hstarts).1
    | true =>
      cases t with
      | addBus config propagator => exact Or.inr ⟨config, propagator, rfl, List.map_append⟩
      | subscribe i topic group head =>
        refine Or.inl ?_
        show (ite _ _ _ : System).kits = _
        split
        · exact congrArg (List.map Bus.kit) (buses_subscribe s i topic group head)
        · rfl
      | startForwarder i caller =>
        refine Or.inl ?_
        show (ite _ _ _ : System).kits = _
        split
        · exact kits_startForwarder s i caller
        · rfl
      | _ => cases hstarts

theorem bus_new (h : s.buses[bus]? = none) (hb : (s.occur e).1.buses[bus]? = some b) :
    ∃ config propagator, e = .turn (.addBus config propagator) ∧ b = .new config propagator := by
  rcases kits_occur s e with hsame | ⟨config, propagator, rfl, -⟩
  · have hkit := congrArg (·[bus]?) hsame
    unfold kits at hkit
    simp only [List.getElem?_map, h, hb] at hkit
    cases hkit
  · refine ⟨config, propagator, rfl, ?_⟩
    change (s.buses ++ _)[bus]? = _ at hb
    rw [List.getElem?_append_right (List.getElem?_eq_none_iff.1 h)] at hb
    exact List.mem_singleton.1 (List.mem_of_getElem? hb)

/-- A bus stays what it was made with. -/
theorem kit_occur (h : s.buses[bus]? = some b) (e : Event) :
    ∃ b', (s.occur e).1.buses[bus]? = some b' ∧ b'.kit = b.kit := by
  have hkit : s.kits[bus]? = some b.kit := by
    unfold kits
    rw [List.getElem?_map, h]
    rfl
  have hkit' : (s.occur e).1.kits[bus]? = some b.kit := by
    rcases kits_occur s e with hsame | ⟨config, propagator, -, happended⟩
    · rw [hsame, hkit]
    · rw [happended, List.getElem?_append_left (List.getElem?_eq_some_iff.1 hkit).1, hkit]
  unfold kits at hkit'
  rw [List.getElem?_map] at hkit'
  exact Option.map_eq_some_iff.1 hkit'

theorem kit_append {before : List Event} (hb : (outcome before).buses[bus]? = some b) (after : List Event) :
    ∃ b', (outcome (before ++ after)).buses[bus]? = some b' ∧ b'.kit = b.kit := by
  induction after using List.reverseRecOn with
  | nil =>
    rw [List.append_nil]
    exact ⟨b, hb, rfl⟩
  | append_singleton after e ih =>
    obtain ⟨b', hb', hkit⟩ := ih
    obtain ⟨b'', hb'', hkit'⟩ := kit_occur hb' e
    rw [← List.append_assoc, outcome_concat]
    exact ⟨b'', hb'', hkit'.trans hkit⟩

end System

end DurableBus
