import DurableBus.Proofs.Consumer.Holding
import DurableBus.Proofs.Store.Refinement
import DurableBus.System

/-!
# Runs of a system

A `System.Turn` is one thing that one party does: a consumer, a caller, a link, a bus that shuts down, or the clock. A
run is any list of turns, so every interleaving is a run; a turn that makes no sense at its place changes nothing.

Most of a system has no part in what becomes of messages. Its `Core` is what has: the clock, the ledger behind the
store, the identifiers drawn, the configurations and the phases of the consumers. `Core.Step` says all that a turn can do
to it.

* `step_turn` : every turn of a system is a step of its core;
* `run_steps`, `run_induction` : what every step keeps, a run keeps.
-/

set_option autoImplicit false

namespace DurableBus

/-- What a bus has been made with: its configuration, the settings of its consumers, the topic that it reserves and how
its publisher writes trace contexts. -/
def Bus.kit (b : Bus) : Config × ConsumerSettings × String × Propagator :=
  (b.config, b.settings, b.publisher.reserved, b.publisher.propagator)

theorem Bus.kit_beginShutdown (b : Bus) (now : Instant) : (b.beginShutdown now).kit = b.kit := by
  unfold beginShutdown
  split <;> rfl

theorem Bus.kit_lookShutdown (b : Bus) (now : Instant) : (b.lookShutdown now).1.kit = b.kit := by
  unfold lookShutdown
  split
  · split
    · rfl
    · split <;> rfl
  · rfl

theorem Bus.kit_answerShutdown (b : Bus) (reply : Store.Reply) : (b.answerShutdown reply).kit = b.kit := by
  unfold answerShutdown
  split <;> rfl

namespace System

/-- What one party does. -/
inductive Turn
  | look (member : Nat)
  | answer (member : Nat) (fate : Fate)
  | finish (member : Nat) (outcome : Except Failure Unit)
  | receive (member : Nat)
  | abandon (member : Nat)
  | lookLink (link : Nat)
  | fire (token : String)
  | wait (t : Instant)
  /-- An identifier is drawn for something that is not modelled here. -/
  | draw
  | addBus (config : Config) (propagator : Propagator)
  | subscribe (bus : Nat) (topic : String) (group : Group) (head : Int)
  | startForwarder (bus : Nat) (caller : String)
  | publish (bus : Nat) (context : TraceContext) (topic : String) (messages : List Message) (fate : Fate)
  | commit (staged : List (String × List Message))
  /-- A caller asks the store for something. -/
  | ask (fate : Fate) (request : Store.Request)
  | beginShutdown (bus : Nat)
  | lookShutdown (bus : Nat)
  | answerShutdown (bus : Nat) (fate : Fate)
deriving Repr

def publish (s : System) (bus : Nat) (context : TraceContext) (topic : String) (messages : List Message)
    (fate : Fate) : System × List Effect :=
  match s.buses[bus]? with
  | none => (s, [])
  | some b =>
    match (b.publisher.prepare s.drawn context topic messages : Except (BusError Store.Error) _) with
    | .ok (some (topic, messages)) =>
      let (s, _, notices) := { s with drawn := s.drawn + messages.length }.ask fate (.enqueue topic messages)
      (s, notices.map .note)
    | _ => (s, [])

def turn (s : System) : Turn → System × List Effect
  | .look i => s.look i
  | .answer i fate => s.answer i fate
  | .finish i outcome => s.finish i outcome
  | .receive i => ((s.receive i).1, [])
  | .abandon i => (s.abandon i, [])
  | .lookLink j => (s.lookLink j, [])
  | .fire token => (s.fire token, [])
  | .wait t => (s.wait t, [])
  | .draw => ({ s with drawn := s.drawn + 1 }, [])
  | .addBus config propagator => (s.addBus config propagator, [])
  | .subscribe bus topic group head =>
    (if s.buses[bus]?.any fun b => (b.permit topic).isOk then s.subscribe bus topic group head else s, [])
  | .startForwarder bus caller =>
    (if s.buses[bus]?.any fun b => b.permitForwarder.isOk then s.startForwarder bus caller else s, [])
  | .publish bus context topic messages fate => s.publish bus context topic messages fate
  | .commit staged => ((s.commit staged).1, [])
  | .ask fate request =>
    let (s, _, notices) := s.ask fate request
    (s, notices.map .note)
  | .beginShutdown bus => (s.beginShutdown bus, [])
  | .lookShutdown bus => s.lookShutdown bus
  | .answerShutdown bus fate => (s.answerShutdown bus fate, [])

def run (turns : List Turn) : System := turns.foldl (fun s t => (s.turn t).1) start

theorem run_concat (turns : List Turn) (t : Turn) : run (turns ++ [t]) = ((run turns).turn t).1 := by
  unfold run
  rw [List.foldl_append]
  rfl

/-- What has a part in what becomes of messages. -/
structure Core where
  now : Instant
  ledger : Ledger
  drawn : Nat
  configs : List Config
  /-- How each consumer was started and where it stands. -/
  posts : List (Consumer.Setup × Phase)

/-- The core of a system whose store stands for a ledger. -/
def core (s : System) (l : Ledger) : Core :=
  ⟨s.now, l, s.drawn, s.buses.map (·.config), s.members.map fun m => (m.consumer.setup, m.consumer.phase)⟩

namespace Core

def start : Core := ⟨0, .empty, 0, [], []⟩

def ask (c : Core) (fate : Fate) (request : Store.Request) : Core × Store.Reply :=
  match fate with
  | .rejected => (c, .error (.rejected request.operation))
  | .performed =>
    ({ c with
        ledger := (c.ledger.perform c.now (.drawn c.drawn) request).1
        drawn := if request.operation = .claim then c.drawn + 1 else c.drawn },
      (c.ledger.perform c.now (.drawn c.drawn) request).2.1)

def enter (c : Core) (i : Nat) (setup : Consumer.Setup) (phase : Phase) : Core :=
  { c with posts := c.posts.set i (setup, phase) }

/-- What a turn may do to the core. -/
inductive Step (c : Core) : Turn → Core → Prop
  | still {t} : Step c t c
  | waited {t} : Step c (.wait t) { c with now := max c.now t }
  | drew : Step c .draw { c with drawn := c.drawn + 1 }
  | opened {config propagator} : Step c (.addBus config propagator) { c with configs := c.configs ++ [config] }
  /-- A subscriber of a topic that is not reserved joins. -/
  | subscribed {bus topic group head ephemeral name after settings config drawn} (known : config ∈ c.configs)
      (free : topic ≠ config.forwarderTopic) (more : c.drawn ≤ drawn) :
      Step c (.subscribe bus topic group head)
        { c with drawn, posts := c.posts ++ [(⟨.subscriber ephemeral, topic, name, after, settings⟩, .starting)] }
  /-- A forwarder joins. -/
  | forwarding {bus caller settings config} (known : config ∈ c.configs) :
      Step c (.startForwarder bus caller)
        { c with posts := c.posts ++
          [(⟨.forwarder, config.forwarderTopic, config.forwarderGroup, 0, settings⟩, .starting)] }
  | published {bus context topic messages fate target written n} :
      Step c (.publish bus context topic messages fate)
        ({ c with drawn := c.drawn + n }.ask fate (.enqueue target written)).1
  | committed {staged ledger} (done : c.ledger.commit c.now staged = .ok ledger) :
      Step c (.commit staged) { c with ledger }
  | asked {fate request} : Step c (.ask fate request) (c.ask fate request).1
  | closed {bus fate} : Step c (.answerShutdown bus fate) (c.ask fate .close).1
  | looked {i o} {m : Consumer} (post : c.posts[i]? = some (m.setup, m.phase)) :
      Step c (.look i) (c.enter i m.setup (m.look o).1.phase)
  | finished {i outcome} {m : Consumer} (post : c.posts[i]? = some (m.setup, m.phase)) :
      Step c (.finish i outcome) (c.enter i m.setup (m.finish outcome).1.phase)
  | answered {i fate o request} {m : Consumer} (post : c.posts[i]? = some (m.setup, m.phase))
      (waits : m.request? = some request) :
      Step c (.answer i fate)
        ((c.ask fate request).1.enter i m.setup (m.answer o (c.ask fate request).2).1.phase)

end Core

/-! ## Turns are steps -/

theorem map_modify_of_eq {α β : Type} {f : α → β} {g : α → α} (h : ∀ a, f (g a) = f a) (l : List α) (i : Nat) :
    (l.modify i g).map f = l.map f := by
  apply List.ext_getElem?
  intro j
  rw [List.getElem?_map, List.getElem?_map, List.getElem?_modify]
  cases l[j]? with
  | none => rfl
  | some a =>
    by_cases hij : i = j
    · simp [hij, h]
    · simp [hij]

theorem map_set_of_eq {α β : Type} {f : α → β} {l : List α} {i : Nat} {a b : α} (h : l[i]? = some a)
    (same : f b = f a) : (l.set i b).map f = l.map f := by
  obtain ⟨hi, rfl⟩ := List.getElem?_eq_some_iff.1 h
  have hmapped : i < (l.map f).length := by rwa [List.length_map]
  rw [List.map_set, same, ← List.getElem_map f (h := hmapped), List.set_getElem_self]

variable {l : Ledger}

theorem core_ext {s s' : System} (now : s'.now = s.now) (drawn : s'.drawn = s.drawn)
    (configs : s'.buses.map (·.config) = s.buses.map (·.config))
    (posts : (s'.members.map fun m => (m.consumer.setup, m.consumer.phase)) =
      s.members.map fun m => (m.consumer.setup, m.consumer.phase)) : s'.core l = s.core l := by
  unfold core
  rw [now, drawn, configs, posts]

theorem core_noteDrained (s : System) : s.noteDrained.core l = s.core l := by
  refine core_ext rfl rfl ?_ rfl
  apply List.ext_getElem?
  intro i
  show ((s.buses.mapIdx _).map _)[i]? = _
  rw [List.getElem?_map, List.getElem?_mapIdx, List.getElem?_map, Option.map_map]
  rfl

theorem core_modify (s : System) (i : Nat) {f : Member → Member} (hsetup : ∀ m, (f m).consumer.setup = m.consumer.setup)
    (hphase : ∀ m, (f m).consumer.phase = m.consumer.phase) : (s.modify i f).core l = s.core l :=
  core_ext rfl rfl rfl (map_modify_of_eq (fun m => by rw [hsetup, hphase]) s.members i)

theorem core_modifyBus (s : System) (i : Nat) {f : Bus → Bus} (hkit : ∀ b, (f b).kit = b.kit) :
    (s.modifyBus i f).core l = s.core l := by
  have hconfig : ∀ b, (f b).config = b.config := fun b => congrArg Prod.fst (hkit b)
  exact core_ext rfl rfl (map_modify_of_eq hconfig s.buses i) rfl

/-- The ledger answers as the store does. -/
theorem core_ask {s : System} (h : s.store.Refines l) (fate : Fate) (request : Store.Request) :
    ∃ l', (s.ask fate request).1.store.Refines l' ∧
      (s.ask fate request).1.core l' = ((s.core l).ask fate request).1 ∧
      (s.ask fate request).2.1 = ((s.core l).ask fate request).2 := by
  cases fate with
  | rejected => exact ⟨l, h, rfl, rfl⟩
  | performed =>
    obtain ⟨hrefines, hsame⟩ := h.perform s.now (.drawn s.drawn) request
    exact ⟨_, hrefines, rfl, congrArg Prod.fst hsame⟩

theorem post_of_member {s : System} {i : Nat} {m : Member} (h : s.members[i]? = some m) :
    (s.core l).posts[i]? = some (m.consumer.setup, m.consumer.phase) := by
  show (s.members.map _)[i]? = _
  rw [List.getElem?_map, h]
  rfl

theorem mem_configs {s : System} {i : Nat} {b : Bus} (h : s.buses[i]? = some b) : b.config ∈ (s.core l).configs :=
  List.mem_map_of_mem (List.mem_of_getElem? h)

theorem core_moved (s : System) (i : Nat) (m : Member) (step : Consumer × List Effect) :
    (s.moved i m step).1.core l = (s.core l).enter i step.1.setup step.1.phase := by
  unfold moved
  simp only [core_noteDrained]
  unfold core Core.enter
  rw [List.map_set]

theorem core_spawn (s : System) (bus : Nat) (setup : Consumer.Setup) (capacity : Nat) :
    (s.spawn bus setup capacity).core l =
      { s.core l with posts := (s.core l).posts ++ [(setup, .starting)] } := by
  unfold spawn core
  rw [List.map_append]
  rfl

theorem core_lookLink (s : System) (j : Nat) : (s.lookLink j).core l = s.core l := by
  unfold lookLink
  split
  case h_1 l _ =>
    split
    · rfl
    · split
      · rw [core_noteDrained]
        exact core_modify { s with links := _ } _ (fun _ => rfl) (fun _ => rfl)
      · split
        · rw [core_noteDrained]
          rfl
        · rfl
  case h_2 => rfl

theorem store_lookLink (s : System) (j : Nat) : (s.lookLink j).store = s.store := by
  unfold lookLink
  split
  · split
    · rfl
    · split
      · rfl
      · split <;> rfl
  · rfl

theorem free_of_permit {b : Bus} {topic : String} (h : (b.permit topic).isOk) : topic ≠ b.config.forwarderTopic := by
  intro reserved
  unfold Bus.permit at h
  split at h
  · cases h
  · simp only [reserved] at h
    cases h

/-- The turn of a system leaves a store that stands for a ledger again, and is a step of the core. -/
def Steps (s : System) (l : Ledger) (t : Turn) (s' : System) : Prop :=
  ∃ l', s'.store.Refines l' ∧ Core.Step (s.core l) t (s'.core l')

variable {s : System}

theorem Steps.of_core_eq (h : s.store.Refines l) {t : Turn} {s' : System} (hstore : s'.store = s.store)
    (hcore : s'.core l = s.core l) : Steps s l t s' :=
  ⟨l, hstore ▸ h, hcore ▸ .still⟩

theorem steps_subscribe (h : s.store.Refines l) (bus : Nat) (topic : String) (group : Group) (head : Int) :
    Steps s l (.subscribe bus topic group head) (s.turn (.subscribe bus topic group head)).1 := by
  show Steps _ _ _ (ite _ (s.subscribe bus topic group head) s)
  split
  case isTrue permitted =>
    unfold subscribe
    cases hbus : s.buses[bus]? with
    | none => exact .of_core_eq h rfl rfl
    | some b =>
      rw [hbus, Option.any_some] at permitted
      have free := free_of_permit permitted
      cases group with
      | named name =>
        refine ⟨l, h, ?_⟩
        simp only [core_spawn]
        exact .subscribed (mem_configs hbus) free (Nat.le_refl _)
      | broadcast =>
        refine ⟨l, h, ?_⟩
        simp only [core_spawn]
        exact .subscribed (mem_configs hbus) free (Nat.le_succ _)
  case isFalse => exact .of_core_eq h rfl rfl

theorem core_startForwarder {bus : Nat} {b : Bus} (known : s.buses[bus]? = some b) (caller : String) :
    (s.startForwarder bus caller).core l = { s.core l with posts := (s.core l).posts ++ [(b.forwarder, .starting)] } := by
  have hmarked : (s.modifyBus bus fun b => { b with forwarderStarted := true }).core l = s.core l :=
    core_modifyBus s bus fun _ => rfl
  unfold startForwarder
  simp only [known]
  rw [core_spawn, ← hmarked]
  rfl

theorem store_startForwarder (s : System) (bus : Nat) (caller : String) :
    (s.startForwarder bus caller).store = s.store := by
  unfold startForwarder
  split <;> rfl

theorem steps_startForwarder (h : s.store.Refines l) (bus : Nat) (caller : String) :
    Steps s l (.startForwarder bus caller) (s.turn (.startForwarder bus caller)).1 := by
  show Steps _ _ _ (ite _ (s.startForwarder bus caller) s)
  split
  case isTrue =>
    cases hbus : s.buses[bus]? with
    | none =>
      unfold startForwarder
      rw [hbus]
      exact .of_core_eq h rfl rfl
    | some b =>
      refine ⟨l, (store_startForwarder s bus caller).symm ▸ h, ?_⟩
      rw [core_startForwarder hbus]
      exact .forwarding (mem_configs hbus)
  case isFalse => exact .of_core_eq h rfl rfl

theorem steps_publish (h : s.store.Refines l) (bus : Nat) (context : TraceContext) (topic : String)
    (messages : List Message) (fate : Fate) :
    Steps s l (.publish bus context topic messages fate) (s.publish bus context topic messages fate).1 := by
  unfold publish
  split
  · exact .of_core_eq h rfl rfl
  · split
    case h_1 target written _ =>
      obtain ⟨l', hrefines, hcore, -⟩ := core_ask (s := { s with drawn := s.drawn + written.length }) h fate
        (.enqueue target written)
      refine ⟨l', hrefines, ?_⟩
      rw [hcore]
      exact .published
    case h_2 => exact .of_core_eq h rfl rfl

theorem steps_answer (h : s.store.Refines l) (i : Nat) (fate : Fate) :
    Steps s l (.answer i fate) (s.answer i fate).1 := by
  unfold answer
  split
  case h_1 m hm =>
    split
    case h_1 request hrequest =>
      obtain ⟨l', hrefines, hcore, hreply⟩ := core_ask h fate request
      refine ⟨l', hrefines, ?_⟩
      simp only [core_moved, hcore, hreply, Consumer.setup_answer]
      exact .answered (post_of_member hm) hrequest
    case h_2 => exact .of_core_eq h rfl rfl
  case h_2 => exact .of_core_eq h rfl rfl

theorem steps_lookShutdown (h : s.store.Refines l) (bus : Nat) :
    Steps s l (.lookShutdown bus) (s.lookShutdown bus).1 := by
  unfold lookShutdown
  split
  case h_1 b hb =>
    exact .of_core_eq h rfl (core_ext rfl rfl (map_set_of_eq hb (congrArg Prod.fst (b.kit_lookShutdown s.now))) rfl)
  case h_2 => exact .of_core_eq h rfl rfl

/-- **Every turn of a system is a step of its core.** -/
theorem step_turn (h : s.store.Refines l) (t : Turn) : Steps s l t (s.turn t).1 := by
  cases t with
  | look i =>
    show Steps _ _ _ (s.look i).1
    unfold look
    split
    case h_1 m hm =>
      refine ⟨l, h, ?_⟩
      rw [core_moved, Consumer.setup_look]
      exact .looked (post_of_member hm)
    case h_2 => exact .of_core_eq h rfl rfl
  | answer i fate => exact steps_answer h i fate
  | finish i outcome =>
    show Steps _ _ _ (s.finish i outcome).1
    unfold finish
    split
    case h_1 m hm =>
      refine ⟨l, h, ?_⟩
      rw [core_moved, Consumer.setup_finish]
      exact .finished (post_of_member hm)
    case h_2 => exact .of_core_eq h rfl rfl
  | receive i =>
    show Steps _ _ _ (s.receive i).1
    unfold receive
    split
    · exact .of_core_eq h rfl (core_modify s i (fun _ => rfl) (fun _ => rfl))
    · exact .of_core_eq h rfl rfl
  | abandon i => exact .of_core_eq h rfl (core_modify s i (fun _ => rfl) (fun _ => rfl))
  | lookLink j => exact .of_core_eq h (store_lookLink s j) (core_lookLink s j)
  | fire token =>
    show Steps _ _ _ (s.fire token)
    unfold fire
    split <;> exact .of_core_eq h rfl rfl
  | wait t => exact ⟨l, h, .waited⟩
  | draw => exact ⟨l, h, .drew⟩
  | addBus config propagator =>
    refine ⟨l, h, ?_⟩
    show Core.Step _ _ ((s.addBus config propagator).core l)
    unfold addBus core
    rw [List.map_append]
    exact .opened
  | subscribe bus topic group head => exact steps_subscribe h bus topic group head
  | startForwarder bus caller => exact steps_startForwarder h bus caller
  | publish bus context topic messages fate => exact steps_publish h bus context topic messages fate
  | commit staged =>
    show Steps _ _ _ (s.commit staged).1
    unfold commit
    rcases h.commit s.now staged with ⟨store, l', hstore, hl, hrefines⟩ | ⟨hstore, hl⟩
    · simp only [hstore]
      exact ⟨l', hrefines, .committed hl⟩
    · simp only [hstore]
      exact .of_core_eq h rfl rfl
  | ask fate request =>
    obtain ⟨l', hrefines, hcore, -⟩ := core_ask h fate request
    refine ⟨l', hrefines, ?_⟩
    show Core.Step _ _ ((s.ask fate request).1.core l')
    rw [hcore]
    exact .asked
  | beginShutdown bus =>
    refine .of_core_eq h rfl ?_
    show ((s.modifyBus bus _).noteDrained).core l = _
    rw [core_noteDrained]
    exact core_modifyBus s bus fun b => b.kit_beginShutdown s.now
  | lookShutdown bus => exact steps_lookShutdown h bus
  | answerShutdown bus fate =>
    obtain ⟨l', hrefines, hcore, -⟩ := core_ask h fate .close
    refine ⟨l', hrefines, ?_⟩
    show Core.Step _ _ (((s.ask fate .close).1.modifyBus bus _).core l')
    rw [core_modifyBus _ bus fun b => b.kit_answerShutdown _, hcore]
    exact .closed

/-- **What every step keeps, a run keeps.** The invariant may speak of the turns that have been taken, and the step of
what the store is before and after it. -/
theorem run_steps {inv : List Turn → Core → Prop} {turns : List Turn} (start : inv [] Core.start)
    (step : ∀ before t after l l', turns = before ++ t :: after → (run before).store.Refines l →
      (run (before ++ [t])).store.Refines l' → inv before ((run before).core l) →
      Core.Step ((run before).core l) t ((run (before ++ [t])).core l') →
      inv (before ++ [t]) ((run (before ++ [t])).core l')) :
    ∃ l, (run turns).store.Refines l ∧ inv turns ((run turns).core l) := by
  -- from wherever a part of the run has led
  have hall : ∀ rest before, turns = before ++ rest →
      (∃ l, (run before).store.Refines l ∧ inv before ((run before).core l)) →
      ∃ l, (run turns).store.Refines l ∧ inv turns ((run turns).core l) := by
    intro rest
    induction rest with
    | nil =>
      intro before hturns hinv
      rw [hturns, List.append_nil]
      exact hinv
    | cons t rest ih =>
      intro before hturns ⟨l, hrefines, hinv⟩
      obtain ⟨l', hrefines', hstep⟩ := step_turn hrefines t
      rw [← run_concat] at hrefines' hstep
      refine ih (before ++ [t]) (by rw [hturns, List.append_assoc, List.singleton_append]) ?_
      exact ⟨l', hrefines', step before t rest l l' hturns hrefines hrefines' hinv hstep⟩
  exact hall turns [] rfl ⟨.empty, InMemory.refines_empty, start⟩

/-- What every step of the core keeps, a run keeps. -/
theorem run_induction {inv : List Turn → Core → Prop} {turns : List Turn} (start : inv [] Core.start)
    (step : ∀ before t after l l', turns = before ++ t :: after → inv before ((run before).core l) →
      Core.Step ((run before).core l) t ((run (before ++ [t])).core l') →
      inv (before ++ [t]) ((run (before ++ [t])).core l')) :
    ∃ l, (run turns).store.Refines l ∧ inv turns ((run turns).core l) :=
  run_steps start fun before t after l l' hturns _ _ hinv hstep => step before t after l l' hturns hinv hstep

end System

end DurableBus
