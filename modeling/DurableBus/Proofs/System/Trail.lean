import DurableBus.Proofs.Store.Written
import DurableBus.Proofs.System.Handouts

/-!
# What a run stores

* `trail` : the turns of a run, each with the system that it is taken in;
* `added`, `caused` : what a turn stores, and what consumers have stored while they worked on a message;
* `Core.Ships` : a consumer stores what is in the envelope that it works on;
* `Step.ships_or_rests` : consumers store nothing else;
* `run_on_trail` : every turn of a run is a step between what has been stored before and what is stored at the end.
-/

set_option autoImplicit false

namespace DurableBus

open Consumer (Setup)

namespace System

/-! ## The turns of a run -/

def after (s : System) (turns : List Turn) : System := turns.foldl (fun s t => (s.turn t).1) s

theorem after_append (s : System) (turns turns' : List Turn) :
    s.after (turns ++ turns') = (s.after turns).after turns' :=
  List.foldl_append

theorem run_append (turns turns' : List Turn) : run (turns ++ turns') = (run turns).after turns' :=
  after_append start turns turns'

/-- Turns that are taken from some point on, each with the system that it is taken in. -/
def trailFrom : System → List Turn → List (System × Turn)
  | _, [] => []
  | s, t :: rest => (s, t) :: trailFrom (s.turn t).1 rest

def trail (turns : List Turn) : List (System × Turn) := trailFrom start turns

theorem trailFrom_append (s : System) (turns turns' : List Turn) :
    s.trailFrom (turns ++ turns') = s.trailFrom turns ++ (s.after turns).trailFrom turns' := by
  induction turns generalizing s with
  | nil => rfl
  | cons t rest ih => exact congrArg ((s, t) :: ·) (ih (s.turn t).1)

theorem mem_trailFrom {s s' : System} {t : Turn} {turns : List Turn} (h : (s', t) ∈ s.trailFrom turns) :
    ∃ before rest, turns = before ++ t :: rest ∧ s' = s.after before := by
  induction turns generalizing s with
  | nil => cases h
  | cons t' rest ih =>
    rcases List.mem_cons.1 h with heq | h
    · obtain ⟨rfl, rfl⟩ := Prod.mk.inj heq
      exact ⟨[], rest, rfl, rfl⟩
    · obtain ⟨before, rest', rfl, rfl⟩ := ih h
      exact ⟨t' :: before, rest', rfl, rfl⟩

/-! ## What turns store -/

/-- What a turn stores on a topic. -/
def added (s : System) (t : Turn) (topic : String) : List Stored :=
  InMemory.writtenOn topic s.store (s.turn t).1.store

def worksOn (s : System) (t : Turn) (offset : Int) : Bool :=
  (t.mover?.bind s.workAt).any (·.2.claimed.receipt.offset == offset)

/-- What consumers store on a topic, from some point on, while they work on the message at an offset. -/
def causedFrom (s : System) (turns : List Turn) (offset : Int) (topic : String) : List Stored :=
  (s.trailFrom turns).flatMap fun (s, t) => if s.worksOn t offset then s.added t topic else []

/-- What consumers have stored on a topic while they worked on the message at an offset. -/
def caused (turns : List Turn) (offset : Int) (topic : String) : List Stored := start.causedFrom turns offset topic

theorem causedFrom_append (s : System) (turns turns' : List Turn) (offset : Int) (topic : String) :
    s.causedFrom (turns ++ turns') offset topic =
      s.causedFrom turns offset topic ++ (s.after turns).causedFrom turns' offset topic := by
  unfold causedFrom
  rw [trailFrom_append, List.flatMap_append]

theorem caused_concat (turns : List Turn) (t : Turn) (offset : Int) (topic : String) :
    caused (turns ++ [t]) offset topic = caused turns offset topic ++
      if (run turns).worksOn t offset then (run turns).added t topic else [] := by
  unfold caused
  rw [causedFrom_append]
  show _ ++ (_ ++ []) = _
  rw [List.append_nil]
  rfl

theorem causedFrom_of_mover? (s : System) {t : Turn} (unmoved : t.mover? = none) (offset : Int) (topic : String) :
    s.causedFrom [t] offset topic = [] := by
  show (if s.worksOn t offset then s.added t topic else []) ++ [] = []
  unfold worksOn
  rw [unmoved]
  rfl

theorem mem_caused {turns : List Turn} {offset : Int} {topic : String} {x : Stored}
    (h : x ∈ caused turns offset topic) :
    ∃ s t, (s, t) ∈ trail turns ∧ s.worksOn t offset ∧ x ∈ s.added t topic := by
  obtain ⟨⟨s, t⟩, hst, hx⟩ := List.mem_flatMap.1 h
  simp only at hx
  split at hx
  case isTrue hworks => exact ⟨s, t, hst, hworks, hx⟩
  case isFalse => cases hx

namespace Core

/-! ## What consumers store -/

variable {c c' : Core}

theorem gains_ask (c : Core) (fate : Fate) (request : Store.Request) (topic : String) :
    c.ledger.Gains (c.ask fate request).1.ledger topic
      (if (c.ask fate request).2.isOk then request.writes topic else []) := by
  cases fate with
  | rejected => exact .nothing rfl
  | performed => exact c.ledger.gains_perform topic c.now (.drawn c.drawn) request

/-- A consumer stores what is in the envelope that it works on, and is to acknowledge the envelope then. -/
def Ships (c c' : Core) (i : Nat) (setup : Setup) (k : Claimed) (e : Envelope) : Prop :=
  ∃ s n delay, c.posts[i]? = some (setup, .working s (.forward k e (.trying (.running n delay)))) ∧
    c' = { c with ledger := c.ledger.append c.now e.destination [e.message] }.enter i setup
      (.working s (.forward k e (.acking n)))

variable {i : Nat} {setup : Setup} {k : Claimed} {e : Envelope}

/-- One copy is written, on the topic that the envelope names. -/
theorem Ships.writes (h : c.Ships c' i setup k e) {topic : String} {written : List Stored}
    (log : c'.ledger.log topic = c.ledger.log topic ++ written) :
    written.map (·.message) = if e.destination = topic then [e.message] else [] := by
  obtain ⟨s, n, delay, -, rfl⟩ := h
  obtain ⟨new, hlog, hnew⟩ := c.ledger.gains_append topic c.now e.destination [e.message]
  rw [← hnew, List.append_cancel_left (log.symm.trans hlog)]

theorem Ships.workAt (h : c.Ships c' i setup k e) :
    ∃ work, c.workAt i = some (setup, .forward k e work) ∧ work.isAcking = false := by
  obtain ⟨s, n, delay, post, -⟩ := h
  exact ⟨_, workAt_of_post post, rfl⟩

theorem Ships.acks (h : c.Ships c' i setup k e) : ∃ n, c'.workAt i = some (setup, .forward k e (.acking n)) := by
  obtain ⟨s, n, delay, post, rfl⟩ := h
  have post' := post_enter (c := { c with ledger := c.ledger.append c.now e.destination [e.message] }) post
    (.working s (.forward k e (.acking n)))
  exact ⟨n, workAt_of_post post'⟩

theorem Ships.unique (h : c.Ships c' i setup k e) {setup' : Setup} {k' : Claimed} {e' : Envelope}
    (h' : c.Ships c' i setup' k' e') : k' = k ∧ e' = e := by
  obtain ⟨work, hwork, -⟩ := h.workAt
  obtain ⟨work', hwork', -⟩ := h'.workAt
  rw [hwork] at hwork'
  cases hwork'
  exact ⟨rfl, rfl⟩

theorem Ships.envelope (h : c.Ships c' i setup k e) (sound : c.Sound) :
    setup.role = .forwarder ∧ k.receipt.group = setup.group ∧
      ∃ m ∈ c.ledger.log setup.topic, m.offset = k.receipt.offset ∧ Envelope.unwrap m.message = .ok e := by
  obtain ⟨s, n, delay, post, -⟩ := h
  have hp := List.mem_of_getElem? post
  obtain ⟨hrole, hunwrap, -⟩ := (sound.phases _ hp).fits _ rfl
  obtain ⟨⟨hgroup, m, hm, ho, hmessage⟩, -⟩ := sound.held _ hp k List.mem_cons_self
  exact ⟨hrole, hgroup, m, hm, ho, hmessage ▸ hunwrap⟩

/-- Who has something stored ships it. -/
theorem ships_of_answered {fate : Fate} {o : Observation} {m : Consumer} {target : String}
    {messages : List Message} {a : Store.Answer} (post : c.posts[i]? = some (m.setup, m.phase))
    (waits : m.request? = some (.enqueue target messages))
    (stored : (c.ask fate (.enqueue target messages)).2 = .ok a) :
    ∃ k e, c.Ships ((c.ask fate (.enqueue target messages)).1.enter i m.setup
      (m.answer o (c.ask fate (.enqueue target messages)).2).1.phase) i m.setup k e := by
  obtain ⟨s, k, e, n, delay, hphase, rfl, rfl, hanswer⟩ := Consumer.answer_stored waits o a
  obtain ⟨hdone, -⟩ := ask_ok stored
  refine ⟨k, e, s, n, delay, hphase ▸ post, ?_⟩
  rw [stored, hanswer]
  cases fate with
  | rejected => cases stored
  | performed =>
    unfold ask enter
    rw [Ledger.appended_of_reply hdone]
    rfl

/-- **Consumers store what is in their envelopes, and nothing else.** -/
theorem Step.ships_or_rests {t : Turn} (hstep : Step c t c') (mover : t.mover? = some i) :
    (∃ setup k e, c.Ships c' i setup k e) ∨ ∀ topic, c.ledger.Gains c'.ledger topic [] := by
  have hrests : c'.ledger = c.ledger → ∀ topic, c.ledger.Gains c'.ledger topic [] :=
    fun same _ => .nothing (congrArg Ledger.messages same)
  cases hstep with
  | still => exact Or.inr (hrests rfl)
  | looked | finished => exact Or.inr (hrests rfl)
  | @answered j fate o request m post waits =>
    cases mover
    by_cases hstores : ∃ target messages a, request = .enqueue target messages ∧ (c.ask fate request).2 = .ok a
    · obtain ⟨target, messages, a, rfl, hreply⟩ := hstores
      exact Or.inl ⟨m.setup, ships_of_answered post waits hreply⟩
    · refine Or.inr fun topic => ?_
      have hgains := c.gains_ask fate request topic
      have hnone : (if (c.ask fate request).2.isOk then request.writes topic else []) = [] := by
        split
        case isTrue hok =>
          cases hreply : (c.ask fate request).2 with
          | error e =>
            rw [hreply] at hok
            cases hok
          | ok a =>
            cases request with
            | enqueue target messages => exact absurd ⟨target, messages, a, rfl, hreply⟩ hstores
            | _ => rfl
        case isFalse => rfl
      rw [hnone] at hgains
      exact hgains
  | _ => cases mover

theorem Step.extends {t : Turn} (hstep : Step c t c') : c.ledger.Extends c'.ledger := by
  cases hstep with
  | @published _ _ _ _ _ _ _ n => exact extends_ask { c with drawn := c.drawn + n } _ _
  | asked | closed | answered => exact extends_ask _ _ _
  | committed done => exact (c.ledger.extends_commit done).1
  | _ => exact Ledger.Extends.refl _

end Core

/-! ## Turns within a run -/

theorem log_added {s : System} {t : Turn} {l l' : Ledger} (h : s.store.Refines l)
    (h' : (s.turn t).1.store.Refines l') (ext : l.Extends l') (topic : String) :
    l'.log topic = l.log topic ++ s.added t topic := by
  obtain ⟨new, hlog, -⟩ := ext.log topic
  exact (h.log_writtenOn h' ⟨new, hlog, rfl⟩).1

theorem extends_after {s : System} {l : Ledger} (h : s.store.Refines l) (turns : List Turn) :
    ∃ l', (s.after turns).store.Refines l' ∧ l.Extends l' := by
  induction turns generalizing s l with
  | nil => exact ⟨l, h, Ledger.Extends.refl l⟩
  | cons t rest ih =>
    obtain ⟨l', hrefines, hstep⟩ := step_turn h t
    obtain ⟨l'', hrefines', hext⟩ := ih hrefines
    exact ⟨l'', hrefines', hstep.extends.trans hext⟩

/-- **Every turn of a run is a step** from a core that keeps whatever steps keep, and what it stores is stored at the
end. -/
theorem run_on_trail (inv : Core → Prop) (base : inv Core.start)
    (keeps : ∀ c t c', inv c → Core.Step c t c' → inv c') {turns : List Turn} {s : System} {t : Turn}
    (h : (s, t) ∈ trail turns) :
    ∃ l l' last, s.store.Refines l ∧ (s.turn t).1.store.Refines l' ∧ (run turns).store.Refines last ∧
      inv (s.core l) ∧ Core.Step (s.core l) t ((s.turn t).1.core l') ∧ l'.Extends last := by
  obtain ⟨before, rest, rfl, rfl⟩ := mem_trailFrom h
  obtain ⟨l, hrefines, hinv⟩ := @run_induction (fun _ c => inv c) before base
    fun _ _ _ _ _ _ hinv hstep => keeps _ _ _ hinv hstep
  obtain ⟨l', hrefines', hstep⟩ := step_turn hrefines t
  obtain ⟨last, hlast, hext⟩ := extends_after hrefines' rest
  refine ⟨l, l', last, hrefines, hrefines', ?_, hinv, hstep, hext⟩
  rw [run_append]
  exact hlast

end System

end DurableBus
