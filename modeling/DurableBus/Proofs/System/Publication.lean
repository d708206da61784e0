import Mathlib.Data.List.Forall2
import DurableBus.Proofs.Json.Envelope
import DurableBus.Proofs.System.Equipment
import DurableBus.Proofs.System.Transactions

/-!
# What becomes of publications

A `Publication` is a message that somebody publishes on a topic in a trace context. It is stored when it is published
or, if that is done in a transaction, when the transaction is committed.

* `Exchange.published`, `Exchange.stored` : what an act publishes on a topic and what it stores there;
* `Publication.Travels` : what may be stored for a publication: the message with its trace context, or an envelope of
  that;
* `Equipped.fits`, `Ready.after` : what buses make of messages is that, also while a transaction is open;
* `map_message_stored`, `Ready.travels_of_mem`, `Ready.mem_of_takes` : that is stored if the store takes what is
  published, and nothing if not.
-/

set_option autoImplicit false

namespace DurableBus

namespace System

/-- A message that is published on a topic, in a trace context. -/
structure Publication where
  context : TraceContext
  topic : String
  message : Message
deriving DecidableEq, Repr

namespace Publication

def stamped (p : Publication) : Message :=
  { p.message with metadata := Propagator.w3c.inject p.context p.message.metadata }

/-- What stands for a publication on a topic: the stamped message on the topic it is published on, an envelope of it on
the reserved topic. Nothing is published on the reserved topic itself. -/
def Travels (reserved : String) (p : Publication) (topic : String) (m : Message) : Prop :=
  p.topic ≠ reserved ∧
    (topic = p.topic ∧ m = p.stamped ∨ topic = reserved ∧ Envelope.unwrap m = .ok ⟨p.topic, p.stamped⟩)

end Publication

namespace Posting

def publications (q : Posting) : List Publication := q.messages.map fun m => ⟨q.context, q.topic, m⟩

/-- What is to be stored for a posting stands for its messages, one for one. -/
def Fits (reserved : String) (q : Posting) : Prop :=
  List.Forall₂ (fun p m => p.Travels reserved q.target m) q.publications q.written

end Posting

theorem forall₂_envelopes {reserved topic : String} (free : topic ≠ reserved) (context : TraceContext)
    (messages : List Message) (drawn : Nat) :
    List.Forall₂ (fun p m => p.Travels reserved reserved m)
      (messages.map fun m => (⟨context, topic, m⟩ : Publication))
      (Publisher.envelopes topic drawn (messages.map fun m => (⟨context, topic, m⟩ : Publication).stamped)) := by
  induction messages generalizing drawn with
  | nil => exact .nil
  | cons m rest ih => exact .cons ⟨free, Or.inr ⟨rfl, Envelope.unwrap_wrap _ _⟩⟩ (ih (drawn + 1))

/-- What is prepared: messages for another topic than the reserved one, on that topic or in envelopes. -/
theorem of_prepare {p : Publisher} {drawn : Nat} {context : TraceContext} {topic target : String}
    {messages written : List Message}
    (prepared : (p.prepare drawn context topic messages : Except (BusError Store.Error) _) =
      .ok (some (target, written))) :
    topic ≠ p.reserved ∧
      (p.outbox = false ∧ target = topic ∧ written = messages.map (p.stamp context) ∨
        p.outbox = true ∧ target = p.reserved ∧
          written = Publisher.envelopes topic drawn (messages.map (p.stamp context))) := by
  unfold Publisher.prepare at prepared
  split at prepared
  · cases prepared
  · split at prepared
    · cases prepared
    case isFalse hfree =>
      split at prepared
      · cases prepared
      · simp only [Except.ok.injEq, Option.some.injEq] at prepared
        refine ⟨hfree, ?_⟩
        split at prepared
        case isTrue houtbox =>
          obtain ⟨rfl, rfl⟩ := Prod.mk.inj prepared
          exact Or.inr ⟨houtbox, rfl, rfl⟩
        case isFalse hdirect =>
          obtain ⟨rfl, rfl⟩ := Prod.mk.inj prepared
          exact Or.inl ⟨Bool.eq_false_iff.2 hdirect, rfl, rfl⟩

theorem of_posting? {s : System} {bus : Nat} {context : TraceContext} {topic : String} {messages : List Message}
    {q : Posting} (hq : s.posting? bus context topic messages = some q) :
    ∃ b, s.buses[bus]? = some b ∧ q.publications = messages.map (⟨context, topic, ·⟩) ∧
      (b.publisher.prepare s.drawn context topic messages : Except (BusError Store.Error) _) =
        .ok (some (q.target, q.written)) := by
  obtain ⟨b, hb, hprepared⟩ := Option.bind_eq_some_iff.1 hq
  split at hprepared
  case h_1 target written hok =>
    obtain rfl := Option.some.inj hprepared
    exact ⟨b, hb, rfl, hok⟩
  case h_2 => cases hprepared

/-- **What a bus makes of messages stands for them.** -/
theorem Equipped.fits {reserved : String} {s : System} (h : Equipped reserved s) {bus : Nat} {context : TraceContext}
    {topic : String} {messages : List Message} {q : Posting} (hq : s.posting? bus context topic messages = some q) :
    q.Fits reserved := by
  obtain ⟨b, hb, hpublications, hprepared⟩ := of_posting? hq
  obtain ⟨-, -, hreserved, hw3c⟩ := h.kit hb
  have hreserved : b.publisher.reserved = reserved := hreserved
  have hstamp : b.publisher.stamp context = fun m => (⟨context, topic, m⟩ : Publication).stamped := by
    funext m
    show ({ m with metadata := b.publisher.propagator.inject context m.metadata } : Message) = _
    rw [show b.publisher.propagator = .w3c from hw3c]
    rfl
  unfold Posting.Fits
  rw [hpublications]
  obtain ⟨hfree, ⟨-, htarget, hwritten⟩ | ⟨-, htarget, hwritten⟩⟩ := of_prepare hprepared
  · rw [htarget, hwritten, hstamp, List.forall₂_map_left_iff, List.forall₂_map_right_iff]
    exact List.forall₂_same.2 fun m _ => ⟨hreserved ▸ hfree, Or.inl ⟨rfl, rfl⟩⟩
  · rw [htarget, hwritten, hstamp, hreserved]
    exact forall₂_envelopes (hreserved ▸ hfree) context messages s.drawn

/-! ## What the store takes -/

variable {s : System} {l : Ledger}

/-- An open store takes messages that are to be stored. -/
theorem map_message_ask (h : s.store.Refines l) (fate : Fate) (target : String) (messages : List Message)
    (topic : String) :
    (InMemory.writtenOn topic s.store (s.ask fate (.enqueue target messages)).1.store).map (·.message) =
      if fate = .performed && !s.store.closed then if target = topic then messages else [] else [] := by
  obtain ⟨l', hrefines, hcore, -⟩ := core_ask h fate (.enqueue target messages)
  have hgains := (s.core l).gains_ask fate (.enqueue target messages) topic
  have htaken : ((s.core l).ask fate (.enqueue target messages)).2.isOk = (fate = .performed && !l.closed) := by
    cases fate with
    | rejected => rfl
    | performed =>
      show (l.perform s.now (.drawn s.drawn) (.enqueue target messages)).2.1.isOk = _
      unfold Ledger.perform
      cases l.closed <;> rfl
  rw [← hcore, htaken, ← h.closed] at hgains
  exact (h.log_writtenOn hrefines hgains).2

theorem map_message_commit (h : s.store.Refines l) (staged : List (String × List Message)) (topic : String) :
    (InMemory.writtenOn topic s.store (s.commit staged).1.store).map (·.message) =
      if !s.store.closed then staged.flatMap fun w => if w.1 = topic then w.2 else [] else [] := by
  unfold System.commit
  cases hclosed : s.store.closed with
  | true =>
    have hstore : s.store.commit s.now staged = .error .closed := if_pos hclosed
    rw [hstore]
    show (InMemory.writtenOn topic s.store s.store).map _ = _
    unfold InMemory.writtenOn
    rw [List.drop_eq_nil_of_le (Nat.le_of_eq Array.length_toList)]
    rfl
  | false =>
    rcases h.commit s.now staged with ⟨store, l', hstore, hl, hrefines⟩ | ⟨hstore, -⟩
    · rw [hstore]
      exact (h.log_writtenOn hrefines (l.gains_commit topic hl)).2
    · unfold InMemory.commit at hstore
      rw [hclosed] at hstore
      cases hstore

namespace Exchange

/-! ## What acts publish and store -/

/-- What an act publishes for good. What is published in a transaction is so when the transaction is committed. -/
def postings (x : Exchange) : Act → List Posting
  | .turn (.publish bus context topic messages _) => (x.system.posting? bus context topic messages).toList
  | .commit transaction => x.pending transaction
  | _ => []

/-- What an act publishes that is to be stored on a topic. -/
def published (x : Exchange) (a : Act) (topic : String) : List Publication :=
  (x.postings a).flatMap fun q => if q.target = topic then q.publications else []

def written (x : Exchange) (a : Act) (topic : String) : List Message :=
  (x.postings a).flatMap fun q => if q.target = topic then q.written else []

def stored (x : Exchange) (a : Act) (topic : String) : List Stored :=
  InMemory.writtenOn topic x.system.store (x.act a).system.store

/-- Whether the store takes what an act publishes. -/
def takes (x : Exchange) : Act → Bool
  | .turn (.publish _ _ _ _ fate) => fate = .performed && !x.system.store.closed
  | .commit _ => !x.system.store.closed
  | _ => false

variable {x : Exchange} {a : Act}

/-- **What an act publishes is stored if the store takes it**, in order and with nothing else, and nothing is stored if
not. -/
theorem map_message_stored (h : x.system.store.Refines l) (publishes : x.postings a ≠ []) (topic : String) :
    (x.stored a topic).map (·.message) = if x.takes a then x.written a topic else [] := by
  cases a with
  | turn t =>
    cases t with
    | publish bus context target messages fate =>
      have hpostings : x.postings (.turn (.publish bus context target messages fate)) =
        (x.system.posting? bus context target messages).toList := rfl
      cases hposting : x.system.posting? bus context target messages with
      | none => exact absurd (by rw [hpostings, hposting]; rfl) publishes
      | some q =>
        have hwritten : x.written (.turn (.publish bus context target messages fate)) topic =
            if q.target = topic then q.written else [] := by
          unfold written
          rw [hpostings, hposting]
          exact List.append_nil _
        show (InMemory.writtenOn topic x.system.store
          (x.system.publish bus context target messages fate).1.store).map _ = _
        rw [hwritten, publish_of_posting?, hposting]
        exact map_message_ask (s := { x.system with drawn := x.system.drawn + q.written.length }) h fate q.target
          q.written topic
    | _ => exact absurd rfl publishes
  | commit transaction =>
    have hwritten : x.written (.commit transaction) topic =
        (x.writes transaction).flatMap fun w => if w.1 = topic then w.2 else [] := by
      unfold written writes
      rw [List.flatMap_map]
      rfl
    rw [hwritten]
    exact map_message_commit h (x.writes transaction) topic
  | publishIn | rollback => exact absurd rfl publishes

/-! ## What is stored stands for what is published -/

/-- Every bus is equipped, and what is yet to be committed stands for what was published. -/
structure Ready (reserved : String) (x : Exchange) : Prop where
  equipped : x.system.Equipped reserved
  pending : ∀ transaction, ∀ q ∈ x.pending transaction, q.Fits reserved

variable {reserved : String}

theorem ready_start (reserved : String) : start.Ready reserved where
  equipped := equipped_start reserved
  pending _ _ h := by cases h

theorem Ready.act (h : x.Ready reserved) (traced : ∀ t ∈ x.turns a, t.Traces reserved) : (x.act a).Ready reserved where
  equipped := h.equipped.after traced
  pending name q hq := by
    -- whatever an act does, it puts postings that fit in one transaction
    have hput : ∀ transaction postings, (∀ q ∈ postings, q.Fits reserved) →
        q ∈ (x.put transaction postings).pending name → q.Fits reserved := by
      intro transaction postings hfits hmem
      unfold put at hmem
      simp only at hmem
      split at hmem
      · exact hfits q hmem
      · exact h.pending name q hmem
    cases a with
    | turn t => exact h.pending name q hq
    | publishIn transaction bus context topic messages fate =>
      refine hput transaction _ (fun q hq => ?_) hq
      rcases List.mem_append.1 hq with hbefore | hnew
      · exact h.pending transaction q hbefore
      · exact h.equipped.fits (Option.filter_eq_some_iff.1 (Option.mem_toList.1 hnew)).1
    | commit transaction | rollback transaction => exact hput transaction [] (fun q hq => by cases hq) hq

theorem Ready.after (h : x.Ready reserved) {acts : List Act} (traced : ∀ t ∈ x.turnsFrom acts, t.Traces reserved) :
    (x.after acts).Ready reserved := by
  induction acts generalizing x with
  | nil => exact h
  | cons a rest ih =>
    have hall : ∀ t ∈ x.turns a ++ (x.act a).turnsFrom rest, t.Traces reserved := traced
    exact ih (h.act fun t ht => hall t (List.mem_append_left _ ht)) fun t ht => hall t (List.mem_append_right _ ht)

theorem Ready.fits (h : x.Ready reserved) : ∀ q ∈ x.postings a, q.Fits reserved := by
  intro q hq
  cases a with
  | turn t =>
    cases t with
    | publish bus context topic messages fate => exact h.equipped.fits (Option.mem_toList.1 hq)
    | _ => cases hq
  | commit transaction => exact h.pending transaction q hq
  | publishIn | rollback => cases hq

theorem Ready.travels (h : x.Ready reserved) (topic : String) :
    List.Forall₂ (fun p m => p.Travels reserved topic m) (x.published a topic) (x.written a topic) := by
  unfold published written
  have hall := h.fits (a := a)
  generalize x.postings a = postings at hall
  induction postings with
  | nil => exact .nil
  | cons q rest ih =>
    rw [List.forall_mem_cons] at hall
    refine List.rel_append ?_ (ih hall.2)
    by_cases htarget : q.target = topic
    · simp only [if_pos htarget]
      exact htarget ▸ hall.1
    · simp only [if_neg htarget]
      exact .nil

theorem postings_ne_nil {topic : String} {p : Publication} (hp : p ∈ x.published a topic) : x.postings a ≠ [] := by
  obtain ⟨q, hq, -⟩ := List.mem_flatMap.1 hp
  exact List.ne_nil_of_mem hq

theorem Ready.travels_of_mem (h : x.Ready reserved) {l : Ledger} (hrefines : x.system.store.Refines l) {topic : String}
    {p : Publication} {m : Stored} (hm : (p, m) ∈ (x.published a topic).zip (x.stored a topic)) :
    p.Travels reserved topic m.message := by
  obtain ⟨hp, hstored⟩ := List.of_mem_zip hm
  have hmessages := map_message_stored hrefines (postings_ne_nil hp) topic
  split at hmessages
  case isTrue =>
    have htravels := h.travels (a := a) topic
    rw [← hmessages, List.forall₂_map_right_iff] at htravels
    exact List.forall₂_zip htravels hm
  case isFalse =>
    rw [List.map_eq_nil_iff.1 hmessages] at hstored
    cases hstored

/-- **Something is stored for each publication** that the store takes. -/
theorem Ready.mem_of_takes (h : x.Ready reserved) {l : Ledger} (hrefines : x.system.store.Refines l) (takes : x.takes a)
    {topic : String} {p : Publication} (hp : p ∈ x.published a topic) :
    ∃ m, (p, m) ∈ (x.published a topic).zip (x.stored a topic) := by
  have hmessages := map_message_stored hrefines (postings_ne_nil hp) topic
  rw [if_pos takes] at hmessages
  have hlength : (x.published a topic).length = (x.stored a topic).length := by
    rw [(h.travels topic).length_eq, ← hmessages, List.length_map]
  rw [← List.map_fst_zip (Nat.le_of_eq hlength)] at hp
  obtain ⟨⟨p, m⟩, hm, rfl⟩ := List.mem_map.1 hp
  exact ⟨m, hm⟩

end Exchange

end System

end DurableBus
