import Mathlib.Data.List.Forall2
import DurableBus.Proofs.Json.Envelope
import DurableBus.Proofs.Store.Transactions

/-!
# Publishing

Messages are published through a publisher, at once or in a transaction of the store. An `Office` is a desk at which
that is done.

* `Submission.refused_or_submitted` : a submission is refused, is empty or goes to the store, wherever it is handed in;
* `submit_refused`, `submit_stored`, `submit_staged` : what the store makes of it;
* `Twins`, `Together.publish` : what is published in a transaction is what would have been published at once;
* `publishing_all_or_nothing` : all of a submission is stored or nothing, and both ways lead to the same logs;
* `office_publish` : the publishing of a played session is that of an office.
-/

set_option autoImplicit false

namespace DurableBus

/-! ## Submissions -/

/-- Messages that are published on a topic. -/
structure Submission where
  publisher : Publisher
  context : TraceContext
  topic : String
  messages : List Message
  now : Instant
deriving DecidableEq, Repr

namespace Submission

/-- What the publisher is told, by a store that is closed or is not. -/
def verdict (s : Submission) (closed : Bool) : Except (BusError Store.Error) Unit :=
  if s.publisher.closed then .error .closed
  else if s.topic = s.publisher.reserved then .error (.reservedTopic s.topic)
  else if s.messages.isEmpty then .ok ()
  else if closed then .error (.store "publish" (some s.topic) .closed)
  else .ok ()

def target (s : Submission) : String := if s.publisher.outbox then s.publisher.reserved else s.topic

def stamped (s : Submission) : List Message := s.messages.map (s.publisher.stamp s.context)

/-- What is written for the messages, with the identifiers from the `drawn`-th on. -/
def written (s : Submission) (drawn : Nat) : List Message :=
  if s.publisher.outbox then Publisher.envelopes s.topic drawn s.stamped else s.stamped

/-- Messages are what is to be stored, one for one: the stamped messages themselves, or messages with the identifiers
from the `drawn`-th on that are envelopes of them. -/
def Stands (s : Submission) (drawn : Nat) (ms : List Message) : Prop :=
  if s.publisher.outbox then
    ms.map (·.id) = (List.range' drawn s.messages.length).map .drawn ∧
      ms.map Envelope.unwrap = s.stamped.map fun m => .ok ⟨s.topic, m⟩
  else ms = s.stamped

theorem length_written (s : Submission) (drawn : Nat) : (s.written drawn).length = s.messages.length := by
  unfold written stamped
  split
  · rw [Publisher.length_envelopes, List.length_map]
  · exact List.length_map _

theorem envelopes_stand (topic : String) (drawn : Nat) (ms : List Message) :
    (Publisher.envelopes topic drawn ms).map (·.id) = (List.range' drawn ms.length).map .drawn ∧
      (Publisher.envelopes topic drawn ms).map Envelope.unwrap = ms.map fun m => .ok ⟨topic, m⟩ := by
  induction ms generalizing drawn with
  | nil => exact ⟨rfl, rfl⟩
  | cons m rest ih =>
    obtain ⟨hids, hunwrap⟩ := ih (drawn + 1)
    refine ⟨?_, ?_⟩
    · rw [Publisher.envelopes, List.map_cons, hids]
      rfl
    · rw [Publisher.envelopes, List.map_cons, hunwrap, Envelope.unwrap_wrap]
      rfl

theorem stands_written (s : Submission) (drawn : Nat) : s.Stands drawn (s.written drawn) := by
  unfold Stands written
  split
  · have hlength : s.stamped.length = s.messages.length := List.length_map _
    rw [← hlength]
    exact envelopes_stand s.topic drawn s.stamped
  · rfl

end Submission

/-! ## Offices -/

/-- A desk at which messages are published, and how many identifiers have been drawn. -/
structure Office where
  desk : Desk
  drawn : Nat

namespace Office

def told (topic : String) : Store.Reply → Except (BusError Store.Error) Unit
  | .ok _ => .ok ()
  | .error e => .error (.store "publish" (some topic) e)

/-- Has messages written for a topic, at once or in a transaction. -/
def submit (o : Office) (transaction : Option String) (now : Instant) (topic target : String)
    (written : List Message) : Office × Except (BusError Store.Error) Unit :=
  let drawn := o.drawn + written.length
  let deed : Store.Deed := match transaction with
    | none => .ask (.enqueue target written)
    | some name => .stage name target written
  let (desk, response) := o.desk.deal ⟨now, .drawn drawn, deed⟩
  (⟨desk, drawn⟩, match response with
    | .outcome (reply, _) => told topic reply
    | _ => .ok ())

def publish (o : Office) (transaction : Option String) (s : Submission) :
    Office × Except (BusError Store.Error) Unit :=
  match s.publisher.prepare o.drawn s.context s.topic s.messages with
  | .error e => (o, .error e)
  | .ok none => (o, .ok ())
  | .ok (some (target, written)) => o.submit transaction s.now s.topic target written

def publishAll (o : Office) (transaction : Option String) :
    List Submission → Office × List (Except (BusError Store.Error) Unit)
  | [] => (o, [])
  | s :: rest =>
    let (o, result) := o.publish transaction s
    let (o, results) := o.publishAll transaction rest
    (o, result :: results)

variable {o : Office} {s : Submission} {transaction : Option String} {name topic target : String} {now : Instant}
  {written : List Message}

theorem submit_refused (closed : o.desk.store.closed = true) :
    o.submit transaction now topic target written =
      ({ o with drawn := o.drawn + written.length }, .error (.store "publish" (some topic) .closed)) := by
  have henqueue : Store.Action.request (.enqueue target written) ≠ .request .close := by simp
  have hstage : Store.Action.request (.stage target written) ≠ .request .close := by simp
  unfold submit
  cases transaction with
  | none =>
    simp only [Desk.deal, Desk.action?, Desk.call_of_closed closed henqueue]
    rfl
  | some name =>
    simp only [Desk.deal, Desk.action?, Desk.call_of_closed closed hstage]
    rfl

theorem submit_stored (opened : o.desk.store.closed = false) :
    o.submit none now topic target written =
      (⟨{ o.desk with store := o.desk.store.append now target written }, o.drawn + written.length⟩, .ok ()) := by
  unfold submit
  simp only [Desk.deal, Desk.action?, (Desk.call_of_open opened).1]
  rfl

theorem submit_staged (opened : o.desk.store.closed = false) :
    o.submit (some name) now topic target written =
      (⟨o.desk.put name ((o.desk.staged name).map (· ++ [(target, written)])), o.drawn + written.length⟩, .ok ()) := by
  unfold submit
  simp only [Desk.deal, Desk.action?, (Desk.call_of_open opened).2.1]
  rfl

theorem result_submit :
    (o.submit transaction now topic target written).2 =
      if o.desk.store.closed then .error (.store "publish" (some topic) .closed) else .ok () := by
  cases hclosed : o.desk.store.closed with
  | true =>
    rw [submit_refused hclosed]
    rfl
  | false =>
    cases transaction with
    | none =>
      rw [submit_stored hclosed]
      rfl
    | some name =>
      rw [submit_staged hclosed]
      rfl

theorem desk_submit {e : BusError Store.Error}
    (refused : (o.submit transaction now topic target written).2 = .error e) :
    (o.submit transaction now topic target written).1.desk = o.desk := by
  rw [result_submit] at refused
  cases hclosed : o.desk.store.closed with
  | true => rw [submit_refused hclosed]
  | false =>
    rw [hclosed] at refused
    cases refused

/-- **A submission is refused, or is empty, or goes to the store**, wherever and however it is handed in. -/
theorem refused_or_submitted (s : Submission) :
    (∃ e, (∀ closed, s.verdict closed = .error e) ∧
      ∀ (o : Office) transaction, o.publish transaction s = (o, .error e)) ∨
    (s.messages = [] ∧ (∀ closed, s.verdict closed = .ok ()) ∧
      ∀ (o : Office) transaction, o.publish transaction s = (o, .ok ())) ∨
    (s.messages ≠ [] ∧
      (∀ closed, s.verdict closed = if closed then .error (.store "publish" (some s.topic) .closed) else .ok ()) ∧
      ∀ (o : Office) transaction,
        o.publish transaction s = o.submit transaction s.now s.topic s.target (s.written o.drawn)) := by
  unfold Submission.verdict publish Publisher.prepare
  by_cases hclosed : s.publisher.closed = true
  · exact .inl ⟨_, fun _ => if_pos hclosed, fun o transaction => by rw [if_pos hclosed]⟩
  by_cases hreserved : s.topic = s.publisher.reserved
  · simp only [if_neg hclosed, if_pos hreserved]
    exact .inl ⟨_, fun _ => rfl, fun _ _ => rfl⟩
  simp only [if_neg hclosed, if_neg hreserved]
  cases hmessages : s.messages with
  | nil => exact .inr (.inl ⟨rfl, fun _ => rfl, fun _ _ => rfl⟩)
  | cons m rest =>
    refine .inr (.inr ⟨List.cons_ne_nil m rest, fun _ => rfl, fun o transaction => ?_⟩)
    unfold Submission.target Submission.written Submission.stamped
    rw [hmessages]
    cases s.publisher.outbox <;> rfl

end Office

namespace InMemory

/-- The entries for messages that are written behind the entry with an offset. -/
def entries (now : Instant) : Int → List Message → List Stored
  | _, [] => []
  | last, m :: rest => ⟨last + 1, m, now / 1000⟩ :: entries now (last + 1) rest

theorem map_message_entries (now : Instant) (last : Int) (ms : List Message) :
    (entries now last ms).map (·.message) = ms := by
  induction ms generalizing last with
  | nil => rfl
  | cons m rest ih => rw [entries, List.map_cons, ih]

theorem closed_append (s : InMemory) (now : Instant) (target : String) (ms : List Message) :
    (s.append now target ms).closed = s.closed := by
  unfold append
  induction ms generalizing s with
  | nil => rfl
  | cons m rest ih => exact ih (s.appendOne now target m)

theorem log_append (s : InMemory) (now : Instant) (target : String) (ms : List Message) (topic : String) :
    ((s.append now target ms).log topic).toList =
      (s.log topic).toList ++ if topic = target then entries now s.lastOffset ms else [] := by
  unfold append
  induction ms generalizing s with
  | nil => simp [entries]
  | cons m rest ih =>
    rw [List.foldl_cons, ih, log_appendOne]
    by_cases htopic : topic = target
    · simp only [htopic, if_true, entries, List.append_assoc, List.singleton_append]
      rfl
    · simp only [if_neg htopic, if_neg (Ne.symm htopic)]

end InMemory

namespace Office

/-! ## One submission -/

variable (o : Office) (s : Submission)

/-- What is refused leaves the desk as it was, and so do no messages. -/
theorem publish_verdict (transaction : Option String) :
    (o.publish transaction s).2 = s.verdict o.desk.store.closed ∧
      (∀ e, (o.publish transaction s).2 = .error e → (o.publish transaction s).1.desk = o.desk) ∧
      (s.messages = [] → (o.publish transaction s).1 = o) := by
  obtain ⟨e, hverdict, hpublish⟩ | ⟨-, hverdict, hpublish⟩ | ⟨hmessages, hverdict, hpublish⟩ :=
    refused_or_submitted s
  · rw [hpublish, hverdict]
    exact ⟨rfl, fun _ _ => rfl, fun _ => rfl⟩
  · rw [hpublish, hverdict]
    exact ⟨rfl, fun _ _ => rfl, fun _ => rfl⟩
  · rw [hpublish, hverdict]
    exact ⟨result_submit, fun _ => desk_submit, fun hempty => absurd hempty hmessages⟩

/-- What is accepted at once is stored on its topic, one for one and in order, and nothing else is. -/
theorem publish_stores (accepted : (o.publish none s).2 = .ok ()) :
    (o.publish none s).1.drawn = o.drawn + s.messages.length ∧ (o.publish none s).1.desk.staged = o.desk.staged ∧
      ∃ added : List Stored, s.Stands o.drawn (added.map (·.message)) ∧ ∀ topic,
        ((o.publish none s).1.desk.store.log topic).toList =
          (o.desk.store.log topic).toList ++ if topic = s.target then added else [] := by
  obtain ⟨e, -, hpublish⟩ | ⟨hempty, -, hpublish⟩ | ⟨-, -, hpublish⟩ := refused_or_submitted s
  · rw [hpublish] at accepted
    cases accepted
  · have hwritten : s.written o.drawn = [] := List.eq_nil_of_length_eq_zero (by rw [s.length_written, hempty]; rfl)
    rw [hpublish]
    refine ⟨by rw [hempty]; rfl, rfl, [], ?_, fun topic => ?_⟩
    · have hstands := s.stands_written o.drawn
      rwa [hwritten] at hstands
    · split <;> exact (List.append_nil _).symm
  · rw [hpublish] at accepted ⊢
    cases hclosed : o.desk.store.closed with
    | true =>
      rw [submit_refused hclosed] at accepted
      cases accepted
    | false =>
      rw [submit_stored hclosed]
      refine ⟨congrArg (o.drawn + ·) (s.length_written o.drawn), rfl,
        InMemory.entries s.now o.desk.store.lastOffset (s.written o.drawn), ?_, fun topic => ?_⟩
      · rw [InMemory.map_message_entries]
        exact s.stands_written o.drawn
      · exact o.desk.store.log_append s.now s.target (s.written o.drawn) topic

/-- What is accepted in a transaction waits there, and the store is as it was. -/
theorem publish_waits (name : String) :
    (o.publish (some name) s).1.desk.store = o.desk.store ∧
      ((o.publish (some name) s).2 = .ok () → s.messages ≠ [] → ∃ waiting, s.Stands o.drawn waiting ∧
        (o.publish (some name) s).1.desk =
          o.desk.put name ((o.desk.staged name).map (· ++ [(s.target, waiting)]))) := by
  obtain ⟨e, -, hpublish⟩ | ⟨hempty, -, hpublish⟩ | ⟨-, -, hpublish⟩ := refused_or_submitted s
  · rw [hpublish]
    exact ⟨rfl, nofun⟩
  · rw [hpublish]
    exact ⟨rfl, fun _ hmessages => absurd hempty hmessages⟩
  · rw [hpublish]
    cases hclosed : o.desk.store.closed with
    | true =>
      rw [submit_refused hclosed]
      exact ⟨rfl, nofun⟩
    | false =>
      rw [submit_staged hclosed]
      exact ⟨rfl, fun _ _ => ⟨_, s.stands_written o.drawn, rfl⟩⟩

end Office

/-! ## Both ways -/

/-- Messages are the same, or envelopes of the same with new identifiers, from the `drawn`-th and the `drawn'`-th on. -/
def Message.Matches (drawn drawn' : Nat) (m m' : Message) : Prop :=
  m = m' ∨ ∃ (e : Envelope) (i i' : Nat), drawn ≤ i ∧ drawn' ≤ i' ∧ m = e.wrap (.drawn i) ∧ m' = e.wrap (.drawn i')

namespace Submission

theorem envelopes_match {drawn drawn' : Nat} (topic : String) {i i' : Nat} (hi : drawn ≤ i) (hi' : drawn' ≤ i')
    (ms : List Message) :
    List.Forall₂ (Message.Matches drawn drawn') (Publisher.envelopes topic i ms) (Publisher.envelopes topic i' ms) := by
  induction ms generalizing i i' with
  | nil => exact .nil
  | cons m rest ih =>
    exact .cons (.inr ⟨_, i, i', hi, hi', rfl, rfl⟩) (ih (Nat.le_succ_of_le hi) (Nat.le_succ_of_le hi'))

theorem written_match (s : Submission) {drawn drawn' i i' : Nat} (hi : drawn ≤ i) (hi' : drawn' ≤ i') :
    List.Forall₂ (Message.Matches drawn drawn') (s.written i) (s.written i') := by
  unfold written
  split
  · exact envelopes_match s.topic hi hi' s.stamped
  · exact List.forall₂_same.2 fun _ _ => .inl rfl

end Submission

/-- Stores with the same numbers on messages that match. -/
structure Twins (drawn drawn' : Nat) (s s' : InMemory) : Prop where
  last : s.lastOffset = s'.lastOffset
  logs : ∀ topic, List.Forall₂ (fun m m' => m.offset = m'.offset ∧ m.message.Matches drawn drawn' m'.message)
    (s.log topic).toList (s'.log topic).toList

namespace Twins

variable {drawn drawn' : Nat} {s s' : InMemory}

theorem refl (drawn drawn' : Nat) (s : InMemory) : Twins drawn drawn' s s where
  last := rfl
  logs _ := List.forall₂_same.2 fun _ _ => ⟨rfl, .inl rfl⟩

theorem append (h : Twins drawn drawn' s s') (now now' : Instant) (target : String) {ms ms' : List Message}
    (match' : List.Forall₂ (Message.Matches drawn drawn') ms ms') :
    Twins drawn drawn' (s.append now target ms) (s'.append now' target ms') := by
  unfold InMemory.append
  induction match' generalizing s s' with
  | nil => exact h
  | @cons m m' rest rest' hm _ ih =>
    refine ih ⟨congrArg (· + 1) h.last, fun topic => ?_⟩
    rw [InMemory.log_appendOne, InMemory.log_appendOne]
    split
    · refine List.rel_append (h.logs topic) (.cons ⟨congrArg (· + 1) h.last, hm⟩ .nil)
    · exact h.logs topic

end Twins

namespace Office

/-- What one office stores at once waits in a transaction of the other; if that is committed, the stores are twins. -/
structure Together (drawn drawn' : Nat) (store : InMemory) (name : String) (o o' : Office) : Prop where
  opened : o.desk.store.closed = false
  untouched : o'.desk.store = store
  waits : ∃ staged, o'.desk.staged name = some staged ∧ ∀ now,
    Twins drawn drawn' o.desk.store (staged.foldl (fun s w => s.append now w.1 w.2) store)
  drawn : drawn ≤ o.drawn
  drawn' : drawn' ≤ o'.drawn

variable {drawn drawn' : Nat} {store : InMemory} {name : String} {o o' : Office}

theorem Together.publish (h : Together drawn drawn' store name o o') (opened : store.closed = false) (s : Submission) :
    Together drawn drawn' store name (o.publish none s).1 (o'.publish (some name) s).1 := by
  obtain ⟨e, -, hpublish⟩ | ⟨-, -, hpublish⟩ | ⟨-, -, hpublish⟩ := refused_or_submitted s
  · rw [hpublish, hpublish]
    exact h
  · rw [hpublish, hpublish]
    exact h
  obtain ⟨staged, hstaged, htwins⟩ := h.waits
  have hopened' : o'.desk.store.closed = false := h.untouched ▸ opened
  rw [hpublish, hpublish, submit_stored h.opened, submit_staged hopened']
  refine ⟨?_, h.untouched, ⟨staged ++ [(s.target, s.written o'.drawn)], ?_, fun now => ?_⟩, ?_, ?_⟩
  · rw [InMemory.closed_append]
    exact h.opened
  · show (if name = name then (o'.desk.staged name).map _ else _) = _
    rw [if_pos rfl, hstaged]
    rfl
  · rw [List.foldl_append]
    exact (htwins now).append s.now now s.target (s.written_match h.drawn h.drawn')
  · exact Nat.le_add_right_of_le h.drawn
  · exact Nat.le_add_right_of_le h.drawn'

theorem Together.publishAll (h : Together drawn drawn' store name o o') (opened : store.closed = false)
    (ss : List Submission) :
    Together drawn drawn' store name (o.publishAll none ss).1 (o'.publishAll (some name) ss).1 ∧
      (o.publishAll none ss).2 = ss.map (·.verdict false) ∧
      (o'.publishAll (some name) ss).2 = ss.map (·.verdict false) := by
  induction ss generalizing o o' with
  | nil => exact ⟨h, rfl, rfl⟩
  | cons s rest ih =>
    obtain ⟨htogether, hresults, hresults'⟩ := ih (h.publish opened s)
    have hresult := (publish_verdict o s none).1
    have hresult' := (publish_verdict o' s (some name)).1
    rw [h.opened] at hresult
    rw [h.untouched, opened] at hresult'
    exact ⟨htogether, congrArg₂ List.cons hresult hresults, congrArg₂ List.cons hresult' hresults'⟩

/-- When the transaction is committed, the stores are twins. -/
theorem Together.commit (h : Together drawn drawn' store name o o') (opened : store.closed = false) (now : Instant)
    (token : Uuid) :
    (o'.desk.deal ⟨now, token, .commit name⟩).2 = .outcome (.ok .done, []) ∧
      Twins drawn drawn' o.desk.store (o'.desk.deal ⟨now, token, .commit name⟩).1.store := by
  obtain ⟨staged, hstaged, htwins⟩ := h.waits
  have hcommit := (@Desk.call_of_open now token o'.desk.store (h.untouched ▸ opened)).2.2 staged
  have hasks : o'.desk.action? (.commit name) = some (.commit staged) := by
    show some (Store.Action.commit ((o'.desk.staged name).getD [])) = _
    rw [hstaged]
    rfl
  rw [Desk.deal_some hasks, hcommit, h.untouched]
  exact ⟨rfl, htwins now⟩

end Office

/-- **Publishing is all or nothing, at once and in a transaction.** What a publisher is told depends on the submission
and on whether the store is closed, not on how it is handed in. What is refused leaves store and transactions as they
were, and no messages change nothing. What is accepted at once is stored on its topic, one for one and in order, or
waits in its transaction. Submissions that are handed in one after the other in a transaction come to the same once that
is committed as if they were handed in at once. -/
theorem publishing_all_or_nothing (o : Office) :
    (∀ transaction s, (o.publish transaction s).2 = s.verdict o.desk.store.closed ∧
      (∀ e, (o.publish transaction s).2 = .error e → (o.publish transaction s).1.desk = o.desk) ∧
      (s.messages = [] → (o.publish transaction s).1 = o)) ∧
    (∀ s, (o.publish none s).2 = .ok () → (o.publish none s).1.drawn = o.drawn + s.messages.length ∧
      (o.publish none s).1.desk.staged = o.desk.staged ∧
      ∃ added : List Stored, s.Stands o.drawn (added.map (·.message)) ∧ ∀ topic,
        ((o.publish none s).1.desk.store.log topic).toList =
          (o.desk.store.log topic).toList ++ if topic = s.target then added else []) ∧
    (∀ name s, (o.publish (some name) s).1.desk.store = o.desk.store ∧
      ((o.publish (some name) s).2 = .ok () → s.messages ≠ [] → ∃ waiting, s.Stands o.drawn waiting ∧
        (o.publish (some name) s).1.desk =
          o.desk.put name ((o.desk.staged name).map (· ++ [(s.target, waiting)])))) ∧
    ∀ (o' : Office) name ss now token, o.desk.store.closed = false → o'.desk.store = o.desk.store →
      o'.desk.staged name = some [] →
      (o.publishAll none ss).2 = ss.map (·.verdict false) ∧
      (o'.publishAll (some name) ss).2 = ss.map (·.verdict false) ∧
      ((o'.publishAll (some name) ss).1.desk.deal ⟨now, token, .commit name⟩).2 = .outcome (.ok .done, []) ∧
      Twins o.drawn o'.drawn (o.publishAll none ss).1.desk.store
        ((o'.publishAll (some name) ss).1.desk.deal ⟨now, token, .commit name⟩).1.store := by
  refine ⟨fun transaction s => o.publish_verdict s transaction, fun s => o.publish_stores s,
    fun name s => o.publish_waits s name, fun o' name ss now token opened same begun => ?_⟩
  have hstart : Office.Together o.drawn o'.drawn o.desk.store name o o' :=
    ⟨opened, same, ⟨[], begun, fun _ => .refl _ _ _⟩, Nat.le_refl _, Nat.le_refl _⟩
  obtain ⟨htogether, hresults, hresults'⟩ := hstart.publishAll opened ss
  exact ⟨hresults, hresults', htogether.commit opened now token⟩

/-- An order through an outbox, and messages for the outbox itself, at once and in a transaction. -/
theorem publishing_all_or_nothing_stray :
    let order : Submission := ⟨.new "outbox" true .silent, none, "orders", [.new (.drawn 0) [1], .new (.drawn 1) []], 5⟩
    let stray : Submission := { order with topic := "outbox" }
    let o : Office := ⟨.start, 2⟩
    let o' : Office := ⟨Desk.start.put "tx" (some []), 2⟩
    (∃ added : List Stored, order.Stands 2 (added.map (·.message)) ∧
        ((o.publish none order).1.desk.store.log "outbox").toList = added) ∧
      (∃ waiting, order.Stands 2 waiting ∧ (o'.publish (some "tx") order).1.desk.staged "tx" =
        some [("outbox", waiting)]) ∧
      (o'.publish (some "tx") stray).1.desk = o'.desk ∧
      (o'.publishAll (some "tx") [order, stray]).2 = [.ok (), .error (.reservedTopic "outbox")] ∧
      Twins 2 2 (o.publishAll none [order, stray]).1.desk.store
        ((o'.publishAll (some "tx") [order, stray]).1.desk.deal ⟨7, .drawn 9, .commit "tx"⟩).1.store := by
  intro order stray o o'
  have horder : order.verdict false = .ok () := by decide
  have hstray : stray.verdict false = .error (.reservedTopic "outbox") := by decide
  obtain ⟨hverdict, hstores, -, htogether⟩ := publishing_all_or_nothing o
  obtain ⟨hverdict', -, hwaits, -⟩ := publishing_all_or_nothing o'
  obtain ⟨-, -, added, hstands, hlog⟩ := hstores order ((hverdict none order).1.trans horder)
  obtain ⟨waiting, hstands', hdesk⟩ :=
    (hwaits "tx" order).2 ((hverdict' (some "tx") order).1.trans horder) (by decide)
  obtain ⟨-, hresults, -, htwins⟩ := htogether o' "tx" [order, stray] 7 (.drawn 9) rfl rfl (by decide)
  refine ⟨⟨added, hstands, hlog "outbox"⟩, ⟨waiting, hstands', ?_⟩,
    (hverdict' (some "tx") stray).2.1 _ ((hverdict' (some "tx") stray).1.trans hstray), ?_, htwins⟩
  · rw [hdesk]
    rfl
  · rw [hresults]
    exact congrArg₂ (fun a b => [a, b]) horder hstray

/-! ## Sessions -/

namespace Scenario

/-- The store of a session with its transactions, and how many identifiers have been drawn. -/
def World.office (w : World) : Office := ⟨w.desk, w.system.drawn⟩

def World.draws (w : World) (n : Nat) : World := { w with system := { w.system with drawn := w.system.drawn + n } }

theorem place_undisturbed {w : World} (undisturbed : w.rules = []) {request : Store.Request}
    (forgets : request.operation ≠ .forgetGroup) : place request w = (⟨request, .performed, w.system.now⟩, w) := by
  obtain ⟨system, rules⟩ := w
  obtain rfl : rules = [] := undisturbed
  cases request with
  | forgetGroup topic group => exact absurd rfl forgets
  | _ => rfl

theorem await_done {α : Type} {caller : Play (Progress α)} {w w' : World} {a : α} (done : caller w = (.done a, w'))
    (n : Nat) : await caller (n + 1) w = (some a, w') := by
  rw [await, done]

/-- Undisturbed, a request of which the store has nothing to note is answered at once. -/
theorem ask_undisturbed {w : World} (undisturbed : w.rules = []) {request : Store.Request}
    (forgets : request.operation ≠ .forgetGroup) (silent : (w.system.ask .performed request).2.2 = []) :
    ask request w =
      ((w.system.ask .performed request).2.1, { w with system := (w.system.ask .performed request).1 }) := by
  have hcaller : (do
      if w.system.now ≤ (← clock) then
        let answered := (← get).system.ask .performed request
        modify ({ · with system := answered.1 })
        answered.2.2.forM fun notice => log notice.entry
        return .done answered.2.1
      else return .waits [w.system.now] : Play (Progress Store.Reply)) w =
      (.done (w.system.ask .performed request).2.1, { w with system := (w.system.ask .performed request).1 }) := by
    show StateT.run _ w = _
    unfold clock
    simp only [StateT.run_bind, StateT.run_get, StateT.run_modify, pure_bind, StateT.run_pure, Nat.le_refl, if_true,
      silent]
    rfl
  unfold ask
  simp only [bind, StateT.bind, place_undisturbed undisturbed forgets]
  have hplay := await_done hcaller 999_999_999_999
  exact congrArg (fun answer : Option Store.Reply × World => (answer.1.getD (.error .closed), answer.2)) hplay

theorem publisher?_eq (w : World) :
    publisher? w = ((w.system.buses.getLast?.map (·.publisher)).or w.publisher, w) := by
  show StateT.run publisher? w = _
  unfold publisher? bus?
  simp only [StateT.run_bind, StateT.run_get, pure_bind, StateT.run_pure]
  cases w.system.buses.getLast? <;> rfl

theorem ask_enqueue {w : World} (undisturbed : w.rules = []) (target : String) (written : List Message) :
    ask (.enqueue target written) w = ((w.system.ask .performed (.enqueue target written)).2.1,
      { w with system := (w.system.ask .performed (.enqueue target written)).1 }) := by
  refine ask_undisturbed undisturbed (by simp [Store.Request.operation]) ?_
  unfold System.ask InMemory.perform
  cases w.system.store.closed <;> simp

theorem store_staged {w : World} (undisturbed : w.rules = []) (name target : String) (written : List Message) :
    store target written (some name) w =
      if w.system.store.closed then (.error .closed, w) else (.ok .done, (stage name target written w).2) := by
  have hask : ask (.stage target written) w = (if w.system.store.closed then .error .closed else .ok .done, w) := by
    rw [ask_undisturbed undisturbed (by simp [Store.Request.operation])]
    all_goals
      unfold System.ask InMemory.perform
      cases w.system.store.closed <;> simp [Store.Request.operation]
  show StateT.run (store target written (some name)) w = _
  unfold store
  rw [StateT.run_bind, show (ask (.stage target written)).run w = _ from hask]
  cases w.system.store.closed <;> rfl

theorem office_submit {w : World} (undisturbed : w.rules = []) (transaction : Option String) (topic target : String)
    (written : List Message) :
    (store target written transaction (w.draws written.length)).2.office =
        (w.office.submit transaction w.system.now topic target written).1 ∧
      Office.told topic (store target written transaction (w.draws written.length)).1 =
        (w.office.submit transaction w.system.now topic target written).2 := by
  have hrules : (w.draws written.length).rules = [] := undisturbed
  cases transaction with
  | none =>
    have hstore : store target written none = ask (.enqueue target written) := rfl
    rw [hstore, ask_enqueue hrules]
    exact ⟨rfl, rfl⟩
  | some name =>
    rw [store_staged hrules]
    cases hclosed : (w.draws written.length).system.store.closed with
    | true =>
      rw [Office.submit_refused hclosed]
      exact ⟨rfl, rfl⟩
    | false =>
      rw [Office.submit_staged hclosed]
      refine ⟨?_, rfl⟩
      show (⟨(stage name target written (w.draws written.length)).2.desk, _⟩ : Office) = _
      rw [desk_stage]
      rfl

/-- **The publishing of a session that nothing disturbs is that of an office.** -/
theorem office_publish {w : World} (undisturbed : w.rules = []) {publisher : Publisher}
    (through : (publisher? w).1 = some publisher) {p : Publication} {context : TraceContext}
    (stamped : p.context = some context) :
    let s : Submission := ⟨publisher, context, p.topic, p.messages, w.system.now⟩
    (publish p w).2.office = (w.office.publish p.transaction s).1 ∧
      (publish p w).1 = match (w.office.publish p.transaction s).2 with
        | .ok _ => .ok
        | .error e => .failed e := by
  intro s
  have hpublisher : publisher?.run w = pure (some publisher, w) := by
    show publisher? w = _
    rw [publisher?_eq] at through ⊢
    exact congrArg (·, w) through
  have hpublish : publish p w = match publisher.prepare w.system.drawn context p.topic p.messages with
      | .error e => (.failed e, w)
      | .ok none => (.ok, w)
      | .ok (some (target, written)) =>
        let (reply, w) := (store target written p.transaction).run (w.draws written.length)
        (match Office.told p.topic reply with
          | .ok _ => .ok
          | .error e => .failed e, w) := by
    show (publish p).run w = _
    unfold publish
    rw [StateT.run_bind, hpublisher, pure_bind, stamped]
    simp only [StateT.run_bind, StateT.run_get, pure_bind]
    obtain e | (_ | ⟨target, written⟩) := publisher.prepare w.system.drawn context p.topic p.messages
    · rfl
    · rfl
    · simp only [StateT.run_bind, StateT.run_modify, pure_bind]
      show ((store target written p.transaction).run (w.draws written.length) >>= _) = _
      obtain ⟨reply | reply, w'⟩ : Store.Reply × World :=
        (store target written p.transaction).run (w.draws written.length)
      · rfl
      · rfl
  have hprepare : s.publisher.prepare w.office.drawn s.context s.topic s.messages =
      (publisher.prepare w.system.drawn context p.topic p.messages : Except (BusError Store.Error) _) := rfl
  rw [hpublish, Office.publish, hprepare]
  obtain e | (_ | ⟨target, written⟩) := publisher.prepare w.system.drawn context p.topic p.messages
  · exact ⟨rfl, rfl⟩
  · exact ⟨rfl, rfl⟩
  · obtain ⟨hoffice, htold⟩ := office_submit undisturbed p.transaction p.topic target written
    refine ⟨hoffice, ?_⟩
    show _ = match (w.office.submit p.transaction w.system.now p.topic target written).2 with
      | .ok _ => _
      | .error e => _
    rw [← htold]
    rfl

end Scenario

end DurableBus
