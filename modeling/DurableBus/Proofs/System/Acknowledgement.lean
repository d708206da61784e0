import DurableBus.Proofs.Store.Reclaiming
import DurableBus.Proofs.System.Broadcast
import DurableBus.Proofs.System.Relay

/-!
# What the hook is told of acknowledgements

A store answers who acknowledges a claim that is no longer held as it answers anybody else, and notes in the log that
the claim was lost. So the hook is told of both.

* `Consumer.acked_mem_answer`, `acked_mem_occur` : the hook is told when a store has answered who acknowledges;
* `Reports.takes_effect`, `Reports.comes_late` : what an acknowledgement does that the hook is told of;
* `Core.Follows.given`, `not_takesUp` : what is final is not taken in hand;
* `acknowledgements_told` : what the hook is told of in a course, and what follows from it.
-/

set_option autoImplicit false

namespace DurableBus

open Consumer (Setup)

def Effect.acks : Effect → Bool
  | .hook (.acked _ _ _) => true
  | _ => false

/-! ## Who tells the hook -/

namespace Consumer

variable {c : Consumer}

theorem acks_carryOn (c : Consumer) (s : ClaimStream) (job : Job) (attempts : Retry Failure) :
    (c.carryOn s job attempts).2.any Effect.acks = false := by
  unfold carryOn
  split
  · unfold conclude
    split <;> rfl
  · rfl

theorem acks_endAttempt (c : Consumer) (s : ClaimStream) (job : Job) (attempts : Retry Failure)
    (outcome : Except Failure Unit) : (c.endAttempt s job attempts outcome).2.any Effect.acks = false := by
  unfold endAttempt
  split
  · rfl
  · exact acks_carryOn _ _ _ _

theorem acks_lookAt (c : Consumer) (o : Observation) (s : ClaimStream) (job : Job) (attempts : Retry Failure) :
    (c.lookAt o s job attempts).2.any Effect.acks = false := by
  unfold lookAt beginAttempt
  split
  · split
    · rfl
    · split
      · rfl
      · exact acks_endAttempt _ _ _ _ _
    · rfl
  · exact acks_carryOn _ _ _ _

theorem acks_notes (notices : List Store.Notice) : (notices.map Effect.note).any Effect.acks = false := by
  rw [List.any_map, List.any_eq_false]
  exact fun _ _ => Bool.false_ne_true

theorem acks_announce (c : Consumer) : c.announce.any Effect.acks = false := by
  unfold announce
  split <;> rfl

theorem acks_farewell (c : Consumer) : (Effect.hook c.farewell).acks = false := by
  unfold farewell
  split <;> rfl

theorem acks_pulled (c : Consumer) (s : ClaimStream) (move : ClaimStream.Move) :
    (c.pulled s move).2.any Effect.acks = false := by
  unfold pulled
  split
  case h_2 => exact acks_announce c
  case h_3 => exact acks_notes _
  case h_4 =>
    unfold take
    split
    · rfl
    · split <;> rfl
  all_goals rfl

theorem acks_drained (c : Consumer) (s : ClaimStream) (move : ClaimStream.Move) :
    (c.drained s move).2.any Effect.acks = false := by
  unfold drained
  split
  case h_2 => exact acks_announce c
  case h_3 => exact acks_notes _
  case h_5 =>
    unfold leave
    split
    · rfl
    · rw [List.any_cons, acks_farewell]
      rfl
  all_goals rfl

theorem acks_look (c : Consumer) (o : Observation) : (c.look o).2.any Effect.acks = false := by
  unfold look
  split
  case h_1 => cases c.setup.role <;> rfl
  case h_2 => split <;> rfl
  case h_3 => exact acks_pulled _ _ _
  case h_4 | h_5 => exact acks_lookAt _ _ _ _ _
  case h_6 => exact acks_drained _ _ _
  case h_7 => rfl

theorem acks_finish (c : Consumer) (outcome : Except Failure Unit) : (c.finish outcome).2.any Effect.acks = false := by
  unfold finish
  split
  · exact acks_endAttempt _ _ _ _ _
  · rfl

theorem acks_report (c : Consumer) (job : Job) (e : RetryError Failure) :
    (c.report job e).2.any Effect.acks = false := by
  unfold report
  split
  · rfl
  · split <;> rfl

theorem not_acked_mem {effects : List Effect} (h : effects.any Effect.acks = false) (topic : String) (id : Uuid)
    (n : Nat) : Effect.hook (.acked topic id n) ∉ effects := fun hmem =>
  List.any_eq_false.1 h _ hmem rfl

/-- **The hook is told by who acknowledges**, if the store does not refuse. -/
theorem acked_mem_answer {o : Observation} {reply : Store.Reply} {topic : String} {id : Uuid} {n : Nat}
    (h : .hook (.acked topic id n) ∈ (c.answer o reply).2) :
    ∃ s k context answer, c.phase = .working s (.dispatch k context (.acking n)) ∧ reply = .ok answer ∧
      topic = c.setup.topic ∧ id = k.message.id := by
  have hsettled : ∀ job : Job, (c.settled job reply).any Effect.acks = false := fun job => by
    unfold settled
    split <;> rfl
  unfold answer at h
  split at h
  case h_1 => exact absurd h (not_acked_mem (acks_pulled _ _ _) _ _ _)
  case h_2 => exact absurd h (not_acked_mem (acks_drained _ _ _) _ _ _)
  case h_3 s job hphase =>
    unfold answerJob at h
    split at h
    case h_1 => exact absurd h (not_acked_mem (acks_endAttempt _ _ _ _ _) _ _ _)
    case h_2 k context n' =>
      cases reply with
      | ok answer =>
        cases List.mem_singleton.1 h
        exact ⟨s, k, context, answer, hphase, rfl, rfl, rfl⟩
      | error e => cases List.mem_singleton.1 h
    case h_3 =>
      rcases List.mem_append.1 h with h | h
      · exact absurd h (not_acked_mem (hsettled _) _ _ _)
      · exact absurd h (not_acked_mem (acks_report _ _ _) _ _ _)
    case h_7 => cases h
    all_goals exact absurd h (not_acked_mem (hsettled _) _ _ _)
  case h_4 =>
    refine absurd h (not_acked_mem ?_ _ _ _)
    rw [List.any_append, List.any_cons, acks_farewell]
    cases reply <;> rfl
  case h_5 => cases h

theorem told_answer {s : ClaimStream} {k : Claimed} {context : TraceContext} {n : Nat}
    (phase : c.phase = .working s (.dispatch k context (.acking n))) (o : Observation) (reply : Store.Reply) :
    (c.answer o reply).2 = match reply with
      | .ok _ => [.hook (.acked c.setup.topic k.message.id n)]
      | .error e => [.hook (.unsettled c.setup.topic k.message.id e)] := by
  unfold answer
  rw [phase]
  cases reply <;> rfl

end Consumer

namespace System

variable {s : System} {e : Event}

/-- A member tells the hook that it has acknowledged the message in hand. -/
def Reports (i : Nat) (setup : Setup) (k : Claimed) (x : System × Event) : Prop :=
  x.2 = .turn (.answer i .performed) ∧
    ∃ context n, x.1.workAt i = some (setup, .dispatch k context (.acking n)) ∧
      .hook (.acked setup.topic k.message.id n) ∈ (x.1.occur x.2).2

/-- The store notes that a claim was lost before it was acknowledged. -/
def NotesLoss (r : Receipt) (x : System × Event) : Prop := .note (.lostBeforeAck r) ∈ (x.1.occur x.2).2

/-- A member takes a message in hand. -/
def TakesUp (i : Nat) (setup : Setup) (job : Job) (x : System × Event) : Prop :=
  x.1.workAt i = none ∧ (x.1.occur x.2).1.workAt i = some (setup, job)

def Forgets (topic group : String) (x : System × Event) : Prop :=
  ∃ c ∈ x.1.call? x.2, InMemory.Visit.Forgets topic group (x.1.store, c)

instance (topic group : String) (x : System × Event) : Decidable (Forgets topic group x) :=
  inferInstanceAs (Decidable (∃ c ∈ x.1.call? x.2, c.action = _ ∧ x.1.store.closed = false))

/-- **The hook is told of an acknowledgement** by the member that acknowledges, when it has been answered. -/
theorem acked_mem_occur {topic : String} {id : Uuid} {n : Nat} (h : .hook (.acked topic id n) ∈ (s.occur e).2) :
    ∃ i setup k, Reports i setup k (s, e) ∧ topic = setup.topic ∧ id = k.message.id := by
  have hnotes : ∀ notices : List Store.Notice, Effect.hook (.acked topic id n) ∉ notices.map Effect.note :=
    fun notices => Consumer.not_acked_mem (Consumer.acks_notes notices) _ _ _
  cases e with
  | subscribed | forwarding => cases h
  | turn t =>
    cases t with
    | look i =>
      replace h : .hook (.acked topic id n) ∈ (s.look i).2 := h
      unfold look at h
      split at h
      · exact absurd h (Consumer.not_acked_mem (Consumer.acks_look _ _) _ _ _)
      · cases h
    | finish i outcome =>
      replace h : .hook (.acked topic id n) ∈ (s.finish i outcome).2 := h
      unfold finish at h
      split at h
      · exact absurd h (Consumer.not_acked_mem (Consumer.acks_finish _ _) _ _ _)
      · cases h
    | answer i fate =>
      have htold := h
      replace h : .hook (.acked topic id n) ∈ (s.answer i fate).2 := h
      unfold answer at h
      split at h
      case h_1 m hm =>
        split at h
        case h_1 request asks =>
          rcases List.mem_append.1 h with h | h
          · exact absurd h (hnotes _)
          · obtain ⟨cs, k, context, answer, hphase, hreply, rfl, rfl⟩ := Consumer.acked_mem_answer h
            have hwork : s.workAt i = some (m.consumer.setup, .dispatch k context (.acking n)) := by
              unfold workAt
              rw [hm, Option.bind_some, hphase]
              rfl
            cases fate with
            | performed => exact ⟨i, m.consumer.setup, k, ⟨rfl, context, n, hwork, htold⟩, rfl, rfl⟩
            | rejected => cases hreply
        case h_2 => cases h
      case h_2 => cases h
    | publish bus context topic' messages fate =>
      replace h : .hook (.acked topic id n) ∈ (s.publish bus context topic' messages fate).2 := h
      unfold publish at h
      split at h
      · cases h
      · split at h
        · exact absurd h (hnotes _)
        · cases h
    | ask fate request => exact absurd h (hnotes _)
    | lookShutdown bus =>
      replace h : .hook (.acked topic id n) ∈ (s.lookShutdown bus).2 := h
      unfold lookShutdown at h
      split at h
      · simp only at h
        unfold Bus.lookShutdown at h
        split at h
        · repeat' split at h
          all_goals simp at h
        · cases h
      · cases h
    | _ => cases h

/-! ## What an acknowledgement does -/

variable {events : List Event} {i : Nat} {setup : Setup} {k : Claimed}

theorem member_of_workAt {job : Job} (busy : s.workAt i = some (setup, job)) :
    ∃ m cs, s.members[i]? = some m ∧ m.consumer.setup = setup ∧ m.consumer.phase = .working cs job := by
  unfold workAt at busy
  obtain ⟨m, hm, hjob⟩ := Option.bind_eq_some_iff.1 busy
  obtain ⟨job', hjob', hsame⟩ := Option.map_eq_some_iff.1 hjob
  obtain ⟨rfl, rfl⟩ := Prod.mk.inj hsame
  obtain ⟨cs, hphase⟩ := Phase.working_of_job? hjob'
  exact ⟨m, cs, hm, rfl, hphase⟩

/-- A member asks an open store to acknowledge the claim that it reports on. -/
theorem Reports.asked (h : Reports i setup k (s, e)) :
    s.store.closed = false ∧
      (s.occur e).1.store = (s.store.perform s.now (.drawn s.drawn) (.ack k.receipt)).1 ∧
      ∀ notice, .note notice ∈ (s.occur e).2 ↔
        notice ∈ (s.store.perform s.now (.drawn s.drawn) (.ack k.receipt)).2.2 := by
  obtain ⟨he, context, n, busy, told⟩ := h
  obtain rfl : e = .turn (.answer i .performed) := he
  obtain ⟨m, cs, hm, rfl, hphase⟩ := member_of_workAt busy
  have asks : m.consumer.request? = some (.ack k.receipt) := by
    unfold Consumer.request?
    rw [hphase]
    rfl
  have heffects : (s.occur (.turn (.answer i .performed))).2 =
      (s.store.perform s.now (.drawn s.drawn) (.ack k.receipt)).2.2.map .note ++
        (match (s.store.perform s.now (.drawn s.drawn) (.ack k.receipt)).2.1 with
          | .ok _ => [.hook (.acked m.consumer.setup.topic k.message.id n)]
          | .error e => [.hook (.unsettled m.consumer.setup.topic k.message.id e)]) := by
    show (s.answer i .performed).2 = _
    unfold answer
    rw [hm]
    simp only [asks]
    exact congrArg _ (Consumer.told_answer hphase _ _)
  have hopen : s.store.closed = false := by
    rw [← Bool.not_eq_true]
    intro closed
    rw [heffects, InMemory.perform_of_closed closed (by simp)] at told
    cases List.mem_singleton.1 told
  refine ⟨hopen, ?_, fun notice => ?_⟩
  · rw [store_occur, storeAfter, call?_answer hm asks]
    rfl
  · rw [heffects, List.mem_append, List.mem_map]
    constructor
    · rintro (⟨notice', hnotice, hsame⟩ | h)
      · cases hsame
        exact hnotice
      · split at h <;> cases List.mem_singleton.1 h
    · exact fun h => Or.inl ⟨notice, h, rfl⟩

/-- The claim that a member works under is one of its group, on a message of its topic. -/
theorem stored_of_workAt {job : Job} (busy : (outcome events).workAt i = some (setup, job)) :
    job.claimed.receipt.group = setup.group ∧
      ∃ m ∈ (outcome events).store.log setup.topic, m.offset = job.claimed.receipt.offset := by
  obtain ⟨l, hrefines, hsound, -⟩ := behind_outcome events
  obtain ⟨p, post, hjob⟩ := Core.post_of_workAt ((Core.workAt_core _ l).symm ▸ busy)
  obtain ⟨⟨hgroup, m, hm, ho, -⟩, -⟩ :=
    hsound.held _ post job.claimed (Phase.claimed_mem_held hjob)
  exact ⟨hgroup, m, by rwa [← Array.mem_toList_iff, hrefines.log], ho⟩

theorem Reports.stored (h : Reports i setup k (outcome events, e)) :
    k.receipt.group = setup.group ∧ ∃ m ∈ (outcome events).store.log setup.topic, m.offset = k.receipt.offset := by
  obtain ⟨-, context, n, busy, -⟩ := h
  exact stored_of_workAt busy

/-- **An acknowledgement that the hook is told of** takes effect, unless the store notes that the claim was lost: the
claim is held until then, and the message is final from then on and was not before. -/
theorem Reports.takes_effect (h : Reports i setup k (outcome events, e))
    (held : ¬ NotesLoss k.receipt (outcome events, e)) :
    ((outcome events).store.current? k.receipt).isSome ∧
      (outcome events).store.isFinal setup.topic setup.group k.receipt.offset = false ∧
      (outcome (events ++ [e])).store.isFinal setup.topic setup.group k.receipt.offset = true := by
  obtain ⟨hopen, hstore, hnotes⟩ := h.asked
  obtain ⟨hgroup, m, hm, ho⟩ := h.stored
  have hrefines := refines_outcome events
  have hcurrent : ((outcome events).store.current? k.receipt).isSome := by
    rw [Option.isSome_iff_ne_none]
    intro lost
    refine held ((hnotes _).2 ?_)
    rw [(InMemory.ignores_of_lost hopen lost).ack]
    exact List.mem_singleton_self _
  have hheld : ((ledgerOf events).current? k.receipt).isSome := by
    rcases hrefines.current? k.receipt with ⟨-, lost⟩ | ⟨topic, m, e, -, -, -, hl, -⟩
    · rw [lost] at hcurrent
      cases hcurrent
    · rw [hl]
      rfl
  have hlog : m ∈ (ledgerOf events).log setup.topic := by rwa [← hrefines.log, Array.mem_toList_iff]
  have hhonours := InMemory.honours_of_held hrefines hopen hheld ⟨m, hlog, ho⟩
  rw [outcome_concat, ← hgroup]
  refine ⟨hcurrent, hhonours.unsettled.1, ?_⟩
  rw [hstore]
  exact (hhonours.ack _ _).2

/-- **An acknowledgement whose claim was lost** does nothing, and the hook is told of it all the same. -/
theorem Reports.comes_late (h : Reports i setup k (outcome events, e))
    (lost : NotesLoss k.receipt (outcome events, e)) :
    (outcome events).store.current? k.receipt = none ∧
      (outcome (events ++ [e])).store = (outcome events).store := by
  obtain ⟨hopen, hstore, hnotes⟩ := h.asked
  have hnone : (outcome events).store.current? k.receipt = none := by
    cases hcurrent : (outcome events).store.current? k.receipt with
    | none => rfl
    | some d =>
      have hnotice := (hnotes _).1 lost
      unfold InMemory.perform InMemory.ack at hnotice
      simp only [hopen, hcurrent] at hnotice
      cases hnotice
  refine ⟨hnone, ?_⟩
  rw [outcome_concat, hstore,
    (InMemory.ignores_of_lost hopen hnone).ack]

/-! ## What is taken in hand -/

namespace Core

variable {c c' : Core} {job : Job}

theorem gives_of_passes {p p' : Phase} {occasion : Option (Store.Request × Store.Reply)}
    (passes : Consumer.Passes setup p occasion p') (idle : p.job? = none) (busy : p'.job? = some job) :
    Consumer.Gives setup job.claimed occasion := by
  cases passes with
  | free was is held waits =>
    rw [is] at busy
    cases busy
  | taken was gives held waits =>
    rw [← Option.some.inj busy, Consumer.claimed_jobFor]
    exact gives
  | continued => cases idle
  | settled => cases busy

theorem Step.given {t : Turn} (hstep : Step c t c') (sound : c.Sound) (idle : c.workAt i = none)
    (busy : c'.workAt i = some (setup, job)) :
    ∃ fate request, Consumer.Gives setup job.claimed (some (request, (c.ask fate request).2)) := by
  have hmoves : t.mover? = some i := by
    by_contra hother
    refine absurd busy ?_
    cases hmover : t.mover? with
    | none =>
      rw [hstep.workAt_of_unmoved hmover, idle]
      simp
    | some j =>
      rw [hstep.workAt_of_ne hmover (fun hij => hother (by rw [hmover, hij])), idle]
      simp
  have hidle : ∀ {p : Setup × Phase}, c.posts[i]? = some p → p.2.job? = none := by
    intro p post
    rw [workAt_of_post post] at idle
    exact Option.map_eq_none_iff.1 idle
  -- nothing is handed to who moves without an answer
  have hnothing : ¬ Consumer.Gives setup job.claimed none := by
    rintro (⟨_, h⟩ | ⟨_, _, h⟩) <;> cases h
  cases hstep with
  | still =>
    rw [idle] at busy
    cases busy
  | looked post =>
    cases hmoves
    rw [workAt_of_post (post_enter post _)] at busy
    obtain ⟨job', hjob, hsame⟩ := Option.map_eq_some_iff.1 busy
    obtain ⟨rfl, rfl⟩ := Prod.mk.inj hsame
    have hphase := sound.phases _ (List.mem_of_getElem? post)
    exact absurd (gives_of_passes (Consumer.passes_look _ _ hphase) (hidle post) hjob) hnothing
  | finished post =>
    cases hmoves
    rw [workAt_of_post (post_enter post _)] at busy
    obtain ⟨job', hjob, hsame⟩ := Option.map_eq_some_iff.1 busy
    obtain ⟨rfl, rfl⟩ := Prod.mk.inj hsame
    have hphase := sound.phases _ (List.mem_of_getElem? post)
    exact absurd (gives_of_passes (Consumer.passes_finish _ _ hphase) (hidle post) hjob) hnothing
  | @answered _ fate _ request _ post waits =>
    cases hmoves
    rw [workAt_of_post (post_enter (post_ask post) _)] at busy
    obtain ⟨job', hjob, hsame⟩ := Option.map_eq_some_iff.1 busy
    obtain ⟨rfl, rfl⟩ := Prod.mk.inj hsame
    have hphase := sound.phases _ (List.mem_of_getElem? post)
    exact ⟨fate, request, gives_of_passes (Consumer.passes_answer _ _ _ hphase waits) (hidle post) hjob⟩
  | _ => cases hmoves

/-- **Who takes a message in hand** has been handed it by the store. -/
theorem Follows.given (follows : Follows c e c') (sound : c.Sound) (idle : c.workAt i = none)
    (busy : c'.workAt i = some (setup, job)) :
    ∃ fate request, Consumer.Gives setup job.claimed (some (request, (c.ask fate request).2)) := by
  cases follows with
  | still =>
    rw [idle] at busy
    cases busy
  | turned step => exact step.given sound idle busy
  | subscribed more | forwarding known =>
    have hsame : c.workAt i = some (setup, job) := (congrFun (workAt_joined c _) i).symm.trans busy
    rw [idle] at hsame
    cases hsame

end Core

/-- **What is final for a group** is not taken in hand by a member of the group. -/
theorem not_takesUp {topic : String} {m : Stored} (hm : m ∈ (outcome events).store.log topic)
    (final : (outcome events).store.isFinal topic setup.group m.offset) {job : Job}
    (takes : TakesUp i setup job (outcome events, e)) : job.claimed.receipt.offset ≠ m.offset := by
  obtain ⟨idle, busy⟩ := takes
  obtain ⟨l, hrefines, hsound, -⟩ := behind_outcome events
  obtain ⟨l', hrefines', hfollows⟩ := follows_occur hrefines e
  have hworks : (outcome (events ++ [e])).workAt i = some (setup, job) := by
    rw [outcome_concat]
    exact busy
  have hgroup : job.claimed.receipt.group = setup.group := (stored_of_workAt hworks).1
  have hfinal : l.isFinal setup.group m.offset := by
    rwa [← hrefines.isFinal (by rwa [← hrefines.log, Array.mem_toList_iff])]
  obtain ⟨entry, hentry, hacked⟩ := Ledger.isFinal_iff.1 hfinal
  obtain ⟨fate, request, hgives⟩ := hfollows.given hsound ((congrFun (Core.workAt_core _ l) i).trans idle)
    ((congrFun (Core.workAt_core _ l') i).trans busy)
  obtain ⟨-, hgranted, -⟩ := Core.granted hgives
  intro ho
  rw [hgroup, ho] at hgranted
  rcases hgranted with hopen | ⟨-, entry', hcurrent⟩
  · have hopen' : Entry.isOpen _ (l.entries m.offset setup.group) := hopen
    rw [hentry, Entry.isOpen, hacked] at hopen'
    cases hopen'
  · obtain ⟨hentry', hstate, -⟩ := Ledger.current?_eq_some.1 hcurrent
    have hsame : l.entries m.offset setup.group = some entry' := by rw [← ho, ← hgroup]; exact hentry'
    rw [hentry] at hsame
    rw [← Option.some.inj hsame, hacked] at hstate
    cases hstate

/-! ## Courses -/

/-- What is final stays final unless the group forgets the topic. -/
theorem isFinal_outcome {topic group : String} {m : Stored} (hm : m ∈ (ledgerOf events).log topic)
    (final : (ledgerOf events).isFinal group m.offset) {after : List Event}
    (keeps : ∀ y ∈ (outcome events).courseFrom after, ¬ Forgets topic group y) :
    (ledgerOf (events ++ after)).isFinal group m.offset := by
  induction after using List.reverseRecOn with
  | nil =>
    rw [List.append_nil]
    exact final
  | append_singleton after e ih =>
    rw [courseFrom_concat] at keeps
    have hbefore := ih fun y hy => keeps y (List.mem_append_left _ hy)
    have hlast := keeps _ (List.mem_append_right _ (List.mem_singleton_self _))
    rw [← List.append_assoc, ledgerOf_concat, ledgerAfter]
    cases hcall : (outcome (events ++ after)).call? e with
    | none => exact hbefore
    | some c =>
      refine InMemory.isFinal_call (refines_outcome _) ((extends_outcome events after).mem_log hm) hbefore ?_
      exact fun forgets => hlast ⟨c, hcall, forgets⟩

theorem mem_courseFrom {after : List Event} {y : System × Event} (h : y ∈ (outcome events).courseFrom after) :
    ∃ between rest, after = between ++ y.2 :: rest ∧ y.1 = outcome (events ++ between) ∧
      (outcome events).courseFrom between ⊆ (outcome events).courseFrom after := by
  induction after using List.reverseRecOn with
  | nil => cases h
  | append_singleton after e ih =>
    rw [courseFrom_concat] at h ⊢
    rcases List.mem_append.1 h with h | h
    · obtain ⟨between, rest, hafter, hy, hsub⟩ := ih h
      exact ⟨between, rest ++ [e], by rw [hafter, List.append_assoc, List.cons_append], hy,
        fun z hz => List.mem_append_left _ (hsub hz)⟩
    · rw [List.mem_singleton.1 h]
      exact ⟨after, [], rfl, rfl, List.subset_append_left _ _⟩

theorem topic_of_offset {before after : List Event} {topic topic' : String} {m m' : Stored}
    (hm : m ∈ (outcome before).store.log topic) (hm' : m' ∈ (outcome (before ++ after)).store.log topic')
    (same : m'.offset = m.offset) : topic' = topic := by
  rw [← Array.mem_toList_iff, (refines_outcome _).log] at hm hm'
  exact ((refines_outcome _).sound.unique hm' ((extends_outcome before after).mem_log hm) same).1

/-- **What the hook is told of acknowledgements.** In every course

* the hook is told of an acknowledgement only by a member that has just been answered to it, with the message in hand;
* where the store notes that the claim was lost, the acknowledgement has done nothing; otherwise the claim was held, and
  the message is final for the group from then on and was not before;
* once the hook has been told of an acknowledgement whose claim was not lost, the message is final for the group and no
  member of the group takes it in hand again, as long as the group does not forget the topic. Whenever the hook is told
  again that it has been acknowledged for the group, the store notes that the claim was lost. -/
theorem acknowledgements_told (events : List Event) :
    (∀ x ∈ course events, ∀ topic id n, .hook (.acked topic id n) ∈ (x.1.occur x.2).2 →
      ∃ i setup k, Reports i setup k x ∧ topic = setup.topic ∧ id = k.message.id) ∧
    (∀ before e after, events = before ++ e :: after → ∀ i setup k, Reports i setup k (outcome before, e) →
      NotesLoss k.receipt (outcome before, e) ∧ (outcome before).store.current? k.receipt = none ∧
          (outcome (before ++ [e])).store = (outcome before).store ∨
        ¬ NotesLoss k.receipt (outcome before, e) ∧ ((outcome before).store.current? k.receipt).isSome ∧
          (outcome before).store.isFinal setup.topic setup.group k.receipt.offset = false ∧
          (outcome (before ++ [e])).store.isFinal setup.topic setup.group k.receipt.offset = true) ∧
    ∀ before e after, events = before ++ e :: after → ∀ i setup k, Reports i setup k (outcome before, e) →
      ¬ NotesLoss k.receipt (outcome before, e) →
      (∀ y ∈ (outcome (before ++ [e])).courseFrom after, ¬ Forgets setup.topic setup.group y) →
      ∀ y ∈ (outcome (before ++ [e])).courseFrom after,
        y.1.store.isFinal setup.topic setup.group k.receipt.offset = true ∧
        (∀ j setup' k', Reports j setup' k' y → setup'.group = setup.group →
          k'.receipt.offset = k.receipt.offset → NotesLoss k'.receipt y) ∧
        ∀ j setup' job, TakesUp j setup' job y → setup'.group = setup.group →
          job.claimed.receipt.offset ≠ k.receipt.offset := by
  refine ⟨fun x _ topic id n h => acked_mem_occur h, ?_, ?_⟩
  · rintro before e after - i setup k h
    by_cases lost : NotesLoss k.receipt (outcome before, e)
    · exact Or.inl ⟨lost, h.comes_late lost⟩
    · exact Or.inr ⟨lost, h.takes_effect lost⟩
  · rintro before e after - i setup k h held keeps y hy
    obtain ⟨-, m, hm, ho⟩ := h.stored
    obtain ⟨-, -, hfinal⟩ := h.takes_effect held
    obtain ⟨between, rest, -, hsystem, hbetween⟩ := mem_courseFrom hy
    obtain ⟨s, e'⟩ := y
    obtain rfl : s = outcome (before ++ [e] ++ between) := hsystem
    have hstored : ∀ {more}, m ∈ (ledgerOf (before ++ more)).log setup.topic := fun {more} => by
      refine (extends_outcome before more).mem_log ?_
      rwa [← (refines_outcome before).log, Array.mem_toList_iff]
    have hlater : m ∈ (outcome (before ++ [e] ++ between)).store.log setup.topic := by
      rw [← Array.mem_toList_iff, (refines_outcome _).log, List.append_assoc]
      exact hstored
    have hstays : (outcome (before ++ [e] ++ between)).store.isFinal setup.topic setup.group m.offset := by
      rw [← ho, (refines_outcome _).isFinal hstored] at hfinal
      rw [(refines_outcome _).isFinal (by rw [List.append_assoc]; exact hstored)]
      exact isFinal_outcome hstored hfinal fun z hz => keeps z (hbetween hz)
    rw [← ho]
    refine ⟨hstays, fun j setup' k' h' same hoffset => ?_, fun j setup' job takes same => ?_⟩
    · by_contra held'
      obtain ⟨-, m', hm', ho'⟩ := h'.stored
      obtain ⟨-, hopen, -⟩ := h'.takes_effect held'
      rw [List.append_assoc] at hm'
      rw [topic_of_offset hm hm' (ho'.trans hoffset), same, hoffset, hstays] at hopen
      cases hopen
    · exact not_takesUp hlater (same ▸ hstays) takes

theorem reports_of_acks (acks : (s.occur (.turn (.answer i .performed))).2.any Effect.acks = true) :
    ∃ setup k, Reports i setup k (s, .turn (.answer i .performed)) := by
  obtain ⟨effect, hmem, hacks⟩ := List.any_eq_true.1 acks
  unfold Effect.acks at hacks
  split at hacks
  case h_1 topic id n =>
    obtain ⟨j, setup, k, hreports, -, -⟩ := acked_mem_occur hmem
    cases hreports.1
    exact ⟨setup, k, hreports⟩
  case h_2 => cases hacks

/-- The first of two subscribers of a group claims an order, and works on it. -/
def orderTaken : List Event :=
  [.turn (.addBus pairsConfig .silent), .turn (.publish 0 none "orders" [.new (.ofNat 7) [1]] .performed),
    .turn (.subscribe 0 "orders" (.named "workers") 0), .turn (.subscribe 0 "orders" (.named "workers") 0),
    .turn (.look 0), .turn (.look 0), .turn (.look 0), .turn (.look 0), .turn (.answer 0 .performed), .turn (.look 0)]

/-- The second subscriber polls after the lease. -/
def secondPolls : List Event :=
  [.turn (.wait 31_000_000_000), .turn (.look 1), .turn (.look 1), .turn (.look 1), .turn (.look 1),
    .turn (.answer 1 .performed), .turn (.look 1)]

/-- The first subscriber has been successful within the lease. -/
def inTime : List Event := orderTaken ++ [.turn (.finish 0 (.ok ()))]

/-- An order that is acknowledged in time is final when the second subscriber polls, which does not take it in hand. -/
theorem acknowledgements_told_inTime :
    ∃ setup k, setup.topic = "orders" ∧ setup.group = "workers" ∧ k.receipt.offset = 1 ∧
      Reports 0 setup k (outcome inTime, .turn (.answer 0 .performed)) ∧
      ¬ NotesLoss k.receipt (outcome inTime, .turn (.answer 0 .performed)) ∧
      ∀ y ∈ (outcome (inTime ++ [.turn (.answer 0 .performed)])).courseFrom secondPolls,
        ¬ Forgets setup.topic setup.group y ∧ y.1.store.isFinal setup.topic setup.group k.receipt.offset = true ∧
          ∀ j setup' job, TakesUp j setup' job y → setup'.group = setup.group →
            job.claimed.receipt.offset ≠ k.receipt.offset := by
  obtain ⟨setup, k, hreports⟩ := @reports_of_acks (outcome inTime) 0 (by decide +kernel)
  have hwork : ∀ w ∈ (outcome inTime).workAt 0, w.1.topic = "orders" ∧ w.1.group = "workers" ∧
      w.2.claimed.receipt.offset = 1 ∧ (outcome inTime).store.current? w.2.claimed.receipt ≠ none := by
    decide +kernel
  obtain ⟨context, n, busy, -⟩ := hreports.2
  obtain ⟨htopic, hgroup, hoffset, hheld⟩ := hwork _ busy
  have hforgets : ∀ y ∈ (outcome (inTime ++ [.turn (.answer 0 .performed)])).courseFrom secondPolls,
      ¬ Forgets setup.topic setup.group y := by
    rw [show setup.topic = _ from htopic, show setup.group = _ from hgroup]
    decide +kernel
  obtain ⟨-, htold, hafter⟩ := acknowledgements_told (inTime ++ .turn (.answer 0 .performed) :: secondPolls)
  have hkept : ¬ NotesLoss k.receipt (outcome inTime, .turn (.answer 0 .performed)) := by
    rcases htold _ _ _ rfl 0 setup k hreports with ⟨-, hlost, -⟩ | ⟨hkept, -⟩
    · exact absurd hlost hheld
    · exact hkept
  refine ⟨setup, k, htopic, hgroup, hoffset, hreports, hkept, fun y hy => ?_⟩
  obtain ⟨hfinal, -, htakes⟩ := hafter _ _ _ rfl 0 setup k hreports hkept hforgets y hy
  exact ⟨hforgets y hy, hfinal, htakes⟩

/-- The second subscriber claims the order after the lease of the first one's claim, and is successful. -/
def takenAgain : List Event := orderTaken ++ secondPolls ++ [.turn (.finish 1 (.ok ()))]

/-- The second subscriber acknowledges the order. Then the first one is successful, too. -/
def outlived : List Event := takenAgain ++ [.turn (.answer 1 .performed), .turn (.finish 0 (.ok ()))]

/-- The hook is told twice that the order has been acknowledged, the second time when the claim has been lost. -/
theorem acknowledgement_told_twice :
    (∀ x ∈ course (outlived ++ [.turn (.answer 0 .performed)]), ¬ Forgets "orders" "workers" x) ∧
      ∃ setup k setup' k', setup.group = "workers" ∧ setup'.group = "workers" ∧
        k.receipt.offset = 1 ∧ k'.receipt.offset = 1 ∧
        Reports 1 setup k (outcome takenAgain, .turn (.answer 1 .performed)) ∧
        Reports 0 setup' k' (outcome outlived, .turn (.answer 0 .performed)) ∧
        (outcome outlived).store.isFinal "orders" "workers" 1 = true ∧
        (outcome outlived).store.current? k'.receipt = none := by
  obtain ⟨setup, k, hsecond⟩ := @reports_of_acks (outcome takenAgain) 1 (by decide +kernel)
  obtain ⟨setup', k', hfirst⟩ := @reports_of_acks (outcome outlived) 0 (by decide +kernel)
  have hwork : ∀ w ∈ (outcome takenAgain).workAt 1, w.1.group = "workers" ∧ w.2.claimed.receipt.offset = 1 := by
    decide +kernel
  have hwork' : ∀ w ∈ (outcome outlived).workAt 0, w.1.group = "workers" ∧ w.2.claimed.receipt.offset = 1 ∧
      (outcome outlived).store.current? w.2.claimed.receipt = none := by
    decide +kernel
  obtain ⟨context, n, busy, -⟩ := hsecond.2
  obtain ⟨context', n', busy', -⟩ := hfirst.2
  obtain ⟨hgroup, hoffset⟩ := hwork _ busy
  obtain ⟨hgroup', hoffset', hlost⟩ := hwork' _ busy'
  exact ⟨by decide +kernel, setup, k, setup', k', hgroup, hgroup', hoffset, hoffset', hsecond, hfirst,
    by decide +kernel, hlost⟩

end System

end DurableBus
