import DurableBus.Proofs.Consumer.Channel

/-!
# Reports of messages that have used up their attempts

Whoever subscribed receives the reports of a subscriber when it likes, closes their channel or drops its end of it.

* `isTold_step` : the hook is told of every message that has used up its attempts, and of every report that is not
  accepted;
* `Accounted` : what has entered the channel has been received or is still there, in order;
* `unhindered` : the subscriber does not wait for whoever subscribed;
* `reports_accounted` : all of it, for every course.
-/

set_option autoImplicit false

namespace DurableBus

open Consumer (Setup)

/-! ## What the hook is told -/

namespace Effect

/-- The message that has used up its attempts, as the hook is told. -/
def exhausted? : Effect → Option HandlerError
  | .hook (.nacked topic id e) => if e.cancelled then none else some ⟨topic, id, e⟩
  | _ => none

theorem exhausted?_isAside {effects : List Effect} (h : effects.all isAside = true) :
    effects.filterMap exhausted? = [] := by
  refine filterMap_of_all h fun effect haside => ?_
  unfold isAside at haside
  split at haside <;> first | rfl | cases haside

theorem dropped?_isAside {effects : List Effect} (h : effects.all isAside = true) :
    effects.filterMap dropped? = [] := by
  refine filterMap_of_all h fun effect haside => ?_
  unfold isAside at haside
  split at haside <;> first | rfl | cases haside

end Effect

theorem Phase.exhausted_of_free {p : Phase} (free : p.job? = none) (topic : String) : p.exhausted topic = [] := by
  cases p with
  | working => cases free
  | _ => rfl

namespace Consumer

variable {c : Consumer} {s : ClaimStream} {k : Claimed} {context : TraceContext} {work : Work} {ephemeral : Bool}

/-- The hook has been told if the message in hand has used up its attempts, and no report is dropped. -/
def Declares (topic : String) (step : Consumer × List Effect) : Prop :=
  step.2.filterMap Effect.exhausted? = step.1.phase.exhausted topic ∧ step.2.filterMap Effect.dropped? = []

theorem declares_of_aside {topic : String} {step : Consumer × List Effect} (free : step.1.phase.job? = none)
    (aside : step.2.all Effect.isAside = true) : Declares topic step :=
  ⟨(Effect.exhausted?_isAside aside).trans (Phase.exhausted_of_free free topic).symm, Effect.dropped?_isAside aside⟩

theorem declares_conclude (result : Except (RetryError Failure) Nat) :
    Declares c.setup.topic (c.conclude s (.dispatch k context work) result) := by
  cases result with
  | ok n => exact ⟨rfl, rfl⟩
  | error e =>
    refine ⟨?_, rfl⟩
    obtain ⟨n, _ | _, x⟩ := e <;> rfl

theorem declares_carryOn (attempts : Retry Failure) :
    Declares c.setup.topic (c.carryOn s (.dispatch k context work) attempts) := by
  cases attempts with
  | «over» result => exact declares_conclude result
  | _ => exact ⟨rfl, rfl⟩

theorem declares_endAttempt (attempts : Retry Failure) (outcome : Except Failure Unit) :
    Declares c.setup.topic (c.endAttempt s (.dispatch k context work) attempts outcome) := by
  unfold endAttempt
  split
  · exact ⟨rfl, rfl⟩
  · exact declares_carryOn _

theorem declares_lookAt (o : Observation) (attempts : Retry Failure) :
    Declares c.setup.topic (c.lookAt o s (.dispatch k context work) attempts) := by
  unfold lookAt
  split
  · exact ⟨rfl, rfl⟩
  · exact declares_carryOn _

theorem declares_pulled (role : c.setup.role = .subscriber ephemeral) (s : ClaimStream) (move : ClaimStream.Move) :
    Declares c.setup.topic (c.pulled s move) := by
  rcases move with _ | _ | _ | (e | k) | _ | _
  case started => exact declares_of_aside rfl (isAside_announce c)
  case proceed => exact declares_of_aside rfl (isAside_notes _)
  case yield.ok =>
    show Declares _ (c.take s k)
    simp only [take, role]
    exact ⟨rfl, rfl⟩
  all_goals exact ⟨rfl, rfl⟩

theorem declares_drained (s : ClaimStream) (move : ClaimStream.Move) : Declares c.setup.topic (c.drained s move) :=
  declares_of_aside (drained_aside c s move).1 (drained_aside c s move).2

/-- Unless it does nothing, who looks has no message in hand that has used up its attempts. -/
theorem declares_look (sound : c.phase.Sound c.setup.role) (role : c.setup.role = .subscriber ephemeral)
    (o : Observation) :
    c.look o = (c, []) ∨ c.phase.exhausted c.setup.topic = [] ∧ Declares c.setup.topic (c.look o) := by
  unfold look
  cases hphase : c.phase with
  | starting => exact .inr ⟨rfl, by simp only [role]; exact ⟨rfl, rfl⟩⟩
  | selecting s =>
    refine .inr ⟨rfl, ?_⟩
    simp only
    split <;> exact ⟨rfl, rfl⟩
  | pulling s => exact .inr ⟨rfl, declares_pulled role _ _⟩
  | draining s => exact .inr ⟨rfl, declares_drained _ _⟩
  | working s job =>
    cases job with
    | dispatch k context work =>
      cases work with
      | trying attempts => exact .inr ⟨rfl, declares_lookAt o attempts⟩
      | acking | nacking => exact .inl rfl
    | forward k e work =>
      obtain ⟨hrole, -⟩ := sound.fits (.forward k e work) (by rw [hphase]; rfl)
      rw [role] at hrole
      cases hrole
    | refuse k => exact .inl rfl
  | _ => exact .inl rfl

theorem declares_finish (outcome : Except Failure Unit) :
    c.finish outcome = (c, []) ∨
      c.phase.exhausted c.setup.topic = [] ∧ Declares c.setup.topic (c.finish outcome) := by
  unfold finish
  split
  · rename_i hphase
    rw [hphase]
    exact .inr ⟨rfl, declares_endAttempt _ _⟩
  · exact .inl rfl

theorem declares_answer (sound : c.phase.Sound c.setup.role) (role : c.setup.role = .subscriber ephemeral)
    (o : Observation) (reply : Store.Reply) :
    (∃ s k context e, c.phase = .working s (.dispatch k context (.nacking e))) ∨
      c.phase.exhausted c.setup.topic = [] ∧ Declares c.setup.topic (c.answer o reply) := by
  have hidle : ∀ {p}, c.phase = p → p.exhausted c.setup.topic = [] → Declares c.setup.topic (c, []) := by
    rintro _ rfl hnone
    exact ⟨hnone.symm, rfl⟩
  unfold answer
  cases hphase : c.phase with
  | pulling s => exact .inr ⟨rfl, declares_pulled role _ _⟩
  | draining s => exact .inr ⟨rfl, declares_drained _ _⟩
  | working s job =>
    cases job with
    | dispatch k context work =>
      cases work with
      | trying attempts => exact .inr ⟨rfl, hidle hphase rfl⟩
      | acking n => exact .inr ⟨rfl, by cases reply <;> exact ⟨rfl, rfl⟩⟩
      | nacking e => exact .inl ⟨s, k, context, e, rfl⟩
    | forward k e work =>
      obtain ⟨hrole, -⟩ := sound.fits (.forward k e work) (by rw [hphase]; rfl)
      rw [role] at hrole
      cases hrole
    | refuse k => exact .inr ⟨rfl, by cases reply <;> exact ⟨rfl, rfl⟩⟩
  | forgetting =>
    refine .inr ⟨rfl, declares_of_aside rfl ?_⟩
    rw [List.all_append, isAside_farewell]
    cases reply <;> rfl
  | _ => exact .inr ⟨rfl, hidle hphase rfl⟩

end Consumer

namespace Loop

variable {l : Loop} {b : Beat} {ephemeral : Bool}

/-- The hook is told if a message has used up its attempts, and if its report is not accepted. -/
def IsTold (l : Loop) (b : Beat) : Prop :=
  l.phase.exhausted l.consumer.setup.topic ++ (l.effects b).filterMap Effect.exhausted? =
      l.exhausted b ++ (l.step b).phase.exhausted l.consumer.setup.topic ∧
    (l.effects b).filterMap Effect.dropped? =
      if l.consumer.errors.accepts then [] else (l.exhausted b).map fun r => (r.topic, r.id)

theorem isTold_nothing (none : l.exhausted b = []) (same : (l.step b).phase = l.phase) (nothing : l.effects b = []) :
    l.IsTold b := by
  refine ⟨?_, ?_⟩
  · rw [none, same, nothing, List.filterMap_nil, List.append_nil, List.nil_append]
  · rw [none, nothing, List.map_nil, ite_self, List.filterMap_nil]

theorem isTold_declares (none : l.exhausted b = []) (free : l.phase.exhausted l.consumer.setup.topic = [])
    {step : Consumer × List Effect} (same : (l.step b).phase = step.1.phase) (does : l.effects b = step.2)
    (declares : Consumer.Declares l.consumer.setup.topic step) : l.IsTold b := by
  refine ⟨?_, ?_⟩
  · rw [none, free, same, does, declares.1]
  · rw [none, does, declares.2, List.map_nil, ite_self]

theorem isTold_nacking {s : ClaimStream} {k : Claimed} {context : TraceContext} {e : RetryError Failure}
    (was : l.phase = .working s (.dispatch k context (.nacking e))) (now : Instant) (publisher : Publisher)
    (reply : Store.Reply) : l.IsTold (.answer now publisher reply) := by
  have hphase : l.consumer.phase = .working s (.dispatch k context (.nacking e)) := was
  have hrequest := request?_working was
  have hstep : (l.step (.answer now publisher reply)).phase = .selecting s := by
    simp only [step, hrequest, Consumer.jobRequest?, Option.isSome_some, if_true, phase, Consumer.answer, hphase]
    rfl
  have heffects : l.effects (.answer now publisher reply) =
      l.consumer.settled (.dispatch k context (.nacking e)) reply ++
        (l.consumer.report (.dispatch k context (.nacking e)) e).2 := by
    simp only [effects, hrequest, Consumer.jobRequest?, Option.isSome_some, if_true, Consumer.answer, hphase]
    rfl
  have hsettled : (l.consumer.settled (.dispatch k context (.nacking e)) reply).filterMap Effect.exhausted? = [] ∧
      (l.consumer.settled (.dispatch k context (.nacking e)) reply).filterMap Effect.dropped? = [] := by
    cases reply <;> exact ⟨rfl, rfl⟩
  have hexhausted : l.exhausted (.answer now publisher reply) = l.phase.exhausted l.consumer.setup.topic := rfl
  refine ⟨?_, ?_⟩
  · rw [hexhausted, hstep, heffects, List.filterMap_append, hsettled.1]
    unfold Consumer.report
    repeat' split
    all_goals rfl
  · rw [hexhausted, was, heffects, List.filterMap_append, hsettled.2, Consumer.report]
    obtain ⟨n, _ | _, x⟩ := e <;> cases l.consumer.errors.accepts <;> rfl

/-- **Every beat tells the hook.** -/
theorem isTold_step (h : l.Sound) (role : l.consumer.setup.role = .subscriber ephemeral) (b : Beat) : l.IsTold b := by
  cases b with
  | fire => exact isTold_nothing rfl rfl rfl
  | look now publisher =>
    obtain hnothing | ⟨hfree, hdeclares⟩ := Consumer.declares_look h.phase role (l.observe now publisher)
    · exact isTold_nothing rfl (congrArg (·.1.phase) hnothing) (congrArg Prod.snd hnothing)
    · exact isTold_declares rfl hfree rfl rfl hdeclares
  | finish outcome =>
    obtain hnothing | ⟨hfree, hdeclares⟩ := @Consumer.declares_finish l.consumer outcome
    · exact isTold_nothing rfl (congrArg (·.1.phase) hnothing) (congrArg Prod.snd hnothing)
    · exact isTold_declares rfl hfree rfl rfl hdeclares
  | answer now publisher reply =>
    by_cases asked : l.consumer.request?.isSome
    · obtain ⟨s, k, context, e, hphase⟩ | ⟨hfree, hdeclares⟩ :=
        Consumer.declares_answer h.phase role (l.observe now publisher) reply
      · exact isTold_nacking hphase now publisher reply
      · refine isTold_declares hfree hfree ?_ ?_ hdeclares
        · simp only [step, asked, if_true, phase]
        · simp only [effects, asked, if_true]
    · refine isTold_nothing (exhausted_of_idle asked _) ?_ ?_
      · simp only [step, asked, if_false, Bool.false_eq_true]
      · simp only [effects, asked, if_false, Bool.false_eq_true]

end Loop

/-! ## With whoever subscribed -/

namespace Reporting

/-- What happens to a subscriber and to the channel of its reports. -/
inductive Event
  | beat (b : Beat)
  /-- Whoever subscribed receives a report, if there is one. -/
  | receive
  /-- Whoever subscribed lets nothing enter the channel any more. -/
  | close
  /-- Whoever subscribed drops its end of the channel, with what is there. -/
  | drop

def Event.isBeat : Event → Bool
  | .beat _ => true
  | _ => false

end Reporting

open Reporting (Event)

namespace Loop

def meets (l : Loop) : Event → Loop
  | .beat b => l.step b
  | .receive => l.reportingTo l.consumer.errors.receive
  | .close => l.reportingTo l.consumer.errors.close
  | .drop => l.reportingTo l.consumer.errors.abandon

/-- The reports that are due with an event, and whether they are accepted. -/
def due (l : Loop) : Event → List (HandlerError × Bool)
  | .beat b => (l.exhausted b).map (·, l.consumer.errors.accepts)
  | _ => []

def entered (l : Loop) (event : Event) : List HandlerError :=
  (l.meets event).consumer.errors.queue.drop l.consumer.errors.queue.length

def received (l : Loop) : Event → List HandlerError
  | .receive => l.consumer.errors.queue.head?.toList
  | _ => []

def deeds (l : Loop) : Event → List Effect
  | .beat b => l.effects b
  | _ => []

variable {l : Loop} {ephemeral : Bool}

theorem entered_beat (l : Loop) (b : Beat) :
    l.entered (.beat b) = if l.consumer.errors.accepts then l.exhausted b else [] := by
  show (l.step b).consumer.errors.queue.drop _ = _
  rw [queue_step, List.drop_left]

theorem entered_eq_due (l : Loop) (event : Event) :
    l.entered event = ((l.due event).filter (·.2)).map Prod.fst := by
  cases event with
  | beat b =>
    rw [entered_beat, due]
    cases l.consumer.errors.accepts <;> simp [List.filter_map, Function.comp_def]
  | receive => simp [entered, meets, reportingTo, Consumer.reportingTo, ErrorChannel.receive, due]
  | close => simp [entered, meets, reportingTo, Consumer.reportingTo, ErrorChannel.close, due]
  | drop => simp [entered, meets, reportingTo, Consumer.reportingTo, ErrorChannel.abandon, due]

theorem dropped_eq_due (h : l.Sound) (role : l.consumer.setup.role = .subscriber ephemeral) (event : Event) :
    (l.deeds event).filterMap Effect.dropped? =
      ((l.due event).filter (!·.2)).map fun r => (r.1.topic, r.1.id) := by
  cases event with
  | beat b =>
    rw [deeds, due, (isTold_step h role b).2]
    cases l.consumer.errors.accepts <;> simp [List.filter_map, Function.comp_def]
  | _ => rfl

/-- The hook is told of what is exhausted before its claim is settled, and then its report is due. -/
theorem exhausted_eq_due (h : l.Sound) (role : l.consumer.setup.role = .subscriber ephemeral) (event : Event) :
    l.phase.exhausted l.consumer.setup.topic ++ (l.deeds event).filterMap Effect.exhausted? =
      (l.due event).map Prod.fst ++ (l.meets event).phase.exhausted l.consumer.setup.topic := by
  cases event with
  | beat b =>
    have hdue : (l.due (.beat b)).map Prod.fst = l.exhausted b := by simp [due, Function.comp_def]
    rw [hdue]
    exact (isTold_step h role b).1
  | _ => exact List.append_nil _

/-- A report is due when the store has answered the request that gives its claim back. -/
theorem of_mem_due {event : Event} {r : HandlerError} {accepted : Bool} (h : (r, accepted) ∈ l.due event) :
    accepted = l.consumer.errors.accepts ∧
      ∃ s k context e, l.phase = .working s (.dispatch k context (.nacking e)) ∧ e.cancelled = false ∧
        r = ⟨l.consumer.setup.topic, k.message.id, e⟩ ∧
        l.consumer.request? = some (.nack k.receipt l.consumer.setup.settings.redeliveryDelay) ∧
        (∃ now publisher reply, event = .beat (.answer now publisher reply)) ∧
        (l.meets event).phase = .selecting s := by
  cases event with
  | beat b =>
    obtain ⟨r', hr, heq⟩ := List.mem_map.1 h
    obtain ⟨rfl, rfl⟩ := Prod.mk.inj heq
    refine ⟨rfl, ?_⟩
    cases b with
    | answer now publisher reply =>
      change r' ∈ l.phase.exhausted _ at hr
      unfold Phase.exhausted at hr
      split at hr
      · rename_i s k context e hphase
        split at hr
        · cases hr
        · rename_i hgoing
          have hphase' : l.consumer.phase = .working s (.dispatch k context (.nacking e)) := hphase
          have hrequest := request?_working hphase
          refine ⟨s, k, context, e, hphase, Bool.eq_false_iff.2 hgoing, List.mem_singleton.1 hr, hrequest,
            ⟨now, publisher, reply, rfl⟩, ?_⟩
          simp only [meets, step, hrequest, Consumer.jobRequest?, Option.isSome_some, if_true, phase, Consumer.answer,
            hphase']
          rfl
      · cases hr
    | _ => cases hr
  | _ => cases h

end Loop

namespace Reporting

section Course

variable (setup : Setup) (errorCapacity : Nat)

def after (course : List Event) : Loop := course.foldl Loop.meets (.new setup errorCapacity)

def history {γ : Type} (seen : Loop → Event → List γ) (course : List Event) : List γ :=
  chronicle Loop.meets seen (.new setup errorCapacity) course

theorem after_concat (course : List Event) (event : Event) :
    after setup errorCapacity (course ++ [event]) = (after setup errorCapacity course).meets event := by
  simp [after]

theorem history_concat {γ : Type} (seen : Loop → Event → List γ) (course : List Event) (event : Event) :
    history setup errorCapacity seen (course ++ [event]) =
      history setup errorCapacity seen course ++ seen (after setup errorCapacity course) event :=
  chronicle_concat _ _ _

/-- What has entered the channel has been received or is still there, in order. -/
structure Accounted (course : List Event) : Prop where
  sound : (after setup errorCapacity course).Sound
  equipped : (after setup errorCapacity course).consumer.setup = setup
  capacity : (after setup errorCapacity course).consumer.errors.capacity = max errorCapacity 1
  bounded : (after setup errorCapacity course).consumer.errors.queue.length ≤ max errorCapacity 1
  receiving : (after setup errorCapacity course).consumer.errors.receiving = true ↔
    .close ∉ course ∧ .drop ∉ course
  balance : .drop ∉ course → history setup errorCapacity Loop.entered course =
    history setup errorCapacity Loop.received course ++ (after setup errorCapacity course).consumer.errors.queue
  emptied : .drop ∈ course → (after setup errorCapacity course).consumer.errors.queue = []
  inOrder : history setup errorCapacity Loop.received course <+: history setup errorCapacity Loop.entered course

theorem accounted_nil : Accounted setup errorCapacity [] where
  sound := Loop.sound_new setup errorCapacity
  equipped := rfl
  capacity := rfl
  bounded := Nat.zero_le _
  receiving := by simp [after, Loop.new, Consumer.new, ErrorChannel.new]
  balance _ := rfl
  emptied h := by cases h
  inOrder := List.prefix_refl _

variable {setup errorCapacity} {course : List Event}

theorem Accounted.beat (h : Accounted setup errorCapacity course) (b : Beat) :
    Accounted setup errorCapacity (course ++ [.beat b]) := by
  have hreceived : history setup errorCapacity Loop.received (course ++ [.beat b]) =
      history setup errorCapacity Loop.received course := (history_concat ..).trans (List.append_nil _)
  have hqueue := Loop.queue_step (after setup errorCapacity course) b
  have hentered := Loop.entered_beat (after setup errorCapacity course) b
  have hcapacity := @Loop.kept_step (after setup errorCapacity course)
    (fun errors => errors.capacity = max errorCapacity 1) h.capacity
    (fun errors r hr => (errors.capacity_send r).trans hr) b
  constructor
  case sound =>
    rw [after_concat]
    exact h.sound.step b
  case equipped =>
    rw [after_concat]
    exact (Loop.setup_step _ b).trans h.equipped
  case capacity =>
    rw [after_concat]
    exact hcapacity
  case bounded =>
    have hbounded := @Loop.kept_step (after setup errorCapacity course)
      (fun errors => errors.queue.length ≤ errors.capacity) (by rw [h.capacity]; exact h.bounded)
      (fun errors r hr => ErrorChannel.length_send_le hr r) b
    rw [hcapacity] at hbounded
    rw [after_concat]
    exact hbounded
  case receiving =>
    have hreceiving := @Loop.kept_step (after setup errorCapacity course)
      (fun errors => errors.receiving = true ↔ .close ∉ course ∧ .drop ∉ course) h.receiving
      (fun errors r hr => (errors.receiving_send r).symm ▸ hr) b
    rw [after_concat]
    show (Loop.step _ b).consumer.errors.receiving = true ↔ _
    rw [hreceiving]
    simp
  case balance =>
    intro hopen
    rw [List.mem_append, not_or] at hopen
    rw [history_concat, hreceived, h.balance hopen.1, after_concat, hentered]
    show _ = _ ++ (Loop.step _ b).consumer.errors.queue
    rw [hqueue, List.append_assoc]
  case emptied =>
    intro hdropped
    have hearlier : Event.drop ∈ course := by simpa using hdropped
    have hnone : (after setup errorCapacity course).consumer.errors.accepts = false := by
      have hreceiving := mt h.receiving.1 fun hopen => hopen.2 hearlier
      simp [ErrorChannel.accepts, hreceiving]
    rw [after_concat]
    show (Loop.step _ b).consumer.errors.queue = []
    rw [hqueue, hnone, h.emptied hearlier]
    rfl
  case inOrder =>
    rw [hreceived, history_concat]
    exact h.inOrder.trans (List.prefix_append _ _)

/-- Whoever subscribed may do what leaves the subscriber as it is but for what is in its channel. -/
theorem Accounted.outside (h : Accounted setup errorCapacity course) {event : Event} {errors : ErrorChannel}
    (meets : (after setup errorCapacity course).meets event = (after setup errorCapacity course).reportingTo errors)
    (capacity : errors.capacity = (after setup errorCapacity course).consumer.errors.capacity)
    (shorter : errors.queue.length ≤ (after setup errorCapacity course).consumer.errors.queue.length)
    (receiving : errors.receiving = true ↔ .close ∉ course ++ [event] ∧ .drop ∉ course ++ [event])
    (balance : .drop ∉ course ++ [event] → (after setup errorCapacity course).consumer.errors.queue =
      (after setup errorCapacity course).received event ++ errors.queue)
    (emptied : .drop ∈ course ++ [event] → errors.queue = [] ∧ (after setup errorCapacity course).received event = []) :
    Accounted setup errorCapacity (course ++ [event]) := by
  have hentered : history setup errorCapacity Loop.entered (course ++ [event]) =
      history setup errorCapacity Loop.entered course := by
    rw [history_concat, Loop.entered, meets]
    show _ ++ errors.queue.drop _ = _
    rw [List.drop_eq_nil_of_le shorter, List.append_nil]
  have hreceived := history_concat setup errorCapacity Loop.received course event
  have hbalance : .drop ∉ course ++ [event] → history setup errorCapacity Loop.entered (course ++ [event]) =
      history setup errorCapacity Loop.received (course ++ [event]) ++ errors.queue := by
    intro hopen
    rw [hentered, hreceived, List.append_assoc, ← balance hopen]
    exact h.balance fun hdropped => hopen (List.mem_append_left _ hdropped)
  constructor
  case sound =>
    rw [after_concat, meets]
    exact h.sound.congr rfl rfl id
  case equipped =>
    rw [after_concat, meets]
    exact h.equipped
  case capacity =>
    rw [after_concat, meets]
    exact capacity.trans h.capacity
  case bounded =>
    rw [after_concat, meets]
    exact Nat.le_trans shorter h.bounded
  case receiving =>
    rw [after_concat, meets]
    exact receiving
  case balance =>
    rw [after_concat, meets]
    exact hbalance
  case emptied =>
    rw [after_concat, meets]
    exact fun hdropped => (emptied hdropped).1
  case inOrder =>
    -- once the reports have been dropped nothing is received any more
    by_cases hdropped : .drop ∈ course ++ [event]
    · rw [hentered, hreceived, (emptied hdropped).2, List.append_nil]
      exact h.inOrder
    · rw [hbalance hdropped]
      exact List.prefix_append _ _

theorem accounted (course : List Event) : Accounted setup errorCapacity course := by
  induction course using List.reverseRecOn with
  | nil => exact accounted_nil setup errorCapacity
  | append_singleton course event ih =>
    cases event with
    | beat b => exact ih.beat b
    | receive =>
      refine ih.outside rfl rfl (by simp [ErrorChannel.receive]) ?_ (fun _ => ?_) fun hdropped => ?_
      · show (after setup errorCapacity course).consumer.errors.receiving = true ↔ _
        rw [ih.receiving]
        simp
      · show _ = Option.toList (List.head? _) ++ List.tail _
        cases (after setup errorCapacity course).consumer.errors.queue <;> rfl
      · have hnone := ih.emptied (by simpa using hdropped)
        simp [ErrorChannel.receive, Loop.received, hnone]
    | close =>
      refine ih.outside rfl rfl (Nat.le_refl _) ?_ (fun _ => rfl) fun hdropped => ⟨?_, rfl⟩
      · simp [ErrorChannel.close]
      · exact ih.emptied (by simpa using hdropped)
    | drop =>
      refine ih.outside rfl rfl (Nat.zero_le _) ?_ (fun hopen => absurd ?_ hopen) fun _ => ⟨rfl, rfl⟩
      · simp [ErrorChannel.abandon]
      · simp

/-- A report is accepted if the channel is open and has room. -/
theorem accepts_iff (course : List Event) :
    (after setup errorCapacity course).consumer.errors.accepts = true ↔
      (.close ∉ course ∧ .drop ∉ course) ∧
        (history setup errorCapacity Loop.entered course).length <
          (history setup errorCapacity Loop.received course).length + max errorCapacity 1 := by
  have haccounted := @accounted setup errorCapacity course
  rw [ErrorChannel.accepts, Bool.and_eq_true, decide_eq_true_eq, haccounted.receiving, haccounted.capacity]
  refine and_congr_right fun hopen => ?_
  rw [haccounted.balance hopen.2, List.length_append]
  omega

/-- What whoever subscribed does to the channel makes no difference but to the channel. -/
theorem unhindered (course : List Event) :
    (∃ errors, after setup errorCapacity course =
        (after setup errorCapacity (course.filter Event.isBeat)).reportingTo errors) ∧
      (history setup errorCapacity Loop.deeds course).filter (·.dropped?.isNone) =
        (history setup errorCapacity Loop.deeds (course.filter Event.isBeat)).filter (·.dropped?.isNone) := by
  induction course using List.reverseRecOn with
  | nil => exact ⟨⟨_, rfl⟩, rfl⟩
  | append_singleton course event ih =>
    obtain ⟨⟨errors, hafter⟩, hdeeds⟩ := ih
    rw [List.filter_append, after_concat, history_concat, hafter]
    -- the beats carry the subscriber on; anything else only puts another channel in place of its own
    cases event with
    | beat b =>
      obtain ⟨hstep, heffects⟩ :=
        Loop.step_reportingTo (after setup errorCapacity (course.filter Event.isBeat)) errors b
      rw [show [Event.beat b].filter Event.isBeat = [.beat b] from rfl, after_concat, history_concat,
        List.filter_append, List.filter_append, hdeeds]
      exact ⟨⟨_, hstep⟩, congrArg _ heffects⟩
    | receive | close | drop =>
      rw [List.filter_append, hdeeds]
      simp only [Event.isBeat, List.filter_cons, Bool.false_eq_true, if_false, List.filter_nil, List.append_nil]
      exact ⟨⟨_, rfl⟩, List.append_nil _⟩

theorem told {ephemeral : Bool} (role : setup.role = .subscriber ephemeral) (course : List Event) :
    (history setup errorCapacity Loop.deeds course).filterMap Effect.exhausted? =
        (history setup errorCapacity Loop.due course).map Prod.fst ++
          (after setup errorCapacity course).phase.exhausted setup.topic ∧
      (history setup errorCapacity Loop.deeds course).filterMap Effect.dropped? =
        ((history setup errorCapacity Loop.due course).filter (!·.2)).map fun r => (r.1.topic, r.1.id) := by
  induction course using List.reverseRecOn with
  | nil => exact ⟨rfl, rfl⟩
  | append_singleton course event ih =>
    have haccounted := @accounted setup errorCapacity course
    have hrole : (after setup errorCapacity course).consumer.setup.role = .subscriber ephemeral := by
      rw [haccounted.equipped, role]
    have hexhausted := Loop.exhausted_eq_due haccounted.sound hrole event
    have hdropped := Loop.dropped_eq_due haccounted.sound hrole event
    rw [haccounted.equipped] at hexhausted
    rw [history_concat, history_concat, after_concat, List.filterMap_append, List.filterMap_append, ih.1, ih.2,
      hdropped, List.map_append, List.filter_append, List.map_append, List.append_assoc, hexhausted, List.append_assoc]
    exact ⟨rfl, rfl⟩

theorem entered_eq (course : List Event) :
    history setup errorCapacity Loop.entered course =
      ((history setup errorCapacity Loop.due course).filter (·.2)).map Prod.fst := by
  induction course using List.reverseRecOn with
  | nil => rfl
  | append_singleton course event ih =>
    rw [history_concat, history_concat, ih, Loop.entered_eq_due, List.filter_append, List.map_append]

/-- **What becomes of the reports of a subscriber**, whatever becomes of its messages and whatever whoever subscribed
does.

* The hook is told of each message that has used up its attempts. Its report is due when the store has answered the
  request that gives its claim back, and then the subscriber selects.
* Reports that are accepted enter the channel, in order; the hook is told once of each that is not. A report is accepted
  if the channel is open and has room.
* What is received is the first of what has entered. Unless it is dropped, the rest is in the channel, which never holds
  more than its capacity.
* The subscriber does the same if nothing is ever received, but for what it tells the hook of reports. -/
theorem reports_accounted {ephemeral : Bool} (role : setup.role = .subscriber ephemeral) (errorCapacity : Nat)
    (course : List Event) :
    ((history setup errorCapacity Loop.deeds course).filterMap Effect.exhausted? =
        (history setup errorCapacity Loop.due course).map Prod.fst ++
          (after setup errorCapacity course).phase.exhausted setup.topic ∧
      ∀ event r accepted, (r, accepted) ∈ (after setup errorCapacity course).due event →
        ∃ s k context e, (after setup errorCapacity course).phase = .working s (.dispatch k context (.nacking e)) ∧
          e.cancelled = false ∧ r = ⟨setup.topic, k.message.id, e⟩ ∧
          (after setup errorCapacity course).consumer.request? =
            some (.nack k.receipt setup.settings.redeliveryDelay) ∧
          (∃ now publisher reply, event = .beat (.answer now publisher reply)) ∧
          (after setup errorCapacity (course ++ [event])).phase = .selecting s) ∧
    (history setup errorCapacity Loop.entered course =
        ((history setup errorCapacity Loop.due course).filter (·.2)).map Prod.fst ∧
      (history setup errorCapacity Loop.deeds course).filterMap Effect.dropped? =
        ((history setup errorCapacity Loop.due course).filter (!·.2)).map (fun r => (r.1.topic, r.1.id)) ∧
      ∀ event r accepted, (r, accepted) ∈ (after setup errorCapacity course).due event →
        (accepted = true ↔ (.close ∉ course ∧ .drop ∉ course) ∧
          (history setup errorCapacity Loop.entered course).length <
            (history setup errorCapacity Loop.received course).length + max errorCapacity 1)) ∧
    (history setup errorCapacity Loop.received course <+: history setup errorCapacity Loop.entered course ∧
      (.drop ∉ course → history setup errorCapacity Loop.entered course =
        history setup errorCapacity Loop.received course ++ (after setup errorCapacity course).consumer.errors.queue) ∧
      (after setup errorCapacity course).consumer.errors.queue.length ≤ max errorCapacity 1) ∧
    (∃ errors, after setup errorCapacity course =
        (after setup errorCapacity (course.filter Event.isBeat)).reportingTo errors) ∧
      (history setup errorCapacity Loop.deeds course).filter (·.dropped?.isNone) =
        (history setup errorCapacity Loop.deeds (course.filter Event.isBeat)).filter (·.dropped?.isNone) := by
  have haccounted := @accounted setup errorCapacity course
  obtain ⟨hexhausted, hdropped⟩ := @told setup errorCapacity ephemeral role course
  refine ⟨⟨hexhausted, fun event r accepted hr => ?_⟩, ⟨entered_eq course, hdropped, fun event r accepted hr => ?_⟩,
    ⟨haccounted.inOrder, haccounted.balance, haccounted.bounded⟩, unhindered course⟩
  · obtain ⟨-, hdue⟩ := Loop.of_mem_due hr
    rw [after_concat]
    rwa [haccounted.equipped] at hdue
  · rw [(Loop.of_mem_due hr).1]
    exact accepts_iff course

end Course

/-- A subscriber that tries a message once and claims two at a time. -/
def impatient : Setup :=
  ⟨.subscriber false, "items", "workers", 0, .ofConfig
    ((Config.standard.withBatchSize 2).withRetry (.new 1 (.ofSecs 1))) .silent⟩

/-- Both messages fail before the report of the first is received. The channel has room for one. -/
def crowded : List Event :=
  let publisher := Publisher.new "outbox" false .silent
  let failed : Except Failure Unit := .error (.told "no")
  [.beat (.look 0 publisher), .beat (.look 0 publisher), .beat (.look 0 publisher), .beat (.look 0 publisher),
    .beat (.answer 0 publisher (.ok (.claimed [claimOn 1, claimOn 2]))), .beat (.look 0 publisher),
    .beat (.finish failed), .beat (.answer 0 publisher (.ok .done)), .beat (.look 0 publisher),
    .beat (.look 0 publisher), .beat (.answer 0 publisher (.ok (.held true))), .beat (.look 0 publisher),
    .beat (.finish failed), .beat (.answer 0 publisher (.error .closed)), .receive]

theorem reports_accounted_crowded :
    impatient.role = .subscriber false ∧
      history impatient 0 Loop.entered crowded =
        [⟨"items", (claimOn 1).message.id, ⟨1, false, .told "no"⟩⟩] ∧
      (history impatient 0 Loop.deeds crowded).filterMap Effect.dropped? =
        [("items", (claimOn 2).message.id)] ∧
      history impatient 0 Loop.received crowded <+: history impatient 0 Loop.entered crowded := by
  obtain ⟨-, ⟨hentered, hdropped, -⟩, ⟨hreceived, -⟩, -⟩ := @reports_accounted impatient false rfl 0 crowded
  exact ⟨rfl, hentered.trans (by decide +kernel), hdropped.trans (by decide +kernel), hreceived⟩

end Reporting

end DurableBus
