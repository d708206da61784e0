import DurableBus.Proofs.Consumer.Lasting

/-!
# The channel of a subscriber

A subscriber puts its reports into a bounded channel.

* `answer_reportingTo` : with another channel a consumer does the same, but for what it puts into it;
* `step_reportingTo` : a beat sends what is exhausted, and the channel makes no other difference.
-/

set_option autoImplicit false

namespace DurableBus

/-! ## Channels -/

namespace ErrorChannel

def receive (c : ErrorChannel) : ErrorChannel := { c with queue := c.queue.tail }

/-- Nothing is accepted any more, but what is there can be received. -/
def close (c : ErrorChannel) : ErrorChannel := { c with receiving := false }

def sendAll (c : ErrorChannel) (reports : List HandlerError) : ErrorChannel := reports.foldl send c

theorem capacity_send (c : ErrorChannel) (r : HandlerError) : (c.send r).capacity = c.capacity := by
  unfold send
  split <;> rfl

theorem receiving_send (c : ErrorChannel) (r : HandlerError) : (c.send r).receiving = c.receiving := by
  unfold send
  split <;> rfl

theorem queue_send (c : ErrorChannel) (r : HandlerError) :
    (c.send r).queue = c.queue ++ if c.accepts then [r] else [] := by
  unfold send
  split
  · rfl
  · exact (List.append_nil _).symm

end ErrorChannel

/-- The report of the message in hand, if it has used up its attempts. -/
def Phase.exhausted (topic : String) : Phase → List HandlerError
  | .working _ (.dispatch k _ (.nacking e)) => if e.cancelled then [] else [⟨topic, k.message.id, e⟩]
  | _ => []

namespace Effect

/-- The report that has not been accepted, as the hook is told. -/
def dropped? : Effect → Option (String × Uuid)
  | .hook (.errorDropped topic id) => some (topic, id)
  | _ => none

end Effect

/-! ## Another channel -/

namespace Consumer

variable (errors : ErrorChannel) (c : Consumer) (o : Observation) (s : ClaimStream) (job : Job)

def reportingTo : Consumer := { c with errors }

theorem setup_reportingTo : (c.reportingTo errors).setup = c.setup := rfl

theorem phase_reportingTo : (c.reportingTo errors).phase = c.phase := rfl

theorem conclude_reportingTo (result : Except (RetryError Failure) Nat) :
    (c.reportingTo errors).conclude s job result = (c.conclude s job result).map (reportingTo errors) id := by
  cases result <;> cases job <;> rfl

theorem carryOn_reportingTo (attempts : Retry Failure) :
    (c.reportingTo errors).carryOn s job attempts = (c.carryOn s job attempts).map (reportingTo errors) id := by
  cases attempts with
  | «over» result => exact conclude_reportingTo errors c s job result
  | _ => rfl

theorem endAttempt_reportingTo (attempts : Retry Failure) (outcome : Except Failure Unit) :
    (c.reportingTo errors).endAttempt s job attempts outcome =
      (c.endAttempt s job attempts outcome).map (reportingTo errors) id := by
  unfold endAttempt
  rw [setup_reportingTo]
  cases attempts.finish c.setup.settings.retry outcome with
  | reported => rfl
  | _ => exact carryOn_reportingTo errors c s job _

theorem beginAttempt_reportingTo (n : Nat) (delay : Duration) :
    (c.reportingTo errors).beginAttempt o s job n delay =
      (c.beginAttempt o s job n delay).map (reportingTo errors) id := by
  cases job with
  | forward k e work =>
    unfold beginAttempt
    simp only
    split
    · rfl
    · exact endAttempt_reportingTo errors c s _ _ _
  | _ => rfl

theorem lookAt_reportingTo (attempts : Retry Failure) :
    (c.reportingTo errors).lookAt o s job attempts = (c.lookAt o s job attempts).map (reportingTo errors) id := by
  unfold lookAt
  rw [setup_reportingTo]
  split
  · exact beginAttempt_reportingTo errors c o s job _ _
  · exact carryOn_reportingTo errors c s job _

theorem take_reportingTo (k : Claimed) :
    (c.reportingTo errors).take s k = (c.take s k).map (reportingTo errors) id := by
  unfold take
  rw [setup_reportingTo]
  split
  · rfl
  · split <;> rfl

theorem pulled_reportingTo (move : ClaimStream.Move) :
    (c.reportingTo errors).pulled s move = (c.pulled s move).map (reportingTo errors) id := by
  rcases move with _ | _ | _ | (e | k) | _ | _
  case yield.ok => exact take_reportingTo errors c s k
  all_goals rfl

theorem drained_reportingTo (move : ClaimStream.Move) :
    (c.reportingTo errors).drained s move = (c.drained s move).map (reportingTo errors) id := by
  cases move with
  | finished =>
    show (c.reportingTo errors).leave = c.leave.map (reportingTo errors) id
    unfold leave
    rw [setup_reportingTo]
    split <;> rfl
  | _ => rfl

theorem look_reportingTo :
    (c.reportingTo errors).look o = (c.look o).map (reportingTo errors) id := by
  unfold look
  rw [phase_reportingTo]
  split
  case h_2 => split <;> rfl
  case h_3 => exact pulled_reportingTo errors c _ _
  case h_4 | h_5 => exact lookAt_reportingTo errors c o _ _ _
  case h_6 => exact drained_reportingTo errors c _ _
  all_goals rfl

theorem finish_reportingTo (outcome : Except Failure Unit) :
    (c.reportingTo errors).finish outcome = (c.finish outcome).map (reportingTo errors) id := by
  unfold finish
  rw [phase_reportingTo]
  split
  · exact endAttempt_reportingTo errors c _ _ _ _
  · rfl

theorem report_reportingTo (e : RetryError Failure) :
    ((c.reportingTo errors).report job e).1 =
      c.reportingTo (errors.sendAll (if e.cancelled then [] else [⟨c.setup.topic, job.id, e⟩])) := by
  have herrors : (c.reportingTo errors).errors = errors := rfl
  unfold report
  rw [setup_reportingTo, herrors]
  split
  · rfl
  · split
    · rfl
    · rename_i hfull
      show c.reportingTo errors = c.reportingTo (errors.send _)
      rw [ErrorChannel.send, if_neg hfull]

theorem reportingTo_report (e : RetryError Failure) : (c.report job e).1.reportingTo errors = c.reportingTo errors := by
  unfold report
  split
  · rfl
  · split <;> rfl

theorem filter_report (e : RetryError Failure) : (c.report job e).2.filter (·.dropped?.isNone) = [] := by
  unfold report
  split
  · rfl
  · split <;> rfl

/-- The same has been done, but for another channel and for what the hook is told of reports. -/
def Alike (step step' : Consumer × List Effect) : Prop :=
  step.1 = step'.1.reportingTo errors ∧ step.2.filter (·.dropped?.isNone) = step'.2.filter (·.dropped?.isNone)

variable {errors} in
theorem Alike.of_eq {step step' : Consumer × List Effect} (h : step = step'.map (reportingTo errors) id) :
    Alike errors step step' := by
  subst h
  exact ⟨rfl, rfl⟩

theorem answerJob_reportingTo (reply : Store.Reply) :
    Alike (errors.sendAll ((Phase.working s job).exhausted c.setup.topic))
      ((c.reportingTo errors).answerJob s job reply) (c.answerJob s job reply) := by
  cases job with
  | dispatch k context work =>
    cases work with
    | trying attempts => exact .of_eq rfl
    | acking n => cases reply <;> exact .of_eq rfl
    | nacking e =>
      refine ⟨?_, ?_⟩
      · show ((c.reportingTo errors).report (.dispatch k context (.nacking e)) e).1.enter (.selecting s) = _
        rw [report_reportingTo, ← reportingTo_report _ c (.dispatch k context (.nacking e)) e]
        rfl
      · show (_ ++ ((c.reportingTo errors).report _ e).2).filter _ = (_ ++ (c.report _ e).2).filter _
        rw [List.filter_append, List.filter_append, filter_report, filter_report]
        rfl
  | forward k e work =>
    cases work with
    | trying attempts =>
      cases attempts with
      | running n delay => exact .of_eq (endAttempt_reportingTo errors c _ _ _ _)
      | _ => exact .of_eq rfl
    | _ => exact .of_eq rfl
  | refuse k => exact .of_eq rfl

theorem answer_reportingTo (reply : Store.Reply) :
    Alike (errors.sendAll (c.phase.exhausted c.setup.topic)) ((c.reportingTo errors).answer o reply)
      (c.answer o reply) := by
  unfold answer
  rw [phase_reportingTo]
  cases c.phase with
  | pulling s => exact .of_eq (pulled_reportingTo errors c _ _)
  | draining s => exact .of_eq (drained_reportingTo errors c _ _)
  | working s job => exact answerJob_reportingTo errors c s job reply
  | _ => exact .of_eq rfl

end Consumer

/-! ## Beats -/

namespace Loop

variable {l : Loop}

/-- The report of the message whose claim is settled with a beat, if it has used up its attempts. -/
def exhausted (l : Loop) : Beat → List HandlerError
  | .answer _ _ _ => l.phase.exhausted l.consumer.setup.topic
  | _ => []

def reportingTo (errors : ErrorChannel) (l : Loop) : Loop := { l with consumer := l.consumer.reportingTo errors }

theorem exhausted_of_idle (idle : ¬ l.consumer.request?.isSome) (b : Beat) : l.exhausted b = [] := by
  cases b with
  | answer now publisher reply =>
    show l.phase.exhausted _ = []
    cases hphase : l.phase with
    | working s job =>
      rw [request?_working hphase] at idle
      cases job with
      | dispatch k context work =>
        cases work with
        | nacking e => exact absurd rfl idle
        | _ => rfl
      | _ => rfl
    | _ => rfl
  | _ => rfl

/-- **A beat sends what is exhausted.** Whatever is in the channel makes no other difference. -/
theorem step_reportingTo (l : Loop) (errors : ErrorChannel) (b : Beat) :
    (l.reportingTo errors).step b = (l.step b).reportingTo (errors.sendAll (l.exhausted b)) ∧
      ((l.reportingTo errors).effects b).filter (·.dropped?.isNone) =
        (l.effects b).filter (·.dropped?.isNone) := by
  cases b with
  | fire => exact ⟨rfl, rfl⟩
  | look now publisher =>
    have hlook := Consumer.look_reportingTo errors l.consumer (l.observe now publisher)
    refine ⟨congrArg (fun step => { l with consumer := step.1 }) hlook, ?_⟩
    exact congrArg (fun step => step.2.filter (·.dropped?.isNone)) hlook
  | finish outcome =>
    have hfinish := Consumer.finish_reportingTo errors l.consumer outcome
    refine ⟨congrArg (fun step => { l with consumer := step.1 }) hfinish, ?_⟩
    exact congrArg (fun step => step.2.filter (·.dropped?.isNone)) hfinish
  | answer now publisher reply =>
    have hrequest : (l.reportingTo errors).consumer.request? = l.consumer.request? := rfl
    by_cases asked : l.consumer.request?.isSome
    · obtain ⟨hstep, heffects⟩ := Consumer.answer_reportingTo errors l.consumer (l.observe now publisher) reply
      simp only [step, effects, hrequest, asked, if_true]
      exact ⟨congrArg (fun consumer => { l with consumer }) hstep, heffects⟩
    · simp only [step, effects, hrequest, asked, if_false, exhausted_of_idle asked, Bool.false_eq_true, and_true]
      rfl

theorem errors_step (l : Loop) (b : Beat) :
    (l.step b).consumer.errors = l.consumer.errors.sendAll (l.exhausted b) :=
  congrArg (·.consumer.errors) (step_reportingTo l l.consumer.errors b).1

theorem exhausted_cases (l : Loop) (b : Beat) :
    l.exhausted b = [] ∨ ∃ r, l.exhausted b = [r] := by
  unfold exhausted Phase.exhausted
  split
  · split
    · split
      · exact .inl rfl
      · exact .inr ⟨_, rfl⟩
    · exact .inl rfl
  · exact .inl rfl

theorem queue_step (l : Loop) (b : Beat) :
    (l.step b).consumer.errors.queue =
      l.consumer.errors.queue ++ if l.consumer.errors.accepts then l.exhausted b else [] := by
  rw [errors_step]
  obtain hnone | ⟨r, hone⟩ := exhausted_cases l b
  · rw [hnone, ite_self, List.append_nil]
    rfl
  · rw [hone]
    exact ErrorChannel.queue_send _ r

/-- A beat keeps what every report keeps. -/
theorem kept_step {P : ErrorChannel → Prop} (h : P l.consumer.errors)
    (keeps : ∀ errors r, P errors → P (errors.send r)) (b : Beat) : P (l.step b).consumer.errors := by
  rw [errors_step]
  obtain hnone | ⟨r, hone⟩ := exhausted_cases l b
  · rw [hnone]
    exact h
  · rw [hone]
    exact keeps _ r h

end Loop

end DurableBus
