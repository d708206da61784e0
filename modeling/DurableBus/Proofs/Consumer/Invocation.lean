import DurableBus.Proofs.Consumer.Holding

/-!
# What handlers are given

* `Consumer.invoke_mem_look` : a handler is invoked by a consumer that begins an attempt, with the message in hand;
* `Consumer.quiet_answer`, `Consumer.quiet_finish` : nothing else invokes it;
* `Consumer.refuses_look`, `Consumer.refuses_answer` : who rejects an envelope refuses the message then;
* `Phase.Reads`, `Passes.reads` : the trace context of the message in hand is the one that the consumer reads in its
  metadata, through every move.
-/

set_option autoImplicit false

namespace DurableBus

def Quiet (effects : List Effect) : Prop := ∀ d, Effect.invoke d ∉ effects

theorem quiet_nil : Quiet [] := fun _ => List.not_mem_nil

theorem quiet_hook (event : HookEvent) : Quiet [.hook event] := fun _ h => by cases List.mem_singleton.1 h

theorem Quiet.append {effects effects' : List Effect} (h : Quiet effects) (h' : Quiet effects') :
    Quiet (effects ++ effects') := fun d hd => (List.mem_append.1 hd).elim (h d) (h' d)

theorem quiet_map {α : Type} {f : α → Effect} (h : ∀ a d, f a ≠ .invoke d) (as : List α) : Quiet (as.map f) :=
  fun d hd => by
    obtain ⟨a, -, heq⟩ := List.mem_map.1 hd
    exact h a d heq

theorem quiet_notes (notices : List Store.Notice) : Quiet (notices.map .note) := quiet_map (by simp) notices

def Effect.invokes (which : Delivery → Bool) : Effect → Bool
  | .invoke d => which d
  | _ => false

def Effect.rejects : Effect → Bool
  | .hook (.rejected _ _) => true
  | _ => false

theorem rejects_notes (notices : List Store.Notice) : (notices.map Effect.note).any Effect.rejects = false := by
  rw [List.any_eq_false]
  intro effect heffect
  obtain ⟨notice, -, rfl⟩ := List.mem_map.1 heffect
  exact Bool.false_ne_true

/-! ## The context of the message in hand -/

/-- The trace context of the message in hand is the one that its metadata carries. -/
def Phase.Reads (setup : Consumer.Setup) (p : Phase) : Prop :=
  ∀ k context work, p.job? = some (.dispatch k context work) →
    context = setup.settings.propagator.extract k.message.metadata

theorem Phase.reads_starting (setup : Consumer.Setup) : Phase.starting.Reads setup := fun _ _ _ h => by cases h

namespace Consumer

variable {c : Consumer} {s : ClaimStream} {job : Job}

theorem Passes.reads {setup : Setup} {p p' : Phase} {occasion : Option (Store.Request × Store.Reply)}
    (h : Passes setup p occasion p') (reads : p.Reads setup) : p'.Reads setup := by
  intro k context work hjob
  cases h with
  | free was is held waits =>
    rw [is] at hjob
    cases hjob
  | @taken _ _ claimed _ was gives held waits =>
    have htaken : jobFor setup claimed = .dispatch k context work := Option.some.inj hjob
    unfold jobFor at htaken
    split at htaken
    · cases htaken
      rfl
    · split at htaken <;> cases htaken
  | @continued _ job _ _ underWay settling success =>
    have hgoes := Option.some.inj hjob
    cases job with
    | dispatch k' context' work' =>
      cases hgoes
      exact reads k context work' rfl
    | forward | refuse => cases hgoes
  | settled settles => cases hjob

/-! ## Invocations -/

theorem quiet_conclude (c : Consumer) (s : ClaimStream) (job : Job) (result : Except (RetryError Failure) Nat) :
    Quiet (c.conclude s job result).2 := by
  unfold conclude
  split
  · exact quiet_hook _
  · exact quiet_nil
  · exact quiet_hook _

theorem quiet_carryOn (c : Consumer) (s : ClaimStream) (job : Job) (attempts : Retry Failure) :
    Quiet (c.carryOn s job attempts).2 := by
  unfold carryOn
  split
  · exact quiet_conclude _ _ _ _
  · exact quiet_nil

theorem quiet_endAttempt (c : Consumer) (s : ClaimStream) (job : Job) (attempts : Retry Failure)
    (outcome : Except Failure Unit) : Quiet (c.endAttempt s job attempts outcome).2 := by
  unfold endAttempt
  split
  · exact quiet_hook _
  · exact quiet_carryOn _ _ _ _

theorem quiet_announce (c : Consumer) : Quiet c.announce := by
  unfold announce
  split
  · exact quiet_nil
  · exact fun d h => by cases List.mem_singleton.1 h

theorem quiet_pulled (c : Consumer) (s : ClaimStream) (move : ClaimStream.Move) : Quiet (c.pulled s move).2 := by
  unfold pulled
  split
  case h_2 => exact quiet_announce c
  case h_3 => exact quiet_notes _
  case h_4 =>
    unfold take
    split
    · exact quiet_nil
    · split
      · exact quiet_nil
      · exact quiet_hook _
  case h_5 => exact quiet_hook _
  all_goals exact quiet_nil

theorem quiet_drained (c : Consumer) (s : ClaimStream) (move : ClaimStream.Move) : Quiet (c.drained s move).2 := by
  unfold drained
  split
  case h_2 => exact quiet_announce c
  case h_3 => exact quiet_notes _
  case h_5 =>
    unfold leave
    split
    · exact quiet_nil
    · exact quiet_hook _
  all_goals exact quiet_nil

theorem quiet_settled (c : Consumer) (job : Job) (reply : Store.Reply) : Quiet (c.settled job reply) := by
  unfold settled
  split
  · exact quiet_nil
  · exact quiet_hook _

theorem quiet_answerJob (c : Consumer) (s : ClaimStream) (job : Job) (reply : Store.Reply) :
    Quiet (c.answerJob s job reply).2 := by
  unfold answerJob
  split
  case h_1 => exact quiet_endAttempt _ _ _ _ _
  case h_2 =>
    cases reply with
    | ok => exact quiet_hook _
    | error e => exact quiet_settled c _ (.error e)
  case h_3 =>
    refine (quiet_settled _ _ _).append ?_
    unfold report
    split
    · exact quiet_nil
    · split
      · exact quiet_nil
      · exact quiet_hook _
  case h_7 => exact quiet_nil
  all_goals exact quiet_settled _ _ _

theorem quiet_answer (c : Consumer) (o : Observation) (reply : Store.Reply) : Quiet (c.answer o reply).2 := by
  unfold answer
  split
  · exact quiet_pulled _ _ _
  · exact quiet_drained _ _ _
  · exact quiet_answerJob _ _ _ _
  · refine Quiet.append ?_ (quiet_hook _)
    split
    · exact quiet_nil
    · exact quiet_notes [_]
  · exact quiet_nil

theorem quiet_finish (c : Consumer) (outcome : Except Failure Unit) : Quiet (c.finish outcome).2 := by
  unfold finish
  split
  · exact quiet_endAttempt _ _ _ _ _
  · exact quiet_nil

/-- **A handler is invoked with the message in hand**, when the next attempt at it begins. -/
theorem invoke_mem_look {o : Observation} {d : Delivery} (h : .invoke d ∈ (c.look o).2) :
    ∃ s k context n delay, c.phase = .working s (.dispatch k context (.trying (.ready n delay))) ∧
      d = { Delivery.ofClaimed c.setup.topic k context with attempt := n } := by
  unfold look at h
  split at h
  case h_1 => exact absurd h (quiet_hook _ d)
  case h_2 => split at h <;> cases h
  case h_3 => exact absurd h (quiet_pulled _ _ _ d)
  case h_4 s k context attempts hphase =>
    unfold lookAt at h
    split at h
    case h_1 n delay => exact ⟨s, k, context, n, delay, hphase, Effect.invoke.inj (List.mem_singleton.1 h)⟩
    case h_2 => exact absurd h (quiet_carryOn _ _ _ _ d)
  case h_5 s k e attempts hphase =>
    unfold lookAt beginAttempt at h
    split at h
    case h_1 n delay =>
      simp only at h
      split at h
      · cases h
      · exact absurd h (quiet_endAttempt _ _ _ _ _ d)
    case h_2 => exact absurd h (quiet_carryOn _ _ _ _ d)
  case h_6 => exact absurd h (quiet_drained _ _ _ d)
  case h_7 => cases h

/-! ## Rejections -/

/-- Whoever rejects an envelope refuses the message then. -/
def Refuses (step : Consumer × List Effect) : Prop :=
  step.2.any Effect.rejects = true → ∃ s k, step.1.phase = .working s (.refuse k)

theorem Refuses.of_none {step : Consumer × List Effect} (h : step.2.any Effect.rejects = false) : Refuses step := by
  intro rejects
  rw [h] at rejects
  cases rejects

theorem rejects_carryOn (c : Consumer) (s : ClaimStream) (job : Job) (attempts : Retry Failure) :
    (c.carryOn s job attempts).2.any Effect.rejects = false := by
  unfold carryOn
  split
  · unfold conclude
    split <;> rfl
  · rfl

theorem rejects_endAttempt (c : Consumer) (s : ClaimStream) (job : Job) (attempts : Retry Failure)
    (outcome : Except Failure Unit) : (c.endAttempt s job attempts outcome).2.any Effect.rejects = false := by
  unfold endAttempt
  split
  · rfl
  · exact rejects_carryOn _ _ _ _

theorem rejects_lookAt (c : Consumer) (o : Observation) (s : ClaimStream) (job : Job) (attempts : Retry Failure) :
    (c.lookAt o s job attempts).2.any Effect.rejects = false := by
  unfold lookAt
  split
  · unfold beginAttempt
    split
    · rfl
    · split
      · rfl
      · exact rejects_endAttempt _ _ _ _ _
    · rfl
  · exact rejects_carryOn _ _ _ _

theorem refuses_pulled (c : Consumer) (s : ClaimStream) (move : ClaimStream.Move) : Refuses (c.pulled s move) := by
  unfold pulled
  split
  case h_2 =>
    refine .of_none ?_
    unfold announce
    split <;> rfl
  case h_3 => exact .of_none (rejects_notes _)
  case h_4 k =>
    unfold take
    split
    · exact .of_none rfl
    · split
      · exact .of_none rfl
      · exact fun _ => ⟨s, k, rfl⟩
  all_goals exact .of_none rfl

theorem rejects_drained (c : Consumer) (s : ClaimStream) (move : ClaimStream.Move) :
    (c.drained s move).2.any Effect.rejects = false := by
  unfold drained
  split
  case h_2 =>
    unfold announce
    split <;> rfl
  case h_3 => exact rejects_notes _
  case h_5 =>
    unfold leave
    split
    · rfl
    · unfold farewell
      split <;> rfl
  all_goals rfl

theorem rejects_settled (c : Consumer) (job : Job) (reply : Store.Reply) :
    (c.settled job reply).any Effect.rejects = false := by
  unfold settled
  split <;> rfl

theorem rejects_answerJob (c : Consumer) (s : ClaimStream) (job : Job) (reply : Store.Reply) :
    (c.answerJob s job reply).2.any Effect.rejects = false := by
  unfold answerJob
  split
  case h_1 => exact rejects_endAttempt _ _ _ _ _
  case h_2 =>
    cases reply with
    | ok => rfl
    | error e => exact rejects_settled c _ (.error e)
  case h_3 e =>
    have hreport : ∀ job : Job, (c.report job e).2.any Effect.rejects = false := by
      intro job
      unfold report
      split
      · rfl
      · split <;> rfl
    show (c.settled _ reply ++ (c.report _ e).2).any Effect.rejects = false
    rw [List.any_append, rejects_settled, hreport]
    rfl
  case h_7 => rfl
  all_goals exact rejects_settled _ _ _

theorem refuses_look (c : Consumer) (o : Observation) : Refuses (c.look o) := by
  unfold look
  split
  case h_1 =>
    refine .of_none ?_
    cases c.setup.role <;> rfl
  case h_2 => split <;> exact .of_none rfl
  case h_3 => exact refuses_pulled _ _ _
  case h_4 | h_5 => exact .of_none (rejects_lookAt _ _ _ _ _)
  case h_6 => exact .of_none (rejects_drained _ _ _)
  case h_7 => exact .of_none rfl

theorem refuses_answer (c : Consumer) (o : Observation) (reply : Store.Reply) : Refuses (c.answer o reply) := by
  unfold answer
  split
  case h_1 => exact refuses_pulled _ _ _
  case h_2 => exact .of_none (rejects_drained _ _ _)
  case h_3 => exact .of_none (rejects_answerJob _ _ _ _)
  case h_4 =>
    refine .of_none ?_
    unfold farewell
    cases reply <;> cases c.setup.role <;> rfl
  case h_5 => exact .of_none rfl

theorem rejects_finish (c : Consumer) (outcome : Except Failure Unit) :
    (c.finish outcome).2.any Effect.rejects = false := by
  unfold finish
  split
  · exact rejects_endAttempt _ _ _ _ _
  · rfl

end Consumer

end DurableBus
