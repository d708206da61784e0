import DurableBus.Proofs.Consumer.Winding

/-!
# After the token has fired

Nothing new begins on a consumer whose token has fired: no attempt of its handler, no attempt to pass a message on and
no claim. What is under way is brought to its end.

* `Winding.stands_run` : a running attempt is left alone until it ends, and then the claim is settled by how it ended;
* `Winding.descends`, `Winding.ends` : the consumer comes to its end;
* `nothing_starts_once_fired` : all of it, for every life and every moment but one.

That moment is a renewal under way: if the token fires inside the call that renews a claim, and the call succeeds
before the consumer pauses, the message is taken in hand and attempted (`nothing_starts_once_fired_midRenewal`).
-/

set_option autoImplicit false

namespace DurableBus

open Consumer (Setup)

namespace Loop

variable {l : Loop} {b : Beat} {s : ClaimStream} {job : Job}

/-! ## The attempt that is running -/

/-- How far the work on a message has come whose `n`-th attempt was running when the token fired, if it has ended so. -/
inductive Reaches (n : Nat) : Option (Except Failure Unit) → Work → Prop
  | running {delay} : Reaches n none (.trying (.running n delay))
  | acking : Reaches n (some (.ok ())) (.acking n)
  | reported {delay e} : Reaches n (some (.error e)) (.trying (.reported n delay e))
  | nacking {cancelled e} : Reaches n (some (.error e)) (.nacking ⟨n, cancelled, e⟩)

theorem Reaches.closes {n : Nat} {ending ending' : Option (Except Failure Unit)} {work work' : Work}
    (h : Reaches n ending work) (closes : Closes ending' work work') : Reaches n (ending.or ending') work' := by
  cases closes <;> cases h <;> constructor

@[simp]
theorem ending?_withWork (job : Job) (work : Work) : (job.withWork work).ending? = job.ending? := by
  funext b
  cases b with
  | answer now publisher reply => cases reply <;> cases job <;> rfl
  | _ => cases job <;> rfl

theorem work?_withWork {job : Job} (h : job.work?.isSome) (work : Work) : (job.withWork work).work? = some work := by
  cases job with
  | refuse => cases h
  | _ => rfl

theorem withWork_withWork (job : Job) (work work' : Work) :
    (job.withWork work).withWork work' = job.withWork work' := by
  cases job <;> rfl

theorem Reaches.settlement {n : Nat} {ending : Option (Except Failure Unit)} {work : Work} (h : Reaches n ending work)
    (tried : ∀ attempts, work ≠ .trying attempts) (passes : job.work?.isSome) (c : Consumer) :
    ∃ outcome, ending = some outcome ∧
      c.jobRequest? (job.withWork work) = some (job.settlement c.setup outcome) := by
  cases h with
  | running | reported => exact absurd rfl (tried _)
  | acking | nacking =>
    refine ⟨_, rfl, ?_⟩
    cases job with
    | refuse => cases passes
    | _ => rfl

theorem Winding.stands_step {n : Nat} {ending : Option (Except Failure Unit)} {work : Work} (h : l.Winding)
    (passes : job.work?.isSome) (was : l.phase = .working s (job.withWork work)) (reaches : Reaches n ending work)
    (b : Beat) :
    (∃ work', (l.step b).phase = .working s (job.withWork work') ∧ Reaches n (ending.or (job.ending? b)) work') ∨
      (∃ now publisher reply, b = .answer now publisher reply) ∧ ∃ outcome, ending = some outcome ∧
        l.consumer.request? = some (job.settlement l.consumer.setup outcome) := by
  have hworks := works_step h.sound.phase h.fired was h.going b
  generalize hp : (l.step b).phase = p at hworks
  cases hworks with
  | still idle early =>
    refine .inl ⟨work, rfl, ?_⟩
    rw [ending?_withWork] at early
    cases reaches with
    | running =>
      rw [early _ _ (work?_withWork passes _)]
      exact .running
    | acking => exact .acking
    | reported => exact .reported
    | nacking => exact .nacking
  | closes at' closes =>
    rw [work?_withWork passes] at at'
    obtain rfl := Option.some.inj at'
    rw [ending?_withWork] at closes
    rw [withWork_withWork]
    exact .inl ⟨_, rfl, reaches.closes closes⟩
  | settles tried answered =>
    rw [work?_withWork passes] at tried
    refine .inr ⟨answered, ?_⟩
    rw [request?_working was]
    exact reaches.settlement (fun attempts heq => tried attempts (congrArg some heq)) passes l.consumer

theorem run_cons (l : Loop) (b : Beat) (beats : List Beat) : l.run (b :: beats) = (l.step b).run beats := rfl

theorem setup_run (l : Loop) (beats : List Beat) : (l.run beats).consumer.setup = l.consumer.setup := by
  induction beats generalizing l with
  | nil => rfl
  | cons b rest ih => exact (ih (l.step b)).trans (setup_step l b)

/-- **A running attempt is left alone until it ends**, and then the claim is settled by how it ended. -/
theorem Winding.stands_run {n : Nat} {ending : Option (Except Failure Unit)} {work : Work} (h : l.Winding)
    (passes : job.work?.isSome) (was : l.phase = .working s (job.withWork work)) (reaches : Reaches n ending work)
    (beats : List Beat) :
    (∃ work', (l.run beats).phase = .working s (job.withWork work') ∧
        Reaches n (ending.or (beats.filterMap job.ending?).head?) work') ∨
      ∃ done now publisher reply rest outcome, beats = done ++ .answer now publisher reply :: rest ∧
        ending.or (done.filterMap job.ending?).head? = some outcome ∧
        (l.run done).consumer.request? = some (job.settlement l.consumer.setup outcome) := by
  induction beats generalizing l ending work with
  | nil => exact .inl ⟨work, was, by simpa using reaches⟩
  | cons b rest ih =>
    have hhead : ∀ bs : List Beat, ((b :: bs).filterMap job.ending?).head? =
        (job.ending? b).or (bs.filterMap job.ending?).head? := by
      intro bs
      cases hb : job.ending? b <;> simp [hb]
    rcases h.stands_step passes was reaches b with ⟨work', hwas, hreaches⟩ | ⟨⟨now, publisher, reply, rfl⟩, outcome,
      hending, hrequest⟩
    · rw [hhead, ← Option.or_assoc]
      rcases ih (h.step b) hwas hreaches with hstands | ⟨done, now, publisher, reply, rest', outcome, hbeats, hending,
        hrequest⟩
      · exact .inl hstands
      · refine .inr ⟨b :: done, now, publisher, reply, rest', outcome, by rw [hbeats]; rfl, ?_, ?_⟩
        · rw [hhead, ← Option.or_assoc, hending]
        · rw [run_cons, hrequest, setup_step]
    · exact .inr ⟨[], now, publisher, reply, rest, outcome, rfl, by simpa using hending, hrequest⟩

/-! ## The end -/

end Loop

/-- How far the message in hand is from being settled. -/
def Job.stage (job : Job) : Nat :=
  match job.work? with
  | some (.trying (.running _ _)) => 7
  | some (.trying _) => 6
  | _ => 5

/-- How far a consumer is from its end once its token has fired, if no claim is under way. -/
def Phase.weight : Phase → Nat
  | .starting => 50
  | .selecting s => 20 * s.left + 3
  | .pulling s => 20 * s.left + 4
  | .working s job => 20 * s.left + job.stage
  | .draining s => 20 * s.left + 1
  | .forgetting => 1
  | .ended | .crashed => 0

def Phase.isPolling (p : Phase) : Bool := p.stream?.any ClaimStream.isClaiming

theorem Phase.isPolling_iff {p : Phase} : p.isPolling = true ↔ ∃ due, p.stream? = some (.pulling (.polling due)) := by
  unfold Phase.isPolling
  rw [Option.any_eq_true]
  constructor
  · rintro ⟨s, hs, hclaiming⟩
    cases s with
    | pulling batches =>
      cases batches with
      | polling due => exact ⟨due, hs⟩
      | _ => cases hclaiming
    | renewing | releasing => cases hclaiming
  · rintro ⟨due, hs⟩
    exact ⟨_, hs, rfl⟩

namespace Loop

variable {l : Loop} {b : Beat} {s : ClaimStream} {job : Job}

theorem Closes.stage_lt {ending : Option (Except Failure Unit)} {work work' : Work} (h : Closes ending work work')
    (at' : job.work? = some work) : (job.withWork work').stage < job.stage := by
  cases job with
  | refuse => cases at'
  | dispatch k context w | forward k e w =>
    obtain rfl := Option.some.inj at'
    cases h <;> simp [Job.stage, Job.withWork, Job.work?]

theorem Job.five_le_stage (job : Job) : 5 ≤ job.stage := by
  unfold Job.stage
  split <;> omega

theorem weight_pulled {c : Consumer} {move : ClaimStream.Move} (h : ∀ k, move ≠ .yield (.ok k)) :
    (c.pulled s move).1.phase.weight ≤ 20 * s.left + 4 := by
  rcases move with _ | _ | _ | (e | k) | _ | _
  case yield.ok => exact absurd rfl (h k)
  all_goals
    simp only [Consumer.pulled, Consumer.enter, Phase.weight]
    omega

theorem weight_leave (c : Consumer) : c.leave.1.phase.weight ≤ 1 := by
  unfold Consumer.leave
  split
  · exact Nat.le_refl _
  · exact Nat.zero_le _

theorem weight_drained (c : Consumer) (s : ClaimStream) (move : ClaimStream.Move) :
    (c.drained s move).1.phase.weight ≤ 20 * s.left + 1 := by
  cases move with
  | finished => exact Nat.le_trans (weight_leave c) (Nat.le_add_left 1 _)
  | broke => exact Nat.zero_le _
  | _ => exact Nat.le_refl _

theorem isHandling_eq_false (idle : ∀ s job, l.phase ≠ .working s job) : l.consumer.isHandling = false := by
  unfold phase at idle
  unfold Consumer.isHandling
  split
  case h_1 heq => exact absurd heq (idle _ _)
  case h_2 => rfl

theorem Attends.look_or_answer (h : l.Attends b) (idle : ∀ s job, l.phase ≠ .working s job) :
    (∃ now publisher, b = .look now publisher ∧
        (l.isSelecting = true ∨ l.isPulling = true ∨ l.consumer.request? = none)) ∨
      ∃ now publisher reply, b = .answer now publisher reply ∧ l.isSelecting = false ∧
        l.consumer.request?.isSome := by
  cases b with
  | fire => exact h.elim
  | look now publisher => exact .inl ⟨now, publisher, rfl, h.imp_right (Or.imp_right And.left)⟩
  | answer now publisher reply => exact .inr ⟨now, publisher, reply, rfl, h⟩
  | finish outcome =>
    rw [Attends, isHandling_eq_false idle] at h
    cases h

/-- With an answer, a claim that is under way ends, or less is left to be done. -/
theorem descends_answer (h : l.Winding) (hstream : l.phase.stream? = some s)
    (asked : (s.request? (Consumer.stream l.consumer.setup)).isSome) (reply : Store.Reply) {p : Phase}
    (settled : ∀ s', p.stream? = some s' → s' = (s.answer true reply).1) :
    (l.phase.isPolling = true ∧ p.isPolling = false) ∨ (s.answer true reply).1.left < s.left := by
  obtain ⟨hidle, hless⟩ : _ ∧ (s.isClaiming = true ∨ (s.answer true reply).1.left < s.left) :=
    ClaimStream.left_answer asked (h.sound.orderly s hstream)
  refine hless.imp (fun hclaiming => ⟨?_, ?_⟩) id
  · unfold Phase.isPolling
    rw [hstream]
    exact hclaiming
  · unfold Phase.isPolling
    cases hp : p.stream? with
    | none => rfl
    | some s' =>
      rw [settled s' hp]
      exact hidle

theorem stream?_pulled {c : Consumer} {move : ClaimStream.Move} (h : ∀ k, move ≠ .yield (.ok k)) {s' : ClaimStream}
    (hs' : (c.pulled s move).1.phase.stream? = some s') : s' = s := by
  rcases move with _ | _ | _ | (e | k) | _ | _
  case yield.ok => exact absurd rfl (h k)
  case broke => cases hs'
  all_goals exact (Option.some.inj hs').symm

/-- Without an answer there is less to be done, or the consumer pauses. -/
theorem weight_look_pulling (fired : l.fired = true) (was : l.phase = .pulling s)
    (handed : ∀ batches k, s ≠ .renewing batches k) (now : Instant) (publisher : Publisher) :
    (l.step (.look now publisher)).phase.weight < 20 * s.left + 4 := by
  have hne : ∀ k, (s.look (Consumer.stream l.consumer.setup) now true).2 ≠ .yield (.ok k) :=
    ClaimStream.Steps.looked.ne_yield handed
  have hpos := s.left_pos
  rw [phase_look_pulling was, fired]
  by_cases hasked : (s.request? (Consumer.stream l.consumer.setup)).isSome
  · -- the call has not been answered, and the consumer pauses
    cases s with
    | pulling batches =>
      cases batches with
      | polling due => exact Nat.lt_succ_self _
      | _ => cases hasked
    | renewing batches k => exact absurd rfl (handed batches k)
    | releasing batches k => exact Nat.lt_succ_self _
  · have hpulled := weight_pulled (c := l.consumer) (s := (s.look (Consumer.stream l.consumer.setup) now true).1) hne
    by_cases hfinished : (s.look (Consumer.stream l.consumer.setup) now true).2 = .finished
    · rw [hfinished, ClaimStream.finished_look _ _ _ hfinished]
      show 20 * 1 + 1 < _
      omega
    · by_cases hbroke : (s.look (Consumer.stream l.consumer.setup) now true).2 = .broke
      · rw [hbroke]
        exact Nat.succ_pos _
      · obtain ⟨-, hless⟩ := ClaimStream.left_look hasked hfinished hbroke
        omega

theorem Winding.descends_pulling (h : l.Winding) (was : l.phase = .pulling s) (attends : l.Attends b) :
    (l.phase.isPolling = true ∧ (l.step b).phase.isPolling = false) ∨ (l.step b).phase.weight < l.phase.weight := by
  have hweight : l.phase.weight = 20 * s.left + 4 := by
    rw [was]
    rfl
  have hhanded : ∀ batches k, s ≠ .renewing batches k := fun batches k heq => h.handed batches k (by rw [was, heq])
  rcases attends.look_or_answer (by rw [was]; rintro _ _ ⟨⟩) with ⟨now, publisher, rfl, -⟩ |
    ⟨now, publisher, reply, rfl, -, hasked⟩
  · right
    rw [hweight]
    exact weight_look_pulling h.fired was hhanded now publisher
  · rw [request?_pulling was] at hasked
    have hne : ∀ k, (s.answer true reply).2 ≠ .yield (.ok k) :=
      (ClaimStream.Steps.answered hasked).ne_yield hhanded
    rw [phase_answer_pulling was hasked, h.fired, hweight]
    refine (descends_answer h (by rw [was]; rfl) hasked reply fun s' => stream?_pulled hne).imp_right fun hless => ?_
    have := weight_pulled (c := l.consumer) (s := (s.answer true reply).1) hne
    omega

theorem Winding.descends_draining (h : l.Winding) (was : l.phase = .draining s) (attends : l.Attends b) :
    (l.phase.isPolling = true ∧ (l.step b).phase.isPolling = false) ∨ (l.step b).phase.weight < l.phase.weight := by
  have hrequest := request?_draining was
  have hweight : l.phase.weight = 20 * s.left + 1 := by
    rw [was]
    rfl
  have hpos := s.left_pos
  rcases attends.look_or_answer (by rw [was]; rintro _ _ ⟨⟩) with ⟨now, publisher, rfl, hlooks⟩ |
    ⟨now, publisher, reply, rfl, -, hasked⟩
  · right
    have hnone : ¬ (s.request? (Consumer.stream l.consumer.setup)).isSome := by
      simp only [isSelecting, isPulling, was, Bool.false_eq_true, false_or] at hlooks
      simp [← hrequest, hlooks]
    rw [hweight, phase_look_draining was, h.fired]
    have hdrained := weight_drained l.consumer (s.look (Consumer.stream l.consumer.setup) now true).1
      (s.look (Consumer.stream l.consumer.setup) now true).2
    by_cases hfinished : (s.look (Consumer.stream l.consumer.setup) now true).2 = .finished
    · rw [hfinished]
      have := weight_leave l.consumer
      show l.consumer.leave.1.phase.weight < _
      omega
    · by_cases hbroke : (s.look (Consumer.stream l.consumer.setup) now true).2 = .broke
      · rw [hbroke]
        exact Nat.succ_pos _
      · obtain ⟨-, hless⟩ := ClaimStream.left_look hnone hfinished hbroke
        omega
  · rw [hrequest] at hasked
    rw [phase_answer_draining was hasked, h.fired, hweight]
    refine (descends_answer h (by rw [was]; rfl) hasked reply fun s' hs' => ?_).imp_right fun hless => ?_
    · rcases stream_drained l.consumer (s.answer true reply).1 (s.answer true reply).2 with hover | ⟨hphase, -, -⟩
      · rw [hover] at hs'
        cases hs'
      · rw [hphase] at hs'
        exact (Option.some.inj hs').symm
    · have := weight_drained l.consumer (s.answer true reply).1 (s.answer true reply).2
      omega

theorem phase_look_starting (was : l.phase = .starting) (now : Instant) (publisher : Publisher) :
    (l.step (.look now publisher)).phase = .selecting .start := by
  unfold phase at was
  unfold step phase Consumer.look
  rw [was]
  rfl

theorem phase_look_selecting (fired : l.fired = true) (was : l.phase = .selecting s) (now : Instant)
    (publisher : Publisher) : (l.step (.look now publisher)).phase = .draining s := by
  unfold phase at was
  unfold step phase Consumer.look observe
  rw [was, fired]
  rfl

theorem phase_answer_forgetting (was : l.phase = .forgetting) (asked : l.consumer.request?.isSome) (now : Instant)
    (publisher : Publisher) (reply : Store.Reply) : (l.step (.answer now publisher reply)).phase = .ended := by
  unfold phase at was
  unfold step phase
  simp only
  rw [if_pos asked]
  unfold Consumer.answer
  rw [was]
  rfl

theorem descends_starting (was : l.phase = .starting) (attends : l.Attends b) :
    (l.step b).phase.weight < l.phase.weight := by
  rcases attends.look_or_answer (by rw [was]; rintro _ _ ⟨⟩) with ⟨now, publisher, rfl, -⟩ |
    ⟨now, publisher, reply, rfl, -, hasked⟩
  · rw [phase_look_starting was, was]
    decide
  · unfold phase at was
    rw [Consumer.request?, was] at hasked
    cases hasked

theorem descends_selecting (fired : l.fired = true) (was : l.phase = .selecting s) (attends : l.Attends b) :
    (l.step b).phase.weight < l.phase.weight := by
  rcases attends.look_or_answer (by rw [was]; rintro _ _ ⟨⟩) with ⟨now, publisher, rfl, -⟩ |
    ⟨now, publisher, reply, rfl, hselecting, -⟩
  · rw [phase_look_selecting fired was, was]
    exact Nat.add_lt_add_left (by decide) _
  · rw [isSelecting, was] at hselecting
    cases hselecting

theorem descends_forgetting (was : l.phase = .forgetting) (attends : l.Attends b) :
    (l.step b).phase.weight < l.phase.weight := by
  rcases attends.look_or_answer (by rw [was]; rintro _ _ ⟨⟩) with ⟨now, publisher, rfl, hlooks⟩ |
    ⟨now, publisher, reply, rfl, -, hasked⟩
  · simp only [isSelecting, isPulling, was, Bool.false_eq_true, false_or] at hlooks
    unfold phase at was
    rw [Consumer.request?, was] at hlooks
    cases hlooks
  · rw [phase_answer_forgetting was hasked, was]
    decide

theorem Winding.descends_working (h : l.Winding) (was : l.phase = .working s job) (attends : l.Attends b) :
    (l.step b).phase.weight < l.phase.weight := by
  have hworks := works_step h.sound.phase h.fired was h.going b
  rw [was]
  generalize (l.step b).phase = p at hworks
  cases hworks with
  | still idle => exact absurd attends idle
  | closes at' closes => exact Nat.add_lt_add_left (closes.stage_lt at') _
  | settles => exact Nat.add_lt_add_left (Nat.lt_of_lt_of_le (by decide) (Job.five_le_stage job)) _

/-- What the consumer waits for brings it nearer to its end, or ends the claim that is under way. -/
theorem Winding.descends (h : l.Winding) (going : l.consumer.isOver = false) (attends : l.Attends b) :
    (l.phase.isPolling = true ∧ (l.step b).phase.isPolling = false) ∨ (l.step b).phase.weight < l.phase.weight := by
  cases hphase : l.phase with
  | starting => exact .inr (hphase ▸ descends_starting hphase attends)
  | selecting s => exact .inr (hphase ▸ descends_selecting h.fired hphase attends)
  | pulling s => exact hphase ▸ h.descends_pulling hphase attends
  | working s job => exact .inr (hphase ▸ h.descends_working hphase attends)
  | draining s => exact hphase ▸ h.descends_draining hphase attends
  | forgetting => exact .inr (hphase ▸ descends_forgetting hphase attends)
  | ended | crashed =>
    have hphase' : l.consumer.phase = _ := hphase
    rw [Consumer.isOver, hphase'] at going
    cases going

theorem Winding.polling_step (h : l.Winding) (idle : l.phase.isPolling = false) (b : Beat) :
    (l.step b).phase.isPolling = false := by
  rw [← Bool.not_eq_true, Phase.isPolling_iff] at idle ⊢
  rintro ⟨due, hclaiming⟩
  exact idle ⟨due, claiming_step h.sound h.fired b hclaiming⟩

theorem attends_succ {later : Nat → Beat} (h : ∀ n, (l.after later n).Attends (later n)) :
    ∀ n, ((l.step (later 0)).after (fun n => later (n + 1)) n).Attends (later (n + 1)) := by
  intro n
  rw [← after_succ]
  exact h (n + 1)

theorem Winding.ends_of_idle (fuel : Nat) {l : Loop} (h : l.Winding) (idle : l.phase.isPolling = false)
    (enough : l.phase.weight < fuel) {later : Nat → Beat} (attends : ∀ n, (l.after later n).Attends (later n)) :
    ∃ n, (l.after later n).consumer.isOver = true := by
  induction fuel generalizing l later with
  | zero => exact absurd enough (Nat.not_lt_zero _)
  | succ fuel ih =>
    by_cases hover : l.consumer.isOver = true
    · exact ⟨0, hover⟩
    · rcases h.descends (Bool.eq_false_iff.2 hover) (attends 0) with ⟨hpolling, -⟩ | hless
      · rw [idle] at hpolling
        cases hpolling
      · obtain ⟨n, hn⟩ := ih (h.step _) (h.polling_step idle _) (by omega) (attends_succ attends)
        exact ⟨n + 1, by rwa [after_succ]⟩

/-- The answer to a claim may bring any number of messages: what is left is counted anew from there. -/
theorem Winding.ends_of_weight (fuel : Nat) {l : Loop} (h : l.Winding) (enough : l.phase.weight < fuel)
    {later : Nat → Beat} (attends : ∀ n, (l.after later n).Attends (later n)) :
    ∃ n, (l.after later n).consumer.isOver = true := by
  induction fuel generalizing l later with
  | zero => exact absurd enough (Nat.not_lt_zero _)
  | succ fuel ih =>
    by_cases hover : l.consumer.isOver = true
    · exact ⟨0, hover⟩
    · rcases h.descends (Bool.eq_false_iff.2 hover) (attends 0) with ⟨-, hidle⟩ | hless
      · obtain ⟨n, hn⟩ := (h.step _).ends_of_idle _ hidle (Nat.lt_succ_self _) (attends_succ attends)
        exact ⟨n + 1, by rwa [after_succ]⟩
      · obtain ⟨n, hn⟩ := ih (h.step _) (by omega) (attends_succ attends)
        exact ⟨n + 1, by rwa [after_succ]⟩

/-- **The consumer comes to its end**, if it gets what it waits for. -/
theorem Winding.ends (h : l.Winding) {later : Nat → Beat} (attends : ∀ n, (l.after later n).Attends (later n)) :
    ∃ n, (l.after later n).consumer.isOver = true :=
  h.ends_of_weight _ (Nat.lt_succ_self _) attends

/-! ## Every life -/

/-- If a claim is being renewed, the consumer pauses before it takes the answer. -/
def Pauses (l : Loop) (b : Beat) : Prop :=
  ∀ batches k, l.phase = .pulling (.renewing batches k) → ∃ now publisher, b = .look now publisher

theorem run_concat (l : Loop) (beats : List Beat) (b : Beat) : l.run (beats ++ [b]) = (l.run beats).step b := by
  unfold run
  rw [List.foldl_append]
  rfl

theorem sound_run (setup : Setup) (errorCapacity : Nat) (beats : List Beat) :
    ((new setup errorCapacity).run beats).Sound ∧
      ∀ s job, ((new setup errorCapacity).run beats).phase = .working s job → s.isClaiming = false := by
  induction beats using List.reverseRecOn with
  | nil => exact ⟨sound_new setup errorCapacity, by rintro _ _ ⟨⟩⟩
  | append_singleton beats b ih =>
    obtain ⟨hsound, hidle⟩ := ih
    rw [run_concat]
    refine ⟨hsound.step b, fun s job works => ?_⟩
    cases hphase : ((new setup errorCapacity).run beats).phase with
    | working s' job' =>
      have hmoves := moves_step hsound.phase b
      rw [hphase, works] at hmoves
      cases hmoves with
      | still | works => exact hidle s _ hphase
      | leaves gone => cases gone
    | _ =>
      rcases working_step hsound b works with ⟨job', hworks⟩ | hidle'
      · rw [hphase] at hworks
        cases hworks
      · exact hidle'

/-- When the token fires nothing can begin any more, or a claim is being renewed and the consumer pauses. -/
theorem winding_fire (sound : l.Sound) (idle : ∀ s job, l.phase = .working s job → s.isClaiming = false)
    (moment : l.phase.isBeginning = false) (pauses : l.Pauses b) :
    ((l.step .fire).step b).Winding ∧ ¬ (l.step .fire).Starts b := by
  by_cases hrenewing : ∃ batches k, l.phase = .pulling (.renewing batches k)
  · obtain ⟨batches, k, hphase⟩ := hrenewing
    obtain ⟨now, publisher, rfl⟩ := pauses batches k hphase
    have hlook : (l.step .fire).consumer.look ((l.step .fire).observe now publisher) =
        (l.consumer.enter (.selecting (.renewing batches k)), []) := by
      unfold phase at hphase
      show l.consumer.look _ = _
      unfold Consumer.look
      rw [hphase]
      rfl
    have hstep : (l.step .fire).step (.look now publisher) =
        ⟨l.consumer.enter (.selecting (.renewing batches k)), true⟩ := by
      show Loop.mk ((l.step .fire).consumer.look _).1 true = _
      rw [hlook]
    refine ⟨?_, ?_⟩
    · refine .of_job? ((sound.step .fire).step _) rfl ?_ ?_
      · rw [hstep]
        rfl
      · rw [hstep]
        rintro _ _ ⟨⟩
    · rintro (⟨-, hbeginning⟩ | ⟨d, hd⟩ | ⟨request, hasks, hnew, -⟩)
      · exact absurd hbeginning (by rw [show (l.step .fire).phase = l.phase from rfl, moment]; simp)
      · rw [effects, hlook] at hd
        cases hd
      · refine hnew ?_
        rw [hstep] at hasks
        show l.consumer.request? = some request
        rw [request?_pulling (s := .renewing batches k) hphase]
        exact hasks
  · have hwinding : (l.step .fire).Winding :=
      ⟨sound.step .fire, rfl, idle, moment, fun batches k hphase => hrenewing ⟨batches, k, hphase⟩⟩
    exact ⟨hwinding.step b, hwinding.starts_nothing b⟩

theorem Winding.run (h : l.Winding) (beats : List Beat) : (l.run beats).Winding := by
  induction beats generalizing l with
  | nil => exact h
  | cons b rest ih => exact ih (h.step b)

/-- **Nothing new begins once the token has fired**, whatever the store answers and however long it takes, whatever
handlers do and whenever the token fires, as long as the consumer pauses first if a claim is being renewed just then.

* No attempt and no claim begins. (`moment` says that the consumer is not between its decision to begin an attempt and
  the attempt: nobody else runs there.)
* An attempt that is running is left alone. If it succeeds the claim is acknowledged, if it fails the claim is given
  back.
* The consumer comes to its end, if it gets what it waits for. -/
theorem nothing_starts_once_fired (setup : Setup) (errorCapacity : Nat) (before later : List Beat)
    (moment : ((new setup errorCapacity).run before).phase.isBeginning = false)
    (pauses : ∀ b, later.head? = some b → ((new setup errorCapacity).run before).Pauses b) :
    let l := (new setup errorCapacity).run before
    (∀ done b rest, later = done ++ b :: rest → ¬ ((l.step .fire).run done).Starts b) ∧
      (∀ s job n delay, l.phase = .working s job → job.work? = some (.trying (.running n delay)) →
        (∃ work, ((l.step .fire).run later).phase = .working s (job.withWork work) ∧
            Reaches n (later.filterMap job.ending?).head? work) ∨
          ∃ done now publisher reply rest outcome, later = done ++ .answer now publisher reply :: rest ∧
            (done.filterMap job.ending?).head? = some outcome ∧
            ((l.step .fire).run done).consumer.request? = some (job.settlement setup outcome)) ∧
      ∀ forever : Nat → Beat, (later = [] → l.Pauses (forever 0)) →
        (∀ n, (((l.step .fire).run later).after forever n).Attends (forever n)) →
          ∃ n, (((l.step .fire).run later).after forever n).consumer.isOver = true := by
  intro l
  obtain ⟨hsound, hidle⟩ := sound_run setup errorCapacity before
  refine ⟨fun done b rest hlater => ?_, fun s job n delay hphase hwork => ?_, fun forever hfirst attends => ?_⟩
  · cases done with
    | nil => exact (winding_fire hsound hidle moment (pauses b (by rw [hlater]; rfl))).2
    | cons b' done =>
      have hwinding := (winding_fire hsound hidle moment (pauses b' (by rw [hlater]; rfl))).1
      exact (hwinding.run done).starts_nothing b
  · have hwinding : (l.step .fire).Winding :=
      ⟨hsound.step .fire, rfl, hidle, moment, by
        show ∀ batches k, l.phase ≠ .pulling (.renewing batches k)
        rw [hphase]
        rintro _ _ ⟨⟩⟩
    have hjob : job.withWork (.trying (.running n delay)) = job := by
      cases job with
      | refuse => cases hwork
      | _ => rw [← Option.some.inj hwork]; rfl
    have hwas : (l.step .fire).phase = .working s (job.withWork (.trying (.running n delay))) := by
      rw [hjob]
      exact hphase
    have hstands := hwinding.stands_run (by rw [hwork]; rfl) hwas .running later
    rw [show (l.step .fire).consumer.setup = setup from setup_run _ before] at hstands
    simpa only [Option.none_or] using hstands
  · cases later with
    | nil =>
      have hwinding := (winding_fire hsound hidle moment (hfirst rfl)).1
      obtain ⟨n, hn⟩ := hwinding.ends (attends_succ attends)
      exact ⟨n + 1, by rwa [after_succ]⟩
    | cons b rest =>
      have hwinding := (winding_fire hsound hidle moment (pauses b rfl)).1
      exact (hwinding.run rest).ends attends

/-- The token fires while the first of two messages is being handled; the handler succeeds and the claim is
acknowledged. -/
theorem nothing_starts_once_fired_midAttempt :
    let l := (new pairwise 1).run (cutShort.take 6)
    let later : List Beat := [.finish (.ok ()), .answer 0 (.new "outbox" false .silent) (.ok .done)]
    l.phase.isBeginning = false ∧ (∀ b, later.head? = some b → l.Pauses b) ∧ l.consumer.isHandling = true ∧
      ((l.step .fire).run (later.take 1)).consumer.request? = some (.ack (claimOn 1).receipt) ∧
      ∀ done b rest, later = done ++ b :: rest → ¬ ((l.step .fire).run done).Starts b := by
  intro l later
  have hmoment : l.phase.isBeginning = false := by decide +kernel
  have hpauses : ∀ b, later.head? = some b → l.Pauses b := fun _ _ _ _ hrenewing => by cases hrenewing
  exact ⟨hmoment, hpauses, by decide +kernel, by decide +kernel,
    (nothing_starts_once_fired pairwise 1 (cutShort.take 6) later hmoment hpauses).1⟩

/-- The token fires inside the call that renews the second of two messages, and the call succeeds: the consumer, which
has not paused, goes on to hand the message out. -/
theorem nothing_starts_once_fired_midRenewal :
    let publisher := Publisher.new "outbox" false .silent
    let l := (new pairwise 1).run (cutShort.take 10)
    let l' := (l.step .fire).step (.answer 0 publisher (.ok (.held true)))
    (∃ batches, l.phase = .pulling (.renewing batches (claimOn 2))) ∧ (l.step .fire).fired = true ∧
      l'.Starts (.look 0 publisher) ∧
      .invoke { Delivery.ofClaimed "items" (claimOn 2) none with attempt := 1 } ∈ l'.effects (.look 0 publisher) :=
  ⟨⟨_, rfl⟩, rfl, .inl ⟨⟨_, _, rfl⟩, by decide +kernel⟩, List.mem_singleton.2 rfl⟩

end Loop

end DurableBus
