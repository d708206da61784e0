import DurableBus.Consumer.Step
import DurableBus.Proofs.Consumer.Stream
import DurableBus.Proofs.Store.Entries

/-!
# What a consumer holds

A consumer holds the claim of the message it works on and the claims that wait in its stream. `Consumer.Passes` says how
that changes when the consumer moves.

* `passes_look`, `passes_finish`, `passes_answer` : every move of a consumer is of one of its four kinds;
* `Passes.sound`, `Passes.held` : what waits stays marked, and no claim is held that was not held before or came with
  the answer;
* `answer_stored`, `answer_of_acking` : an envelope is acknowledged after its content has been stored, and then let go.
-/

set_option autoImplicit false

namespace DurableBus

/-- Whether the attempts are not over yet, or what they came to is being settled. -/
def Work.IsUnderWay : Work → Prop
  | .trying (.over _) => False
  | _ => True

def Work.isAcking : Work → Bool
  | .acking _ => true
  | _ => false

theorem underWay_running (n : Nat) (delay : Duration) : (Work.trying (.running n delay)).IsUnderWay := trivial

namespace Job

/-- Whether the work on the message succeeded and its claim is being acknowledged. -/
def isAcking : Job → Bool
  | dispatch _ _ work | forward _ _ work => work.isAcking
  | refuse _ => false

/-- Whether the job is one that a consumer of that role has: forwarders forward what is an envelope and refuse what is
none. -/
def Fits (role : Role) : Job → Prop
  | dispatch _ _ work => role ≠ .forwarder ∧ work.IsUnderWay
  | forward c e work => role = .forwarder ∧ Envelope.unwrap c.message = .ok e ∧ work.IsUnderWay
  | refuse c => role = .forwarder ∧ ∃ problem, Envelope.unwrap c.message = .error problem

@[simp] theorem claimed_withWork (job : Job) (work : Work) : (job.withWork work).claimed = job.claimed := by
  cases job <;> rfl

theorem Fits.withWork {role : Role} {job : Job} (h : job.Fits role) {work : Work} (underWay : work.IsUnderWay) :
    (job.withWork work).Fits role := by
  cases job with
  | dispatch c context _ => exact ⟨h.1, underWay⟩
  | forward c e _ => exact ⟨h.1, h.2.1, underWay⟩
  | refuse c => exact h

/-- What makes the work on a message a success: its handler, or that the store takes what is in the envelope. -/
def Succeeds (occasion : Option (Store.Request × Store.Reply)) : Job → Prop
  | dispatch _ _ _ => occasion = none
  | forward _ e _ => ∃ a, occasion = some (.enqueue e.destination [e.message], .ok a)
  | refuse _ => False

end Job

namespace Phase

def job? : Phase → Option Job
  | .working _ job => some job
  | _ => none

def stream? : Phase → Option ClaimStream
  | .selecting s | .pulling s | .working s _ | .draining s => some s
  | _ => none

def held : Phase → List Claimed
  | .selecting s | .pulling s | .draining s => s.held
  | .working s job => job.claimed :: s.held
  | _ => []

/-- What waits is marked, and the job in hand fits the role. -/
structure Sound (role : Role) (p : Phase) : Prop where
  waits : ∀ s, p.stream? = some s → s.Waits
  fits : ∀ job, p.job? = some job → job.Fits role

theorem sound_starting (role : Role) : Sound role .starting where
  waits _ h := by cases h
  fits _ h := by cases h

theorem working_of_job? {p : Phase} {job : Job} (h : p.job? = some job) : ∃ s, p = .working s job := by
  cases p with
  | working s job' =>
    cases h
    exact ⟨s, rfl⟩
  | _ => cases h

theorem claimed_mem_held {p : Phase} {job : Job} (h : p.job? = some job) : job.claimed ∈ p.held := by
  cases p with
  | working s job' =>
    rw [← Option.some.inj h]
    exact List.mem_cons_self
  | _ => cases h

end Phase

namespace Consumer

/-- The job of a message that has been handed out. -/
def jobFor (setup : Setup) (claimed : Claimed) : Job :=
  match setup.role with
  | .subscriber _ =>
    .dispatch claimed (setup.settings.propagator.extract claimed.message.metadata)
      (.trying (.start setup.settings.retry))
  | .forwarder =>
    match Envelope.unwrap claimed.message with
    | .ok e => .forward claimed e (.trying (.start setup.settings.retry))
    | .error _ => .refuse claimed

@[simp] theorem claimed_jobFor (setup : Setup) (claimed : Claimed) : (jobFor setup claimed).claimed = claimed := by
  unfold jobFor
  split
  · rfl
  · split <;> rfl

theorem fits_jobFor (setup : Setup) (claimed : Claimed) : (jobFor setup claimed).Fits setup.role := by
  unfold jobFor
  split
  case h_1 hrole =>
    rw [hrole]
    exact ⟨by simp, trivial⟩
  case h_2 hrole =>
    rw [hrole]
    split
    case h_1 e he => exact ⟨rfl, he, trivial⟩
    case h_2 problem he => exact ⟨rfl, problem, he⟩

theorem isAcking_jobFor (setup : Setup) (claimed : Claimed) : (jobFor setup claimed).isAcking = false := by
  unfold jobFor
  split
  · rfl
  · split <;> rfl

/-- What hands a claim to a consumer: the answer to a claim, or to the renewal of a claim that waited. -/
def Gives (setup : Setup) (claimed : Claimed) (occasion : Option (Store.Request × Store.Reply)) : Prop :=
  (∃ rest, occasion = some (.claim (stream setup).request, .ok (.claimed (claimed :: rest)))) ∨
    ∃ a, a ≠ .held false ∧ occasion = some (.renew claimed.receipt setup.settings.claimLease, .ok a)

def Settles (setup : Setup) (job : Job) (request : Store.Request) : Prop :=
  if job.isAcking then request = .ack job.claimed.receipt
  else request = .nack job.claimed.receipt setup.settings.redeliveryDelay

def SettledBy (occasion : Option (Store.Request × Store.Reply)) : Prop :=
  ∃ request reply, occasion = some (request, reply) ∧ request.receipt?.isSome

theorem not_settledBy_none : ¬ SettledBy none := by
  rintro ⟨_, _, h, -⟩
  cases h

def brought : Option (Store.Request × Store.Reply) → List Claimed
  | some (_, reply) => ClaimStream.claimsOf reply
  | none => []

/-- How the phase of a consumer changes, by itself (`none`) or when a request is answered. -/
inductive Passes (setup : Setup) : Phase → Option (Store.Request × Store.Reply) → Phase → Prop
  /-- There is no message in hand. -/
  | free {p p' occasion} (was : p.job? = none) (is : p'.job? = none)
      (held : p'.held.Sublist (p.held ++ brought occasion)) (waits : ∀ s, p'.stream? = some s → s.Waits) :
      Passes setup p occasion p'
  /-- A message is taken in hand. -/
  | taken {p s claimed occasion} (was : p.job? = none) (gives : Gives setup claimed occasion)
      (held : (claimed :: s.held).Sublist (p.held ++ brought occasion)) (waits : s.Waits) :
      Passes setup p occasion (.working s (jobFor setup claimed))
  /-- The work on the message in hand goes on. -/
  | continued {s job work occasion} (underWay : work.IsUnderWay) (settling : ¬ SettledBy occasion)
      (success : (job.withWork work).isAcking → job.isAcking ∨ job.Succeeds occasion) :
      Passes setup (.working s job) occasion (.working s (job.withWork work))
  /-- The claim of the message in hand has been settled. -/
  | settled {s job request reply} (settles : Settles setup job request) :
      Passes setup (.working s job) (some (request, reply)) (.selecting s)

variable {c : Consumer} {s : ClaimStream} {job : Job}

theorem Passes.refl {setup : Setup} {p : Phase} (h : p.Sound setup.role) : Passes setup p none p := by
  cases p with
  | working s job =>
    have hfits := h.fits job rfl
    cases job with
    | dispatch k context work => exact .continued hfits.2 not_settledBy_none fun hacking => Or.inl hacking
    | forward k e work => exact .continued hfits.2.2 not_settledBy_none fun hacking => Or.inl hacking
    | refuse k =>
      have underWay : (Work.acking 0).IsUnderWay := trivial
      exact .continued underWay not_settledBy_none fun hacking => Or.inl hacking
  | _ => exact .free rfl rfl (List.sublist_append_left _ _) h.waits

/-! ## The work on a message -/

theorem isAcking_withWork {work : Work} (h : (job.withWork work).isAcking) : work.isAcking := by
  cases job with
  | refuse k => cases h
  | _ => exact h

/-- The work on a message is at another point; it succeeded only if `p`. -/
def GoesOn (s : ClaimStream) (job : Job) (p : Prop) (phase : Phase) : Prop :=
  ∃ work, phase = .working s (job.withWork work) ∧ work.IsUnderWay ∧ (work.isAcking → p)

theorem goesOn_conclude (c : Consumer) (s : ClaimStream) (job : Job) (result : Except (RetryError Failure) Nat) :
    GoesOn s job (∃ n, result = .ok n) (c.conclude s job result).1.phase := by
  unfold conclude
  split
  case h_1 n k e w => exact ⟨.acking n, rfl, trivial, fun _ => ⟨n, rfl⟩⟩
  case h_2 n _ => exact ⟨.acking n, rfl, trivial, fun _ => ⟨n, rfl⟩⟩
  case h_3 e => exact ⟨.nacking e, rfl, trivial, fun h => by cases h⟩

theorem goesOn_carryOn (c : Consumer) (s : ClaimStream) (job : Job) (attempts : Retry Failure) :
    GoesOn s job (∃ n, attempts = .over (.ok n)) (c.carryOn s job attempts).1.phase := by
  unfold carryOn
  split
  case h_1 result =>
    obtain ⟨work, hphase, hunder, hacking⟩ := goesOn_conclude c s job result
    refine ⟨work, hphase, hunder, fun h => ?_⟩
    obtain ⟨n, hn⟩ := hacking h
    exact ⟨n, by rw [hn]⟩
  case h_2 _ hgoing =>
    refine ⟨.trying attempts, rfl, ?_, fun h => by cases h⟩
    unfold Work.IsUnderWay
    split
    case h_1 result hover => exact hgoing result (Work.trying.inj hover)
    case h_2 => trivial

theorem finish_eq_over {policy : RetryPolicy} {outcome : Except Failure Unit} {attempts : Retry Failure} {n : Nat}
    (h : attempts.finish policy outcome = .over (.ok n)) : attempts = .over (.ok n) ∨ outcome = .ok () := by
  cases attempts with
  | running m delay =>
    rcases outcome with e | ⟨⟩
    · simp only [Retry.finish] at h
      split at h <;> cases h
    · exact Or.inr rfl
  | _ => exact Or.inl h

theorem look_eq_over {policy : RetryPolicy} {now : Instant} {cancelled : Bool} {attempts : Retry Failure} {n : Nat}
    (h : attempts.look policy now cancelled = .over (.ok n)) : attempts = .over (.ok n) := by
  cases attempts with
  | reported m delay e =>
    simp only [Retry.look] at h
    split at h <;> cases h
  | resting m delay e wakeAt =>
    simp only [Retry.look] at h
    split at h
    · cases h
    · split at h <;> cases h
  | _ => exact h

theorem goesOn_endAttempt (c : Consumer) (s : ClaimStream) (job : Job) {attempts : Retry Failure}
    (underWay : (Work.trying attempts).IsUnderWay) (outcome : Except Failure Unit) :
    GoesOn s job (outcome = .ok ()) (c.endAttempt s job attempts outcome).1.phase := by
  unfold endAttempt
  split
  case h_1 n delay e _ => exact ⟨.trying (.reported n delay e), rfl, trivial, fun h => by cases h⟩
  case h_2 =>
    obtain ⟨work, hphase, hunder, hacking⟩ := goesOn_carryOn c s job (attempts.finish c.setup.settings.retry outcome)
    refine ⟨work, hphase, hunder, fun h => ?_⟩
    obtain ⟨n, hn⟩ := hacking h
    rcases finish_eq_over hn with hover | hok
    · rw [hover] at underWay
      exact underWay.elim
    · exact hok

theorem goesOn_lookAt (c : Consumer) (o : Observation) (s : ClaimStream) {attempts : Retry Failure}
    (underWay : (Work.trying attempts).IsUnderWay) (hrefuse : ∀ k, job ≠ .refuse k) :
    GoesOn s job False (c.lookAt o s job attempts).1.phase := by
  unfold lookAt
  split
  case h_1 n delay =>
    unfold beginAttempt
    split
    case h_1 k context w => exact ⟨.trying (.running n delay), rfl, trivial, fun h => by cases h⟩
    case h_2 k e w =>
      split
      · exact ⟨.trying (.running n delay), rfl, trivial, fun h => by cases h⟩
      · -- the publisher has been closed
        rename_i refusal _
        obtain ⟨work, hphase, hunder, hacking⟩ :=
          goesOn_endAttempt c s (.forward k e w) (underWay_running n delay) (.error (.bus refusal))
        exact ⟨work, hphase, hunder, fun h => by cases hacking h⟩
    case h_3 k => exact absurd rfl (hrefuse k)
  case h_2 =>
    obtain ⟨work, hphase, hunder, hacking⟩ :=
      goesOn_carryOn c s job (attempts.look c.setup.settings.retry o.now o.cancelled)
    refine ⟨work, hphase, hunder, fun h => ?_⟩
    obtain ⟨n, hn⟩ := hacking h
    rw [look_eq_over hn] at underWay
    exact underWay.elim

/-- Work that goes on is work in hand. -/
theorem GoesOn.passes {setup : Setup} {p : Prop} {phase : Phase} {occasion : Option (Store.Request × Store.Reply)}
    (h : GoesOn s job p phase) (settling : ¬ SettledBy occasion) (succeeds : p → job.Succeeds occasion) :
    Passes setup (.working s job) occasion phase := by
  obtain ⟨work, rfl, hunder, hacking⟩ := h
  exact .continued hunder settling fun h => Or.inr (succeeds (hacking (isAcking_withWork h)))

/-! ## Pulling -/

theorem phase_take (c : Consumer) (s : ClaimStream) (k : Claimed) :
    (c.take s k).1.phase = .working s (jobFor c.setup k) := by
  unfold take jobFor
  cases c.setup.role with
  | subscriber ephemeral => rfl
  | forwarder => cases Envelope.unwrap k.message <;> rfl

/-- What a pull hands out is taken in hand. -/
theorem passes_pulled {p : Phase} {occasion : Option (Store.Request × Store.Reply)} {move : ClaimStream.Move}
    (was : p.job? = none) (held : (move.items ++ s.held).Sublist (p.held ++ brought occasion)) (waits : s.Waits)
    (gives : ∀ k ∈ move.items, Gives c.setup k occasion) : Passes c.setup p occasion (c.pulled s move).1.phase := by
  have hstream : ∀ s', some s = some s' → s'.Waits := fun s' h => Option.some.inj h ▸ waits
  rcases move with _ | _ | _ | (e | k) | _ | _
  case yield.ok =>
    show Passes c.setup p occasion (c.take s k).1.phase
    rw [phase_take]
    exact .taken was (gives k (List.mem_singleton.2 rfl)) held waits
  case broke => exact .free was rfl (List.nil_sublist _) fun _ hs => by cases hs
  all_goals exact .free was rfl held hstream

/-- What a pull hands out after the token has fired is dropped. -/
theorem passes_drained {p : Phase} {occasion : Option (Store.Request × Store.Reply)} {move : ClaimStream.Move}
    (was : p.job? = none) (held : (move.items ++ s.held).Sublist (p.held ++ brought occasion)) (waits : s.Waits) :
    Passes c.setup p occasion (c.drained s move).1.phase := by
  have hstream : ∀ s', some s = some s' → s'.Waits := fun s' h => Option.some.inj h ▸ waits
  have hheld := (List.sublist_append_right _ _).trans held
  cases move with
  | finished =>
    show Passes c.setup p occasion c.leave.1.phase
    unfold leave
    split <;> exact .free was rfl (List.nil_sublist _) fun _ hs => by cases hs
  | broke => exact .free was rfl (List.nil_sublist _) fun _ hs => by cases hs
  | _ => exact .free was rfl hheld hstream

/-! ## Moves -/

theorem passes_look (c : Consumer) (o : Observation) (h : c.phase.Sound c.setup.role) :
    Passes c.setup c.phase none (c.look o).1.phase := by
  unfold look
  split
  case h_1 hphase =>
    rw [hphase]
    exact .free rfl rfl (List.nil_sublist _) fun s hs => by
      rw [← Option.some.inj hs]
      exact fun p hp => by cases hp
  case h_2 s hphase =>
    have hwaits := h.waits s (by rw [hphase]; rfl)
    rw [hphase]
    split <;> exact .free rfl rfl (List.sublist_append_left _ _) fun s' hs => Option.some.inj hs ▸ hwaits
  case h_3 s hphase =>
    have hwaits := h.waits s (by rw [hphase]; rfl)
    rw [hphase]
    show Passes c.setup _ none
      (c.pulled (s.look (stream c.setup) o.now o.cancelled).1 (s.look (stream c.setup) o.now o.cancelled).2).1.phase
    refine passes_pulled rfl ?_ (hwaits.look _ _ _) fun k hk => ?_
    · rw [ClaimStream.items_look]
      exact List.sublist_append_left _ _
    · rw [hwaits.items_look] at hk
      cases hk
  case h_4 s k context attempts hphase =>
    have hfits := h.fits _ (by rw [hphase]; rfl)
    rw [hphase]
    exact (goesOn_lookAt c o s hfits.2 (by simp)).passes not_settledBy_none False.elim
  case h_5 s k e attempts hphase =>
    have hfits := h.fits _ (by rw [hphase]; rfl)
    rw [hphase]
    exact (goesOn_lookAt c o s hfits.2.2 (by simp)).passes not_settledBy_none False.elim
  case h_6 s hphase =>
    have hwaits := h.waits s (by rw [hphase]; rfl)
    rw [hphase]
    show Passes c.setup _ none
      (c.drained (s.look (stream c.setup) o.now o.cancelled).1 (s.look (stream c.setup) o.now o.cancelled).2).1.phase
    refine passes_drained rfl ?_ (hwaits.look _ _ _)
    rw [ClaimStream.items_look]
    exact List.sublist_append_left _ _
  case h_7 => exact Passes.refl h

theorem passes_finish (c : Consumer) (outcome : Except Failure Unit) (h : c.phase.Sound c.setup.role) :
    Passes c.setup c.phase none (c.finish outcome).1.phase := by
  unfold finish
  split
  case h_1 s k context attempts hphase =>
    have hfits := h.fits _ (by rw [hphase]; rfl)
    rw [hphase]
    exact (goesOn_endAttempt c s _ hfits.2 outcome).passes not_settledBy_none fun _ => rfl
  case h_2 => exact Passes.refl h

/-- A renewal or a claim is what the stream asks for while there is no message in hand. -/
theorem gives_of_answer {k : Claimed} {cancelled : Bool} {reply : Store.Reply} {request : Store.Request}
    (asked : s.request? (stream c.setup) = some request) (h : k ∈ (s.answer cancelled reply).2.items) :
    Gives c.setup k (some (request, reply)) := by
  rcases ClaimStream.mem_items_answer cancelled h with ⟨due, rest, rfl, rfl⟩ | ⟨batches, a, rfl, rfl, hheld⟩
  · cases asked
    exact Or.inl ⟨rest, rfl⟩
  · cases asked
    exact Or.inr ⟨a, hheld, rfl⟩

theorem passes_answerJob (c : Consumer) (s : ClaimStream) (reply : Store.Reply) {request : Store.Request}
    (asked : c.jobRequest? job = some request) :
    Passes c.setup (.working s job) (some (request, reply)) (c.answerJob s job reply).1.phase := by
  unfold jobRequest? at asked
  split at asked
  case h_1 k context n =>
    cases asked
    exact .settled rfl
  case h_2 k e n =>
    cases asked
    exact .settled rfl
  case h_3 k context e =>
    cases asked
    exact .settled rfl
  case h_4 k e' e =>
    cases asked
    exact .settled rfl
  case h_5 k =>
    cases asked
    exact .settled rfl
  case h_6 k e n delay =>
    cases asked
    refine (goesOn_endAttempt c s _ (underWay_running n delay) _).passes ?_ fun hok => ?_
    · rintro ⟨_, _, h, hreceipt⟩
      cases h
      cases hreceipt
    rcases reply with refusal | a
    · cases hok
    · exact ⟨a, rfl⟩
  case h_7 => cases asked

theorem passes_answer (c : Consumer) (o : Observation) {request : Store.Request} (reply : Store.Reply)
    (h : c.phase.Sound c.setup.role) (asked : c.request? = some request) :
    Passes c.setup c.phase (some (request, reply)) (c.answer o reply).1.phase := by
  unfold answer
  unfold request? at asked
  split
  case h_1 s hphase =>
    have hwaits := h.waits s (by rw [hphase]; rfl)
    rw [hphase] at asked ⊢
    show Passes c.setup _ _ (c.pulled (s.answer o.cancelled reply).1 (s.answer o.cancelled reply).2).1.phase
    exact passes_pulled rfl (ClaimStream.items_answer _ _ _) (hwaits.answer _ _) fun k hk => gives_of_answer asked hk
  case h_2 s hphase =>
    have hwaits := h.waits s (by rw [hphase]; rfl)
    rw [hphase] at asked ⊢
    show Passes c.setup _ _ (c.drained (s.answer o.cancelled reply).1 (s.answer o.cancelled reply).2).1.phase
    exact passes_drained rfl (ClaimStream.items_answer _ _ _) (hwaits.answer _ _)
  case h_3 s job hphase =>
    rw [hphase] at asked ⊢
    exact passes_answerJob c s reply asked
  case h_4 hphase =>
    rw [hphase]
    exact .free rfl rfl (List.nil_sublist _) fun _ hs => by cases hs
  case h_5 _ _ hother hforgetting =>
    cases hphase : c.phase with
    | selecting s =>
      have hwaits := h.waits s (by rw [hphase]; rfl)
      exact .free rfl rfl (List.sublist_append_left _ _) fun s' hs => Option.some.inj hs ▸ hwaits
    | pulling s | draining s | working s job | forgetting => simp_all
    | starting | ended | crashed =>
      rw [hphase] at asked
      cases asked

variable {setup : Setup} {p p' : Phase} {occasion : Option (Store.Request × Store.Reply)}

/-- Every move keeps what waits marked and the job fit. -/
theorem Passes.sound (h : Passes setup p occasion p') (sound : p.Sound setup.role) : p'.Sound setup.role := by
  cases h with
  | free was is held waits =>
    refine ⟨waits, fun job hjob => ?_⟩
    rw [is] at hjob
    cases hjob
  | taken was gives held waits =>
    refine ⟨fun s hs => Option.some.inj hs ▸ waits, fun job hjob => ?_⟩
    rw [← Option.some.inj hjob]
    exact fits_jobFor setup _
  | continued underWay settling success =>
    refine ⟨sound.waits, fun job hjob => ?_⟩
    rw [← Option.some.inj hjob]
    exact (sound.fits _ rfl).withWork underWay
  | settled settles => exact ⟨sound.waits, fun job hjob => by cases hjob⟩

/-- Claims are held that were held before or came with the answer. -/
theorem Passes.held (h : Passes setup p occasion p') : p'.held.Sublist (p.held ++ brought occasion) := by
  cases h with
  | free was is held waits => exact held
  | taken was gives held waits =>
    show ((jobFor setup _).claimed :: _).Sublist _
    rw [claimed_jobFor]
    exact held
  | continued underWay settling success =>
    show ((Job.withWork _ _).claimed :: _).Sublist _
    rw [Job.claimed_withWork]
    exact List.sublist_append_left _ _
  | settled settles => exact (List.sublist_cons_self _ _).trans (List.sublist_append_left _ _)

/-- The work on a message has succeeded by now if it had before, or succeeds with this move. -/
theorem Passes.acking (h : Passes setup p occasion p') {job' : Job} (busy : p'.job? = some job')
    (acking : job'.isAcking) :
    ∃ job, p.job? = some job ∧ job'.claimed = job.claimed ∧ (job.isAcking ∨ job.Succeeds occasion) := by
  cases h with
  | free was is held waits =>
    rw [is] at busy
    cases busy
  | taken was gives held waits =>
    rw [← Option.some.inj busy, isAcking_jobFor] at acking
    cases acking
  | continued underWay settling success =>
    rw [← Option.some.inj busy] at acking ⊢
    exact ⟨_, rfl, Job.claimed_withWork _ _, success acking⟩
  | settled settles => cases busy

/-! ## Requests -/

/-- What a consumer may ask a store for. -/
inductive Asks (setup : Setup) (p : Phase) : Store.Request → Prop
  | claim (free : p.job? = none) : Asks setup p (.claim (stream setup).request)
  | renew {k} (free : p.job? = none) (held : k ∈ p.held) : Asks setup p (.renew k.receipt setup.settings.claimLease)
  /-- A claim is given back that will not be handed out. -/
  | release {k} (free : p.job? = none) (held : k ∈ p.held) : Asks setup p (.nack k.receipt .zero)
  | settle {job request} (busy : p.job? = some job) (settles : Settles setup job request) : Asks setup p request
  | forward {k e work} (busy : p.job? = some (.forward k e work)) : Asks setup p (.enqueue e.destination [e.message])
  | forget (done : p = .forgetting) : Asks setup p (.forgetGroup setup.topic setup.group)

theorem asks_of_stream {request : Store.Request} (free : p.job? = none) (held : p.held = s.held)
    (h : s.request? (stream setup) = some request) : Asks setup p request := by
  cases s with
  | pulling batches =>
    cases batches <;> cases h
    exact .claim free
  | renewing batches k =>
    cases h
    exact .renew free (held ▸ List.mem_cons_self)
  | releasing batches k =>
    cases h
    exact .release free (held ▸ List.mem_cons_self)

theorem asks_of_job {request : Store.Request} (busy : p.job? = some job) (h : c.jobRequest? job = some request) :
    Asks c.setup p request := by
  unfold jobRequest? at h
  split at h <;> cases h
  case h_6 => exact .forward busy
  all_goals exact .settle busy rfl

theorem asks_of_request {request : Store.Request} (h : c.request? = some request) : Asks c.setup c.phase request := by
  unfold request? at h
  split at h
  case h_1 s hphase | h_2 s hphase | h_3 s hphase => exact asks_of_stream (by rw [hphase]; rfl) (by rw [hphase]; rfl) h
  case h_4 s job hphase => exact asks_of_job (by rw [hphase]; rfl) h
  case h_5 hphase =>
    cases h
    exact .forget hphase
  case h_6 => cases h

/-- What a consumer waits for depends on its setup and its phase. -/
theorem request?_congr {c c' : Consumer} (hsetup : c.setup = c'.setup) (hphase : c.phase = c'.phase) :
    c.request? = c'.request? := by
  unfold request? jobRequest?
  rw [hsetup, hphase]

/-- A claim is acknowledged when the work on its message has succeeded. -/
theorem Asks.ack {r : Receipt} (h : Asks setup p (.ack r)) :
    ∃ job, p.job? = some job ∧ job.isAcking ∧ job.claimed.receipt = r := by
  cases h with
  | settle busy settles =>
    unfold Settles at settles
    split at settles
    case isTrue hacking => exact ⟨_, busy, hacking, (Store.Request.ack.inj settles).symm⟩
    case isFalse => cases settles

theorem Asks.claim_eq {r : ClaimRequest} (h : Asks setup p (.claim r)) : r = (stream setup).request := by
  cases h with
  | claim free => rfl
  | settle busy settles =>
    unfold Settles at settles
    split at settles <;> cases settles

theorem Asks.enqueue {topic : String} {messages : List Message} (h : Asks setup p (.enqueue topic messages)) :
    ∃ k e work, p.job? = some (.forward k e work) ∧ topic = e.destination ∧ messages = [e.message] := by
  cases h with
  | settle busy settles =>
    unfold Settles at settles
    split at settles <;> cases settles
  | forward busy => exact ⟨_, _, _, busy, rfl, rfl⟩

/-- Only a claim that is held is settled or renewed. -/
theorem Asks.held {request : Store.Request} (h : Asks setup p request) {r : Receipt}
    (settles : request.receipt? = some r) : ∃ k ∈ p.held, k.receipt = r := by
  cases h with
  | claim | forward | forget => cases settles
  | renew _ held | release _ held => exact ⟨_, held, Option.some.inj settles⟩
  | settle busy hsettles =>
    refine ⟨_, Phase.claimed_mem_held busy, ?_⟩
    unfold Settles at hsettles
    split at hsettles
    all_goals
      rw [hsettles] at settles
      exact Option.some.inj settles

/-! ## Storing and acknowledging -/

/-- Who stores something works on an envelope, and is done with it once the store has taken what is inside. -/
theorem answer_stored {target : String} {messages : List Message} (asked : c.request? = some (.enqueue target messages))
    (o : Observation) (a : Store.Answer) :
    ∃ s k e n delay, c.phase = .working s (.forward k e (.trying (.running n delay))) ∧ target = e.destination ∧
      messages = [e.message] ∧ (c.answer o (.ok a)).1.phase = .working s (.forward k e (.acking n)) := by
  obtain ⟨k, e, work, busy, htarget, hmessages⟩ := (asks_of_request asked).enqueue
  obtain ⟨s, hphase⟩ := Phase.working_of_job? busy
  unfold request? at asked
  rw [hphase] at asked
  unfold answer
  rw [hphase]
  match work, asked with
  | .trying (.running n delay), _ => exact ⟨s, k, e, n, delay, rfl, htarget, hmessages, rfl⟩

/-- Work that has succeeded waits for its acknowledgement and for nothing else. -/
theorem look_of_acking (o : Observation) (busy : c.phase.job? = some job) (acking : job.isAcking) :
    (c.look o).1.phase = c.phase := by
  obtain ⟨s, hphase⟩ := Phase.working_of_job? busy
  unfold look
  rw [hphase]
  match job, acking with
  | .dispatch k context (.acking n), _ | .forward k e (.acking n), _ => exact hphase

theorem finish_of_acking (outcome : Except Failure Unit) (busy : c.phase.job? = some job) (acking : job.isAcking) :
    (c.finish outcome).1.phase = c.phase := by
  obtain ⟨s, hphase⟩ := Phase.working_of_job? busy
  unfold finish
  rw [hphase]
  match job, acking with
  | .dispatch k context (.acking n), _ | .forward k e (.acking n), _ => exact hphase

theorem answer_of_acking (o : Observation) (reply : Store.Reply) (busy : c.phase.job? = some job)
    (acking : job.isAcking) : (c.answer o reply).1.phase.job? = none := by
  obtain ⟨s, hphase⟩ := Phase.working_of_job? busy
  unfold answer
  rw [hphase]
  match job, acking with
  | .dispatch k context (.acking n), _ | .forward k e (.acking n), _ => rfl

/-! ## Setups -/

theorem setup_carryOn (c : Consumer) (s : ClaimStream) (job : Job) (attempts : Retry Failure) :
    (c.carryOn s job attempts).1.setup = c.setup := by
  unfold carryOn
  split
  · unfold conclude
    split <;> rfl
  · rfl

theorem setup_endAttempt (c : Consumer) (s : ClaimStream) (job : Job) (attempts : Retry Failure)
    (outcome : Except Failure Unit) : (c.endAttempt s job attempts outcome).1.setup = c.setup := by
  unfold endAttempt
  split
  · rfl
  · exact setup_carryOn ..

theorem setup_lookAt (c : Consumer) (o : Observation) (s : ClaimStream) (job : Job) (attempts : Retry Failure) :
    (c.lookAt o s job attempts).1.setup = c.setup := by
  unfold lookAt
  split
  · unfold beginAttempt
    split
    · rfl
    · split
      · rfl
      · exact setup_endAttempt ..
    · rfl
  · exact setup_carryOn ..

theorem setup_pulled (c : Consumer) (s : ClaimStream) (move : ClaimStream.Move) :
    (c.pulled s move).1.setup = c.setup := by
  unfold pulled
  split
  case h_4 claimed =>
    unfold take
    split
    · rfl
    · split <;> rfl
  all_goals rfl

theorem setup_drained (c : Consumer) (s : ClaimStream) (move : ClaimStream.Move) :
    (c.drained s move).1.setup = c.setup := by
  unfold drained
  split
  case h_5 =>
    unfold leave
    split <;> rfl
  all_goals rfl

theorem setup_look (c : Consumer) (o : Observation) : (c.look o).1.setup = c.setup := by
  unfold look
  split
  · rfl
  · split <;> rfl
  · exact setup_pulled ..
  · exact setup_lookAt ..
  · exact setup_lookAt ..
  · exact setup_drained ..
  · rfl

theorem setup_finish (c : Consumer) (outcome : Except Failure Unit) : (c.finish outcome).1.setup = c.setup := by
  unfold finish
  split
  · exact setup_endAttempt ..
  · rfl

theorem setup_report (c : Consumer) (job : Job) (e : RetryError Failure) : (c.report job e).1.setup = c.setup := by
  unfold report
  split
  · rfl
  · split <;> rfl

theorem setup_answerJob (c : Consumer) (s : ClaimStream) (job : Job) (reply : Store.Reply) :
    (c.answerJob s job reply).1.setup = c.setup := by
  unfold answerJob
  split
  case h_1 => exact setup_endAttempt ..
  case h_3 => exact setup_report ..
  all_goals rfl

theorem setup_answer (c : Consumer) (o : Observation) (reply : Store.Reply) :
    (c.answer o reply).1.setup = c.setup := by
  unfold answer
  split
  · exact setup_pulled ..
  · exact setup_drained ..
  · exact setup_answerJob ..
  · rfl
  · rfl

end Consumer

end DurableBus
