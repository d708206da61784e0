import Mathlib.Data.List.Induction
import DurableBus.Proofs.Consumer.Loop

/-!
# What becomes of claims

An `Account` follows a consumer, whatever its store answers and whenever its token fires: it lists the claims that the
consumer has received and how each of them has ended (`Ending`).

* `Loop.balanced_step` : a claim that is received ends in one way, or waits;
* `claims_end` : the account of a whole life, with the one case in which a claim is dropped.
-/

set_option autoImplicit false

namespace DurableBus

open Consumer (Setup Passes)

/-! ## Streams -/

theorem Poller.Looks.queue_eq_nil {α ε : Type} {cancelled : Bool} {p : Poller α} {step : Poller α × Poller.Move α ε}
    (h : Poller.Looks cancelled p step) (ended : step.2 = .finished ∨ step.2 = .broke) : step.1.queue = [] := by
  cases h with
  | finishes | breaks => rfl
  | _ => rcases ended with ended | ended <;> cases ended

namespace ClaimStream

/-- The claim that is being given back. -/
def released : ClaimStream → List Claimed
  | .releasing _ k => [k]
  | _ => []

/-- The claims at hand that have not ended in any way. -/
def waiting : ClaimStream → List Claimed
  | .pulling batches | .releasing batches _ => batches.queue.map (·.claimed)
  | .renewing batches k => k :: batches.queue.map (·.claimed)

theorem released_append_waiting (s : ClaimStream) : s.released ++ s.waiting = s.held := by cases s <;> rfl

def givenBack (s s' : ClaimStream) : List Claimed := if s.released = [] then s'.released else []

@[simp] theorem givenBack_self (s : ClaimStream) : givenBack s s = [] := by
  unfold givenBack
  split
  case isTrue h => exact h
  case isFalse => rfl

variable {s : ClaimStream} (setup : Setup) (now : Instant) (cancelled : Bool)

theorem Waits.balance_look (h : s.Waits) :
    givenBack s (s.look setup now cancelled).1 ++ (s.look setup now cancelled).1.waiting = s.waiting := by
  cases s with
  | pulling batches =>
    have hitems := ClaimStream.items_look setup now cancelled (ClaimStream.pulling batches)
    rw [h.items_look, List.nil_append, ← released_append_waiting] at hitems
    exact hitems
  | renewing | releasing => rfl

/-- What is claimed is handed out, begins to be given back or waits. -/
theorem balance_claim (reply : Store.Reply) (due : Instant) :
    ((pulling (.polling due)).answer cancelled reply).2.items ++
        ((pulling (.polling due)).answer cancelled reply).1.held = claimsOf reply := by
  rw [answer_pulling, (follows_follow _ _ _).items]
  rcases Poller.items_answer (batch reply) (Poller.polling due) with ⟨due', -, hbatch⟩ | ⟨hsame, hnone⟩
  · rw [hbatch, batchItems_batch]
  · rcases reply with e | _ | offset | (_ | ⟨c, rest⟩) | still <;> cases hsame

/-- Nothing is left in a stream that has finished or broken. -/
theorem held_look {s : ClaimStream}
    (h : (s.look setup now cancelled).2 = .finished ∨ (s.look setup now cancelled).2 = .broke) :
    (s.look setup now cancelled).1.held = [] := by
  cases s with
  | pulling batches =>
    rw [look_pulling] at h ⊢
    rcases h with hfinished | hbroke
    · obtain ⟨hmove, hstream⟩ := (follows_follow _ _ _).of_finished hfinished
      rw [hstream]
      exact congrArg (List.map _) ((Poller.looks_look _ _ _ _).queue_eq_nil (Or.inl hmove))
    · obtain ⟨hmove, hstream⟩ := (follows_follow _ _ _).of_broke hbroke
      rw [hstream]
      exact congrArg (List.map _) ((Poller.looks_look _ _ _ _).queue_eq_nil (Or.inr hmove))
  | renewing | releasing => rcases h with h | h <;> cases h

end ClaimStream

/-! ## Endings -/

/-- How a claim ends for a consumer. -/
inductive Ending
  /-- Its message is taken in hand. -/
  | handed
  /-- The store answers that the claim is not held any more. -/
  | lost
  /-- Its renewal fails. -/
  | failed
  /-- The store is asked to take it back for immediate redelivery. -/
  | released
  /-- It has been renewed, and nothing more is done about it. -/
  | dropped
deriving DecidableEq, Repr

namespace Phase

/-- The claims at hand that have not ended in any way. -/
def waiting (p : Phase) : List Claimed := (p.stream?.map ClaimStream.waiting).getD []

def isClaiming : Phase → Bool
  | .pulling s | .draining s => s.isClaiming
  | _ => false

def received (p : Phase) : Beat → List Claimed
  | .answer _ _ reply => if p.isClaiming then ClaimStream.claimsOf reply else []
  | _ => []

def taken (p p' : Phase) : List Claimed :=
  match p.job?, p'.job? with
  | none, some job => [job.claimed]
  | _, _ => []

def givenBack (p p' : Phase) : List Claimed :=
  match p.stream?, p'.stream? with
  | some s, some s' => ClaimStream.givenBack s s'
  | _, _ => []

/-- How a claim ends when its renewal is answered, if it does. -/
def renewal (still : Option Ending) : Store.Reply → Option Ending
  | .ok (.held false) => some .lost
  | .ok _ => still
  | .error _ => some .failed

/-- The claim that ends with the answer to its renewal. A consumer that drains forgets it also if it is held. -/
def renewed (p : Phase) : Beat → List (Claimed × Ending)
  | .answer _ _ reply =>
    match p with
    | .pulling (.renewing _ k) => ((renewal none reply).map (k, ·)).toList
    | .draining (.renewing _ k) => ((renewal (some .dropped) reply).map (k, ·)).toList
    | _ => []
  | _ => []

/-- How claims end when a consumer goes from one phase to another. -/
def endings (p p' : Phase) (b : Beat) : List (Claimed × Ending) :=
  (taken p p').map (·, .handed) ++ (givenBack p p').map (·, .released) ++ renewed p b

/-- What was at hand or is received has ended or waits. -/
def Balanced (p : Phase) (b : Beat) (p' : Phase) : Prop :=
  received p b ++ p.waiting = (endings p p' b).map Prod.fst ++ p'.waiting

theorem map_fst_endings (p p' : Phase) (b : Beat) :
    (endings p p' b).map Prod.fst = taken p p' ++ givenBack p p' ++ (renewed p b).map Prod.fst := by
  simp [endings, Function.comp_def]

theorem taken_self (p : Phase) : taken p p = [] := by
  unfold taken
  cases p.job? <;> rfl

theorem givenBack_self (p : Phase) : givenBack p p = [] := by
  unfold givenBack
  cases p.stream? with
  | none => rfl
  | some s => exact s.givenBack_self

theorem balanced_self {p : Phase} {b : Beat} (nothing : received p b = []) (settled : renewed p b = []) :
    Balanced p b p := by
  rw [Balanced, map_fst_endings, taken_self, givenBack_self, nothing, settled]
  rfl

theorem balanced_working {setup : Setup} {s : ClaimStream} {job : Job} {p' : Phase}
    {occasion : Option (Store.Request × Store.Reply)} (h : Passes setup (.working s job) occasion p') (b : Beat) :
    Balanced (.working s job) b p' := by
  have hnothing : received (.working s job) b = [] := by cases b <;> rfl
  have hsettled : renewed (.working s job) b = [] := by cases b <;> rfl
  rw [Balanced, map_fst_endings, hnothing, hsettled]
  cases h with
  | free was | taken was => cases was
  | continued | settled =>
    show s.waiting = [] ++ ClaimStream.givenBack s s ++ [] ++ s.waiting
    rw [ClaimStream.givenBack_self]
    rfl

theorem taken_of_free (p : Phase) {p' : Phase} (is : p'.job? = none) : taken p p' = [] := by
  unfold taken
  rw [is]
  split
  case h_1 heq => cases heq
  case h_2 => rfl

section Moves

variable {c : Consumer} {p p' : Phase} {b : Beat} {s s' : ClaimStream} {move : ClaimStream.Move}

theorem balanced_stream {ks : List Claimed} (stream : p.stream? = some s) (stream' : p'.stream? = some s')
    (htaken : taken p p' = ks)
    (h : received p b ++ s.waiting =
      ks ++ (ClaimStream.givenBack s s' ++ ((renewed p b).map Prod.fst ++ s'.waiting))) : Balanced p b p' := by
  have hgiven : givenBack p p' = ClaimStream.givenBack s s' := by
    unfold givenBack
    rw [stream, stream']
  rw [Balanced, map_fst_endings, htaken, hgiven, waiting, waiting, stream, stream']
  simpa using h

/-- A stream is left when nothing is at hand any more. -/
theorem balanced_over (stream : p.stream? = some s) (gone : p'.stream? = none) (free : p'.job? = none)
    (nothing : s'.held = [])
    (h : received p b ++ s.waiting = ClaimStream.givenBack s s' ++ ((renewed p b).map Prod.fst ++ s'.waiting)) :
    Balanced p b p' := by
  have hgiven : givenBack p p' = [] := by
    unfold givenBack
    rw [stream, gone]
  rw [← ClaimStream.released_append_waiting, List.append_eq_nil_iff] at nothing
  rw [Balanced, map_fst_endings, taken_of_free p free, hgiven, waiting, waiting, stream, gone]
  simpa [ClaimStream.givenBack, nothing] using h

theorem balanced_pulled (was : p.job? = none) (stream : p.stream? = some s) (broke : move = .broke → s'.held = [])
    (h : received p b ++ s.waiting =
      move.items ++ (ClaimStream.givenBack s s' ++ ((renewed p b).map Prod.fst ++ s'.waiting))) :
    Balanced p b (c.pulled s' move).1.phase := by
  rcases move with _ | _ | _ | (e | k) | _ | _
  case yield.ok =>
    show Balanced p b (c.take s' k).1.phase
    rw [Consumer.phase_take]
    refine balanced_stream stream rfl ?_ h
    unfold taken
    rw [was]
    exact congrArg (fun k' => [k']) (Consumer.claimed_jobFor c.setup k)
  case broke => exact balanced_over stream rfl rfl (broke rfl) h
  all_goals exact balanced_stream stream rfl (taken_of_free p rfl) h

theorem balanced_drained (stream : p.stream? = some s) (gone : move = .finished ∨ move = .broke → s'.held = [])
    (h : received p b ++ s.waiting = ClaimStream.givenBack s s' ++ ((renewed p b).map Prod.fst ++ s'.waiting)) :
    Balanced p b (c.drained s' move).1.phase := by
  cases move with
  | finished =>
    show Balanced p b c.leave.1.phase
    unfold Consumer.leave
    split <;> exact balanced_over stream rfl rfl (gone (Or.inl rfl)) h
  | broke => exact balanced_over stream rfl rfl (gone (Or.inr rfl)) h
  | _ => exact balanced_stream stream rfl (taken_of_free p rfl) h

end Moves

theorem balanced_look (c : Consumer) (o : Observation) (h : c.phase.Sound c.setup.role) {b : Beat}
    (nothing : ∀ p, received p b = []) (settled : ∀ p, renewed p b = []) : Balanced c.phase b (c.look o).1.phase := by
  have hpasses := Consumer.passes_look c o h
  cases hphase : c.phase with
  | starting =>
    unfold Consumer.look
    rw [hphase, Balanced, map_fst_endings, nothing, settled]
    rfl
  | selecting s =>
    have hsame : received (.selecting s) b ++ s.waiting =
        [] ++ (ClaimStream.givenBack s s ++ ((renewed (.selecting s) b).map Prod.fst ++ s.waiting)) := by
      rw [nothing, settled, ClaimStream.givenBack_self]
      rfl
    unfold Consumer.look
    rw [hphase]
    simp only
    split <;> exact balanced_stream rfl rfl rfl hsame
  | pulling s =>
    have hwaits := h.waits s (by rw [hphase]; rfl)
    unfold Consumer.look
    rw [hphase]
    show Balanced _ b
      (c.pulled (s.look (Consumer.stream c.setup) o.now o.cancelled).1
        (s.look (Consumer.stream c.setup) o.now o.cancelled).2).1.phase
    refine balanced_pulled rfl rfl (fun hbroke => ClaimStream.held_look _ _ _ (Or.inr hbroke)) ?_
    rw [nothing, settled, hwaits.items_look]
    exact (hwaits.balance_look _ _ _).symm
  | working s job =>
    rw [hphase] at hpasses
    exact balanced_working hpasses b
  | draining s =>
    have hwaits := h.waits s (by rw [hphase]; rfl)
    unfold Consumer.look
    rw [hphase]
    show Balanced _ b
      (c.drained (s.look (Consumer.stream c.setup) o.now o.cancelled).1
        (s.look (Consumer.stream c.setup) o.now o.cancelled).2).1.phase
    refine balanced_drained rfl (fun hover => ClaimStream.held_look _ _ _ hover) ?_
    rw [nothing, settled]
    exact (hwaits.balance_look _ _ _).symm
  | forgetting | ended | crashed =>
    unfold Consumer.look
    rw [hphase]
    simp only
    rw [hphase]
    exact balanced_self (nothing _) (settled _)

theorem balanced_finish (c : Consumer) (outcome : Except Failure Unit) (h : c.phase.Sound c.setup.role) :
    Balanced c.phase (.finish outcome) (c.finish outcome).1.phase := by
  have hpasses := Consumer.passes_finish c outcome h
  unfold Consumer.finish at hpasses ⊢
  split at hpasses
  case h_1 s k context attempts hphase =>
    rw [hphase] at hpasses ⊢
    exact balanced_working hpasses _
  case h_2 => exact balanced_self rfl rfl

theorem balance_pulling {s : ClaimStream} {setup : ClaimStream.Setup} (cancelled : Bool) {now : Instant}
    {publisher : Publisher} (reply : Store.Reply) (asked : (s.request? setup).isSome) :
    received (.pulling s) (.answer now publisher reply) ++ s.waiting =
      (s.answer cancelled reply).2.items ++ (ClaimStream.givenBack s (s.answer cancelled reply).1 ++
        ((renewed (.pulling s) (.answer now publisher reply)).map Prod.fst ++
          (s.answer cancelled reply).1.waiting)) := by
  cases s with
  | pulling batches =>
    cases batches with
    | polling due =>
      have hclaim := ClaimStream.balance_claim cancelled reply due
      rw [← ClaimStream.released_append_waiting] at hclaim
      exact (List.append_nil _).trans hclaim.symm
    | _ => cases asked
  | renewing batches k => rcases reply with e | _ | offset | messages | (_ | _) <;> rfl
  | releasing batches k => rcases reply with e | a <;> rfl

/-- What an answer brings after the token has been seen: what is claimed is given back, what is renewed is dropped. -/
theorem balance_draining {s : ClaimStream} {setup : ClaimStream.Setup} {now : Instant} {publisher : Publisher}
    (reply : Store.Reply) (asked : (s.request? setup).isSome) :
    received (.draining s) (.answer now publisher reply) ++ s.waiting =
      ClaimStream.givenBack s (s.answer true reply).1 ++
        ((renewed (.draining s) (.answer now publisher reply)).map Prod.fst ++ (s.answer true reply).1.waiting) := by
  cases s with
  | pulling batches =>
    cases batches with
    | polling due =>
      have hclaim := ClaimStream.balance_claim true reply due
      have hnone : ((ClaimStream.pulling (.polling due)).answer true reply).2.items = [] := by
        rcases reply with e | _ | offset | (_ | ⟨c, rest⟩) | still <;> rfl
      rw [hnone, List.nil_append, ← ClaimStream.released_append_waiting] at hclaim
      exact (List.append_nil _).trans hclaim.symm
    | _ => cases asked
  | renewing batches k => rcases reply with e | _ | offset | messages | (_ | _) <;> rfl
  | releasing batches k => rcases reply with e | a <;> rfl

theorem balanced_answer (c : Consumer) (o : Observation) {publisher : Publisher} (reply : Store.Reply)
    (h : c.phase.Sound c.setup.role) (asked : c.request?.isSome) (seen : ∀ s, c.phase = .draining s → o.cancelled) :
    Balanced c.phase (.answer o.now publisher reply) (c.answer o reply).1.phase := by
  obtain ⟨request, hrequest⟩ := Option.isSome_iff_exists.1 asked
  have hpasses := Consumer.passes_answer c o reply h hrequest
  cases hphase : c.phase with
  | pulling s =>
    rw [Consumer.request?, hphase] at asked
    unfold Consumer.answer
    rw [hphase]
    show Balanced _ _ (c.pulled (s.answer o.cancelled reply).1 (s.answer o.cancelled reply).2).1.phase
    refine balanced_pulled rfl rfl (fun hbroke => absurd hbroke (ClaimStream.answer_ne _ _ _).2) ?_
    exact balance_pulling o.cancelled reply asked
  | draining s =>
    rw [Consumer.request?, hphase] at asked
    unfold Consumer.answer
    rw [hphase]
    show Balanced _ _ (c.drained (s.answer o.cancelled reply).1 (s.answer o.cancelled reply).2).1.phase
    rw [seen s hphase]
    refine balanced_drained rfl (fun hover => ?_) (balance_draining reply asked)
    exact absurd hover (not_or.2 (ClaimStream.answer_ne true reply s))
  | working s job =>
    rw [hphase] at hpasses
    exact balanced_working hpasses _
  | selecting s =>
    have hstill : (c.answer o reply).1.phase = .selecting s := by
      unfold Consumer.answer
      rw [hphase]
      exact hphase
    rw [hstill]
    exact balanced_self rfl rfl
  | forgetting =>
    unfold Consumer.answer
    rw [hphase]
    rfl
  | starting | ended | crashed =>
    rw [Consumer.request?, hphase] at asked
    cases asked

theorem nothing_of_idle (c : Consumer) (idle : ¬ c.request?.isSome) (b : Beat) :
    received c.phase b = [] ∧ renewed c.phase b = [] := by
  unfold Consumer.request? at idle
  cases hphase : c.phase with
  | pulling s | draining s =>
    rw [hphase] at idle
    cases s with
    | pulling batches =>
      cases batches with
      | polling due => exact absurd rfl idle
      | _ => cases b <;> exact ⟨rfl, rfl⟩
    | renewing | releasing => exact absurd rfl idle
  | _ => cases b <;> exact ⟨rfl, rfl⟩

end Phase

namespace Loop

variable {l : Loop}

/-- **What is received ends in one way, or waits.** -/
theorem balanced_step (h : l.Sound) (b : Beat) : l.phase.Balanced b (l.step b).phase := by
  cases b with
  | fire => exact Phase.balanced_self rfl rfl
  | look now publisher => exact Phase.balanced_look _ _ h.phase (fun _ => rfl) (fun _ => rfl)
  | finish outcome => exact Phase.balanced_finish _ _ h.phase
  | answer now publisher reply =>
    unfold step
    simp only
    split
    case isTrue asked => exact Phase.balanced_answer l.consumer (l.observe now publisher) reply h.phase asked h.draining
    case isFalse idle =>
      obtain ⟨hnothing, hsettled⟩ := Phase.nothing_of_idle l.consumer idle (.answer now publisher reply)
      exact Phase.balanced_self hnothing hsettled

end Loop

/-! ## Accounts -/

/-- What shows how a claim has ended: what the consumer waited for, what it was answered, and where it stands then. -/
def Ending.Shows (k : Claimed) (l : Loop) (b : Beat) (l' : Loop) : Ending → Prop
  | .handed => ∃ s job, l'.phase = .working s job ∧ job.claimed = k
  | .lost => l.consumer.request? = some (.renew k.receipt l.consumer.setup.settings.claimLease) ∧
      ∃ now publisher, b = .answer now publisher (.ok (.held false))
  | .failed => l.consumer.request? = some (.renew k.receipt l.consumer.setup.settings.claimLease) ∧
      ∃ now publisher e, b = .answer now publisher (.error e)
  | .released => l'.consumer.request? = some (.nack k.receipt .zero)
  | .dropped => l.consumer.request? = some (.renew k.receipt l.consumer.setup.settings.claimLease) ∧
      (∃ batches, l.phase = .draining (.renewing batches k)) ∧
        ∃ now publisher a, b = .answer now publisher (.ok a) ∧ a ≠ .held false

namespace Loop

def endings (l : Loop) (b : Beat) : List (Claimed × Ending) := l.phase.endings (l.step b).phase b

variable {l : Loop}

/-- A claim begins to be given back with a request to the store. -/
theorem request_of_givenBack (h : l.Sound) {b : Beat} {k : Claimed} (hk : k ∈ l.phase.givenBack (l.step b).phase) :
    (l.step b).consumer.request? = some (.nack k.receipt .zero) := by
  have hmoves := moves_step h.phase b
  have hback : ∀ {s s' : ClaimStream}, k ∈ ClaimStream.givenBack s s' →
      s ≠ s' ∧ ∃ batches, s' = .releasing batches k := by
    intro s s' hk
    refine ⟨fun hsame => ?_, ?_⟩
    · rw [hsame, ClaimStream.givenBack_self] at hk
      cases hk
    · unfold ClaimStream.givenBack at hk
      split at hk
      case isTrue =>
        cases s' with
        | releasing batches k' => exact ⟨batches, by rw [List.mem_singleton.1 hk]⟩
        | pulling | renewing => cases hk
      case isFalse => cases hk
  have hrequest : ∀ {s'}, (l.step b).phase = .selecting s' ∨ (l.step b).phase = .pulling s' ∨
      (l.step b).phase = .draining s' → (∃ batches, s' = .releasing batches k) →
        (l.step b).consumer.request? = some (.nack k.receipt .zero) := by
    rintro s' hs' ⟨batches, rfl⟩
    unfold phase at hs'
    unfold Consumer.request?
    rcases hs' with hs' | hs' | hs'
    all_goals
      rw [hs']
      rfl
  generalize hp : l.phase = p at hmoves hk
  generalize hp' : (l.step b).phase = p' at hmoves hk hrequest
  cases hmoves with
  | still =>
    rw [Phase.givenBack_self] at hk
    cases hk
  | starts => cases hk
  | sees | pulls | works | settles => exact absurd rfl (hback hk).1
  | selects => exact hrequest (Or.inl rfl) (hback hk).2
  | goesOn => exact hrequest (Or.inr (Or.inl rfl)) (hback hk).2
  | takes =>
    obtain ⟨batches, hbatches⟩ := (hback hk).2
    cases hbatches
  | ends | drains => exact hrequest (Or.inr (Or.inr rfl)) (hback hk).2
  | leaves gone =>
    unfold Phase.givenBack at hk
    rw [gone] at hk
    split at hk
    case h_1 hnone => cases hnone
    case h_2 => cases hk

theorem request?_renewing {batches : Poller Pending} {k : Claimed}
    (h : l.phase = .pulling (.renewing batches k) ∨ l.phase = .draining (.renewing batches k)) :
    l.consumer.request? = some (.renew k.receipt l.consumer.setup.settings.claimLease) := by
  unfold phase at h
  unfold Consumer.request?
  rcases h with h | h <;> rw [h] <;> rfl

theorem shows_renewed {b : Beat} {k : Claimed} {e : Ending} (he : (k, e) ∈ l.phase.renewed b) (l' : Loop) :
    e.Shows k l b l' := by
  cases b with
  | answer now publisher reply =>
    unfold Phase.renewed at he
    simp only at he
    split at he
    case h_1 batches k' hphase =>
      rcases reply with e | _ | offset | messages | (_ | _)
      case error =>
        cases List.mem_singleton.1 he
        exact ⟨request?_renewing (Or.inl hphase), now, publisher, _, rfl⟩
      case ok.held.false =>
        cases List.mem_singleton.1 he
        exact ⟨request?_renewing (Or.inl hphase), now, publisher, rfl⟩
      all_goals cases he
    case h_2 batches k' hphase =>
      rcases reply with e | _ | offset | messages | (_ | _) <;> cases List.mem_singleton.1 he
      case error => exact ⟨request?_renewing (Or.inr hphase), now, publisher, _, rfl⟩
      case ok.held.false => exact ⟨request?_renewing (Or.inr hphase), now, publisher, rfl⟩
      all_goals exact ⟨request?_renewing (Or.inr hphase), ⟨batches, hphase⟩, now, publisher, _, rfl, by rintro ⟨⟩⟩
    case h_3 => cases he
  | fire | look | finish => cases he

/-- **Every ending can be seen from outside.** -/
theorem shows_endings (h : l.Sound) {b : Beat} {k : Claimed} {e : Ending} (he : (k, e) ∈ l.endings b) :
    e.Shows k l b (l.step b) := by
  unfold endings Phase.endings at he
  simp only [List.mem_append, List.mem_map, Prod.mk.injEq] at he
  rcases he with (⟨_, hk, rfl, rfl⟩ | ⟨_, hk, rfl, rfl⟩) | hrenewed
  · unfold Phase.taken at hk
    split at hk
    case h_1 job _ hjob =>
      rw [List.mem_singleton.1 hk]
      cases hphase : (l.step b).phase with
      | working s job' =>
        rw [hphase] at hjob
        exact ⟨s, job', hphase, congrArg Job.claimed (Option.some.inj hjob)⟩
      | _ =>
        rw [hphase] at hjob
        cases hjob
    case h_2 => cases hk
  · exact request_of_givenBack h hk
  · exact shows_renewed hrenewed _

/-- **A claim is dropped whenever** the token is seen while the claim is being renewed, and the renewal succeeds. -/
theorem endings_of_seen {batches : Poller Pending} {k : Claimed} (fired : l.fired = true)
    (renewing : l.phase = .selecting (.renewing batches k)) (now now' : Instant) (publisher publisher' : Publisher)
    {a : Store.Answer} (held : a ≠ .held false) :
    l.endings (.look now publisher) ++ (l.step (.look now publisher)).endings (.answer now' publisher' (.ok a)) =
      [(k, .dropped)] := by
  have hseen : (l.step (.look now publisher)).phase = .draining (.renewing batches k) := by
    unfold phase at renewing
    unfold step phase Consumer.look observe
    rw [renewing, fired]
    rfl
  have hanswered : ((l.step (.look now publisher)).step (.answer now' publisher' (.ok a))).phase =
      .draining (.pulling batches) := by
    rw [phase_answer_draining hseen rfl]
    rcases a with _ | offset | messages | (_ | _)
    case held.false => exact absurd rfl held
    all_goals rfl
  unfold endings
  rw [hanswered, hseen, renewing]
  rcases a with _ | offset | messages | (_ | _)
  case held.false => exact absurd rfl held
  all_goals rfl

end Loop

/-- A consumer, and what it has received and how that has ended. -/
structure Account where
  loop : Loop
  received : List Claimed
  endings : List (Claimed × Ending)

def Account.step (a : Account) (b : Beat) : Account :=
  ⟨a.loop.step b, a.received ++ a.loop.phase.received b, a.endings ++ a.loop.endings b⟩

def account (setup : Setup) (errorCapacity : Nat) (beats : List Beat) : Account :=
  beats.foldl Account.step ⟨.new setup errorCapacity, [], []⟩

section Account

variable (setup : Setup) (errorCapacity : Nat)

theorem account_concat (beats : List Beat) (b : Beat) :
    account setup errorCapacity (beats ++ [b]) = (account setup errorCapacity beats).step b := by
  unfold account
  rw [List.foldl_append]
  rfl

theorem sound_account (beats : List Beat) : (account setup errorCapacity beats).loop.Sound := by
  induction beats using List.reverseRecOn with
  | nil => exact Loop.sound_new setup errorCapacity
  | append_singleton beats b ih =>
    rw [account_concat]
    exact ih.step b

open scoped List in
/-- **What has been received has ended in one way, or waits.** -/
theorem received_perm (beats : List Beat) :
    (account setup errorCapacity beats).received.Perm
      ((account setup errorCapacity beats).endings.map Prod.fst ++
        (account setup errorCapacity beats).loop.phase.waiting) := by
  induction beats using List.reverseRecOn with
  | nil => exact List.Perm.refl _
  | append_singleton beats b ih =>
    have hbalance := Loop.balanced_step (sound_account setup errorCapacity beats) b
    rw [account_concat]
    generalize account setup errorCapacity beats = a at ih hbalance ⊢
    show (a.received ++ a.loop.phase.received b).Perm
      ((a.endings ++ a.loop.endings b).map Prod.fst ++ (a.loop.step b).phase.waiting)
    have hend : a.loop.phase.received b ++ a.loop.phase.waiting =
        (a.loop.endings b).map Prod.fst ++ (a.loop.step b).phase.waiting := hbalance
    calc a.received ++ a.loop.phase.received b
        ~ a.endings.map Prod.fst ++ a.loop.phase.waiting ++ a.loop.phase.received b := ih.append_right _
      _ = a.endings.map Prod.fst ++ (a.loop.phase.waiting ++ a.loop.phase.received b) := List.append_assoc ..
      _ ~ a.endings.map Prod.fst ++ (a.loop.phase.received b ++ a.loop.phase.waiting) :=
        List.perm_append_comm.append_left _
      _ = (a.endings ++ a.loop.endings b).map Prod.fst ++ (a.loop.step b).phase.waiting := by
        rw [hend, List.map_append, List.append_assoc]

/-- A claim that is being renewed while the consumer drains was being renewed when the token was seen. -/
theorem seen_of_draining (beats : List Beat) {batches : Poller Pending} {k : Claimed}
    (h : (account setup errorCapacity beats).loop.phase = .draining (.renewing batches k)) :
    ∃ before after, beats = before ++ after ∧ (account setup errorCapacity before).loop.fired = true ∧
      (account setup errorCapacity before).loop.phase = .selecting (.renewing batches k) := by
  induction beats using List.reverseRecOn with
  | nil => cases h
  | append_singleton beats b ih =>
    have hsound := sound_account setup errorCapacity beats
    have hmoves := Loop.moves_step hsound.phase b
    rw [account_concat] at h
    rw [show (Loop.step _ b).phase = _ from h] at hmoves
    have hearlier : (account setup errorCapacity beats).loop.phase = .draining (.renewing batches k) →
        ∃ before after, beats ++ [b] = before ++ after ∧ (account setup errorCapacity before).loop.fired = true ∧
          (account setup errorCapacity before).loop.phase = .selecting (.renewing batches k) := fun hsame => by
      obtain ⟨before, after, hbeats, hseen⟩ := ih hsame
      exact ⟨before, after ++ [b], by rw [hbeats, List.append_assoc], hseen⟩
    -- a consumer comes to drain by seeing the token, and begins no renewal while it drains
    generalize hp : (account setup errorCapacity beats).loop.phase = p at hmoves hearlier
    cases hmoves with
    | still => exact hearlier rfl
    | sees seen => exact ⟨beats, [b], rfl, seen, hp⟩
    | @drains s _ flows =>
      rw [hsound.draining s hp] at flows
      rw [flows.renewing rfl] at hearlier
      exact hearlier rfl
    | leaves gone => cases gone

/-- A claim is dropped only if the token was seen while the claim was being renewed. -/
theorem seen_of_dropped (beats : List Beat) {k : Claimed}
    (h : (k, Ending.dropped) ∈ (account setup errorCapacity beats).endings) :
    ∃ before after batches, beats = before ++ after ∧ (account setup errorCapacity before).loop.fired = true ∧
      (account setup errorCapacity before).loop.phase = .selecting (.renewing batches k) := by
  induction beats using List.reverseRecOn with
  | nil => cases h
  | append_singleton beats b ih =>
    rw [account_concat] at h
    rcases List.mem_append.1 h with h | h
    · obtain ⟨before, after, batches, hbeats, hseen⟩ := ih h
      exact ⟨before, after ++ [b], batches, by rw [hbeats, List.append_assoc], hseen⟩
    · obtain ⟨-, ⟨batches, hphase⟩, -⟩ := Loop.shows_endings (sound_account setup errorCapacity beats) h
      obtain ⟨before, after, hbeats, hseen⟩ := seen_of_draining setup errorCapacity beats hphase
      exact ⟨before, after ++ [b], batches, by rw [hbeats, List.append_assoc], hseen⟩

/-- **What becomes of every claim**, whatever the store answers, however long it takes, and whenever the token fires.

* Every claim that the consumer has received has ended in exactly one way or waits at hand, and nothing waits any more
  when the consumer has left its stream.
* Each ending can be seen from outside: the message is taken in hand, the renewal is answered no or fails, the store is
  asked to take the claim back with zero delay, or the claim is dropped.
* A claim is dropped if and only if the token is seen while the claim is being renewed, and the renewal succeeds.
* Once the token has fired no claim is begun any more; a drain ends, if the store answers and the consumer looks. -/
theorem claims_end (beats : List Beat) :
    ((account setup errorCapacity beats).received.Perm
        ((account setup errorCapacity beats).endings.map Prod.fst ++
          (account setup errorCapacity beats).loop.phase.waiting) ∧
      ((account setup errorCapacity beats).loop.phase.stream? = none →
        (account setup errorCapacity beats).loop.phase.waiting = [])) ∧
    (∀ b k e, (k, e) ∈ (account setup errorCapacity beats).loop.endings b →
      e.Shows k (account setup errorCapacity beats).loop b ((account setup errorCapacity beats).loop.step b)) ∧
    (∀ k, (k, Ending.dropped) ∈ (account setup errorCapacity beats).endings →
      ∃ before after batches, beats = before ++ after ∧ (account setup errorCapacity before).loop.fired = true ∧
        (account setup errorCapacity before).loop.phase = .selecting (.renewing batches k)) ∧
    (∀ batches k, (account setup errorCapacity beats).loop.fired = true →
      (account setup errorCapacity beats).loop.phase = .selecting (.renewing batches k) →
        ∀ now now' publisher publisher' a, a ≠ .held false →
          (account setup errorCapacity
            (beats ++ [.look now publisher, .answer now' publisher' (.ok a)])).endings =
              (account setup errorCapacity beats).endings ++ [(k, .dropped)]) ∧
    ((account setup errorCapacity beats).loop.fired = true → ∀ b due,
      ((account setup errorCapacity beats).loop.step b).phase.stream? = some (.pulling (.polling due)) →
        (account setup errorCapacity beats).loop.phase.stream? = some (.pulling (.polling due))) ∧
    (∀ s, (account setup errorCapacity beats).loop.phase = .draining s → ∀ later : Nat → Beat,
      (∀ n, ((account setup errorCapacity beats).loop.after later n).IsPrompt (later n)) →
        ∃ n, ((account setup errorCapacity beats).loop.after later n).phase.stream? = none) := by
  have hsound := sound_account setup errorCapacity beats
  refine ⟨⟨received_perm setup errorCapacity beats, fun gone => by rw [Phase.waiting, gone]; rfl⟩,
    fun b k e he => Loop.shows_endings hsound he, fun k hk => seen_of_dropped setup errorCapacity beats hk,
    fun batches k fired renewing now now' publisher publisher' a held => ?_,
    fun fired b due claiming => Loop.claiming_step hsound fired b claiming,
    fun s draining later prompt => Loop.drain_ends hsound draining prompt⟩
  rw [show beats ++ [.look now publisher, .answer now' publisher' (.ok a)] =
    beats ++ [.look now publisher] ++ [.answer now' publisher' (.ok a)] by simp, account_concat, account_concat]
  show _ ++ _ ++ _ = _
  rw [List.append_assoc]
  exact congrArg _ (Loop.endings_of_seen fired renewing now now' publisher publisher' held)

end Account

def pairwise : Setup :=
  ⟨.subscriber false, "items", "workers", 0, .ofConfig (Config.standard.withBatchSize 2) .silent⟩

/-- A claim on the first or the second of two messages. -/
def claimOn (n : Nat) : Claimed := ⟨⟨n, "workers", .drawn n⟩, .new (.ofNat n) [], 0, 1⟩

/-- The subscriber claims two messages and handles the first. The second is being renewed when the token fires. -/
def cutShort : List Beat :=
  let publisher := Publisher.new "outbox" false .silent
  [.look 0 publisher, .look 0 publisher, .look 0 publisher, .look 0 publisher,
    .answer 0 publisher (.ok (.claimed [claimOn 1, claimOn 2])), .look 0 publisher, .finish (.ok ()),
    .answer 0 publisher (.ok .done), .look 0 publisher, .look 0 publisher, .look 0 publisher, .fire, .look 0 publisher,
    .answer 0 publisher (.ok (.held true)), .look 0 publisher]

/-- The second message is neither handed out nor given back, and its renewal neither is answered no nor fails. -/
theorem claims_end_cutShort :
    (account pairwise 1 cutShort).received = [claimOn 1, claimOn 2] ∧
      (account pairwise 1 cutShort).endings = [(claimOn 1, .handed), (claimOn 2, .dropped)] ∧
      (account pairwise 1 cutShort).loop.consumer.isOver = true ∧
      ∀ n < cutShort.length + 1, (account pairwise 1 (cutShort.take n)).loop.consumer.request? ≠
        some (.nack (claimOn 2).receipt .zero) := by
  decide +kernel

end DurableBus
