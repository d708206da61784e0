import DurableBus.Proofs.Consumer.Lasting
import DurableBus.Proofs.System.Course

/-!
# Tokens, links and readiness

Who starts the forwarder is told when its stream starts, and a link stops the forwarder when the caller's token has
fired.

* `Consumer.ready_mem_look`, `member_of_ready` : a forwarder tells that it polls when it pulls for the first time, or
  drains;
* `Signals` : what an event that starts no forwarder does to the tokens, the links and what has been told;
* `signals_occur` : every such event does no more.
-/

set_option autoImplicit false

namespace DurableBus

/-! ## Telling -/

theorem Poller.Looks.of_started {α ε : Type} {cancelled : Bool} {p : Poller α} {step : Poller α × Move α ε}
    (h : Looks cancelled p step) (started : step.2 = .started) : p = .idle := by
  cases h with
  | starts => rfl
  | _ => cases started

namespace ClaimStream

variable {s : ClaimStream}

theorem eq_of_follow_started {cancelled : Bool} {batches : Poller Pending} {move : Poller.Move Pending Store.Error}
    (h : (follow cancelled batches move).2 = .started) : move = .started := by
  cases move with
  | started => rfl
  | yield item =>
    unfold follow receive at h
    rcases item with e | p
    · cases h
    · simp only at h
      split at h
      · cases h
      · split at h <;> cases h
  | _ => cases h

/-- A stream starts once, when somebody pulls for the first time. -/
theorem eq_start_of_look {setup : Setup} {now : Instant} {cancelled : Bool}
    (h : (s.look setup now cancelled).2 = .started) : s = .start := by
  cases s with
  | pulling batches =>
    rw [look_pulling] at h
    rw [(Poller.looks_look _ _ _ _).of_started (eq_of_follow_started h)]
    rfl
  | renewing | releasing => cases h

theorem not_started_answer (s : ClaimStream) (cancelled : Bool) (reply : Store.Reply) :
    (s.answer cancelled reply).2 ≠ .started := by
  intro h
  unfold answer at h
  split at h
  case h_1 batches =>
    have hmove : (batches.answer (batch reply)).2 = .started := eq_of_follow_started h
    unfold Poller.answer at hmove
    split at hmove
    · split at hmove <;> cases hmove
    · cases hmove
  all_goals split at h <;> cases h

end ClaimStream

namespace Consumer

variable {c : Consumer} {s : ClaimStream} {move : ClaimStream.Move}

theorem not_ready_of_isWork {effects : List Effect} (h : effects.all Effect.isWork = true) : .ready ∉ effects :=
  fun hready => Bool.false_ne_true (List.all_eq_true.1 h _ hready)

theorem forwarder_of_announce (h : .ready ∈ c.announce) : c.setup.role = .forwarder := by
  unfold announce at h
  split at h
  · cases h
  · assumption

theorem not_ready_notes (notices : List Store.Notice) : Effect.ready ∉ notices.map .note := by
  simp

theorem ready_mem_pulled (h : .ready ∈ (c.pulled s move).2) : move = .started ∧ c.setup.role = .forwarder := by
  unfold pulled at h
  split at h
  case h_2 => exact ⟨rfl, forwarder_of_announce h⟩
  case h_3 => exact absurd h (not_ready_notes _)
  case h_4 =>
    unfold take at h
    split at h
    · cases h
    · split at h
      · cases h
      · cases List.mem_singleton.1 h
  case h_5 => cases List.mem_singleton.1 h
  all_goals cases h

theorem ready_mem_drained (h : .ready ∈ (c.drained s move).2) : move = .started ∧ c.setup.role = .forwarder := by
  unfold drained at h
  split at h
  case h_2 => exact ⟨rfl, forwarder_of_announce h⟩
  case h_3 => exact absurd h (not_ready_notes _)
  case h_5 =>
    unfold leave at h
    split at h
    · cases h
    · cases List.mem_singleton.1 h
  all_goals cases h

/-- **A forwarder tells that it polls** when it pulls for the first time, or drains without having pulled. -/
theorem ready_mem_look {o : Observation} (h : .ready ∈ (c.look o).2) :
    c.setup.role = .forwarder ∧ (c.phase = .pulling .start ∨ c.phase = .draining .start) := by
  unfold look at h
  split at h
  case h_1 => cases List.mem_singleton.1 h
  case h_2 => split at h <;> cases h
  case h_3 s hphase =>
    obtain ⟨hmove, hrole⟩ := ready_mem_pulled h
    exact ⟨hrole, Or.inl (hphase.trans (by rw [ClaimStream.eq_start_of_look hmove]))⟩
  case h_4 | h_5 => exact absurd h (not_ready_of_isWork (isWork_lookAt _ _ _ _ _))
  case h_6 s hphase =>
    obtain ⟨hmove, hrole⟩ := ready_mem_drained h
    exact ⟨hrole, Or.inr (hphase.trans (by rw [ClaimStream.eq_start_of_look hmove]))⟩
  case h_7 => cases h

theorem not_ready_answer (c : Consumer) (o : Observation) (reply : Store.Reply) : .ready ∉ (c.answer o reply).2 := by
  intro h
  unfold answer at h
  split at h
  case h_1 s _ => exact ClaimStream.not_started_answer s _ _ (ready_mem_pulled h).1
  case h_2 s _ => exact ClaimStream.not_started_answer s _ _ (ready_mem_drained h).1
  case h_3 => exact not_ready_of_isWork (isWork_answerJob _ _ _ _) h
  case h_4 => cases reply <;> simp at h
  case h_5 => cases h

theorem not_ready_finish (c : Consumer) (outcome : Except Failure Unit) : .ready ∉ (c.finish outcome).2 := by
  intro h
  unfold finish at h
  split at h
  · exact not_ready_of_isWork (isWork_endAttempt _ _ _ _ _) h
  · cases h

end Consumer

namespace System

theorem any_isReady_iff {effects : List Effect} : effects.any isReady = true ↔ .ready ∈ effects := by
  rw [List.any_eq_true]
  constructor
  · rintro ⟨effect, hmem, hready⟩
    cases effect with
    | ready => exact hmem
    | _ => cases hready
  · exact fun h => ⟨.ready, h, rfl⟩

theorem effects_look {s : System} {i : Nat} {m : Member} (hm : s.members[i]? = some m) :
    (s.look i).2 = (m.consumer.look (s.observe m)).2 := by
  unfold look
  rw [hm]
  rfl

/-- **Who tells that it polls** is a forwarder that pulls for the first time, or drains. -/
theorem member_of_ready {s : System} {i : Nat} (h : .ready ∈ (s.look i).2) :
    ∃ m, s.members[i]? = some m ∧ m.consumer.setup.role = .forwarder ∧
      (m.consumer.phase = .pulling .start ∨ m.consumer.phase = .draining .start) := by
  cases hm : s.members[i]? with
  | none =>
    unfold look at h
    rw [hm] at h
    cases h
  | some m => exact ⟨m, rfl, Consumer.ready_mem_look (effects_look hm ▸ h)⟩

/-! ## Events -/

def Event.startsForwarder : Event → Bool
  | .turn (.startForwarder _ _) | .forwarding _ _ => true
  | _ => false

/-- Whether a caller's token has fired that is linked to the `i`-th member. -/
def IsAbandoned (s : System) (i : Nat) : Prop := ∃ k ∈ s.links, k.member = i ∧ k.caller ∈ s.fired

/-- A member after an event: it has been stopped by its link if it has been stopped, and has told that it polls if it
was about to. -/
structure Signs (s : System) (e : Event) (i : Nat) (m m' : Member) : Prop where
  stopped : m'.stopped = true → m.stopped = true ∨ s.IsAbandoned i
  announced : m'.announced = true → m.announced = true ∨ e = .turn (.look i) ∧ .ready ∈ (s.look i).2

/-- What an event that starts no forwarder does to tokens, links and what has been told. -/
structure Signals (s : System) (e : Event) (s' : System) : Prop where
  fired : s.fired ⊆ s'.fired
  links : s'.links.map (fun k => (k.member, k.caller)) = s.links.map fun k => (k.member, k.caller)
  flags : ∀ bus : Nat, s'.buses[bus]?.any Bus.forwarderStarted = s.buses[bus]?.any Bus.forwarderStarted
  members : ∀ i m', s'.members[i]? = some m' →
    (∃ m, s.members[i]? = some m ∧ Signs s e i m m') ∨ m'.stopped = false ∧ m'.announced = false

variable {s s' : System} {e : Event} {i : Nat} {m m' : Member}

theorem Signs.refl (i : Nat) (m : Member) : Signs s e i m m := ⟨Or.inl, Or.inl⟩

theorem Signals.same (fired : s'.fired = s.fired) (links : s'.links = s.links) (buses : s'.buses = s.buses)
    (members : s'.members = s.members) : Signals s e s' where
  fired := fired ▸ List.Subset.refl _
  links := by rw [links]
  flags bus := by rw [buses]
  members i m' hm' := Or.inl ⟨m', members ▸ hm', .refl i m'⟩

theorem Signals.noted (h : Signals s e s') : Signals s e s'.noteDrained where
  fired := h.fired
  links := h.links
  flags bus := by
    rw [← h.flags bus]
    show (s'.buses.mapIdx _)[bus]?.any _ = _
    rw [List.getElem?_mapIdx]
    cases s'.buses[bus]? <;> rfl
  members := h.members

theorem Signals.set (hm : s.members[i]? = some m) (signs : Signs s e i m m') (fired : s'.fired = s.fired)
    (links : s'.links = s.links) (buses : s'.buses = s.buses) (members : s'.members = s.members.set i m') :
    Signals s e s' where
  fired := fired ▸ List.Subset.refl _
  links := by rw [links]
  flags bus := by rw [buses]
  members j m'' hm'' := by
    rw [members, List.getElem?_set] at hm''
    split at hm''
    case isTrue hij =>
      subst hij
      rw [if_pos (List.getElem?_eq_some_iff.1 hm).1] at hm''
      exact Or.inl ⟨m, hm, Option.some.inj hm'' ▸ signs⟩
    case isFalse => exact Or.inl ⟨m'', hm'', .refl j m''⟩

/-- A consumer moves. -/
theorem signals_moved {s₁ : System} (fired : s₁.fired = s.fired) (links : s₁.links = s.links)
    (buses : s₁.buses = s.buses) (members : s₁.members = s.members) (hm : s.members[i]? = some m)
    {step : Consumer × List Effect} (tells : .ready ∈ step.2 → e = .turn (.look i) ∧ .ready ∈ (s.look i).2) :
    Signals s e (s₁.moved i m step).1 := by
  have hsigns : Signs s e i m { m with consumer := step.1, announced := m.announced || step.2.any isReady } :=
    ⟨Or.inl, fun told => (Bool.or_eq_true_iff.1 told).imp id fun told => tells (any_isReady_iff.1 told)⟩
  refine Signals.noted (.set hm hsigns fired links buses ?_)
  show s₁.members.set i _ = _
  rw [members]

theorem Signals.joined (fired : s'.fired = s.fired) (links : s'.links = s.links) (buses : s'.buses = s.buses)
    (members : ∃ joins, s'.members = s.members ++ joins ∧ ∀ m ∈ joins, m.stopped = false ∧ m.announced = false) :
    Signals s e s' where
  fired := fired ▸ List.Subset.refl _
  links := by rw [links]
  flags bus := by rw [buses]
  members i m' hm' := by
    obtain ⟨joins, happended, hnew⟩ := members
    rw [happended, List.getElem?_append] at hm'
    split at hm'
    · exact Or.inl ⟨m', hm', .refl i m'⟩
    · exact Or.inr (hnew m' (List.mem_of_getElem? hm'))

theorem Signals.abandoned (h : Signals s e s') (abandoned : s.IsAbandoned i) : s'.IsAbandoned i := by
  obtain ⟨k, hk, rfl, hfired⟩ := abandoned
  have hpair : (k.member, k.caller) ∈ s'.links.map fun k => (k.member, k.caller) :=
    h.links ▸ List.mem_map_of_mem (f := fun k : Link => (k.member, k.caller)) hk
  obtain ⟨k', hk', heq⟩ := List.mem_map.1 hpair
  obtain ⟨hmember, hcaller⟩ := Prod.mk.inj heq
  exact ⟨k', hk', hmember, hcaller ▸ h.fired hfired⟩

theorem signals_subscribe (s : System) (bus : Nat) (topic : String) (group : Group) (head : Int) :
    Signals s e (s.subscribe bus topic group head) := by
  unfold subscribe
  split
  · exact .same rfl rfl rfl rfl
  · split <;> exact .joined rfl rfl rfl ⟨_, rfl, by simp⟩

theorem signals_modifyBus (s : System) (bus : Nat) {f : Bus → Bus}
    (keeps : ∀ b, (f b).forwarderStarted = b.forwarderStarted) : Signals s e (s.modifyBus bus f) where
  fired := List.Subset.refl _
  links := rfl
  flags i := by
    show (s.buses.modify bus f)[i]?.any _ = _
    rw [List.getElem?_modify]
    cases s.buses[i]? with
    | none => rfl
    | some b =>
      by_cases hi : bus = i
      · simp [hi, keeps]
      · simp [hi]
  members i m' hm' := Or.inl ⟨m', hm', .refl i m'⟩

theorem signals_lookLink (s : System) (j : Nat) : Signals s e (s.lookLink j) := by
  unfold lookLink
  split
  case h_1 l hl =>
    have hlinks : (s.links.set j { l with ended := true }).map (fun k => (k.member, k.caller)) =
        s.links.map fun k => (k.member, k.caller) := map_set_of_eq hl rfl
    split
    · exact .same rfl rfl rfl rfl
    · split
      case isTrue hfired =>
        refine Signals.noted ⟨List.Subset.refl _, hlinks, fun _ => rfl, fun i m' hm' => Or.inl ?_⟩
        change (s.members.modify l.member _)[i]? = some m' at hm'
        rw [List.getElem?_modify] at hm'
        obtain ⟨m, hm, rfl⟩ := Option.map_eq_some_iff.1 hm'
        refine ⟨m, hm, ?_⟩
        split
        case isTrue hi =>
          refine ⟨fun _ => Or.inr ⟨l, List.mem_of_getElem? hl, hi, List.contains_iff_mem.1 hfired⟩, Or.inl⟩
        case isFalse => exact .refl i m
      case isFalse =>
        split
        · exact Signals.noted ⟨List.Subset.refl _, hlinks, fun _ => rfl, fun i m' hm' => Or.inl ⟨m', hm', .refl i m'⟩⟩
        · exact .same rfl rfl rfl rfl
  case h_2 => exact .same rfl rfl rfl rfl

/-- **Every event that starts no forwarder** does no more to tokens, links and what has been told. -/
theorem signals_occur (s : System) (starts : e.startsForwarder = false) : Signals s e (s.occur e).1 := by
  cases e with
  | forwarding => cases starts
  | subscribed bus topic group head => exact signals_subscribe s bus topic group head
  | turn t =>
    cases t with
    | startForwarder => cases starts
    | look i =>
      show Signals s _ (s.look i).1
      unfold look
      split
      case h_1 m hm => exact signals_moved rfl rfl rfl rfl hm fun told => ⟨rfl, effects_look hm ▸ told⟩
      case h_2 => exact .same rfl rfl rfl rfl
    | answer i fate =>
      show Signals s _ (s.answer i fate).1
      unfold answer
      split
      case h_1 m hm =>
        split
        case h_1 request asks =>
          show Signals s _ ((s.ask fate request).1.moved i m (m.consumer.answer _ (s.ask fate request).2.1)).1
          have hsilent := fun o => Consumer.not_ready_answer m.consumer o (s.ask fate request).2.1
          cases fate <;> refine signals_moved ?_ ?_ ?_ ?_ hm (fun told => absurd told (hsilent _)) <;> rfl
        case h_2 => exact .same rfl rfl rfl rfl
      case h_2 => exact .same rfl rfl rfl rfl
    | finish i outcome =>
      show Signals s _ (s.finish i outcome).1
      unfold finish
      split
      case h_1 m hm =>
        exact signals_moved rfl rfl rfl rfl hm fun told => absurd told (Consumer.not_ready_finish _ _)
      case h_2 => exact .same rfl rfl rfl rfl
    | receive i =>
      show Signals s _ (s.receive i).1
      unfold receive
      split
      case h_1 m hm =>
        refine ⟨List.Subset.refl _, rfl, fun _ => rfl, fun j m' hm' => Or.inl ?_⟩
        change (s.members.modify i _)[j]? = some m' at hm'
        rw [List.getElem?_modify] at hm'
        obtain ⟨m, hm, rfl⟩ := Option.map_eq_some_iff.1 hm'
        exact ⟨m, hm, by split <;> exact ⟨Or.inl, Or.inl⟩⟩
      case h_2 => exact .same rfl rfl rfl rfl
    | abandon i =>
      refine ⟨List.Subset.refl _, rfl, fun _ => rfl, fun j m' hm' => Or.inl ?_⟩
      change (s.members.modify i _)[j]? = some m' at hm'
      rw [List.getElem?_modify] at hm'
      obtain ⟨m, hm, rfl⟩ := Option.map_eq_some_iff.1 hm'
      exact ⟨m, hm, by split <;> exact ⟨Or.inl, Or.inl⟩⟩
    | lookLink j => exact signals_lookLink s j
    | fire token =>
      show Signals s _ (s.fire token)
      unfold fire
      split
      · exact .same rfl rfl rfl rfl
      · exact ⟨List.subset_cons_self _ _, rfl, fun _ => rfl, fun i m' hm' => Or.inl ⟨m', hm', .refl i m'⟩⟩
    | addBus config propagator =>
      refine ⟨List.Subset.refl _, rfl, fun bus => ?_, fun i m' hm' => Or.inl ⟨m', hm', .refl i m'⟩⟩
      show (s.buses ++ [Bus.new config propagator])[bus]?.any _ = _
      rw [List.getElem?_append]
      split
      · rfl
      case isFalse hbound =>
        rw [List.getElem?_eq_none (Nat.not_lt.1 hbound)]
        cases hnew : [Bus.new config propagator][bus - s.buses.length]? with
        | none => rfl
        | some b =>
          rw [List.mem_singleton.1 (List.mem_of_getElem? hnew)]
          rfl
    | subscribe bus topic group head =>
      show Signals s _ (ite _ _ _)
      split
      · exact signals_subscribe s bus topic group head
      · exact .same rfl rfl rfl rfl
    | publish bus context topic messages fate =>
      show Signals s _ (s.publish bus context topic messages fate).1
      rw [publish_of_posting?]
      cases s.posting? bus context topic messages with
      | none => exact .same rfl rfl rfl rfl
      | some p => cases fate <;> exact .same rfl rfl rfl rfl
    | commit staged =>
      show Signals s _ (s.commit staged).1
      unfold commit
      split <;> exact .same rfl rfl rfl rfl
    | ask fate request => cases fate <;> exact .same rfl rfl rfl rfl
    | beginShutdown bus =>
      refine Signals.noted (signals_modifyBus s bus fun b => ?_)
      unfold Bus.beginShutdown
      split <;> rfl
    | lookShutdown bus =>
      show Signals s _ (s.lookShutdown bus).1
      unfold lookShutdown
      split
      case h_1 b hb =>
        refine ⟨List.Subset.refl _, rfl, fun i => ?_, fun i m' hm' => Or.inl ⟨m', hm', .refl i m'⟩⟩
        have hkeeps : (b.lookShutdown s.now).1.forwarderStarted = b.forwarderStarted := by
          unfold Bus.lookShutdown
          split
          · split
            · rfl
            · split <;> rfl
          · rfl
        show (s.buses.set bus _)[i]?.any _ = _
        rw [List.getElem?_set]
        split
        case isTrue hi =>
          subst hi
          rw [if_pos (List.getElem?_eq_some_iff.1 hb).1, hb]
          exact hkeeps
        case isFalse => rfl
      case h_2 => exact .same rfl rfl rfl rfl
    | answerShutdown bus fate =>
      have hkeeps : ∀ (reply : Store.Reply) (b : Bus),
          (b.answerShutdown reply).forwarderStarted = b.forwarderStarted := by
        intro reply b
        unfold Bus.answerShutdown
        split <;> rfl
      obtain ⟨hfired, hlinks, hflags, hmembers⟩ :=
        signals_modifyBus (e := .turn (.answerShutdown bus fate)) s bus (hkeeps (s.ask fate .close).2.1)
      cases fate <;> exact ⟨hfired, hlinks, hflags, hmembers⟩
    | wait | draw => exact .same rfl rfl rfl rfl

end System

end DurableBus
