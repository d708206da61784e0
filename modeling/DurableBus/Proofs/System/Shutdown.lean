import DurableBus.Proofs.System.Sweeping
import DurableBus.Scenario.Session

/-!
# A shutdown leaves nothing behind

* `tidy_outcome` : what a course leaves of claims and groups, as long as no wait of a shutdown has timed out;
* `ended_or_held` : a claim is held until it has ended;
* `issued_early` : a bus that has been told to shut down issues no tokens to members that join;
* `leaves_nothing` : what follows for a shutdown whose wait has not timed out, and for one whose wait has.
-/

set_option autoImplicit false

namespace DurableBus.System

open Store (Call)

variable {bus ids : Nat} {s : System} {l : Ledger} {events before after : List Event} {e : Event}

/-! ## Moments without tasks -/

theorem over_of_idle (idle : s.hasTask bus = false) {i : Nat} {m : Member} (hm : s.members[i]? = some m)
    (hbus : m.bus = bus) : m.consumer.isOver = true := by
  unfold hasTask at idle
  rw [Bool.or_eq_false_iff, List.any_eq_false] at idle
  have hover := idle.1 m (List.mem_of_getElem? hm)
  rw [hbus, beq_self_eq_true, Bool.true_and, Bool.not_eq_true, Bool.not_eq_false'] at hover
  exact hover

theorem calmFrom_of_idle (idle : s.hasTask bus = false) : CalmFrom bus 0 s :=
  fun _ _ hm hbus _ => Consumer.isCalm_of_isOver (over_of_idle idle hm hbus)

theorem Sweeping.swept_of_idle (h : Sweeping bus ids s l) (idle : s.hasTask bus = false) : Swept bus s l :=
  fun i m hm hbus ephemeral => (h.swept i m hm hbus ephemeral).resolve_right
    (Consumer.not_isAttached_of_isOver (over_of_idle idle hm hbus))

theorem Shifts.drained {b b₁ : Bus} (h : Shifts s bus e b b₁) : b₁.drained = b.drained := by
  cases h with
  | stays => rfl
  | begins =>
    unfold Bus.beginShutdown
    split <;> rfl
  | looks =>
    unfold Bus.lookShutdown
    split
    · split
      · rfl
      · split <;> rfl
    · rfl
  | answers =>
    unfold Bus.answerShutdown
    split <;> rfl

/-- A bus has noted a moment without tasks before, or this is one. -/
theorem drained_occur {b' : Bus} (hb' : (s.occur e).1.buses[bus]? = some b') (drained : b'.drained = true) :
    (∃ b, s.buses[bus]? = some b ∧ b.drained = true) ∨ (s.occur e).1.hasTask bus = false := by
  cases hb : s.buses[bus]? with
  | none =>
    obtain ⟨config, propagator, -, rfl⟩ := bus_new hb hb'
    cases drained
  | some b =>
    obtain ⟨b₁, _, hshifts, hsome, hkeeps⟩ := bus_occur hb e
    obtain rfl := Option.some.inj (hb'.symm.trans hsome)
    rcases hkeeps.noted drained with hbefore | ⟨-, hidle⟩
    · exact Or.inl ⟨b, rfl, hshifts.drained.symm.trans hbefore⟩
    · exact Or.inr hidle

/-! ## Courses -/

theorem drawn_concat (events : List Event) (e : Event) :
    (outcome events).drawn ≤ (outcome (events ++ [e])).drawn := by
  rw [outcome_concat]
  exact drawn_occur (refines_outcome events) e

theorem ordered_outcome (undisturbed : ∀ x ∈ course events, Undisturbed bus ids x.1 x.2) :
    Ordered bus (outcome events) := by
  induction events using List.reverseRecOn with
  | nil =>
    intro i m hm
    cases hm
  | append_singleton events e ih =>
    obtain ⟨hbefore, hlast⟩ := undisturbed_concat undisturbed
    rw [outcome_concat]
    exact (ih hbefore).occur hlast

theorem naming_outcome (undisturbed : ∀ x ∈ course events, Undisturbed bus ids x.1 x.2)
    (bound : (outcome events).drawn ≤ ids) (supply : ids ≤ Uuid.supply) : Naming ids (outcome events) := by
  induction events using List.reverseRecOn with
  | nil => exact naming_start
  | append_singleton events e ih =>
    obtain ⟨hbefore, hlast⟩ := undisturbed_concat undisturbed
    have hmore := drawn_concat events e
    rw [outcome_concat] at bound hmore ⊢
    exact (ih hbefore (by omega)).occur hlast hmore bound supply

/-- What a course leaves of the claims and the groups of a bus. -/
structure Tidy (bus ids : Nat) (events : List Event) : Prop where
  settling : Settling bus (outcome events) (ledgerOf events) (issued bus events)
  sweeping : Sweeping bus ids (outcome events) (ledgerOf events)
  /-- Nothing is left of them after a moment without tasks. -/
  done : ∀ b, (outcome events).buses[bus]? = some b → b.drained = true →
    CalmFrom bus 0 (outcome events) ∧ Swept bus (outcome events) (ledgerOf events)

/-- **Every course keeps the claims and the groups of a bus tidy**, as long as no wait of its shutdown has timed out. -/
theorem tidy_outcome (undisturbed : ∀ x ∈ course events, Undisturbed bus ids x.1 x.2)
    (bound : (outcome events).drawn ≤ ids) (supply : ids ≤ Uuid.supply) (quiet : timeouts bus events = []) :
    Tidy bus ids events := by
  induction events using List.reverseRecOn with
  | nil => exact ⟨settling_start, sweeping_start, fun b hb => by cases hb⟩
  | append_singleton events e ih =>
    obtain ⟨hbefore, hlast⟩ := undisturbed_concat undisturbed
    have hmore := drawn_concat events e
    rw [timeouts_concat, List.append_eq_nil_iff] at quiet
    have hrefines := refines_outcome events
    have hordered := ordered_outcome hbefore
    have hnaming := naming_outcome hbefore (by omega) supply
    have hstage := stage_outcome hbefore
    obtain ⟨hsettling, hsweeping, hdone⟩ := ih hbefore (by omega) quiet.1
    -- the store is closed only after a moment without tasks
    have hclosed : (outcome events).store.closed = true →
        CalmFrom bus 0 (outcome events) ∧ Swept bus (outcome events) (ledgerOf events) := by
      intro hclosed
      rcases hstage with ⟨-, hopened, -⟩ | ⟨b, hb, hstage⟩
      · rw [hopened] at hclosed
        cases hclosed
      · exact hdone b hb (hstage.drained quiet.1 (hstage.publisher_closed hclosed)).1
    rw [outcome_concat] at bound
    have hsweeping' := hsweeping.occur hnaming hrefines hordered hlast bound fun hc => (hclosed hc).2
    refine ⟨?_, ?_, fun b' hb' drained => ?_⟩
    · rw [outcome_concat, ledgerOf_concat, issued_concat]
      exact hsettling.occur hrefines hordered hlast (by omega) fun hc => (hclosed hc).1
    · rw [outcome_concat, ledgerOf_concat]
      exact hsweeping'
    · rw [outcome_concat] at hb' ⊢
      rw [ledgerOf_concat]
      rcases drained_occur hb' drained with ⟨b, hb, hdrained⟩ | hidle
      · obtain ⟨hcalm, hswept⟩ := hdone b hb hdrained
        rcases hstage with ⟨habsent, -⟩ | ⟨_, hsome, hstage⟩
        · cases hb.symm.trans habsent
        · obtain rfl := Option.some.inj (hb.symm.trans hsome)
          have hshut : (outcome events).isShutDown bus = true := by
            unfold isShutDown
            rw [hb]
            exact hstage.shut hdrained
          exact ⟨hcalm.occur hordered hlast hshut, hswept.occur hsweeping hnaming hrefines hlast bound hcalm⟩
      · exact ⟨calmFrom_of_idle hidle, hsweeping'.swept_of_idle hidle⟩

/-! ## Claims -/

/-- What ends a claim: it is settled, its group forgets the topic, or somebody else takes the message over. -/
def EndsClaim (topic : String) (i : Nat) (r : Receipt) (x : System × Event) : Prop :=
  ∃ c, x.1.call? x.2 = some c ∧ (InMemory.Visit.Settles r (x.1.store, c) ∧ x.1.store.closed = false ∨
    InMemory.Visit.HandsOut r.offset r.group (x.1.store, c) ∧ x.2 ≠ .turn (.answer i .performed) ∨
    InMemory.Visit.Forgets topic r.group (x.1.store, c))

theorem held_of_isClaiming {p : Phase} (h : p.isClaiming = true) : p.held = [] := by
  have hstream : ∀ {s : ClaimStream}, s.isClaiming = true → s.held = [] := by
    intro s hs
    cases s with
    | pulling batches =>
      cases batches with
      | polling => rfl
      | _ => cases hs
    | renewing | releasing => cases hs
  cases p with
  | pulling s | draining s => exact hstream h
  | _ => cases h

/-- Nobody takes over from itself. -/
theorem Settling.taken_over {tokens : List (Nat × Uuid)} (h : Settling bus s l tokens) (refines : s.store.Refines l)
    (ordered : Ordered bus s) {i : Nat} {m : Member} (hm : s.members[i]? = some m) (hbus : m.bus = bus) {r : Receipt}
    (issued : (i, r.token) ∈ tokens) (held : (l.current? r).isSome) {c : Call} (hcall : s.call? e = some c)
    {offset : Int} {group : String} (handsOut : InMemory.Visit.HandsOut offset group (s.store, c)) :
    e ≠ .turn (.answer i .performed) := by
  rintro rfl
  obtain ⟨q, hclaim, -⟩ := InMemory.chosen_of_handsOut refines handsOut
  obtain ⟨request, hasks, rfl⟩ := Option.map_eq_some_iff.1 hcall
  obtain rfl : request = .claim q := Store.Action.request.inj hclaim
  unfold requestAt at hasks
  rw [hm, Option.bind_some] at hasks
  obtain ⟨k, hk, -⟩ := h.held i m r hm issued held
  rw [held_of_isClaiming (Consumer.claiming_of_request? (ordered i m hm hbus).2 hasks).1] at hk
  cases hk

/-- Whether the store hands a message to a member of a bus that claims. -/
structure Hands (s : System) (bus i : Nat) (q : ClaimRequest) (k : Claimed) : Prop where
  member : s.busAt i = some bus
  asks : s.requestAt i = some (.claim q)
  answered : ∃ messages, (s.ask .performed (.claim q)).2.1 = .ok (.claimed messages) ∧ k ∈ messages

theorem Hands.held {i : Nat} {q : ClaimRequest} {k : Claimed} (h : (outcome events).Hands bus i q k) :
    (i, k.receipt.token) ∈ issued bus (events ++ [.turn (.answer i .performed)]) ∧
      (∃ m ∈ (ledgerOf (events ++ [.turn (.answer i .performed)])).log q.topic, m.offset = k.receipt.offset) ∧
      ((ledgerOf (events ++ [.turn (.answer i .performed)])).current? k.receipt).isSome := by
  obtain ⟨hmember, hasks, messages, answered, hk⟩ := h
  have hcall : (outcome events).call? (.turn (.answer i .performed)) =
      some ⟨(outcome events).now, .drawn (outcome events).drawn, .request (.claim q)⟩ := congrArg (Option.map _) hasks
  obtain ⟨htoken, hheld, -, hstored⟩ := InMemory.held_of_claim (refines_outcome events)
    (c := ⟨(outcome events).now, .drawn (outcome events).drawn, .request (.claim q)⟩) rfl answered hk
  have hissued : (i, k.receipt.token) ∈ (outcome events).issuedIn bus (.turn (.answer i .performed)) := by
    show _ ∈ ite _ _ _
    rw [if_pos ⟨hmember, by rw [hasks]; rfl⟩, ← Option.some.inj htoken]
    exact List.mem_singleton.2 rfl
  rw [ledgerOf_concat, ledgerAfter, hcall, issued_concat]
  exact ⟨List.mem_append_right _ hissued, hstored, hheld⟩

/-- **A claim is held until it has ended.** -/
theorem ended_or_held {i : Nat} {topic : String} {r : Receipt} (issues : (i, r.token) ∈ issued bus before)
    (stored : ∃ m ∈ (ledgerOf before).log topic, m.offset = r.offset) (held : ((ledgerOf before).current? r).isSome)
    (undisturbed : ∀ x ∈ course (before ++ after), Undisturbed bus ids x.1 x.2)
    (bound : (outcome (before ++ after)).drawn ≤ ids) (supply : ids ≤ Uuid.supply)
    (quiet : timeouts bus (before ++ after) = []) :
    (i, r.token) ∈ issued bus (before ++ after) ∧
      (∃ m ∈ (ledgerOf (before ++ after)).log topic, m.offset = r.offset) ∧
      (((ledgerOf (before ++ after)).current? r).isSome ∨
        ∃ x ∈ (outcome before).courseFrom after, EndsClaim topic i r x) := by
  induction after using List.reverseRecOn with
  | nil =>
    rw [List.append_nil]
    exact ⟨issues, stored, Or.inl held⟩
  | append_singleton after e ih =>
    rw [← List.append_assoc] at undisturbed bound quiet ⊢
    rw [courseFrom_concat]
    generalize before ++ after = events at ih undisturbed bound quiet ⊢
    have hmore := drawn_concat events e
    obtain ⟨hbefore, hlast⟩ := undisturbed_concat undisturbed
    rw [timeouts_concat, List.append_eq_nil_iff] at quiet
    obtain ⟨hissued, ⟨m, hm, ho⟩, hends⟩ := ih hbefore (by omega) quiet.1
    have hsettling := (tidy_outcome hbefore (by omega) supply quiet.1).settling
    rw [issued_concat, ledgerOf_concat]
    unfold ledgerAfter
    refine ⟨List.mem_append_left _ hissued, ?_⟩
    cases hcall : (outcome events).call? e with
    | none => exact ⟨⟨m, hm, ho⟩, hends.imp_right fun ⟨x, hx, hend⟩ => ⟨x, List.mem_append_left _ hx, hend⟩⟩
    | some c =>
      refine ⟨⟨m, ((ledgerOf events).extends_call c).mem_log hm, ho⟩, ?_⟩
      rcases hends with hheld | ⟨x, hx, hend⟩
      · by_cases spends : InMemory.Visit.Spends topic r ((outcome events).store, c)
        · refine Or.inr ⟨_, List.mem_append_right _ (List.mem_singleton.2 rfl), c, hcall, ?_⟩
          refine spends.imp_right (Or.imp_left fun handsOut => ⟨handsOut, ?_⟩)
          obtain ⟨member, hmember, hbus⟩ := Option.map_eq_some_iff.1 (hsettling.issued _ hissued).1
          exact hsettling.taken_over (refines_outcome events) (ordered_outcome hbefore) hmember hbus hissued hheld hcall
            handsOut
        · exact Or.inl (InMemory.held_call (refines_outcome events) hheld ⟨m, hm, ho⟩ spends)
      · exact Or.inr ⟨x, List.mem_append_left _ hx, hend⟩

/-- Nobody holds a claim under a token that was issued to members who have nothing at hand. -/
theorem Settling.lost {tokens : List (Nat × Uuid)} (h : Settling bus s l tokens) (calm : CalmFrom bus 0 s) {i : Nat}
    {r : Receipt} (issued : (i, r.token) ∈ tokens) : l.current? r = none := by
  rw [← Option.not_isSome_iff_eq_none]
  intro held
  obtain ⟨m, hm, hbus⟩ := Option.map_eq_some_iff.1 (h.issued _ issued).1
  obtain ⟨k, hk, -⟩ := h.held i m r hm issued held
  rw [(calm i m hm hbus (Nat.zero_le i)).held] at hk
  cases hk

/-! ## Members that join late -/

theorem length_occur (s : System) (e : Event) : s.members.length ≤ (s.occur e).1.members.length := by
  refine Nat.le_of_not_lt fun hless => ?_
  obtain ⟨m', hm', -⟩ := (recasts_occur s e).old _ _ (List.getElem?_eq_getElem hless)
  rw [List.getElem?_eq_none (Nat.le_refl _)] at hm'
  cases hm'

theorem issued_member {p : Nat × Uuid} (hp : p ∈ issued bus events) : p.1 < (outcome events).members.length := by
  induction events using List.reverseRecOn with
  | nil => cases hp
  | append_singleton events e ih =>
    rw [outcome_concat]
    refine Nat.lt_of_lt_of_le ?_ (length_occur _ e)
    rw [issued_concat] at hp
    rcases List.mem_append.1 hp with hp | hp
    · exact ih hp
    · obtain ⟨-, -, m, q, hm, -⟩ := mem_issuedIn hp
      exact (List.getElem?_eq_some_iff.1 hm).1

theorem isShutDown_append (shut : (outcome before).isShutDown bus = true) (after : List Event) :
    (outcome (before ++ after)).isShutDown bus = true := by
  induction after using List.reverseRecOn with
  | nil => rwa [List.append_nil]
  | append_singleton after e ih =>
    rw [← List.append_assoc, outcome_concat]
    exact isShutDown_occur ih e

/-- **A bus that has been told to shut down** issues no tokens to members that join. -/
theorem issued_early (undisturbed : ∀ x ∈ course (before ++ after), Undisturbed bus ids x.1 x.2)
    (shut : (outcome before).isShutDown bus = true) :
    CalmFrom bus (outcome before).members.length (outcome (before ++ after)) ∧
      ∀ p ∈ issued bus (before ++ after), p.1 < (outcome before).members.length := by
  induction after using List.reverseRecOn with
  | nil =>
    rw [List.append_nil]
    refine ⟨fun i m hm _ hlate => ?_, fun p => issued_member⟩
    have hi := (List.getElem?_eq_some_iff.1 hm).1
    omega
  | append_singleton after e ih =>
    rw [← List.append_assoc] at undisturbed ⊢
    obtain ⟨hbefore, hlast⟩ := undisturbed_concat undisturbed
    obtain ⟨hcalm, hissued⟩ := ih hbefore
    rw [outcome_concat, issued_concat]
    refine ⟨hcalm.occur (ordered_outcome hbefore) hlast (isShutDown_append shut after), fun p hp => ?_⟩
    rcases List.mem_append.1 hp with hp | hp
    · exact hissued p hp
    · exact hcalm.not_mem_issuedIn hp

/-! ## Further calls -/

/-- Whoever shuts down a bus again is answered at once, and nothing happens. -/
theorem shutDown_again {w : Scenario.World} {b : Bus} (latest : w.system.buses.getLast? = some b)
    (shut : b.isShutDown = true) : Scenario.shutDown.run w = (.ok, w) := by
  have hbus : Scenario.bus?.run w = (some b, w) := congrArg (·, w) latest
  unfold Scenario.shutDown
  rw [StateT.run_bind, hbus]
  show StateT.run (if b.isShutDown = true then _ else _) w = _
  rw [if_pos shut]
  rfl

/-! ## Shutdowns -/

/-- What is closed when a shutdown is over. -/
structure IsOver (bus : Nat) (events : List Event) (b : Bus) : Prop where
  shutdown : b.shutdown = some (.over none)
  publisher : b.publisher.closed = true
  store : (outcome events).store.closed = true

theorem Stage.isOver {b : Bus} (h : Stage bus events b) {error : Option (BusError Store.Error)}
    (past : b.shutdown = some (.over error)) : IsOver bus events b := by
  cases h with
  | running shutdown | waiting shutdown | closing shutdown =>
    rw [past] at shutdown
    cases shutdown
  | done shutdown publisher store => exact ⟨shutdown, publisher, store⟩

/-- **A wait that may end does** when the bus looks. -/
theorem closing_of_wait {b : Bus} {deadline : Instant} (hb : (outcome events).buses[bus]? = some b)
    (waiting : b.shutdown = some (.waiting deadline)) (ends : b.drained = true ∨ deadline ≤ (outcome events).now) :
    ∃ b', (outcome (events ++ [.turn (.lookShutdown bus)])).buses[bus]? = some b' ∧ b'.shutdown = some .closing := by
  have hclosing : (b.lookShutdown (outcome events).now).1.shutdown = some .closing := by
    unfold Bus.lookShutdown
    rw [waiting]
    simp only
    split
    case isTrue => rfl
    case isFalse hdrained => rw [if_pos (ends.resolve_left hdrained)]
  obtain ⟨b₁, b', hshifts, hb', hkeeps⟩ := bus_occur hb (.turn (.lookShutdown bus))
  rw [← outcome_concat] at hb'
  refine ⟨b', hb', ?_⟩
  rw [hkeeps.shutdown]
  cases hshifts with
  | stays other => exact absurd rfl other
  | looks => exact hclosing

/-- **A shutdown that closes the store is over** when the store answers. -/
theorem over_of_closing (undisturbed : ∀ x ∈ course events, Undisturbed bus ids x.1 x.2) {b : Bus}
    (hb : (outcome events).buses[bus]? = some b) (closing : b.shutdown = some .closing) :
    ∃ b', (outcome (events ++ [.turn (.answerShutdown bus .performed)])).buses[bus]? = some b' ∧
      IsOver bus (events ++ [.turn (.answerShutdown bus .performed)]) b' := by
  have hallowed : Undisturbed bus ids (outcome events) (.turn (.answerShutdown bus .performed)) := by
    refine ⟨rfl, rfl, ?_⟩
    rw [hb, Option.any_some, Bus.isClosing, closing]
    rfl
  obtain ⟨b', hb', hstage⟩ := (stage_of_bus undisturbed hb).occur hallowed hb
  obtain ⟨b₁, _, hshifts, hsome, hkeeps⟩ := bus_occur hb (.turn (.answerShutdown bus .performed))
  rw [← outcome_concat, hb'] at hsome
  obtain rfl := Option.some.inj hsome
  refine ⟨b', hb', hstage.isOver (?_ : b'.shutdown = some (.over none))⟩
  rw [hkeeps.shutdown]
  cases hshifts with
  | stays other => exact absurd rfl other
  | answers =>
    unfold Bus.answerShutdown
    rw [closing]
    rfl

/-- What a shutdown leaves behind that has seen its tasks end. -/
structure LeavesNothing (bus : Nat) (events : List Event) : Prop where
  /-- Every claim of a member of the bus was settled, forgotten with its group or taken over by somebody else. -/
  ended : ∀ before after i q k, events = before ++ .turn (.answer i .performed) :: after →
    (outcome before).Hands bus i q k →
      ∃ x ∈ (outcome (before ++ [.turn (.answer i .performed)])).courseFrom after, EndsClaim q.topic i k.receipt x
  /-- No record is claimed under a token that was issued to one. -/
  records : ∀ offset group d, (outcome events).store.deliveries.get? (offset, group) = some d → d.state = .claimed →
    ∀ i, (i, d.token) ∉ issued bus events
  /-- No record and no watermark of a broadcast group of the bus is left. -/
  groups : ∀ m ∈ (outcome events).members, m.bus = bus → m.IsEphemeral →
    (outcome events).store.IsUnknown m.consumer.setup.group

theorem leavesNothing_of_idle (undisturbed : ∀ x ∈ course events, Undisturbed bus ids x.1 x.2)
    (bound : (outcome events).drawn ≤ ids) (supply : ids ≤ Uuid.supply) (quiet : timeouts bus events = []) {b : Bus}
    (hb : (outcome events).buses[bus]? = some b) (past : b.publisher.closed = true) : LeavesNothing bus events := by
  have htidy := tidy_outcome undisturbed bound supply quiet
  have hrefines := refines_outcome events
  obtain ⟨hcalm, hswept⟩ := htidy.done b hb ((stage_of_bus undisturbed hb).drained quiet past).1
  refine ⟨fun before after i q k hsplit hands => ?_, fun offset group d hd hstate i hissued => ?_,
    fun m hm hbus ephemeral => ?_⟩
  · rw [List.append_cons] at hsplit
    subst hsplit
    obtain ⟨hissued, hstored, hheld⟩ := hands.held
    obtain ⟨hissued', -, hends⟩ := ended_or_held hissued hstored hheld undisturbed bound supply quiet
    refine hends.resolve_left fun hheld' => ?_
    rw [htidy.settling.lost hcalm hissued'] at hheld'
    cases hheld'
  · have hheld : (outcome events).store.current? ⟨offset, group, d.token⟩ = some d := by
      unfold InMemory.current?
      rw [hd]
      simp [hstate]
    rcases hrefines.current? ⟨offset, group, d.token⟩ with ⟨-, hlost⟩ | ⟨_, _, e, -, -, -, held, -⟩
    · rw [hlost] at hheld
      cases hheld
    · rw [htidy.settling.lost (r := ⟨offset, group, d.token⟩) hcalm hissued] at held
      cases held
  · obtain ⟨i, hi⟩ := List.mem_iff_getElem?.1 hm
    exact (hswept i m hi hbus ephemeral).isUnknown hrefines

/-- **A shutdown leaves nothing behind.** If its wait does not time out, then the bus closes its publisher after a
moment without tasks, and by then every claim of its members has ended and nothing of its broadcast groups is left. If it
does, then the hook is told once, and the publisher is closed all the same. The store is closed behind the publisher when
the shutdown is over, which it is two steps after its wait may end. A member that joins when the bus has been told to
shut down claims nothing, and whoever shuts down the bus again is answered at once. -/
theorem leaves_nothing (bus : Nat) (events : List Event)
    (undisturbed : ∀ x ∈ course events, Undisturbed bus (outcome events).drawn x.1 x.2)
    (supply : (outcome events).drawn ≤ Uuid.supply) :
    (∀ b, (outcome events).buses[bus]? = some b →
      (¬ TimedOut bus events →
        timeouts bus events = [] ∧ (b.publisher.closed = true → WasIdle bus events ∧ LeavesNothing bus events)) ∧
      (TimedOut bus events → timeouts bus events = [b.config.shutdownTimeout] ∧ b.publisher.closed = true) ∧
      ((outcome events).store.closed = true → b.publisher.closed = true) ∧
      (∀ error, b.shutdown = some (.over error) → IsOver bus events b) ∧
      (∀ deadline, b.shutdown = some (.waiting deadline) → b.drained = true ∨ deadline ≤ (outcome events).now →
        ∃ b', (outcome (events ++ [.turn (.lookShutdown bus)])).buses[bus]? = some b' ∧ b'.shutdown = some .closing) ∧
      (b.shutdown = some .closing →
        ∃ b', (outcome (events ++ [.turn (.answerShutdown bus .performed)])).buses[bus]? = some b' ∧
          IsOver bus (events ++ [.turn (.answerShutdown bus .performed)]) b')) ∧
    (∀ before after, events = before ++ after → (outcome before).isShutDown bus = true →
      (∀ p ∈ issued bus events, p.1 < (outcome before).members.length) ∧
        ∀ w : Scenario.World, w.system = outcome events → w.system.buses.length = bus + 1 →
          Scenario.shutDown.run w = (.ok, w)) := by
  refine ⟨fun b hb => ⟨fun intime => ?_, fun late => ?_, (stage_of_bus undisturbed hb).publisher_closed,
    fun error => (stage_of_bus undisturbed hb).isOver, fun deadline => closing_of_wait hb,
    over_of_closing undisturbed hb⟩,
    fun before after hsplit shut => ?_⟩
  · have hquiet := timeouts_eq_nil_iff.2 intime
    exact ⟨hquiet, fun past => ⟨((stage_of_bus undisturbed hb).drained hquiet past).2,
      leavesNothing_of_idle undisturbed (Nat.le_refl _) supply hquiet hb past⟩⟩
  · have htold : timeouts bus events ≠ [] := fun hquiet => timeouts_eq_nil_iff.1 hquiet late
    exact (stage_of_bus undisturbed hb).told htold
  · subst hsplit
    refine ⟨(issued_early undisturbed shut).2, fun w hw latest => ?_⟩
    obtain ⟨b, hb, hshut⟩ := (Option.any_eq_true _ _).1 (isShutDown_append shut after)
    refine shutDown_again (b := b) ?_ hshut
    rw [List.getLast?_eq_getElem?, latest, hw]
    exact hb

/-- A bus with a forwarder, whose subscribers claim two messages at a time. -/
def relayConfig : Config := Config.standard.withForwarder.withBatchSize 2

/-- Two subscribers, one of them a broadcast, have claimed two orders each and work on the first ones when the bus is
told to shut down. Another broadcast subscription has been permitted before and begins only then. Each subscriber
acknowledges the first order and gives the second one back, and the broadcasts forget their groups. -/
def caughtMidBatch : List Event :=
  [.turn (.addBus relayConfig .silent), .turn (.startForwarder 0 "main"),
    .turn (.subscribe 0 "orders" (.named "workers") 0), .turn (.subscribe 0 "orders" .broadcast 0),
    .turn (.ask .performed (.enqueue "orders" [.new (.ofNat 7) [1], .new (.ofNat 8) [2]])),
    .turn (.look 1), .turn (.look 1), .turn (.look 1), .turn (.look 1), .turn (.answer 1 .performed), .turn (.look 1),
    .turn (.look 2), .turn (.look 2), .turn (.look 2), .turn (.look 2), .turn (.answer 2 .performed), .turn (.look 2),
    .turn (.beginShutdown 0), .subscribed 0 "orders" .broadcast 2,
    .turn (.finish 1 (.ok ())), .turn (.answer 1 .performed), .turn (.look 1), .turn (.look 1),
    .turn (.answer 1 .performed), .turn (.look 1),
    .turn (.finish 2 (.ok ())), .turn (.answer 2 .performed), .turn (.look 2), .turn (.look 2),
    .turn (.answer 2 .performed), .turn (.look 2), .turn (.answer 2 .performed),
    .turn (.look 3), .turn (.look 3), .turn (.look 3), .turn (.look 3), .turn (.answer 3 .performed),
    .turn (.look 0), .turn (.look 0), .turn (.look 0), .turn (.look 0), .turn (.lookLink 0),
    .turn (.lookShutdown 0), .turn (.answerShutdown 0 .performed)]

/-- Two tokens have been issued and two broadcast groups were used, and nothing is left of them. -/
theorem leaves_nothing_caughtMidBatch :
    (∀ x ∈ course caughtMidBatch, Undisturbed 0 (outcome caughtMidBatch).drawn x.1 x.2) ∧
      (outcome caughtMidBatch).drawn ≤ Uuid.supply ∧ issued 0 caughtMidBatch = [(1, .drawn 1), (2, .drawn 2)] ∧
      ((outcome caughtMidBatch).members.filter (·.IsEphemeral)).map (fun m => (m.bus, m.consumer.setup.group)) =
        [(0, broadcastGroup (.drawn 0)), (0, broadcastGroup (.drawn 3))] ∧
      ¬ TimedOut 0 caughtMidBatch ∧ WasIdle 0 caughtMidBatch ∧ LeavesNothing 0 caughtMidBatch := by
  have undisturbed : ∀ x ∈ course caughtMidBatch, Undisturbed 0 (outcome caughtMidBatch).drawn x.1 x.2 := by
    decide +kernel
  have supply : (outcome caughtMidBatch).drawn ≤ Uuid.supply := by decide +kernel
  have intime : ¬ TimedOut 0 caughtMidBatch := timeouts_eq_nil_iff.1 (by decide +kernel)
  have hclosed : (outcome caughtMidBatch).buses[0]?.any (·.publisher.closed) = true := by decide +kernel
  obtain ⟨b, hb, hpast⟩ := (Option.any_eq_true _ _).1 hclosed
  obtain ⟨-, hleaves⟩ := ((leaves_nothing 0 caughtMidBatch undisturbed supply).1 b hb).1 intime
  exact ⟨undisturbed, supply, by decide +kernel, by decide +kernel, intime, hleaves hpast⟩

end DurableBus.System
