import DurableBus.Proofs.System.Course
import DurableBus.Proofs.Text.Hex

/-!
# What a shutdown closes, and when

A bus waits for its tasks, closes its publisher and then the store. Around it, others may do whatever they like but
close the store, reject what its consumers ask for or take the name of a broadcast group (`Undisturbed`).

* `Stage` : how far the shutdown of a bus has come, and what has been closed and told by then;
* `Stage.occur`, `stage_outcome` : every event keeps that, and so does a course.
-/

set_option autoImplicit false

namespace DurableBus

open Consumer (Setup)

def Store.Request.claim? : Request → Option ClaimRequest
  | .claim q => some q
  | _ => none

namespace System

/-! ## Courses around a bus -/

/-- Whether a group has the name of a broadcast group, among as many as there are identifiers. -/
def IsBroadcastGroup (ids : Nat) (name : String) : Prop := ∃ n < ids, name = broadcastGroup (.drawn n)

instance (ids : Nat) (name : String) : Decidable (IsBroadcastGroup ids name) :=
  inferInstanceAs (Decidable (∃ n, n < ids ∧ _))

theorem broadcastGroup_inj {u v : Uuid} (h : broadcastGroup u = broadcastGroup v) : u = v := by
  have htext : ∀ u, (broadcastGroup u).toList.drop 10 = u.chars := by
    intro u
    unfold broadcastGroup Uuid.text
    rw [String.toList_append, String.toList_ofList, String.toList_ofList]
    exact List.drop_left' rfl
  have hchars : u.chars = v.chars := by rw [← htext, h, htext]
  have hread := u.parse?_chars
  rw [hchars, v.parse?_chars] at hread
  exact (Option.some.inj hread).symm

def busAt (s : System) (i : Nat) : Option Nat := s.members[i]?.map (·.bus)

/-- What may happen around a bus on a store that is open and its own to close. Its consumers do nothing else while a
request of theirs is under way, and their requests are carried out; nobody else closes the store; and nobody but
broadcast subscriptions uses the names of their groups, for as many identifiers as are drawn. -/
def Undisturbed (bus ids : Nat) (s : System) : Event → Prop
  | .turn (.look i) => s.busAt i = some bus → s.requestAt i = none
  | .turn (.answer i fate) => s.busAt i = some bus → fate = .performed
  | .turn (.ask _ request) => request ≠ .close ∧ ∀ q ∈ request.claim?, ¬ IsBroadcastGroup ids q.group
  | .turn (.answerShutdown i fate) => i = bus ∧ fate = .performed ∧ (s.buses[i]?.any Bus.isClosing) = true
  | .turn (.subscribe _ _ (.named name) _) | .subscribed _ _ (.named name) _ => ¬ IsBroadcastGroup ids name
  | .turn (.startForwarder i _) | .forwarding i _ => ∀ b ∈ s.buses[i]?, ¬ IsBroadcastGroup ids b.config.forwarderGroup
  | _ => True

instance (bus ids : Nat) (s : System) : (e : Event) → Decidable (Undisturbed bus ids s e)
  | .turn (.look _) | .turn (.answer _ _) => inferInstanceAs (Decidable (_ → _))
  | .turn (.ask _ _) | .turn (.answerShutdown _ _) => inferInstanceAs (Decidable (_ ∧ _))
  | .turn (.subscribe _ _ (.named name) _) | .subscribed _ _ (.named name) _ =>
    inferInstanceAs (Decidable (¬ IsBroadcastGroup ids name))
  | .turn (.startForwarder i _) | .forwarding i _ =>
    inferInstanceAs (Decidable (∀ b ∈ s.buses[i]?, ¬ IsBroadcastGroup ids b.config.forwarderGroup))
  | .turn (.subscribe _ _ .broadcast _) | .subscribed _ _ .broadcast _ | .turn (.finish _ _) | .turn (.receive _)
  | .turn (.abandon _) | .turn (.lookLink _) | .turn (.fire _) | .turn (.wait _) | .turn .draw | .turn (.addBus _ _)
  | .turn (.publish _ _ _ _ _) | .turn (.commit _) | .turn (.beginShutdown _) | .turn (.lookShutdown _) =>
    inferInstanceAs (Decidable True)

theorem undisturbed_concat {bus ids : Nat} {events : List Event} {e : Event}
    (h : ∀ x ∈ course (events ++ [e]), Undisturbed bus ids x.1 x.2) :
    (∀ x ∈ course events, Undisturbed bus ids x.1 x.2) ∧ Undisturbed bus ids (outcome events) e := by
  rw [course_concat] at h
  exact ⟨fun x hx => h x (List.mem_append_left _ hx), h _ (List.mem_append_right _ (List.mem_singleton.2 rfl))⟩

/-! ## What is told -/

def timeout? : Effect → Option Duration
  | .hook (.shutdownTimedOut d) => some d
  | _ => none

/-- Whether the wait of a shutdown ends in an event without a moment without tasks. -/
def TimesOut (bus : Nat) (s : System) (e : Event) : Prop :=
  e = .turn (.lookShutdown bus) ∧ ∃ b deadline, s.buses[bus]? = some b ∧ b.shutdown = some (.waiting deadline) ∧
    b.drained = false ∧ deadline ≤ s.now

/-- Whether the wait of the shutdown of a bus has timed out in a course. -/
def TimedOut (bus : Nat) (events : List Event) : Prop := ∃ x ∈ course events, TimesOut bus x.1 x.2

def timeoutsIn (bus : Nat) (s : System) : Event → List Duration
  | .turn (.lookShutdown i) => if i = bus then (s.lookShutdown i).2.filterMap timeout? else []
  | _ => []

def timeouts (bus : Nat) (events : List Event) : List Duration :=
  (course events).flatMap fun x => x.1.timeoutsIn bus x.2

/-- Whether there has been a moment without tasks while a bus waited for them. -/
def WasIdle (bus : Nat) (events : List Event) : Prop :=
  ∃ before after b, events = before ++ after ∧ (outcome before).buses[bus]? = some b ∧ b.isShutDown = true ∧
    b.publisher.closed = false ∧ (outcome before).hasTask bus = false

theorem WasIdle.mono {bus : Nat} {events : List Event} (h : WasIdle bus events) (more : List Event) :
    WasIdle bus (events ++ more) := by
  obtain ⟨before, after, b, rfl, hidle⟩ := h
  exact ⟨before, after ++ more, b, List.append_assoc .., hidle⟩

theorem timeouts_concat (bus : Nat) (events : List Event) (e : Event) :
    timeouts bus (events ++ [e]) = timeouts bus events ++ (outcome events).timeoutsIn bus e := by
  unfold timeouts
  rw [course_concat, List.flatMap_append, List.flatMap_singleton]

theorem timeoutsIn_of_other {bus : Nat} {s : System} {e : Event} (other : e ≠ .turn (.lookShutdown bus)) :
    s.timeoutsIn bus e = [] := by
  unfold timeoutsIn
  split
  case h_1 i => exact if_neg fun hi => other (by rw [hi])
  case h_2 => rfl

theorem timeoutsIn_lookShutdown {bus : Nat} {s : System} {b : Bus} (hb : s.buses[bus]? = some b) :
    s.timeoutsIn bus (.turn (.lookShutdown bus)) = ((b.lookShutdown s.now).2.map Effect.hook).filterMap timeout? := by
  unfold timeoutsIn lookShutdown
  simp only [if_true]
  rw [hb]

theorem timeoutsIn_eq_nil_iff {bus : Nat} {s : System} {e : Event} : s.timeoutsIn bus e = [] ↔ ¬ TimesOut bus s e := by
  by_cases he : e = .turn (.lookShutdown bus)
  · subst he
    cases hb : s.buses[bus]? with
    | none =>
      refine ⟨fun _ => ?_, fun _ => ?_⟩
      · rintro ⟨-, b, deadline, hsome, -⟩
        cases hb.symm.trans hsome
      · unfold timeoutsIn lookShutdown
        simp only [if_true]
        rw [hb]
        rfl
    | some b =>
      rw [timeoutsIn_lookShutdown hb]
      unfold TimesOut Bus.lookShutdown
      cases hshutdown : b.shutdown with
      | none => simp [hb, hshutdown]
      | some shutdown =>
        cases shutdown with
        | waiting deadline =>
          by_cases hdrained : b.drained = true
          · simp [hb, hshutdown, hdrained]
          · by_cases hlate : deadline ≤ s.now
            · simp [hb, hshutdown, hdrained, hlate, timeout?]
            · simp [hb, hshutdown, hdrained, hlate]
        | closing | «over» => simp [hb, hshutdown]
  · exact ⟨fun _ h => he h.1, fun _ => timeoutsIn_of_other he⟩

theorem timeouts_eq_nil_iff {bus : Nat} {events : List Event} : timeouts bus events = [] ↔ ¬ TimedOut bus events := by
  unfold timeouts TimedOut
  rw [List.flatMap_eq_nil_iff]
  simp only [timeoutsIn_eq_nil_iff, not_exists, not_and]

/-! ## The store of a bus -/

section Store

variable {bus ids : Nat} {s : System} {l : Ledger} {e : Event}

theorem ne_close_of_request? {c : Consumer} {request : Store.Request} (asks : c.request? = some request) :
    request ≠ .close := by
  rintro rfl
  cases Consumer.asks_of_request asks with
  | settle busy settles =>
    unfold Consumer.Settles at settles
    split at settles <;> cases settles

/-- The store stays open until the bus closes it. -/
theorem opened_occur (refines : s.store.Refines l) (undisturbed : Undisturbed bus ids s e)
    (opened : s.store.closed = false) (other : ∀ i fate, e ≠ .turn (.answerShutdown i fate)) :
    (s.occur e).1.store.closed = false := by
  rw [store_occur, storeAfter]
  cases hcall : s.call? e with
  | none => exact opened
  | some c =>
    refine opened_call refines opened fun hclose => ?_
    unfold call? at hcall
    split at hcall
    case h_1 i =>
      obtain ⟨request, hrequest, rfl⟩ := Option.map_eq_some_iff.1 hcall
      obtain ⟨m, -, hasks⟩ := Option.bind_eq_some_iff.1 hrequest
      exact ne_close_of_request? hasks (Store.Action.request.inj hclose)
    case h_2 request =>
      obtain rfl := Option.some.inj hcall
      exact undisturbed.1 (Store.Action.request.inj hclose)
    case h_3 =>
      obtain ⟨p, -, rfl⟩ := Option.map_eq_some_iff.1 hcall
      cases hclose
    case h_4 =>
      obtain rfl := Option.some.inj hcall
      cases hclose
    case h_5 i => exact other i .performed rfl
    case h_6 => cases hcall

theorem closed_occur (refines : s.store.Refines l) (closed : s.store.closed = true) (e : Event) :
    (s.occur e).1.store.closed = true := by
  rw [store_occur, storeAfter]
  cases s.call? e with
  | none => exact closed
  | some c =>
    show (s.store.call c).1.closed = true
    have hclosed : l.closed = true := refines.closed.symm.trans closed
    rw [(refines.call c).1.closed]
    obtain ⟨now, token, action⟩ := c
    cases action with
    | request request => exact Ledger.closed_perform hclosed request
    | commit staged =>
      unfold Ledger.call Ledger.commit
      simp only [hclosed, if_true]

end Store

/-! ## Stages -/

/-- What is left of the wait when it is over: a moment without tasks, or one call of the hook. -/
def Waited (bus : Nat) (events : List Event) (b : Bus) : Prop :=
  timeouts bus events = [] ∧ b.drained = true ∧ WasIdle bus events ∨ timeouts bus events = [b.config.shutdownTimeout]

/-- How far the shutdown of a bus has come, and what has been closed and told by then. -/
inductive Stage (bus : Nat) (events : List Event) (b : Bus) : Prop
  | running (shutdown : b.shutdown = none) (publisher : b.publisher.closed = false)
      (store : (outcome events).store.closed = false) (quiet : timeouts bus events = []) (drained : b.drained = false)
  | waiting {deadline} (shutdown : b.shutdown = some (.waiting deadline)) (publisher : b.publisher.closed = false)
      (store : (outcome events).store.closed = false) (quiet : timeouts bus events = [])
      (drained : b.drained = true → WasIdle bus events)
  | closing (shutdown : b.shutdown = some .closing) (publisher : b.publisher.closed = true)
      (store : (outcome events).store.closed = false) (waited : Waited bus events b)
  | done (shutdown : b.shutdown = some (.over none)) (publisher : b.publisher.closed = true)
      (store : (outcome events).store.closed = true) (waited : Waited bus events b)

variable {bus ids : Nat} {events : List Event} {e : Event} {b b₁ b' : Bus}

theorem Waited.keeps (h : Waited bus events b) (quiet : (outcome events).timeoutsIn bus e = []) {s' : System}
    (keeps : Keeps s' bus b b') : Waited bus (events ++ [e]) b' := by
  unfold Waited
  rw [timeouts_concat, quiet, List.append_nil, keeps.config]
  exact h.imp_left fun ⟨htold, hdrained, hidle⟩ => ⟨htold, keeps.drained hdrained, hidle.mono [e]⟩

theorem drained_of_keeps (keeps : Keeps (outcome (events ++ [e])) bus b b')
    (hb : (outcome (events ++ [e])).buses[bus]? = some b') (publisher : b.publisher.closed = false)
    (drained : b.drained = true → WasIdle bus events) (hd : b'.drained = true) : WasIdle bus (events ++ [e]) := by
  rcases keeps.noted hd with hbefore | ⟨hshut, hidle⟩
  · exact (drained hbefore).mono [e]
  · refine ⟨events ++ [e], [], b', (List.append_nil _).symm, hb, ?_, keeps.publisher ▸ publisher, hidle⟩
    unfold Bus.isShutDown at hshut ⊢
    rw [keeps.shutdown, hshut]

theorem Stage.keeps (h : Stage bus events b) (quiet : (outcome events).timeoutsIn bus e = [])
    (store : (outcome (events ++ [e])).store.closed = (outcome events).store.closed)
    (hb : (outcome (events ++ [e])).buses[bus]? = some b') (keeps : Keeps (outcome (events ++ [e])) bus b b') :
    Stage bus (events ++ [e]) b' := by
  have htold : timeouts bus (events ++ [e]) = timeouts bus events := by
    rw [timeouts_concat, quiet, List.append_nil]
  cases h with
  | running shutdown publisher opened untold drained =>
    refine .running (keeps.shutdown.trans shutdown) (keeps.publisher ▸ publisher) (store.trans opened)
      (htold.trans untold) (Bool.eq_false_iff.2 fun hd => ?_)
    rcases keeps.noted hd with hbefore | ⟨hshut, -⟩
    · rw [drained] at hbefore
      cases hbefore
    · unfold Bus.isShutDown at hshut
      rw [shutdown] at hshut
      cases hshut
  | waiting shutdown publisher opened untold drained =>
    exact .waiting (keeps.shutdown.trans shutdown) (keeps.publisher ▸ publisher) (store.trans opened)
      (htold.trans untold) (drained_of_keeps keeps hb publisher drained)
  | closing shutdown publisher opened waited =>
    exact .closing (keeps.shutdown.trans shutdown) (keeps.publisher ▸ publisher) (store.trans opened)
      (waited.keeps quiet keeps)
  | done shutdown publisher closed waited =>
    exact .done (keeps.shutdown.trans shutdown) (keeps.publisher ▸ publisher) (store.trans closed)
      (waited.keeps quiet keeps)

theorem closed_eq_occur (undisturbed : Undisturbed bus ids (outcome events) e)
    (other : ∀ i fate, e ≠ .turn (.answerShutdown i fate)) :
    (outcome (events ++ [e])).store.closed = (outcome events).store.closed := by
  rw [outcome_concat]
  cases hclosed : (outcome events).store.closed with
  | true => exact closed_occur (refines_outcome events) hclosed e
  | false => exact opened_occur (refines_outcome events) undisturbed hclosed other

theorem Stage.begins (h : Stage bus events b)
    (undisturbed : Undisturbed bus ids (outcome events) (.turn (.beginShutdown bus)))
    (hb : (outcome (events ++ [.turn (.beginShutdown bus)])).buses[bus]? = some b')
    (keeps : Keeps (outcome (events ++ [.turn (.beginShutdown bus)])) bus (b.beginShutdown (outcome events).now) b') :
    Stage bus (events ++ [.turn (.beginShutdown bus)]) b' := by
  have hstore := closed_eq_occur undisturbed fun i fate => by rintro ⟨⟩
  have hkept : b.isShutDown = true → Stage bus (events ++ [.turn (.beginShutdown bus)]) b' := by
    intro hshut
    have hsame : b.beginShutdown (outcome events).now = b := if_pos hshut
    rw [hsame] at keeps
    exact h.keeps rfl hstore hb keeps
  cases h with
  | running shutdown publisher opened untold drained =>
    have hbegun : b.beginShutdown (outcome events).now =
        { b with shutdown := some (.waiting ((outcome events).now.alarm b.config.shutdownTimeout)) } := by
      unfold Bus.beginShutdown Bus.isShutDown
      rw [shutdown]
      rfl
    rw [hbegun] at keeps
    refine .waiting keeps.shutdown (keeps.publisher ▸ publisher) (hstore.trans opened) ?_
      (drained_of_keeps keeps hb publisher fun hd => ?_)
    · rw [timeouts_concat, untold]
      rfl
    · exact absurd (drained.symm.trans hd) (by rintro ⟨⟩)
  | waiting shutdown | closing shutdown | done shutdown =>
    refine hkept ?_
    rw [Bus.isShutDown, shutdown]
    rfl

/-- The wait goes on or ends: after a moment without tasks, or with a call of the hook. -/
theorem Stage.looks (h : Stage bus events b)
    (undisturbed : Undisturbed bus ids (outcome events) (.turn (.lookShutdown bus)))
    (hbefore : (outcome events).buses[bus]? = some b)
    (hb : (outcome (events ++ [.turn (.lookShutdown bus)])).buses[bus]? = some b')
    (keeps : Keeps (outcome (events ++ [.turn (.lookShutdown bus)])) bus (b.lookShutdown (outcome events).now).1 b') :
    Stage bus (events ++ [.turn (.lookShutdown bus)]) b' := by
  have hstore := closed_eq_occur undisturbed fun i fate => by rintro ⟨⟩
  have htimeouts := timeoutsIn_lookShutdown hbefore
  have hsame : (∀ deadline, b.shutdown ≠ some (.waiting deadline)) → b.lookShutdown (outcome events).now = (b, []) := by
    intro hwaiting
    unfold Bus.lookShutdown
    split
    case h_1 deadline hdeadline => exact absurd hdeadline (hwaiting deadline)
    case h_2 => rfl
  have hkept : b.lookShutdown (outcome events).now = (b, []) →
      Stage bus (events ++ [.turn (.lookShutdown bus)]) b' := by
    intro hlook
    rw [hlook] at keeps htimeouts
    exact h.keeps htimeouts hstore hb keeps
  cases h with
  | running shutdown => exact hkept (hsame fun deadline hd => by rw [shutdown] at hd; cases hd)
  | closing shutdown => exact hkept (hsame fun deadline hd => by rw [shutdown] at hd; cases hd)
  | done shutdown => exact hkept (hsame fun deadline hd => by rw [shutdown] at hd; cases hd)
  | @waiting deadline shutdown publisher opened untold drained =>
    have hlook : b.lookShutdown (outcome events).now =
        if b.drained then ({ b with shutdown := some .closing, publisher := b.publisher.close }, [])
        else if deadline ≤ (outcome events).now then
          ({ b with shutdown := some .closing, publisher := b.publisher.close },
            [.shutdownTimedOut b.config.shutdownTimeout])
        else (b, []) := by
      unfold Bus.lookShutdown
      rw [shutdown]
    by_cases hdrained : b.drained = true
    · rw [if_pos hdrained] at hlook
      rw [hlook] at keeps htimeouts
      refine .closing keeps.shutdown ?_ (hstore.trans opened)
        (Or.inl ⟨?_, keeps.drained hdrained, (drained hdrained).mono _⟩)
      · rw [keeps.publisher]
        rfl
      · rw [timeouts_concat, untold, htimeouts]
        rfl
    · rw [if_neg hdrained] at hlook
      by_cases hlate : deadline ≤ (outcome events).now
      · rw [if_pos hlate] at hlook
        rw [hlook] at keeps htimeouts
        refine .closing keeps.shutdown ?_ (hstore.trans opened) (Or.inr ?_)
        · rw [keeps.publisher]
          rfl
        · rw [timeouts_concat, untold, htimeouts, keeps.config]
          rfl
      · rw [if_neg hlate] at hlook
        exact hkept hlook

theorem Stage.answers (h : Stage bus events b) (closing : b.shutdown = some .closing)
    (keeps : Keeps (outcome (events ++ [.turn (.answerShutdown bus .performed)])) bus (b.answerShutdown (.ok .done))
      b') :
    Stage bus (events ++ [.turn (.answerShutdown bus .performed)]) b' := by
  have hover : b.answerShutdown (.ok .done) = { b with shutdown := some (.over none) } := by
    unfold Bus.answerShutdown
    rw [closing]
  rw [hover] at keeps
  cases h with
  | running shutdown =>
    rw [closing] at shutdown
    cases shutdown
  | waiting shutdown =>
    rw [closing] at shutdown
    cases shutdown
  | done shutdown =>
    rw [closing] at shutdown
    cases shutdown
  | closing shutdown publisher opened waited =>
    have hwaited : Waited bus events { b with shutdown := some (.over none) } := waited
    exact .done keeps.shutdown (keeps.publisher ▸ publisher) (by rw [outcome_concat]; rfl) (hwaited.keeps rfl keeps)

/-- **Every event keeps the stages of a shutdown.** -/
theorem Stage.occur (h : Stage bus events b) (undisturbed : Undisturbed bus ids (outcome events) e)
    (hbefore : (outcome events).buses[bus]? = some b) :
    ∃ b', (outcome (events ++ [e])).buses[bus]? = some b' ∧ Stage bus (events ++ [e]) b' := by
  obtain ⟨b₁, b', hshifts, hb', hkeeps⟩ := bus_occur hbefore e
  rw [← outcome_concat] at hb' hkeeps
  refine ⟨b', hb', ?_⟩
  cases hshifts with
  | stays other =>
    refine h.keeps (timeoutsIn_of_other fun hlooks => other (hlooks ▸ rfl)) (closed_eq_occur undisturbed ?_) hb' hkeeps
    rintro i fate rfl
    exact other (congrArg some undisturbed.1)
  | begins => exact h.begins undisturbed hb' hkeeps
  | looks => exact h.looks undisturbed hbefore hb' hkeeps
  | answers =>
    obtain ⟨-, rfl, hclosing⟩ := undisturbed
    rw [hbefore, Option.any_some] at hclosing
    exact h.answers (eq_of_beq hclosing) hkeeps

/-- A bus that is not there yet, on a store that is open. -/
def Absent (bus : Nat) (events : List Event) : Prop :=
  (outcome events).buses[bus]? = none ∧ (outcome events).store.closed = false ∧ timeouts bus events = []

/-- **Every course keeps the stages of a shutdown.** -/
theorem stage_outcome (undisturbed : ∀ x ∈ course events, Undisturbed bus ids x.1 x.2) :
    Absent bus events ∨ ∃ b, (outcome events).buses[bus]? = some b ∧ Stage bus events b := by
  induction events using List.reverseRecOn with
  | nil => exact Or.inl ⟨rfl, rfl, rfl⟩
  | append_singleton events e ih =>
    obtain ⟨hbefore, hlast⟩ := undisturbed_concat undisturbed
    rcases ih hbefore with ⟨habsent, hopened, huntold⟩ | ⟨b, hb, hstage⟩
    · have hopened' : (outcome (events ++ [e])).store.closed = false := by
        rw [closed_eq_occur hlast, hopened]
        rintro i fate rfl
        obtain ⟨rfl, -, hclosing⟩ := hlast
        rw [habsent] at hclosing
        cases hclosing
      have huntold' : timeouts bus (events ++ [e]) = [] := by
        rw [timeouts_concat, huntold, List.nil_append, timeoutsIn_eq_nil_iff]
        rintro ⟨-, b, deadline, hsome, -⟩
        cases habsent.symm.trans hsome
      cases hb : (outcome (events ++ [e])).buses[bus]? with
      | none => exact Or.inl ⟨hb, hopened', huntold'⟩
      | some b =>
        rw [outcome_concat] at hb
        obtain ⟨config, propagator, -, rfl⟩ := bus_new habsent hb
        exact Or.inr ⟨_, rfl, .running rfl rfl hopened' huntold' rfl⟩
    · exact Or.inr (hstage.occur hlast hb)

theorem stage_of_bus (undisturbed : ∀ x ∈ course events, Undisturbed bus ids x.1 x.2) {b : Bus}
    (hb : (outcome events).buses[bus]? = some b) : Stage bus events b := by
  rcases stage_outcome undisturbed with ⟨habsent, -⟩ | ⟨_, hsome, hstage⟩
  · cases hb.symm.trans habsent
  · obtain rfl := Option.some.inj (hb.symm.trans hsome)
    exact hstage

/-! ## What a stage says -/

theorem Stage.drained (h : Stage bus events b) (quiet : timeouts bus events = [])
    (past : b.publisher.closed = true) : b.drained = true ∧ WasIdle bus events := by
  have hwaited : Waited bus events b → b.drained = true ∧ WasIdle bus events := by
    rintro (⟨-, hdrained, hidle⟩ | htold)
    · exact ⟨hdrained, hidle⟩
    · rw [quiet] at htold
      cases htold
  cases h with
  | running shutdown publisher | waiting shutdown publisher =>
    rw [publisher] at past
    cases past
  | closing shutdown publisher store waited | done shutdown publisher store waited => exact hwaited waited

theorem Stage.publisher_closed (h : Stage bus events b) (store : (outcome events).store.closed = true) :
    b.publisher.closed = true := by
  cases h with
  | running shutdown publisher opened | waiting shutdown publisher opened | closing shutdown publisher opened =>
    rw [opened] at store
    cases store
  | done shutdown publisher => exact publisher

/-- A wait that has timed out is over. -/
theorem Stage.told (h : Stage bus events b) (told : timeouts bus events ≠ []) :
    timeouts bus events = [b.config.shutdownTimeout] ∧ b.publisher.closed = true := by
  have hwaited : Waited bus events b → timeouts bus events = [b.config.shutdownTimeout] := by
    rintro (⟨hquiet, -⟩ | htold)
    · exact absurd hquiet told
    · exact htold
  cases h with
  | running shutdown publisher store quiet | waiting shutdown publisher store quiet => exact absurd quiet told
  | closing shutdown publisher store waited | done shutdown publisher store waited => exact ⟨hwaited waited, publisher⟩

theorem Stage.shut (h : Stage bus events b) (drained : b.drained = true) : b.isShutDown = true := by
  unfold Bus.isShutDown
  cases h with
  | running shutdown publisher store quiet undrained =>
    rw [undrained] at drained
    cases drained
  | waiting shutdown | closing shutdown | done shutdown =>
    rw [shutdown]
    rfl

end System

end DurableBus
