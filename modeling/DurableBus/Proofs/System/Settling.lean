import DurableBus.Proofs.System.Closing

/-!
# How the members of a bus settle their claims

Every claim draws a token, which is issued to the member that claims.

* `Ordered.occur` : the members of a bus go on as consumers do whose requests are answered at once;
* `CalmFrom.occur` : members that have not claimed anything when their tokens fire never do;
* `Settling.occur` : who was issued a token has the messages at hand that are claimed under it, as long as they are.
-/

set_option autoImplicit false

namespace DurableBus

open Consumer (Setup)
open Store (Call)

namespace System

/-! ## Tokens -/

/-- The tokens of the claims that members of a bus make in an event, each with the member that makes it. -/
def issuedIn (bus : Nat) (s : System) : Event → List (Nat × Uuid)
  | .turn (.answer i .performed) =>
    if s.busAt i = some bus ∧ ((s.requestAt i).bind (·.claim?)).isSome then [(i, .drawn s.drawn)] else []
  | _ => []

def issued (bus : Nat) (events : List Event) : List (Nat × Uuid) :=
  (course events).flatMap fun x => x.1.issuedIn bus x.2

theorem issued_concat (bus : Nat) (events : List Event) (e : Event) :
    issued bus (events ++ [e]) = issued bus events ++ (outcome events).issuedIn bus e := by
  unfold issued
  rw [course_concat, List.flatMap_append, List.flatMap_singleton]

variable {bus ids : Nat} {s : System} {l : Ledger} {e : Event} {tokens : List (Nat × Uuid)}

theorem mem_issuedIn {p : Nat × Uuid} (h : p ∈ s.issuedIn bus e) :
    e = .turn (.answer p.1 .performed) ∧ p.2 = .drawn s.drawn ∧
      ∃ m q, s.members[p.1]? = some m ∧ m.bus = bus ∧ m.consumer.request? = some (.claim q) := by
  unfold issuedIn at h
  split at h
  case h_1 i =>
    split at h
    case isTrue hissued =>
      rw [List.mem_singleton.1 h]
      obtain ⟨hbus, hclaims⟩ := hissued
      obtain ⟨m, hm, hbus⟩ := Option.map_eq_some_iff.1 hbus
      refine ⟨rfl, rfl, m, ?_⟩
      unfold requestAt at hclaims
      rw [hm, Option.bind_some] at hclaims
      cases hasks : m.consumer.request? with
      | none =>
        rw [hasks] at hclaims
        cases hclaims
      | some request =>
        rw [hasks] at hclaims
        cases request with
        | claim q => exact ⟨q, hm, hbus, rfl⟩
        | _ => cases hclaims
    case isFalse => cases h
  case h_2 => cases h

def ledgerAfter (l : Ledger) (s : System) (e : Event) : Ledger := ((s.call? e).map fun c => (l.call c).1).getD l

theorem ledgerOf_concat (events : List Event) (e : Event) :
    ledgerOf (events ++ [e]) = ledgerAfter (ledgerOf events) (outcome events) e := by
  unfold ledgerOf ledgerAfter
  rw [callsOf_concat]
  cases (outcome events).call? e with
  | none =>
    rw [Option.toList_none, List.append_nil]
    rfl
  | some c =>
    rw [Option.toList_some, Ledger.run_concat]
    rfl

/-! ## Members of a bus -/

/-- Members whose requests are answered before they do anything else. -/
def Ordered (bus : Nat) (s : System) : Prop :=
  ∀ (i : Nat) (m : Member), s.members[i]? = some m → m.bus = bus → (s.loop m).Sound ∧ m.consumer.phase.IsOrdered

theorem waits_of_drives (undisturbed : Undisturbed bus ids s e) {i : Nat} {m : Member} (hm : s.members[i]? = some m)
    (hbus : m.bus = bus) {b : Beat} (drives : Drives s i m e b) : (s.loop m).Waits b := by
  cases drives with
  | look =>
    have hidle := undisturbed (by rw [busAt, hm, ← hbus]; rfl)
    unfold requestAt at hidle
    rwa [hm] at hidle
  | finish | answer => trivial

theorem Ordered.occur (h : Ordered bus s) (undisturbed : Undisturbed bus ids s e) : Ordered bus (s.occur e).1 := by
  intro i m' hm' hbus
  rcases old_or_new hm' with ⟨m, hm, hsucceeds⟩ | ⟨-, -, hstarts⟩
  · have hbus' : m.bus = bus := hsucceeds.bus.symm.trans hbus
    obtain ⟨hsound, hordered⟩ := h i m hm hbus'
    rcases hsucceeds.phase with hphase | ⟨b, drives, hphase⟩
    · rw [hphase]
      exact ⟨hsound.congr hsucceeds.setup hphase hsucceeds.cancelled, hordered⟩
    · have hwaits := waits_of_drives undisturbed hm hbus' drives
      rw [hphase]
      refine ⟨(hsound.step b).congr (hsucceeds.setup.trans ((s.loop m).setup_step b).symm) hphase fun hfired => ?_,
        Loop.ordered_step hsound hordered hwaits⟩
      exact hsucceeds.cancelled (drives.fired.symm.trans hfired)
  · rw [hstarts]
    exact ⟨Loop.sound_of_starting hstarts, trivial⟩

/-- Members that have not claimed anything when their tokens fire never do. -/
def CalmFrom (bus n : Nat) (s : System) : Prop :=
  ∀ (i : Nat) (m : Member), s.members[i]? = some m → m.bus = bus → n ≤ i → m.consumer.phase.IsCalm

theorem CalmFrom.occur {n : Nat} (h : CalmFrom bus n s) (ordered : Ordered bus s)
    (undisturbed : Undisturbed bus ids s e) (shut : s.isShutDown bus = true) : CalmFrom bus n (s.occur e).1 := by
  intro i m' hm' hbus hn
  rcases old_or_new hm' with ⟨m, hm, hsucceeds⟩ | ⟨-, -, hstarts⟩
  · have hbus' : m.bus = bus := hsucceeds.bus.symm.trans hbus
    have hcalm := h i m hm hbus' hn
    rcases hsucceeds.phase with hphase | ⟨b, drives, hphase⟩
    · rwa [hphase]
    · rw [hphase]
      refine Loop.calm_step (ordered i m hm hbus').1 hcalm (waits_of_drives undisturbed hm hbus' drives) ?_
      show (m.stopped || s.isShutDown m.bus) = true
      rw [hbus', shut, Bool.or_true]
  · rw [hstarts]
    trivial

theorem CalmFrom.not_mem_issuedIn {n : Nat} (h : CalmFrom bus n s) {p : Nat × Uuid} (hp : p ∈ s.issuedIn bus e) :
    p.1 < n := by
  obtain ⟨-, -, m, q, hm, hbus, hasks⟩ := mem_issuedIn hp
  refine Nat.lt_of_not_le fun hn => ?_
  cases Consumer.request?_of_isCalm (h p.1 m hm hbus hn) hasks

/-! ## Claims -/

/-- Who was issued a token holds the claims under it, as long as they are held at all. -/
structure Settling (bus : Nat) (s : System) (l : Ledger) (tokens : List (Nat × Uuid)) : Prop where
  drawn : ∀ r, (l.current? r).isSome → ∃ n, n < s.drawn ∧ r.token = .drawn n
  issued : ∀ p ∈ tokens, s.busAt p.1 = some bus ∧ ∃ n, n < s.drawn ∧ p.2 = .drawn n
  held : ∀ (i : Nat) (m : Member) (r : Receipt), s.members[i]? = some m → (i, r.token) ∈ tokens →
    (l.current? r).isSome → ∃ k ∈ m.consumer.phase.held, k.receipt = r

theorem settling_start : Settling bus start .empty [] where
  drawn r h := by cases h
  issued p h := by cases h
  held i m r hm := by cases hm

/-- A claim under a new token has just been made, and any other was made before. -/
theorem held_or_claimed (refines : s.store.Refines l) {r : Receipt}
    (held : ((ledgerAfter l s e).current? r).isSome) :
    (l.current? r).isSome ∨ ∃ c q messages, s.call? e = some c ∧ c.action = .request (.claim q) ∧
      (s.store.call c).2.1 = .ok (.claimed messages) ∧ (∃ k ∈ messages, k.receipt = r) ∧ r.token = .drawn s.drawn := by
  unfold ledgerAfter at held
  cases hcall : s.call? e with
  | none =>
    rw [hcall] at held
    exact Or.inl held
  | some c =>
    rw [hcall] at held
    rcases InMemory.claimed_of_held refines held with hbefore | ⟨q, messages, hclaim, answered, k, hk, rfl⟩
    · exact Or.inl hbefore
    · refine Or.inr ⟨c, q, messages, rfl, hclaim, answered, ⟨k, hk, rfl⟩, ?_⟩
      have htoken := (InMemory.held_of_claim refines hclaim answered hk).1
      unfold Call.claimToken? at htoken
      rw [hclaim] at htoken
      rw [← Option.some.inj htoken]
      exact (claims_of_call? hcall hclaim).1

theorem call?_answer {i : Nat} {m : Member} (hm : s.members[i]? = some m) {request : Store.Request}
    (asks : m.consumer.request? = some request) :
    s.call? (.turn (.answer i .performed)) = some ⟨s.now, .drawn s.drawn, .request request⟩ := by
  show (s.requestAt i).map _ = _
  rw [requestAt, hm, Option.bind_some, asks]
  rfl

/-- Whoever is parted from a claim that is still held has asked a store that is closed. -/
theorem closed_of_parts (refines : s.store.Refines l) (undisturbed : Undisturbed bus ids s e) {i : Nat} {m : Member}
    (hm : s.members[i]? = some m) (hbus : m.bus = bus) {b : Beat} (drives : Drives s i m e b) {r : Receipt}
    (parts : (s.loop m).Parts r b) (before : (l.current? r).isSome) (after : ((ledgerAfter l s e).current? r).isSome) :
    s.store.closed = true := by
  cases drives with
  | look | finish => exact parts.elim
  | @answer fate request publisher asks =>
    obtain ⟨request', hasks, hreceipt, hrenew⟩ := parts
    obtain rfl := Option.some.inj (asks.symm.trans hasks)
    obtain rfl : fate = .performed := undisturbed (by rw [busAt, hm, ← hbus]; rfl)
    rw [← Bool.not_eq_false]
    intro hopened
    unfold ledgerAfter at after
    rw [call?_answer hm asks] at after
    -- an open store settles it, or confirms that it is held
    have hsettled : InMemory.Visit.Settles r (s.store, ⟨s.now, .drawn s.drawn, .request request⟩) → False := by
      intro hsettles
      have hlost := InMemory.spent_settled refines hsettles hopened
      change ((l.call _).1.current? r).isSome = true at after
      rw [hlost] at after
      cases after
    cases request with
    | ack r' =>
      obtain rfl := Option.some.inj hreceipt
      exact hsettled (Or.inl rfl)
    | nack r' d =>
      obtain rfl := Option.some.inj hreceipt
      exact hsettled (Or.inr ⟨d, rfl⟩)
    | renew r' lease =>
      obtain rfl := Option.some.inj hreceipt
      obtain ⟨e, he⟩ := Option.isSome_iff_exists.1 before
      obtain ⟨topic, x, hx, ho⟩ := refines.sound.known _ _ _ (Ledger.current?_eq_some.1 he).1
      have hhonours := InMemory.honours_of_held refines hopened before ⟨x, hx, ho⟩
      have hanswer := (hhonours.renew s.now (.drawn s.drawn) lease).1
      cases hrenew rfl (.held true) (congrArg Prod.fst hanswer)
    | _ => cases hreceipt

theorem held_of_answered (ordered : Ordered bus s) {i : Nat} {m m' : Member} (hm : s.members[i]? = some m)
    (hbus : m.bus = bus) {q : ClaimRequest} (asks : m.consumer.request? = some (.claim q)) {messages : List Claimed}
    (answered : (s.ask .performed (.claim q)).2.1 = .ok (.claimed messages))
    (hm' : (s.occur (.turn (.answer i .performed))).1.members[i]? = some m') {k : Claimed} (hk : k ∈ messages) :
    ∃ k' ∈ m'.consumer.phase.held, k'.receipt = k.receipt := by
  obtain ⟨hsound, hordered⟩ := ordered i m hm hbus
  obtain ⟨c, announced, hmembers, -, hphase⟩ := members_answer hm asks .performed
  change (s.answer i .performed).1.members[i]? = _ at hm'
  rw [hmembers, List.getElem?_set, if_pos rfl, if_pos (List.getElem?_eq_some_iff.1 hm).1] at hm'
  obtain rfl := Option.some.inj hm'
  rw [answered] at hphase
  show ∃ k' ∈ c.phase.held, _
  rw [hphase]
  have hreceived : k ∈ (s.loop m).phase.received (.answer s.now (s.observe m).publisher (.ok (.claimed messages))) := by
    have hclaiming : (s.loop m).phase.isClaiming = true := (Consumer.claiming_of_request? hordered asks).1
    show k ∈ if (s.loop m).phase.isClaiming then _ else _
    rw [if_pos hclaiming]
    exact hk
  have hwaits : (s.loop m).Waits (.answer s.now (s.observe m).publisher (.ok (.claimed messages))) := trivial
  refine (Loop.keeps_step hsound hordered hwaits (Or.inr hreceived)).resolve_right ?_
  rintro ⟨request, hasks, hreceipt, -⟩
  obtain rfl := Option.some.inj (asks.symm.trans hasks)
  cases hreceipt

theorem Settling.drawn_occur (h : Settling bus s l tokens) (refines : s.store.Refines l) {r : Receipt}
    (held : ((ledgerAfter l s e).current? r).isSome) : ∃ n, n < (s.occur e).1.drawn ∧ r.token = .drawn n := by
  rcases held_or_claimed refines held with hbefore | ⟨c, q, messages, hcall, hclaim, -, -, htoken⟩
  · obtain ⟨n, hn, htoken⟩ := h.drawn r hbefore
    exact ⟨n, Nat.lt_of_lt_of_le hn (System.drawn_occur refines e), htoken⟩
  · refine ⟨s.drawn, ?_, htoken⟩
    rw [(claims_of_call? hcall hclaim).2.1]
    exact Nat.lt_succ_self _

theorem Settling.issued_occur (h : Settling bus s l tokens) (refines : s.store.Refines l) {p : Nat × Uuid}
    (hp : p ∈ tokens ++ s.issuedIn bus e) :
    (s.occur e).1.busAt p.1 = some bus ∧ ∃ n, n < (s.occur e).1.drawn ∧ p.2 = .drawn n := by
  have hstays : ∀ {i m}, s.members[i]? = some m → m.bus = bus → (s.occur e).1.busAt i = some bus := by
    intro i m hm hbus
    obtain ⟨m', hm', hsucceeds⟩ := (recasts_occur s e).old i m hm
    rw [busAt, hm', Option.map_some, hsucceeds.bus, hbus]
  rcases List.mem_append.1 hp with hp | hp
  · obtain ⟨hbus, n, hn, htoken⟩ := h.issued p hp
    obtain ⟨m, hm, hbus⟩ := Option.map_eq_some_iff.1 hbus
    exact ⟨hstays hm hbus, n, Nat.lt_of_lt_of_le hn (System.drawn_occur refines e), htoken⟩
  · obtain ⟨rfl, htoken, m, q, hm, hbus, hasks⟩ := mem_issuedIn hp
    refine ⟨hstays hm hbus, s.drawn, ?_, htoken⟩
    rw [(claims_of_call? (call?_answer hm hasks) rfl).2.1]
    exact Nat.lt_succ_self _

/-- The token of a claim has not been drawn before. -/
theorem drawn_fresh {c : Call} (hcall : s.call? e = some c) {q : ClaimRequest} (claims : c.action = .request (.claim q))
    (bound : (s.occur e).1.drawn ≤ Uuid.supply) {n : Nat} (hn : n < s.drawn) : Uuid.drawn n ≠ .drawn s.drawn := by
  rw [(claims_of_call? hcall claims).2.1] at bound
  intro hsame
  have := Uuid.drawn_inj (by omega) (by omega) hsame
  omega

/-- Whoever had a message at hand has it still, as long as the claim is held. -/
theorem Settling.keeps (h : Settling bus s l tokens) (refines : s.store.Refines l) (ordered : Ordered bus s)
    (undisturbed : Undisturbed bus ids s e) (closed : s.store.closed = true → CalmFrom bus 0 s) {i : Nat} {m m' : Member}
    (hm : s.members[i]? = some m) (hbus : m.bus = bus) (succeeds : Succeeds s e i m m') {r : Receipt}
    (issued : (i, r.token) ∈ tokens) (before : (l.current? r).isSome)
    (after : ((ledgerAfter l s e).current? r).isSome) : ∃ k ∈ m'.consumer.phase.held, k.receipt = r := by
  obtain ⟨hsound, hordered⟩ := ordered i m hm hbus
  obtain ⟨k, hk, rfl⟩ := h.held i m r hm issued before
  rcases succeeds.phase with hphase | ⟨b, drives, hphase⟩
  · exact ⟨k, hphase ▸ hk, rfl⟩
  · rw [hphase]
    have hwaits := waits_of_drives undisturbed hm hbus drives
    refine (Loop.keeps_step hsound hordered hwaits (Or.inl hk)).resolve_right fun hparts => ?_
    have hclosed := closed_of_parts refines undisturbed hm hbus drives hparts before after
    rw [(closed hclosed i m hm hbus (Nat.zero_le i)).held] at hk
    cases hk

/-- **Whoever was issued a token has the messages at hand** that are claimed under it, as long as they are. -/
theorem Settling.occur (h : Settling bus s l tokens) (refines : s.store.Refines l) (ordered : Ordered bus s)
    (undisturbed : Undisturbed bus ids s e) (bound : (s.occur e).1.drawn ≤ Uuid.supply)
    (closed : s.store.closed = true → CalmFrom bus 0 s) :
    Settling bus (s.occur e).1 (ledgerAfter l s e) (tokens ++ s.issuedIn bus e) where
  drawn r hr := h.drawn_occur refines hr
  issued p hp := h.issued_occur refines hp
  held i m' r hm' hp hr := by
    obtain ⟨m, hm, hbus⟩ : ∃ m, s.members[i]? = some m ∧ m.bus = bus := by
      rcases List.mem_append.1 hp with hp | hp
      · exact Option.map_eq_some_iff.1 (h.issued _ hp).1
      · obtain ⟨-, -, m, q, hm, hbus, -⟩ := mem_issuedIn hp
        exact ⟨m, hm, hbus⟩
    obtain ⟨_, hsome, hsucceeds⟩ := (recasts_occur s e).old i m hm
    obtain rfl := Option.some.inj (hm'.symm.trans hsome)
    rcases held_or_claimed refines hr with hbefore | ⟨c, q, messages, hcall, hclaim, answered, ⟨k, hk, rfl⟩, htoken⟩
    · refine h.keeps refines ordered undisturbed closed hm hbus hsucceeds ?_ hbefore hr
      refine (List.mem_append.1 hp).resolve_right fun hnew => ?_
      obtain ⟨rfl, hnow, m₂, q, hm₂, -, hasks⟩ := mem_issuedIn hnew
      obtain ⟨n, hn, htoken⟩ := h.drawn r hbefore
      exact drawn_fresh (call?_answer hm₂ hasks) rfl bound hn (htoken.symm.trans hnow)
    · have hnew : (i, k.receipt.token) ∈ s.issuedIn bus e := by
        refine (List.mem_append.1 hp).resolve_left fun hold => ?_
        obtain ⟨n, hn, hold⟩ := (h.issued _ hold).2
        exact drawn_fresh hcall hclaim bound hn (hold.symm.trans htoken)
      obtain ⟨rfl, -, m₂, q₂, hm₂, -, hasks⟩ := mem_issuedIn hnew
      obtain rfl := Option.some.inj (hm.symm.trans hm₂)
      obtain rfl := Option.some.inj ((call?_answer hm hasks).symm.trans hcall)
      exact held_of_answered ordered hm hbus hasks answered hm' hk

end System

end DurableBus
