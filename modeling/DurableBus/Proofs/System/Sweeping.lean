import DurableBus.Proofs.System.Settling

/-!
# What a store knows about broadcast groups

A broadcast subscription forgets its group when it ends, so that nothing of the group stays in the store.

* `Naming` : no two broadcast subscriptions share a group, and nobody else claims for one;
* `Sweeping` : a broadcast group is unknown to the store unless its subscription has yet to forget it;
* `Swept` : broadcast groups are unknown, as they stay when their subscriptions are done.
-/

set_option autoImplicit false

namespace DurableBus

open Consumer (Setup)
open Store (Call)

/-- Whether a member has a group of its own, which it forgets when it ends. -/
def Member.IsEphemeral (m : Member) : Prop := m.consumer.setup.role = .subscriber true

instance (m : Member) : Decidable m.IsEphemeral := inferInstanceAs (Decidable (_ = _))

namespace System

variable {bus ids : Nat} {s : System} {l : Ledger} {e : Event}

/-! ## Names -/

theorem Joins.group {setup : Setup} (joins : Joins s e setup) (undisturbed : Undisturbed bus ids s e) :
    setup.role ≠ .subscriber true ∧ ¬ IsBroadcastGroup ids setup.group ∨
      setup.group = broadcastGroup (.drawn s.drawn) ∧ (s.occur e).1.drawn = s.drawn + 1 := by
  cases joins with
  | named permitted => rcases permitted with rfl | rfl <;> exact Or.inl ⟨by rintro ⟨⟩, undisturbed⟩
  | broadcast drawn => exact Or.inr ⟨rfl, drawn⟩
  | forwarder permitted known =>
    rcases permitted with rfl | rfl <;> exact Or.inl ⟨by rintro ⟨⟩, undisturbed _ known⟩

/-- No two broadcast subscriptions share a group, and no other member has one of theirs. -/
structure Naming (ids : Nat) (s : System) : Prop where
  unused : ∀ (i : Nat) (m : Member), s.members[i]? = some m → ∀ n, s.drawn ≤ n → n < ids →
    m.consumer.setup.group ≠ broadcastGroup (.drawn n)
  broadcast : ∀ (i : Nat) (m : Member), s.members[i]? = some m → m.IsEphemeral →
    IsBroadcastGroup ids m.consumer.setup.group
  apart : ∀ (i j : Nat) (m m' : Member), s.members[i]? = some m → s.members[j]? = some m' → i ≠ j → m.IsEphemeral →
    m.consumer.setup.group ≠ m'.consumer.setup.group

theorem naming_start : Naming ids start where
  unused i m hm := by cases hm
  broadcast i m hm := by cases hm
  apart i j m m' hm := by cases hm

theorem Succeeds.ephemeral {i : Nat} {m m' : Member} (h : Succeeds s e i m m') (ephemeral : m'.IsEphemeral) :
    m.IsEphemeral := by
  unfold Member.IsEphemeral at ephemeral ⊢
  rwa [← h.setup]

theorem Naming.occur (h : Naming ids s) (undisturbed : Undisturbed bus ids s e) (more : s.drawn ≤ (s.occur e).1.drawn)
    (bound : (s.occur e).1.drawn ≤ ids) (supply : ids ≤ Uuid.supply) : Naming ids (s.occur e).1 where
  unused i m' hm' n hn hids := by
    rcases old_or_new hm' with ⟨m, hm, hsucceeds⟩ | ⟨-, joins, -⟩
    · rw [hsucceeds.setup]
      exact h.unused i m hm n (by omega) hids
    · rcases joins.group undisturbed with ⟨-, hother⟩ | ⟨hgroup, hdrawn⟩
      · exact fun hsame => hother ⟨n, hids, hsame⟩
      · rw [hgroup]
        intro hsame
        have := Uuid.drawn_inj (by omega) (by omega) (broadcastGroup_inj hsame)
        omega
  broadcast i m' hm' ephemeral := by
    rcases old_or_new hm' with ⟨m, hm, hsucceeds⟩ | ⟨-, joins, -⟩
    · rw [hsucceeds.setup]
      exact h.broadcast i m hm (hsucceeds.ephemeral ephemeral)
    · rcases joins.group undisturbed with ⟨hother, -⟩ | ⟨hgroup, hdrawn⟩
      · exact absurd ephemeral hother
      · exact ⟨s.drawn, by omega, hgroup⟩
  apart i j m' n' hm' hn' hij ephemeral := by
    rcases old_or_new hm' with ⟨m, hm, hm'⟩ | ⟨hi, joins, -⟩
    · rcases old_or_new hn' with ⟨n, hn, hn'⟩ | ⟨-, joins', -⟩
      · rw [hm'.setup, hn'.setup]
        exact h.apart i j m n hm hn hij (hm'.ephemeral ephemeral)
      · rw [hm'.setup]
        rcases joins'.group undisturbed with ⟨-, hother⟩ | ⟨hgroup, hdrawn⟩
        · intro hsame
          exact hother (hsame ▸ h.broadcast i m hm (hm'.ephemeral ephemeral))
        · rw [hgroup]
          exact h.unused i m hm s.drawn (Nat.le_refl _) (by omega)
    · rcases joins.group undisturbed with ⟨hother, -⟩ | ⟨hgroup, hdrawn⟩
      · exact absurd ephemeral hother
      · rcases old_or_new hn' with ⟨n, hn, hn'⟩ | ⟨hj, -, -⟩
        · rw [hgroup, hn'.setup]
          exact (h.unused j n hn s.drawn (Nat.le_refl _) (by omega)).symm
        · exact absurd (hi.trans hj.symm) hij

/-- Whoever claims for a broadcast group is a member with that group. -/
theorem claimer_of_call? (undisturbed : Undisturbed bus ids s e) {c : Call} (hcall : s.call? e = some c)
    {q : ClaimRequest} (claims : c.action = .request (.claim q)) (broadcast : IsBroadcastGroup ids q.group) :
    ∃ (j : Nat) (m : Member), s.members[j]? = some m ∧ m.consumer.request? = some (.claim q) ∧
      q.group = m.consumer.setup.group ∧ q.topic = m.consumer.setup.topic := by
  obtain ⟨-, -, ⟨j, rfl, hrequest⟩ | rfl⟩ := claims_of_call? hcall claims
  · obtain ⟨m, hm, hasks⟩ := Option.bind_eq_some_iff.1 hrequest
    obtain rfl := (Consumer.asks_of_request hasks).claim_eq
    exact ⟨j, m, hm, hasks, rfl, rfl⟩
  · exact absurd broadcast (undisturbed.2 q rfl)

theorem knows_occur {group : String} {topics : String → Prop} (h : s.store.Knows l group topics)
    (refines : s.store.Refines l) (claims : ∀ c q, s.call? e = some c → c.action = .request (.claim q) →
      q.group = group → topics q.topic) : (s.occur e).1.store.Knows (ledgerAfter l s e) group topics := by
  rw [store_occur]
  unfold storeAfter ledgerAfter
  cases hcall : s.call? e with
  | none => exact h
  | some c => exact h.call refines fun q hq => claims c q hcall hq

/-! ## Groups -/

/-- What is known about the groups of the broadcast subscriptions of a bus. -/
structure Sweeping (bus ids : Nat) (s : System) (l : Ledger) : Prop where
  unused : ∀ n, s.drawn ≤ n → n < ids → s.store.Knows l (broadcastGroup (.drawn n)) fun _ => False
  known : ∀ (i : Nat) (m : Member), s.members[i]? = some m → m.bus = bus → m.IsEphemeral →
    s.store.Knows l m.consumer.setup.group (· = m.consumer.setup.topic)
  /-- A group that is known has yet to be forgotten. -/
  swept : ∀ (i : Nat) (m : Member), s.members[i]? = some m → m.bus = bus → m.IsEphemeral →
    s.store.Knows l m.consumer.setup.group (fun _ => False) ∨ m.consumer.phase.IsAttached

/-- Nothing is known about the groups of the broadcast subscriptions of a bus. -/
def Swept (bus : Nat) (s : System) (l : Ledger) : Prop :=
  ∀ (i : Nat) (m : Member), s.members[i]? = some m → m.bus = bus → m.IsEphemeral →
    s.store.Knows l m.consumer.setup.group fun _ => False

theorem sweeping_start : Sweeping bus ids start .empty where
  unused _ _ _ := InMemory.knows_empty _ _
  known i m hm := by cases hm
  swept i m hm := by cases hm

/-- Nobody claims for the group of a subscription that is still to begin. -/
theorem Sweeping.unused_occur (h : Sweeping bus ids s l) (naming : Naming ids s) (refines : s.store.Refines l)
    (undisturbed : Undisturbed bus ids s e) {n : Nat} (hn : s.drawn ≤ n) (hids : n < ids) :
    (s.occur e).1.store.Knows (ledgerAfter l s e) (broadcastGroup (.drawn n)) fun _ => False := by
  refine knows_occur (h.unused n hn hids) refines fun c q hcall hclaim hgroup => ?_
  obtain ⟨j, m, hm, -, hown, -⟩ := claimer_of_call? undisturbed hcall hclaim ⟨n, hids, hgroup⟩
  exact naming.unused j m hm n hn hids (hown.symm.trans hgroup)

theorem Sweeping.joined (h : Sweeping bus ids s l) (naming : Naming ids s) (refines : s.store.Refines l)
    (undisturbed : Undisturbed bus ids s e) (bound : (s.occur e).1.drawn ≤ ids) {m' : Member}
    (joins : Joins s e m'.consumer.setup) (ephemeral : m'.IsEphemeral) :
    (s.occur e).1.store.Knows (ledgerAfter l s e) m'.consumer.setup.group fun _ => False := by
  rcases joins.group undisturbed with ⟨hother, -⟩ | ⟨hgroup, hdrawn⟩
  · exact absurd ephemeral hother
  · rw [hgroup]
    exact h.unused_occur naming refines undisturbed (Nat.le_refl _) (by omega)

/-- Nobody but its subscription claims for a broadcast group. -/
theorem Naming.claimer (naming : Naming ids s) (undisturbed : Undisturbed bus ids s e) {i : Nat} {m : Member}
    (hm : s.members[i]? = some m) (ephemeral : m.IsEphemeral) {c : Call} (hcall : s.call? e = some c) {q : ClaimRequest}
    (claims : c.action = .request (.claim q)) (own : q.group = m.consumer.setup.group) :
    m.consumer.request? = some (.claim q) ∧ q.topic = m.consumer.setup.topic := by
  have hbroadcast := naming.broadcast i m hm ephemeral
  rw [← own] at hbroadcast
  obtain ⟨j, n, hn, hasks, hgroup, htopic⟩ := claimer_of_call? undisturbed hcall claims hbroadcast
  by_cases hij : i = j
  · subst hij
    obtain rfl := Option.some.inj (hm.symm.trans hn)
    exact ⟨hasks, htopic⟩
  · exact absurd (own.symm.trans hgroup) (naming.apart i j m n hm hn hij ephemeral)

theorem Swept.occur (h : Swept bus s l) (sweeping : Sweeping bus ids s l) (naming : Naming ids s)
    (refines : s.store.Refines l) (undisturbed : Undisturbed bus ids s e) (bound : (s.occur e).1.drawn ≤ ids)
    (calm : CalmFrom bus 0 s) : Swept bus (s.occur e).1 (ledgerAfter l s e) := by
  intro i m' hm' hbus ephemeral
  rcases old_or_new hm' with ⟨m, hm, hsucceeds⟩ | ⟨-, joins, -⟩
  · have hephemeral := hsucceeds.ephemeral ephemeral
    have hbus' : m.bus = bus := hsucceeds.bus.symm.trans hbus
    rw [hsucceeds.setup]
    refine knows_occur (h i m hm hbus' hephemeral) refines fun c q hcall hclaim hown => ?_
    have hasks := (naming.claimer undisturbed hm hephemeral hcall hclaim hown).1
    cases Consumer.request?_of_isCalm (calm i m hm hbus' (Nat.zero_le i)) hasks
  · exact sweeping.joined naming refines undisturbed bound joins ephemeral

/-- Whoever forgets its group leaves nothing of it in the store. -/
theorem Sweeping.forgotten (h : Sweeping bus ids s l) (refines : s.store.Refines l)
    (undisturbed : Undisturbed bus ids s e) (closed : s.store.closed = true → Swept bus s l) {i : Nat} {m : Member}
    (hm : s.members[i]? = some m) (hbus : m.bus = bus) (ephemeral : m.IsEphemeral) {b : Beat} (drives : Drives s i m e b)
    (was : m.consumer.phase = .forgetting) (ends : ((s.loop m).step b).phase = .ended) :
    (s.occur e).1.store.Knows (ledgerAfter l s e) m.consumer.setup.group fun _ => False := by
  have hasks : m.consumer.request? = some (.forgetGroup m.consumer.setup.topic m.consumer.setup.group) := by
    unfold Consumer.request?
    rw [was]
  have hwaits := waits_of_drives undisturbed hm hbus drives
  cases drives with
  | look =>
    have hnone : m.consumer.request? = none := hwaits
    cases hasks.symm.trans hnone
  | finish =>
    unfold Loop.step loop Loop.phase Consumer.finish at ends
    rw [was] at ends
    simp only [was] at ends
    cases ends
  | answer asks =>
    obtain rfl := Option.some.inj (hasks.symm.trans asks)
    obtain rfl := undisturbed (by rw [busAt, hm, ← hbus]; rfl)
    rw [store_occur]
    unfold storeAfter ledgerAfter
    rw [call?_answer hm hasks]
    cases hclosed : s.store.closed with
    | false => exact (h.known i m hm hbus ephemeral).forgotten refines hclosed rfl
    | true => exact (closed hclosed i m hm hbus ephemeral).call refines fun q hq => by cases hq

theorem Sweeping.occur (h : Sweeping bus ids s l) (naming : Naming ids s) (refines : s.store.Refines l)
    (ordered : Ordered bus s) (undisturbed : Undisturbed bus ids s e) (bound : (s.occur e).1.drawn ≤ ids)
    (closed : s.store.closed = true → Swept bus s l) : Sweeping bus ids (s.occur e).1 (ledgerAfter l s e) where
  unused n hn hids := h.unused_occur naming refines undisturbed (Nat.le_trans (drawn_occur refines e) hn) hids
  known i m' hm' hbus ephemeral := by
    rcases old_or_new hm' with ⟨m, hm, hsucceeds⟩ | ⟨-, joins, -⟩
    · have hephemeral := hsucceeds.ephemeral ephemeral
      rw [hsucceeds.setup]
      have hknown := h.known i m hm (hsucceeds.bus.symm.trans hbus) hephemeral
      refine knows_occur hknown refines fun c q hcall hclaim hown => ?_
      exact (naming.claimer undisturbed hm hephemeral hcall hclaim hown).2
    · exact (h.joined naming refines undisturbed bound joins ephemeral).mono fun _ hfalse => hfalse.elim
  swept i m' hm' hbus ephemeral := by
    rcases old_or_new hm' with ⟨m, hm, hsucceeds⟩ | ⟨-, joins, -⟩
    · have hephemeral := hsucceeds.ephemeral ephemeral
      have hbus' : m.bus = bus := hsucceeds.bus.symm.trans hbus
      obtain ⟨hsound, hordered⟩ := ordered i m hm hbus'
      by_cases attached : m.consumer.phase.IsAttached
      · rcases hsucceeds.phase with hphase | ⟨b, drives, hphase⟩
        · exact Or.inr (hphase ▸ attached)
        · have hwaits := waits_of_drives undisturbed hm hbus' drives
          rw [hphase, hsucceeds.setup]
          rcases Loop.attached_step hsound attached hwaits hephemeral with hstays | ⟨was, ends⟩
          · exact Or.inr hstays
          · exact Or.inl (h.forgotten refines undisturbed closed hm hbus' hephemeral drives was ends)
      · left
        rw [hsucceeds.setup]
        have hswept := (h.swept i m hm hbus' hephemeral).resolve_right attached
        refine knows_occur hswept refines fun c q hcall hclaim hown => ?_
        have hasks := (naming.claimer undisturbed hm hephemeral hcall hclaim hown).1
        exact attached (Consumer.claiming_of_request? hordered hasks).2
    · exact Or.inl (h.joined naming refines undisturbed bound joins ephemeral)

end System

end DurableBus
