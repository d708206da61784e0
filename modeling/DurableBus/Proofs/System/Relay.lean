import Mathlib.Data.List.Pairwise
import DurableBus.Proofs.System.Exclusive
import DurableBus.Proofs.System.Outbox
import DurableBus.Proofs.System.Transactions

/-!
# Relaying once

Among forwarders that are done with every envelope before the lease of its claim ends, an envelope is passed on at most
once, and once if it is final.

* `Core.Done` : the work on a message has succeeded;
* `Done.step` : success stays noted;
* `Relayed` : an envelope has been copied only if the work on it is done, and once at most;
* `Relayed.step` : every step keeps that;
* `relays_exactly_once` : what follows for a run.
-/

set_option autoImplicit false

namespace DurableBus

open Consumer (Setup)

namespace System

namespace Core

open Handout (OneByOne Prompt)

variable {reserved group : String} {c c' : Core} {hs : List Handout} {t : Turn}

/-! ## Work that is done -/

/-- Whether somebody has worked on a message successfully: the claim has been acknowledged, or is about to be. -/
def Done (topic group : String) (c : Core) (hs : List Handout) (offset : Int) : Prop :=
  ∃ x ∈ hs, x.IsOn topic group ∧ x.receipt.offset = offset ∧
    ((∃ t, x.ended = some (t, true)) ∨
      x.ended = none ∧ ∃ setup job, c.workAt x.member = some (setup, job) ∧ job.isAcking)

theorem Step.workAt_of_unmoved (hstep : Step c t c') (unmoved : t.mover? = none) : c'.workAt = c.workAt := by
  cases hstep with
  | looked | finished | answered => cases unmoved
  | subscribed known free more => exact workAt_joined c _
  | forwarding known => exact workAt_joined c _
  | published | asked | closed => exact workAt_ask _ _ _
  | _ => rfl

theorem Step.workAt_of_ne (hstep : Step c t c') {i j : Nat} (mover : t.mover? = some i) (other : j ≠ i) :
    c'.workAt j = c.workAt j := by
  cases hstep with
  | still => rfl
  | looked post | finished post =>
    cases mover
    rw [workAt_enter post, if_neg other]
  | answered post waits =>
    cases mover
    rw [workAt_enter (post_ask post), if_neg other, workAt_ask]
  | _ => cases mover

/-- Who has worked on a message successfully has it in hand until the claim is settled. -/
theorem Step.workAt_of_acking (hstep : Step c t c') {i : Nat} (mover : t.mover? = some i) {setup : Setup} {job : Job}
    (busy : c.workAt i = some (setup, job)) (acking : job.isAcking) :
    c'.workAt i = c.workAt i ∨ c'.workAt i = none := by
  cases hstep with
  | still => exact Or.inl rfl
  | looked post =>
    cases mover
    have hjob := job?_of_workAt post busy
    left
    rw [workAt_of_post (post_enter post _), workAt_of_post post, Consumer.look_of_acking _ hjob acking]
  | finished post =>
    cases mover
    have hjob := job?_of_workAt post busy
    left
    rw [workAt_of_post (post_enter post _), workAt_of_post post, Consumer.finish_of_acking _ hjob acking]
  | answered post waits =>
    cases mover
    have hjob := job?_of_workAt post busy
    right
    rw [workAt_of_post (post_enter (post_ask post) _), Consumer.answer_of_acking _ _ hjob acking]
    rfl
  | _ => cases mover

/-- **Success stays noted.** -/
theorem Done.step {offset : Int} (h : c.Done reserved group hs offset) (hstep : Step c t c') :
    c'.Done reserved group (t.note c.now c.workAt c'.workAt hs) offset := by
  obtain ⟨x, hx, hon, ho, ⟨t', hended⟩ | ⟨hopen, setup, job, busy, hacking⟩⟩ := h
  · -- what has ended stays as it has
    have hkept : ∀ i success, (x.settle i c.now success).ended = some (t', true) := by
      intro i success
      rcases x.ended_settle i c.now success with ⟨-, hopen, -⟩ | ⟨-, hsame⟩
      · rw [hopen] at hended
        cases hended
      · rw [hsame, hended]
    rcases t.mem_note c.now c.workAt c'.workAt hx with hx' | ⟨i, success, hx'⟩
    · exact ⟨x, hx', hon, ho, Or.inl ⟨t', hended⟩⟩
    · exact ⟨_, hx', hon, ho, Or.inl ⟨t', hkept i success⟩⟩
  · cases hmover : t.mover? with
    | none =>
      rw [Turn.note_of_unmoved hmover]
      exact ⟨x, hx, hon, ho, Or.inr ⟨hopen, setup, job, by rw [hstep.workAt_of_unmoved hmover, busy], hacking⟩⟩
    | some i =>
      rw [Turn.note_of_mover hmover]
      by_cases hother : x.member = i
      · rw [hother] at busy
        rcases hstep.workAt_of_acking hmover busy hacking with hsame | hnone
        · rw [hsame, busy]
          exact ⟨x, hx, hon, ho, Or.inr ⟨hopen, setup, job, by rw [hother, hsame, busy], hacking⟩⟩
        · -- the claim is settled now
          rw [busy, hnone]
          refine ⟨_, List.mem_map_of_mem hx, hon, ho, Or.inl ⟨c.now, ?_⟩⟩
          rcases x.ended_settle i c.now job.isAcking with ⟨-, -, hsettle⟩ | ⟨hne, -⟩
          · rw [hsettle, hacking]
          · exact absurd hother (hne hopen)
      · have hwork : c'.workAt x.member = some (setup, job) := by
          rw [hstep.workAt_of_ne hmover hother, busy]
        rcases Handout.mem_note hx i c.now (c.workAt i) (c'.workAt i) with hx' | ⟨success, hx'⟩
        · exact ⟨x, hx', hon, ho, Or.inr ⟨hopen, setup, job, hwork, hacking⟩⟩
        · refine ⟨_, hx', hon, ho, Or.inr ⟨?_, setup, job, hwork, hacking⟩⟩
          rcases x.ended_settle i c.now success with ⟨hi, -, -⟩ | ⟨-, hsame⟩
          · exact absurd hi hother
          · rw [hsame, hopen]

/-! ## Copies -/

/-- Whatever has been passed on after a step had been passed on before, or is shipped with it. -/
theorem Outbox.relayed_of_step (h : Outbox reserved group c) (spares : t.SparesOutbox reserved group)
    (hstep : Step c t c') {m : Stored} (hm : m ∈ c'.ledger.log reserved) (relayed : c'.isRelayed group m.offset) :
    c.isRelayed group m.offset ∨
      ∃ i setup k e, t.mover? = some i ∧ c.Ships c' i setup k e ∧ k.receipt.offset = m.offset := by
  cases hstep with
  | still | waited | drew | opened => exact Or.inl relayed
  | subscribed known free more => exact Or.inl (isRelayed_joined (c := c) relayed)
  | forwarding known => exact Or.inl (isRelayed_joined relayed)
  | @published _ _ _ _ _ _ _ n =>
    exact Or.inl (isRelayed_ask (c := { c with drawn := c.drawn + n }) (fun r hr => by cases hr) relayed)
  | committed done => exact Or.inl (isRelayed_commit done relayed)
  | asked =>
    refine Or.inl (isRelayed_ask ?_ relayed)
    rintro r rfl
    exact spares
  | closed => exact Or.inl (isRelayed_ask (fun r hr => by cases hr) relayed)
  | looked post =>
    have hphase := h.sound.phases _ (List.mem_of_getElem? post)
    exact Or.inl (h.relayed_of_moved post (Consumer.passes_look _ _ hphase) hm relayed)
  | finished post =>
    have hphase := h.sound.phases _ (List.mem_of_getElem? post)
    exact Or.inl (h.relayed_of_moved post (Consumer.passes_finish _ _ hphase) hm relayed)
  | answered post waits =>
    have hphase := h.sound.phases _ (List.mem_of_getElem? post)
    rcases relayed_of_answered post (Consumer.asks_of_request waits) (Consumer.passes_answer _ _ _ hphase waits)
      relayed with hbefore | ⟨k, e, work, busy, ho, a, rfl, hreply⟩
    · exact Or.inl hbefore
    · obtain ⟨k', e', hships⟩ := ships_of_answered post waits hreply
      obtain ⟨work', hwork, -⟩ := hships.workAt
      have hsame := job?_of_workAt post hwork
      rw [busy] at hsame
      cases hsame
      exact Or.inr ⟨_, _, _, _, rfl, hships, ho⟩

/-- **The invariant of relaying once.** `copies` are what consumers have stored while they worked on a message. -/
structure Relayed (reserved group : String) (c : Core) (hs : List Handout) (copies : Int → String → List Stored) :
    Prop where
  done : ∀ offset topic, copies offset topic ≠ [] → c.Done reserved group hs offset
  /-- A copy is stored on the topic that the envelope names, and is the message that is in it. -/
  faithful : ∀ offset topic, ∀ x ∈ copies offset topic, x ∈ c.ledger.log topic ∧
    ∃ m ∈ c.ledger.log reserved, m.offset = offset ∧ Envelope.unwrap m.message = .ok ⟨topic, x.message⟩
  single : ∀ offset topic, (copies offset topic).length ≤ 1
  copied : ∀ m ∈ c.ledger.log reserved, ∀ e, Envelope.unwrap m.message = .ok e → c.isRelayed group m.offset →
    copies m.offset e.destination ≠ []

theorem relayed_start (reserved group : String) : Relayed reserved group start [] fun _ _ => [] where
  done _ _ h := absurd rfl h
  faithful _ _ _ h := by cases h
  single _ _ := Nat.zero_le _
  copied _ h := by cases h

variable {copies : Int → String → List Stored}

/-- Of two handouts of a message one ended, without success, before the other began. -/
theorem Exclusive.one_by_one (h : Exclusive reserved group c hs) {x y : Handout} (hx : x ∈ hs) (hy : y ∈ hs)
    (distinct : x ≠ y) : OneByOne reserved group x y ∨ OneByOne reserved group y x := by
  have : Std.Symm fun x y => OneByOne reserved group x y ∨ OneByOne reserved group y x := ⟨fun _ _ => Or.symm⟩
  exact (h.leased.exclusive.imp (S := fun x y => OneByOne reserved group x y ∨ OneByOne reserved group y x)
    Or.inl).forall hx hy distinct

/-- Of an envelope that is being worked on there is no copy, as long as the work has not succeeded. -/
theorem Relayed.uncopied (h : Relayed reserved group c hs copies) (exclusive : Exclusive reserved group c hs) {i : Nat}
    {setup : Setup} {job : Job} (busy : c.workAt i = some (setup, job)) (going : job.isAcking = false)
    (topic : setup.topic = reserved) (own : job.claimed.receipt.group = group) (topic' : String) :
    copies job.claimed.receipt.offset topic' = [] := by
  have hclaim : c.claimAt i = some (setup, job.claimed) := by
    unfold claimAt
    rw [busy]
    rfl
  obtain ⟨y, hy, hopen, hmember, htopic, hreceipt⟩ := exclusive.noted.noted i setup job.claimed hclaim
  have hony : y.IsOn reserved group := ⟨htopic.trans topic, by rw [hreceipt, own]⟩
  cases hcopies : copies job.claimed.receipt.offset topic' with
  | nil => rfl
  | cons copy rest =>
    obtain ⟨x, hx, honx, ho, hdone⟩ := h.done _ topic' (by rw [hcopies]; simp)
    have hsame : x.receipt.offset = y.receipt.offset := by rw [ho, hreceipt]
    by_cases hxy : x = y
    · -- it would be in hand and done at once
      subst hxy
      rcases hdone with ⟨t, hended⟩ | ⟨-, setup', job', busy', hacking⟩
      · rw [hopen] at hended
        cases hended
      · rw [hmember, busy] at busy'
        cases busy'
        rw [going] at hacking
        cases hacking
    · rcases exclusive.one_by_one hx hy hxy with hfirst | hsecond
      · obtain ⟨t, hended, -⟩ := hfirst honx hony hsame
        rcases hdone with ⟨t', hsucceeded⟩ | ⟨hnone, -⟩
        · rw [hended] at hsucceeded
          cases hsucceeded
        · rw [hended] at hnone
          cases hnone
      · obtain ⟨t, hended, -⟩ := hsecond hony honx hsame.symm
        rw [hopen] at hended
        cases hended

theorem Relayed.rests (h : Relayed reserved group c hs copies) (sound : c.Sound) (hstep : Step c t c')
    (relayed : ∀ m ∈ c'.ledger.log reserved, c'.isRelayed group m.offset → c.isRelayed group m.offset) :
    Relayed reserved group c' (t.note c.now c.workAt c'.workAt hs) copies where
  done offset topic hcopied := (h.done offset topic hcopied).step hstep
  faithful offset topic x hx := by
    obtain ⟨hlog, m, hm, hcarried⟩ := h.faithful offset topic x hx
    exact ⟨hstep.extends.mem_log hlog, m, hstep.extends.mem_log hm, hcarried⟩
  single := h.single
  copied m hm e hunwrap hrelayed := by
    have hbefore := relayed m hm hrelayed
    exact h.copied m (hstep.extends.mem_of_le hm (sound.stored_of_isRelayed hbefore)) e hunwrap hbefore

theorem Outbox.serves_of_ships (h : Outbox reserved group c) {i : Nat} {setup : Setup} {k : Claimed} {e : Envelope}
    (ships : c.Ships c' i setup k e) : setup.topic = reserved ∧ setup.group = group := by
  obtain ⟨hrole, -⟩ := ships.envelope h.sound
  obtain ⟨s, n, delay, post, -⟩ := ships
  have hserves := h.serves _ (List.mem_of_getElem? post)
  rwa [Serves, if_pos hrole] at hserves

/-- An envelope is done once what is in it has been stored. -/
theorem Exclusive.done_of_ships (exclusive : Exclusive reserved group c hs) (outbox : Outbox reserved group c) {i : Nat}
    {setup : Setup} {k : Claimed} {e : Envelope} (mover : t.mover? = some i) (ships : c.Ships c' i setup k e) :
    c'.Done reserved group (t.note c.now c.workAt c'.workAt hs) k.receipt.offset := by
  obtain ⟨-, hgroup, -⟩ := ships.envelope outbox.sound
  obtain ⟨htopic, hown⟩ := outbox.serves_of_ships ships
  obtain ⟨work, hbusy, -⟩ := ships.workAt
  obtain ⟨n, hacks⟩ := ships.acks
  have hclaim : c.claimAt i = some (setup, k) := by
    unfold claimAt
    rw [hbusy]
    rfl
  obtain ⟨y, hy, hopen, hmember, hon, hreceipt⟩ := exclusive.noted.noted i setup k hclaim
  rw [Turn.note_of_mover mover, hbusy, hacks]
  refine ⟨y, hy, ⟨hon.trans htopic, by rw [hreceipt, hgroup, hown]⟩, by rw [hreceipt], ?_⟩
  exact Or.inr ⟨hopen, setup, _, by rw [hmember, hacks], rfl⟩

theorem Ships.written_ne_nil {i : Nat} {setup : Setup} {k : Claimed} {e e' : Envelope} (ships : c.Ships c' i setup k e)
    (sound : c.Sound) (ext : c.ledger.Extends c'.ledger) {written : String → List Stored}
    (logs : ∀ topic, c'.ledger.log topic = c.ledger.log topic ++ written topic) {m : Stored}
    (hm : m ∈ c'.ledger.log setup.topic) (ho : k.receipt.offset = m.offset)
    (hunwrap : Envelope.unwrap m.message = .ok e') : written e'.destination ≠ [] := by
  obtain ⟨-, -, m₀, hm₀, ho₀, hunwrap₀⟩ := ships.envelope sound
  have hoffset : m₀.offset = m.offset := ho₀.trans ho
  have hle := sound.ledger.le_lastOffset hm₀
  have hsame := (sound.ledger.unique (ext.mem_of_le hm (hoffset ▸ hle)) hm₀ hoffset.symm).2
  rw [hsame, hunwrap₀] at hunwrap
  obtain rfl := Except.ok.inj hunwrap
  have hcopy := ships.writes (logs e.destination)
  rw [if_pos rfl] at hcopy
  intro hnil
  rw [hnil] at hcopy
  cases hcopy

/-- A step with which a consumer passes on what it works on. -/
theorem Relayed.shipped (h : Relayed reserved group c hs copies) (outbox : Outbox reserved group c)
    (exclusive : Exclusive reserved group c hs) (spares : t.SparesOutbox reserved group) (hstep : Step c t c')
    {i : Nat} {setup : Setup} {k : Claimed} {e : Envelope} (mover : t.mover? = some i) (ships : c.Ships c' i setup k e)
    {written : String → List Stored}
    (logs : ∀ topic, c'.ledger.log topic = c.ledger.log topic ++ written topic) :
    Relayed reserved group c' (t.note c.now c.workAt c'.workAt hs)
      (fun offset topic => copies offset topic ++ if k.receipt.offset = offset then written topic else []) := by
  obtain ⟨-, hgroup, m₀, hm₀, ho₀, hunwrap₀⟩ := ships.envelope outbox.sound
  obtain ⟨htopic, hown⟩ := outbox.serves_of_ships ships
  obtain ⟨work, hbusy, hgoing⟩ := ships.workAt
  rw [htopic] at hm₀
  have hempty : ∀ topic, copies k.receipt.offset topic = [] :=
    h.uncopied exclusive hbusy hgoing htopic (hgroup.trans hown)
  refine ⟨fun offset topic hcopied => ?_, fun offset topic x hx => ?_, fun offset topic => ?_,
    fun m hm e' hunwrap hrelayed => ?_⟩
  · by_cases hoffset : k.receipt.offset = offset
    · exact hoffset ▸ exclusive.done_of_ships outbox mover ships
    · rw [if_neg hoffset, List.append_nil] at hcopied
      exact (h.done offset topic hcopied).step hstep
  · rcases List.mem_append.1 hx with hx | hx
    · obtain ⟨hlog, m, hm, hcarried⟩ := h.faithful offset topic x hx
      exact ⟨hstep.extends.mem_log hlog, m, hstep.extends.mem_log hm, hcarried⟩
    · split at hx
      case isFalse => cases hx
      case isTrue hoffset =>
        have hmessage : x.message ∈ (written topic).map (·.message) := List.mem_map_of_mem hx
        rw [ships.writes (logs topic)] at hmessage
        split at hmessage
        case isFalse => cases hmessage
        case isTrue hdestination =>
          refine ⟨?_, m₀, hstep.extends.mem_log hm₀, ho₀.trans hoffset, ?_⟩
          · rw [logs]
            exact List.mem_append_right _ hx
          · rw [hunwrap₀, List.mem_singleton.1 hmessage, ← hdestination]
  · -- nothing had been copied before
    split
    case isTrue hoffset =>
      rw [← hoffset, hempty, List.nil_append, ← List.length_map, ships.writes (logs topic)]
      split
      · exact Nat.le_refl _
      · exact Nat.zero_le _
    case isFalse =>
      rw [List.append_nil]
      exact h.single offset topic
  · rcases outbox.relayed_of_step spares hstep hm hrelayed with hbefore | ⟨j, setup', k', e₁, hmover, hships, ho⟩
    · have hstored := hstep.extends.mem_of_le hm (outbox.sound.stored_of_isRelayed hbefore)
      have hcopied := h.copied m hstored e' hunwrap hbefore
      exact fun hnil => hcopied (List.append_eq_nil_iff.1 hnil).1
    · -- there is only one that ships, and this is its envelope
      obtain rfl := Option.some.inj (mover.symm.trans hmover)
      obtain ⟨rfl, rfl⟩ := ships.unique hships
      rw [if_pos ho]
      have hwritten := ships.written_ne_nil outbox.sound hstep.extends logs (htopic ▸ hm) ho hunwrap
      exact fun hnil => hwritten (List.append_eq_nil_iff.1 hnil).2

/-- **Every step relays once.** -/
theorem Relayed.step (h : Relayed reserved group c hs copies) (outbox : Outbox reserved group c)
    (exclusive : Exclusive reserved group c hs) (spares : t.SparesOutbox reserved group) (hstep : Step c t c')
    {written : String → List Stored} (logs : ∀ topic, c'.ledger.log topic = c.ledger.log topic ++ written topic) :
    Relayed reserved group c' (t.note c.now c.workAt c'.workAt hs) (fun offset topic => copies offset topic ++
      if (t.mover?.bind c.workAt).any (·.2.claimed.receipt.offset == offset) then written topic else []) := by
  by_cases hships : ∃ i setup k e, t.mover? = some i ∧ c.Ships c' i setup k e
  · obtain ⟨i, setup, k, e, hmover, hships⟩ := hships
    obtain ⟨work, hwork, -⟩ := hships.workAt
    have := h.shipped outbox exclusive spares hstep hmover hships logs
    simp only [hmover, Option.bind_some, hwork, Option.any_some, beq_iff_eq]
    exact this
  · have hnothing : ∀ offset topic, (if (t.mover?.bind c.workAt).any (·.2.claimed.receipt.offset == offset) then
        written topic else []) = [] := by
      intro offset topic
      cases hmover : t.mover? with
      | none => rfl
      | some i =>
        rcases hstep.ships_or_rests hmover with ⟨setup, k, e, hs⟩ | hrests
        · exact absurd ⟨i, setup, k, e, hmover, hs⟩ hships
        · obtain ⟨new, hlog, hnew⟩ := hrests topic
          rw [← List.append_cancel_left ((logs topic).symm.trans hlog)] at hnew
          rw [List.map_eq_nil_iff.1 hnew, ite_self]
    simp only [hnothing, List.append_nil]
    refine h.rests outbox.sound hstep fun m hm hrelayed => ?_
    rcases outbox.relayed_of_step spares hstep hm hrelayed with hbefore | ⟨i, setup, k, e, hmover, hs, -⟩
    · exact hbefore
    · exact absurd ⟨i, setup, k, e, hmover, hs⟩ hships

end Core

open Handout (Prompt)

variable {reserved group : String}

/-- A run in which forwarders are prompt keeps the invariants of the outbox, of exclusive work and of relaying once. -/
theorem relayed_run {turns : List Turn} (spares : ∀ t ∈ turns, t.SparesOutbox reserved group)
    (leaves : ∀ (n : Nat) (hn : n < turns.length), turns[n].SparesClaims reserved group (run (turns.take n)).requestAt)
    (prompt : Prompt reserved group (run turns).now (handouts turns)) (bound : (run turns).drawn ≤ Uuid.supply) :
    ∃ l, (run turns).store.Refines l ∧
      Core.Relayed reserved group ((run turns).core l) (handouts turns) (caused turns) := by
  obtain ⟨l, hrefines, -, hkept⟩ := @run_steps
    (fun ts c => Core.Outbox reserved group c ∧ (Prompt reserved group c.now (handouts ts) → c.drawn ≤ Uuid.supply →
      Core.Exclusive reserved group c (handouts ts) ∧ Core.Relayed reserved group c (handouts ts) (caused ts)))
    turns ⟨Core.outbox_start reserved group, fun _ _ =>
      ⟨Core.exclusive_start reserved group, Core.relayed_start reserved group⟩⟩
    fun before t after l l' hturns hrefines hrefines' ⟨houtbox, ih⟩ hstep => by
      have hspares : t.SparesOutbox reserved group :=
        spares t (by rw [hturns]; exact List.mem_append_right _ List.mem_cons_self)
      have hleaves : t.SparesClaims reserved group ((run before).core l).requestAt := by
        have := leaves before.length (by simp [hturns])
        rw [Core.requestAt_core]
        simpa [hturns] using this
      have hnote : handouts (before ++ [t]) = t.note ((run before).core l).now ((run before).core l).workAt
          ((run (before ++ [t])).core l').workAt (handouts before) := by
        rw [handouts_concat, Core.workAt_core, Core.workAt_core]
        rfl
      have hcaused : caused (before ++ [t]) = fun offset topic => caused before offset topic ++
          if (t.mover?.bind ((run before).core l).workAt).any (·.2.claimed.receipt.offset == offset) then
            (run before).added t topic else [] := by
        funext offset topic
        rw [caused_concat, Core.workAt_core]
        rfl
      refine ⟨houtbox.step hspares hstep, fun hprompt hbound => ?_⟩
      rw [hnote] at hprompt ⊢
      rw [hcaused]
      have hbefore := hstep.prompt hprompt
      obtain ⟨hexclusive, hrelayed⟩ := ih hbefore (Nat.le_trans hstep.drawn_le hbound)
      refine ⟨hexclusive.step hstep hbefore hbound hleaves, hrelayed.step houtbox hexclusive hspares hstep ?_⟩
      rw [run_concat] at hrefines'
      exact fun topic => log_added hrefines hrefines' hstep.extends topic
  exact ⟨l, hrefines, (hkept prompt bound).2⟩

/-- **Envelopes are relayed exactly once when nothing times out.** Take any run, with transactions, in which buses agree
on the reserved topic and the group of their forwarders, nobody else settles for that group, and no acknowledgement is
rejected; requests may be rejected otherwise, and buses shut down at any time. If every forwarder is done with an
envelope before the lease of its claim ends, then

* working on an envelope has stored its message at most once, on the topic that it names, and nothing else;
* it has stored it once if the envelope is final for the group;
* what was published in a transaction that was rolled back has caused nothing: the run ends as it would if only the
  identifiers had been drawn, and what working on any message has stored is the same.

The bound says that no identifier is drawn twice. -/
theorem relays_exactly_once {acts : List Act} (spares : ∀ t ∈ turnsOf acts, t.SparesOutbox reserved group)
    (leaves : ∀ (n : Nat) (hn : n < (turnsOf acts).length),
      (turnsOf acts)[n].SparesClaims reserved group (run ((turnsOf acts).take n)).requestAt)
    (prompt : Prompt reserved group (perform acts).system.now (handouts (turnsOf acts)))
    (bound : (perform acts).system.drawn ≤ Uuid.supply) :
    (∀ m ∈ (perform acts).system.store.log reserved, ∀ e, Envelope.unwrap m.message = .ok e →
      (caused (turnsOf acts) m.offset e.destination).length ≤ 1 ∧
      ((perform acts).system.store.isFinal reserved group m.offset →
        (caused (turnsOf acts) m.offset e.destination).length = 1) ∧
      ∀ topic, ∀ x ∈ caused (turnsOf acts) m.offset topic,
        topic = e.destination ∧ x.message = e.message ∧ x ∈ (perform acts).system.store.log topic) ∧
    ∀ before transaction bus context topic messages fate between rest,
      acts = before ++ ([.publishIn transaction bus context topic messages fate] ++
        (between ++ .rollback transaction :: rest)) →
      (∀ a ∈ between, a ≠ .commit transaction) →
      ∃ n,
        perform acts = perform (before ++ (List.replicate n (.turn .draw) ++
          (between ++ .rollback transaction :: rest))) ∧
        caused (turnsOf acts) = caused (turnsOf (before ++ (List.replicate n (.turn .draw) ++
          (between ++ .rollback transaction :: rest)))) := by
  rw [system_perform] at prompt bound
  obtain ⟨l, hrefines, hrelayed⟩ := relayed_run spares leaves prompt bound
  rw [system_perform]
  refine ⟨fun m hm e hunwrap => ?_, ?_⟩
  · have hlog : m ∈ l.log reserved := by rwa [← hrefines.log, Array.mem_toList_iff]
    refine ⟨hrelayed.single _ _, fun hfinal => ?_, fun topic x hx => ?_⟩
    · rw [hrefines.isFinal hlog] at hfinal
      have hcopied := hrelayed.copied m hlog e hunwrap (Core.isRelayed_iff.2 (Or.inl hfinal))
      have hsingle := hrelayed.single m.offset e.destination
      have := List.length_pos_iff.2 hcopied
      omega
    · obtain ⟨hx, m', hm', ho, hunwrap'⟩ := hrelayed.faithful m.offset topic x hx
      have hsame := (hrefines.sound.unique hm' hlog ho).2
      rw [hsame, hunwrap] at hunwrap'
      obtain rfl := Except.ok.inj hunwrap'
      refine ⟨rfl, rfl, ?_⟩
      rwa [← Array.mem_toList_iff, hrefines.log]
  · rintro before transaction bus context topic messages fate between rest rfl uncommitted
    exact perform_rolledBack before uncommitted rest

instance (reserved group : String) : (t : Turn) → Decidable (t.SparesOutbox reserved group)
  | .addBus _ _ => inferInstanceAs (Decidable (_ ∧ _))
  | .ask _ (.ack _) => inferInstanceAs (Decidable (_ ≠ _))
  | .ask _ .setUp | .ask _ .ping | .ask _ .close | .ask _ (.enqueue _ _) | .ask _ (.stage _ _) | .ask _ (.head _)
  | .ask _ (.claim _) | .ask _ (.nack _ _) | .ask _ (.renew _ _) | .ask _ (.forgetGroup _ _)
  | .look _ | .answer _ _ | .finish _ _ | .receive _ | .abandon _ | .lookLink _ | .fire _ | .wait _ | .draw
  | .subscribe _ _ _ _ | .startForwarder _ _ | .publish _ _ _ _ _ | .commit _ | .beginShutdown _ | .lookShutdown _
  | .answerShutdown _ _ => inferInstanceAs (Decidable True)

/-- Two buses share the forwarder group. An order is published and rolled back, another one is published and committed.
The store rejects what the first forwarder wants to store for it; at the second attempt, after 20 seconds, the store
takes it. -/
def secondAttempt : List Act :=
  [.turn (.addBus outboxConfig .silent), .turn (.addBus outboxConfig .silent),
    .publishIn "tx" 0 none "orders" [.new (.ofNat 5) [0]] .performed, .rollback "tx",
    .publishIn "tx" 0 none "orders" [.new (.ofNat 7) [1]] .performed, .commit "tx",
    .turn (.startForwarder 0 "main"), .turn (.startForwarder 1 "main"),
    .turn (.look 0), .turn (.look 0), .turn (.look 0), .turn (.look 0), .turn (.answer 0 .performed),
    .turn (.look 0), .turn (.answer 0 .rejected), .turn (.look 0), .turn (.wait 20_000_000_000),
    .turn (.look 0), .turn (.look 0), .turn (.answer 0 .performed), .turn (.answer 0 .performed)]

/-- The second order is stored once, and the first one might as well not have been published. -/
theorem relays_exactly_once_secondAttempt :
    (∀ t ∈ turnsOf secondAttempt, t.SparesOutbox "_forwarder_queue" "forwarder-consumer") ∧
      (∀ (n : Nat) (hn : n < (turnsOf secondAttempt).length),
        (turnsOf secondAttempt)[n].SparesClaims "_forwarder_queue" "forwarder-consumer"
          (run ((turnsOf secondAttempt).take n)).requestAt) ∧
      Prompt "_forwarder_queue" "forwarder-consumer" (perform secondAttempt).system.now
        (handouts (turnsOf secondAttempt)) ∧
      (perform secondAttempt).system.drawn ≤ Uuid.supply ∧
      (caused (turnsOf secondAttempt) 1 "orders").length = 1 ∧
      ∃ n, perform secondAttempt =
        perform (secondAttempt.take 2 ++ (List.replicate n (.turn .draw) ++ secondAttempt.drop 3)) := by
  have spares : ∀ t ∈ turnsOf secondAttempt, t.SparesOutbox "_forwarder_queue" "forwarder-consumer" := by
    decide +kernel
  have leaves : ∀ (n : Nat) (hn : n < (turnsOf secondAttempt).length),
      (turnsOf secondAttempt)[n].SparesClaims "_forwarder_queue" "forwarder-consumer"
        (run ((turnsOf secondAttempt).take n)).requestAt := by decide +kernel
  have prompt : Prompt "_forwarder_queue" "forwarder-consumer" (perform secondAttempt).system.now
      (handouts (turnsOf secondAttempt)) := by
    unfold Prompt
    decide +kernel
  have bound : (perform secondAttempt).system.drawn ≤ Uuid.supply := by decide +kernel
  obtain ⟨honce, hback⟩ := relays_exactly_once spares leaves prompt bound
  have hstored : ((perform secondAttempt).system.store.log "_forwarder_queue").toList.any fun m => m.offset == 1 &&
      Envelope.isCarriedBy ⟨"orders", .new (.ofNat 7) [1]⟩ m.message &&
      (perform secondAttempt).system.store.isFinal "_forwarder_queue" "forwarder-consumer" m.offset := by decide +kernel
  obtain ⟨m, hm, hfacts⟩ := List.any_eq_true.1 hstored
  simp only [Bool.and_eq_true, beq_iff_eq] at hfacts
  obtain ⟨⟨ho, hcarried⟩, hfinal⟩ := hfacts
  obtain ⟨-, hcopied, -⟩ := honce m (Array.mem_toList_iff.1 hm) _ (Envelope.isCarriedBy_iff.1 hcarried)
  rw [ho] at hcopied hfinal
  obtain ⟨n, hsame, -⟩ := hback (secondAttempt.take 2) "tx" 0 none "orders" [.new (.ofNat 5) [0]] .performed []
    (secondAttempt.drop 4) rfl (by simp)
  exact ⟨spares, leaves, prompt, bound, hcopied hfinal, n, hsame⟩

end System

end DurableBus
