import DurableBus.Proofs.System.Holding

/-!
# The outbox

A forwarder stores what is in an envelope before it acknowledges the envelope. Hence an envelope may be passed on more
than once, but never gets lost.

* `Core.isRelayed` : an envelope that has been passed on, as its group or the forwarder at work on it knows;
* `Outbox` : there are at least as many copies of a message as envelopes with it that have been passed on;
* `Outbox.step` : every step keeps that, as long as only forwarders acknowledge for their group;
* `outbox_loses_nothing` : what follows for a run.
-/

set_option autoImplicit false

namespace DurableBus

open Consumer (Setup Passes Asks)

def Envelope.isCarriedBy (e : Envelope) (m : Message) : Bool :=
  match Envelope.unwrap m with
  | .ok e' => e' == e
  | .error _ => false

theorem Envelope.isCarriedBy_iff {e : Envelope} {m : Message} : e.isCarriedBy m ↔ Envelope.unwrap m = .ok e := by
  unfold Envelope.isCarriedBy
  split
  case h_1 e' he' => rw [he', beq_iff_eq, Except.ok.injEq]
  case h_2 problem hproblem => simp [hproblem]

theorem countP_le_succ {α : Type} [DecidableEq α] {p q : α → Bool} {a : α} {l : List α} (hnodup : l.Nodup)
    (h : ∀ x ∈ l, p x → q x ∨ x = a) : l.countP p ≤ l.countP q + 1 := by
  have hone := List.nodup_iff_count.1 hnodup a
  have hsplit : ∀ l : List α, (∀ x ∈ l, p x → q x ∨ x = a) → l.countP p ≤ l.countP q + l.count a := by
    intro l
    induction l with
    | nil => exact fun _ => Nat.le_refl _
    | cons x rest ih =>
      intro h
      have hrest := ih fun y hy => h y (List.mem_cons_of_mem _ hy)
      have hx := h x List.mem_cons_self
      rw [List.countP_cons, List.countP_cons, List.count_cons]
      by_cases hp : p x
      · rcases hx hp with hq | rfl
        · rw [if_pos hp, if_pos hq]
          omega
        · rw [if_pos hp, if_pos (beq_self_eq_true _)]
          omega
      · rw [if_neg hp]
        omega
  have := hsplit l h
  omega

namespace System.Core

/-- Whether an envelope has been passed on: the group has acknowledged it, or who works on it is about to. -/
def isRelayed (c : Core) (group : String) (offset : Int) : Bool :=
  c.ledger.isFinal group offset ||
    c.posts.any fun p => p.2.job?.any fun job => job.isAcking && job.claimed.receipt.offset == offset

theorem isRelayed_iff {c : Core} {group : String} {offset : Int} :
    c.isRelayed group offset ↔ c.ledger.isFinal group offset ∨
      ∃ p ∈ c.posts, ∃ job, p.2.job? = some job ∧ job.isAcking ∧ job.claimed.receipt.offset = offset := by
  simp [isRelayed, Option.any_eq_true]

theorem Sound.stored_of_isRelayed {c : Core} (h : c.Sound) {group : String} {offset : Int}
    (relayed : c.isRelayed group offset) : offset ≤ c.ledger.lastOffset := by
  rcases isRelayed_iff.1 relayed with hfinal | ⟨p, hp, job, hjob, -, rfl⟩
  · obtain ⟨e, he, -⟩ := Ledger.isFinal_iff.1 hfinal
    obtain ⟨topic, m, hm, rfl⟩ := h.ledger.known offset group e he
    exact h.ledger.le_lastOffset hm
  · obtain ⟨⟨-, m, hm, ho, -⟩, -⟩ := h.held p hp _ (Phase.claimed_mem_held hjob)
    rw [← ho]
    exact h.ledger.le_lastOffset hm

def Serves (reserved group : String) (setup : Setup) : Prop :=
  if setup.role = .forwarder then setup.topic = reserved ∧ setup.group = group else setup.topic ≠ reserved

/-- **The invariant of the outbox.** Of every message there are at least as many copies as there are envelopes with it
that have been passed on; what is no envelope has not been passed on. -/
structure Outbox (reserved group : String) (c : Core) : Prop where
  sound : c.Sound
  configs : ∀ config ∈ c.configs, config.forwarderTopic = reserved ∧ config.forwarderGroup = group
  serves : ∀ p ∈ c.posts, Serves reserved group p.1
  copied : ∀ e : Envelope,
    (c.ledger.log reserved).countP (fun m => e.isCarriedBy m.message && c.isRelayed group m.offset) ≤
      (c.ledger.log e.destination).countP (·.message == e.message)
  decodes : ∀ m ∈ c.ledger.log reserved, c.isRelayed group m.offset → ∃ e, Envelope.unwrap m.message = .ok e

theorem outbox_start (reserved group : String) : Outbox reserved group start where
  sound := sound_start
  configs _ h := by cases h
  serves _ h := by cases h
  copied _ := Nat.le_refl _
  decodes _ h := by cases h

variable {reserved group : String} {c c' : Core}

/-- A step after which no more envelopes have been passed on. -/
theorem Outbox.quiet (h : Outbox reserved group c) (sound : c'.Sound)
    (configs : ∀ config ∈ c'.configs, config.forwarderTopic = reserved ∧ config.forwarderGroup = group)
    (serves : ∀ p ∈ c'.posts, Serves reserved group p.1) (ext : c.ledger.Extends c'.ledger)
    (relayed : ∀ m ∈ c'.ledger.log reserved, c'.isRelayed group m.offset → c.isRelayed group m.offset) :
    Outbox reserved group c' := by
  have hold : ∀ m ∈ c'.ledger.log reserved, c'.isRelayed group m.offset → m.offset ≤ c.ledger.lastOffset :=
    fun m hm hrelayed => h.sound.stored_of_isRelayed (relayed m hm hrelayed)
  refine ⟨sound, configs, serves, fun e => ?_, fun m hm hrelayed => ?_⟩
  · have hcount := ext.countP_log (p := fun m => e.isCarriedBy m.message && c'.isRelayed group m.offset)
      fun m hm hcounts => hold m hm (Bool.and_eq_true_iff.1 hcounts).2
    have hkept : (c.ledger.log reserved).countP (fun m => e.isCarriedBy m.message && c'.isRelayed group m.offset) ≤
        (c.ledger.log reserved).countP (fun m => e.isCarriedBy m.message && c.isRelayed group m.offset) := by
      refine List.countP_mono_left fun m hm hcounts => ?_
      obtain ⟨hcarried, hrelayed⟩ := Bool.and_eq_true_iff.1 hcounts
      exact Bool.and_eq_true_iff.2 ⟨hcarried, relayed m (ext.mem_log hm) hrelayed⟩
    obtain ⟨copies, hcopies, -⟩ := ext.log e.destination
    have := h.copied e
    rw [hcount, hcopies, List.countP_append]
    omega
  · exact h.decodes m (ext.mem_of_le hm (hold m hm hrelayed)) (relayed m hm hrelayed)

/-- A step that stores what is in an envelope, after which that envelope has been passed on. -/
theorem Outbox.passedOn (h : Outbox reserved group c) (sound : c'.Sound)
    (configs : ∀ config ∈ c'.configs, config.forwarderTopic = reserved ∧ config.forwarderGroup = group)
    (serves : ∀ p ∈ c'.posts, Serves reserved group p.1) {m₀ : Stored} {e₀ : Envelope}
    (stored : m₀ ∈ c.ledger.log reserved) (carried : Envelope.unwrap m₀.message = .ok e₀)
    (appended : c'.ledger = c.ledger.append c.now e₀.destination [e₀.message])
    (relayed : ∀ m ∈ c'.ledger.log reserved, c'.isRelayed group m.offset → c.isRelayed group m.offset ∨ m = m₀) :
    Outbox reserved group c' := by
  have ext : c.ledger.Extends c'.ledger := appended ▸ c.ledger.extends_append _ _ _
  have hold : ∀ m ∈ c'.ledger.log reserved, c'.isRelayed group m.offset → m.offset ≤ c.ledger.lastOffset := by
    intro m hm hrelayed
    rcases relayed m hm hrelayed with hbefore | rfl
    · exact h.sound.stored_of_isRelayed hbefore
    · exact h.sound.ledger.le_lastOffset stored
  refine ⟨sound, configs, serves, fun e => ?_, fun m hm hrelayed => ?_⟩
  · have hcount := ext.countP_log (p := fun m => e.isCarriedBy m.message && c'.isRelayed group m.offset)
      fun m hm hcounts => hold m hm (Bool.and_eq_true_iff.1 hcounts).2
    have hcopied := h.copied e
    rw [hcount]
    by_cases he : e = e₀
    · -- one more envelope at most, and one more copy
      subst he
      have hone : (c.ledger.log reserved).countP (fun m => e.isCarriedBy m.message && c'.isRelayed group m.offset) ≤
          (c.ledger.log reserved).countP (fun m => e.isCarriedBy m.message && c.isRelayed group m.offset) + 1 := by
        refine countP_le_succ (a := m₀) (h.sound.ledger.log_distinct reserved) fun m hm hcounts => ?_
        obtain ⟨hcarried, hrelayed⟩ := Bool.and_eq_true_iff.1 hcounts
        exact (relayed m (ext.mem_log hm) hrelayed).imp_left fun hbefore =>
          Bool.and_eq_true_iff.2 ⟨hcarried, hbefore⟩
      have hcopy : (c'.ledger.log e.destination).countP (·.message == e.message) =
          (c.ledger.log e.destination).countP (·.message == e.message) + 1 := by
        rw [appended, show c.ledger.append c.now e.destination [e.message] =
          c.ledger.appendOne c.now e.destination e.message from rfl, Ledger.log_appendOne, if_pos rfl,
          List.countP_append]
        simp
      omega
    · -- the envelope is another one, and so is its message or the topic that it names
      have hsame : (c.ledger.log reserved).countP (fun m => e.isCarriedBy m.message && c'.isRelayed group m.offset) ≤
          (c.ledger.log reserved).countP (fun m => e.isCarriedBy m.message && c.isRelayed group m.offset) := by
        refine List.countP_mono_left fun m hm hcounts => ?_
        obtain ⟨hcarried, hrelayed⟩ := Bool.and_eq_true_iff.1 hcounts
        rcases relayed m (ext.mem_log hm) hrelayed with hbefore | rfl
        · exact Bool.and_eq_true_iff.2 ⟨hcarried, hbefore⟩
        · rw [Envelope.isCarriedBy_iff, carried] at hcarried
          exact absurd (Except.ok.inj hcarried).symm he
      obtain ⟨copies, hcopies, -⟩ := ext.log e.destination
      rw [hcopies, List.countP_append]
      omega
  · rcases relayed m hm hrelayed with hbefore | rfl
    · exact h.decodes m (ext.mem_of_le hm (hold m hm hrelayed)) hbefore
    · exact ⟨e₀, carried⟩

/-! ## What has been passed on -/

variable {offset : Int}

/-- A request makes no message final but one that it acknowledges. -/
theorem isFinal_ask {fate : Fate} {request : Store.Request}
    (h : (c.ask fate request).1.ledger.isFinal group offset) :
    c.ledger.isFinal group offset ∨ ∃ r, request = .ack r ∧ offset = r.offset ∧ group = r.group := by
  cases fate with
  | rejected => exact Or.inl h
  | performed =>
    obtain ⟨e', he', hacked⟩ := Ledger.isFinal_iff.1 h
    have hchanges := c.ledger.changes_perform c.now (.drawn c.drawn) offset group request
    rw [show (c.ledger.perform c.now (.drawn c.drawn) request).1.entries offset group = some e' from he'] at hchanges
    rcases hchanges.of_acked hacked with hbefore | ⟨r, e, hrequest, -, hoffset, hgroup⟩
    · exact Or.inl (Ledger.isFinal_iff.2 hbefore)
    · exact Or.inr ⟨r, hrequest, hoffset, hgroup⟩

theorem isRelayed_ask {fate : Fate} {request : Store.Request} (spares : ∀ r, request = .ack r → r.group ≠ group)
    (h : (c.ask fate request).1.isRelayed group offset) : c.isRelayed group offset := by
  rw [isRelayed_iff] at h ⊢
  rcases h with hfinal | hacking
  · rcases isFinal_ask hfinal with hbefore | ⟨r, hrequest, -, hgroup⟩
    · exact Or.inl hbefore
    · exact absurd hgroup.symm (spares r hrequest)
  · rw [posts_ask] at hacking
    exact Or.inr hacking

theorem isRelayed_enter {i : Nat} {setup : Setup} {p : Phase} (h : (c.enter i setup p).isRelayed group offset) :
    c.isRelayed group offset ∨ ∃ job, p.job? = some job ∧ job.isAcking ∧ job.claimed.receipt.offset = offset := by
  rw [isRelayed_iff] at h
  rcases h with hfinal | ⟨q, hq, hacking⟩
  · exact Or.inl (isRelayed_iff.2 (Or.inl hfinal))
  · rcases List.mem_or_eq_of_mem_set hq with hq | rfl
    · exact Or.inl (isRelayed_iff.2 (Or.inr ⟨q, hq, hacking⟩))
    · exact Or.inr hacking

theorem isRelayed_joined {setup : Setup}
    (h : isRelayed { c with posts := c.posts ++ [(setup, .starting)] } group offset) : c.isRelayed group offset := by
  rw [isRelayed_iff] at h ⊢
  refine h.imp_right fun ⟨p, hp, job, hjob, hacking⟩ => ?_
  rcases List.mem_append.1 hp with hp | hp
  · exact ⟨p, hp, job, hjob, hacking⟩
  · rw [List.mem_singleton.1 hp] at hjob
    cases hjob

theorem isRelayed_commit {staged : List (String × List Message)} {l : Ledger}
    (done : c.ledger.commit c.now staged = .ok l) (h : isRelayed { c with ledger := l } group offset) :
    c.isRelayed group offset := by
  obtain ⟨-, hentries, -⟩ := c.ledger.extends_commit done
  rw [isRelayed_iff, Ledger.isFinal] at h ⊢
  rwa [show (Core.mk _ _ _ _ _).ledger.entries = _ from hentries] at h

theorem Outbox.elsewhere (h : Outbox reserved group c) {p : Setup × Phase} (hp : p ∈ c.posts) {job : Job}
    (busy : p.2.job? = some job) (other : p.1.role ≠ .forwarder) {m : Stored} (hm : m ∈ c.ledger.log reserved) :
    job.claimed.receipt.offset ≠ m.offset := by
  intro same
  have hserves := h.serves p hp
  rw [Serves, if_neg other] at hserves
  obtain ⟨⟨-, m', hm', ho, -⟩, -⟩ := h.sound.held p hp _ (Phase.claimed_mem_held busy)
  exact hserves (h.sound.ledger.unique hm' hm (ho.trans same)).1

/-! ## Steps -/

theorem Outbox.serves_enter (h : Outbox reserved group c) {i : Nat} {setup : Setup} {p : Phase}
    (post : c.posts[i]? = some (setup, p)) (p' : Phase) :
    ∀ q ∈ c.posts.set i (setup, p'), Serves reserved group q.1 := by
  intro q hq
  rcases List.mem_or_eq_of_mem_set hq with hq | rfl
  · exact h.serves q hq
  · exact h.serves (setup, p) (List.mem_of_getElem? post)

theorem Outbox.drew (h : Outbox reserved group c) (n : Nat) :
    Outbox reserved group { c with drawn := c.drawn + n } :=
  h.quiet (h.sound.drew n) h.configs h.serves (Ledger.Extends.refl _) fun _ _ hm => hm

theorem Outbox.ask (h : Outbox reserved group c) {fate : Fate} {request : Store.Request}
    (spares : ∀ r, request = .ack r → r.group ≠ group) : Outbox reserved group (c.ask fate request).1 := by
  refine h.quiet (h.sound.ask fate request) ?_ ?_ (extends_ask c fate request) fun m _ hm => isRelayed_ask spares hm
  · rw [configs_ask]
    exact h.configs
  · rw [posts_ask]
    exact h.serves

theorem Outbox.joined (h : Outbox reserved group c) {setup : Setup} (serves : Serves reserved group setup) :
    Outbox reserved group { c with posts := c.posts ++ [(setup, .starting)] } := by
  refine h.quiet (h.sound.joined setup) h.configs (fun p hp => ?_) (Ledger.Extends.refl _) fun m _ hm => ?_
  · rcases List.mem_append.1 hp with hp | hp
    · exact h.serves p hp
    · rw [List.mem_singleton.1 hp]
      exact serves
  · exact isRelayed_joined hm

/-- A consumer that moves by itself passes nothing on: a handler that succeeds works on another topic. -/
theorem Outbox.relayed_of_moved (h : Outbox reserved group c) {i : Nat} {setup : Setup} {p p' : Phase}
    (post : c.posts[i]? = some (setup, p)) (passes : Passes setup p none p') {m : Stored}
    (hm : m ∈ c.ledger.log reserved) (relayed : (c.enter i setup p').isRelayed group m.offset) :
    c.isRelayed group m.offset := by
  have hp := List.mem_of_getElem? post
  rcases isRelayed_enter relayed with hbefore | ⟨job', busy', hacking', ho⟩
  · exact hbefore
  · obtain ⟨job, busy, hclaimed, hacking | hsucceeds⟩ := passes.acking busy' hacking'
    · exact isRelayed_iff.2 (Or.inr ⟨_, hp, job, busy, hacking, hclaimed ▸ ho⟩)
    · cases job with
      | dispatch k context work =>
        have hfits := (h.sound.phases _ hp).fits _ busy
        exact absurd (hclaimed ▸ ho) (h.elsewhere hp busy hfits.1 hm)
      | forward k e work =>
        obtain ⟨a, ha⟩ := hsucceeds
        cases ha
      | refuse k => exact hsucceeds.elim

theorem Outbox.moved (h : Outbox reserved group c) {i : Nat} {setup : Setup} {p p' : Phase}
    (post : c.posts[i]? = some (setup, p)) (passes : Passes setup p none p') :
    Outbox reserved group (c.enter i setup p') :=
  h.quiet (h.sound.moved post passes) h.configs (h.serves_enter post p') (Ledger.Extends.refl _)
    fun _ hm hrelayed => h.relayed_of_moved post passes hm hrelayed

theorem relayed_of_answered {i : Nat} {setup : Setup} {p p' : Phase} {fate : Fate} {request : Store.Request}
    (post : c.posts[i]? = some (setup, p)) (asks : Asks setup p request)
    (passes : Passes setup p (some (request, (c.ask fate request).2)) p')
    (h : ((c.ask fate request).1.enter i setup p').isRelayed group offset) :
    c.isRelayed group offset ∨ ∃ k e work, p.job? = some (.forward k e work) ∧ k.receipt.offset = offset ∧
      ∃ a, request = .enqueue e.destination [e.message] ∧ (c.ask fate request).2 = .ok a := by
  have hp := List.mem_of_getElem? post
  rcases isRelayed_enter h with hbefore | ⟨job', busy', hacking', ho⟩
  · refine Or.inl ?_
    rw [isRelayed_iff, posts_ask] at hbefore
    rcases hbefore with hfinal | hacking
    · rcases isFinal_ask hfinal with hbefore | ⟨r, rfl, hoffset, -⟩
      · exact isRelayed_iff.2 (Or.inl hbefore)
      · -- who acknowledges an envelope has passed it on
        obtain ⟨job, busy, hacking, hreceipt⟩ := asks.ack
        exact isRelayed_iff.2 (Or.inr ⟨_, hp, job, busy, hacking, by rw [hreceipt, hoffset]⟩)
    · exact isRelayed_iff.2 (Or.inr hacking)
  · obtain ⟨job, busy, hclaimed, hacking | hsucceeds⟩ := passes.acking busy' hacking'
    · exact Or.inl (isRelayed_iff.2 (Or.inr ⟨_, hp, job, busy, hacking, hclaimed ▸ ho⟩))
    · cases job with
      | dispatch k context work => cases hsucceeds
      | forward k e work =>
        obtain ⟨a, ha⟩ := hsucceeds
        obtain ⟨hrequest, hreply⟩ := Prod.mk.inj (Option.some.inj ha)
        rw [hclaimed] at ho
        exact Or.inr ⟨k, e, work, busy, ho, a, hrequest, hreply⟩
      | refuse k => exact hsucceeds.elim

theorem Outbox.answered (h : Outbox reserved group c) {i : Nat} {setup : Setup} {p p' : Phase} {fate : Fate}
    {request : Store.Request} (post : c.posts[i]? = some (setup, p)) (asks : Asks setup p request)
    (passes : Passes setup p (some (request, (c.ask fate request).2)) p') :
    Outbox reserved group ((c.ask fate request).1.enter i setup p') := by
  have hp := List.mem_of_getElem? post
  have hsound := h.sound.answered post asks passes
  have hconfigs : ∀ config ∈ ((c.ask fate request).1.enter i setup p').configs,
      config.forwarderTopic = reserved ∧ config.forwarderGroup = group := by
    intro config hconfig
    exact h.configs config (configs_ask c fate request ▸ hconfig)
  have hserves : ∀ q ∈ ((c.ask fate request).1.enter i setup p').posts, Serves reserved group q.1 := by
    intro q hq
    exact h.serves_enter post p' q (posts_ask c fate request ▸ hq)
  have hext := extends_ask c fate request
  by_cases hstores : ∃ k e work a, p.job? = some (.forward k e work) ∧
      request = .enqueue e.destination [e.message] ∧ (c.ask fate request).2 = .ok a
  · obtain ⟨k, e, work, a, busy, rfl, hreply⟩ := hstores
    obtain ⟨hrole, hunwrap, -⟩ := (h.sound.phases _ hp).fits _ busy
    obtain ⟨⟨-, m₀, hm₀, ho₀, hmessage⟩, -⟩ := h.sound.held _ hp _ (Phase.claimed_mem_held busy)
    have hserve := h.serves _ hp
    rw [Serves, if_pos hrole] at hserve
    rw [hserve.1] at hm₀
    obtain ⟨hanswer, hledger⟩ := ask_ok hreply
    refine h.passedOn hsound hconfigs hserves hm₀ (hmessage ▸ hunwrap)
      (hledger.trans (Ledger.appended_of_reply hanswer)) fun m hm hrelayed => ?_
    rcases relayed_of_answered post asks passes hrelayed with hbefore | ⟨k', e', work', busy', ho, -⟩
    · exact Or.inl hbefore
    · right
      have hsame : k' = k := by
        rw [busy] at busy'
        cases busy'
        rfl
      rw [hsame] at ho
      have hoffset : m.offset = m₀.offset := ho.symm.trans ho₀.symm
      have hle := h.sound.ledger.le_lastOffset hm₀
      exact (h.sound.ledger.unique (hext.mem_of_le hm (hoffset ▸ hle)) hm₀ hoffset).2
  · refine h.quiet hsound hconfigs hserves hext fun m hm hrelayed => ?_
    rcases relayed_of_answered post asks passes hrelayed with hbefore | ⟨k, e, work, busy, -, a, hrequest, hreply⟩
    · exact hbefore
    · exact absurd ⟨k, e, work, a, busy, hrequest, hreply⟩ hstores

end System.Core

namespace System

/-- Whether a turn leaves the outbox to its forwarders: buses agree on the reserved topic and the group of the forwarders,
and nobody else acknowledges for that group. -/
def Turn.SparesOutbox (reserved group : String) : Turn → Prop
  | .addBus config _ => config.forwarderTopic = reserved ∧ config.forwarderGroup = group
  | .ask _ (.ack r) => r.group ≠ group
  | _ => True

open System.Core

variable {reserved group : String}

/-- **Every step keeps the invariant of the outbox.** -/
theorem Core.Outbox.step {c c' : Core} {t : Turn} (h : Outbox reserved group c) (spares : t.SparesOutbox reserved group)
    (hstep : Step c t c') : Outbox reserved group c' := by
  have hsound := h.sound.step hstep
  have hext := Ledger.Extends.refl c.ledger
  cases hstep with
  | still => exact h
  | waited => exact h.quiet hsound h.configs h.serves hext fun _ _ hm => hm
  | drew => exact h.drew 1
  | opened =>
    refine h.quiet hsound (fun config hconfig => ?_) h.serves hext fun _ _ hm => hm
    rcases List.mem_append.1 hconfig with hconfig | hconfig
    · exact h.configs config hconfig
    · rw [List.mem_singleton.1 hconfig]
      exact spares
  | @subscribed bus topic _ head ephemeral name after settings config drawn known free more =>
    have hserves : Serves reserved group ⟨.subscriber ephemeral, topic, name, after, settings⟩ := by
      rw [Serves, if_neg (by simp), ← (h.configs config known).1]
      exact free
    exact (h.joined hserves).quiet hsound h.configs (h.joined hserves).serves hext fun _ _ hm => hm
  | forwarding known =>
    refine h.joined ?_
    rw [Serves, if_pos rfl]
    exact h.configs _ known
  | published => exact (h.drew _).ask fun r hr => by cases hr
  | committed done =>
    obtain ⟨hextends, -, -⟩ := c.ledger.extends_commit done
    exact h.quiet hsound h.configs h.serves hextends fun m _ hm => isRelayed_commit done hm
  | asked =>
    refine h.ask ?_
    rintro r rfl
    exact spares
  | closed => exact h.ask fun r hr => by cases hr
  | looked post =>
    have hphase := h.sound.phases _ (List.mem_of_getElem? post)
    exact h.moved post (Consumer.passes_look _ _ hphase)
  | finished post =>
    have hphase := h.sound.phases _ (List.mem_of_getElem? post)
    exact h.moved post (Consumer.passes_finish _ _ hphase)
  | answered post waits =>
    have hphase := h.sound.phases _ (List.mem_of_getElem? post)
    exact h.answered post (Consumer.asks_of_request waits) (Consumer.passes_answer _ _ _ hphase waits)

/-- **The outbox loses nothing.** Take any run in which buses agree on the reserved topic and the group of their
forwarders, and nobody but the forwarders acknowledges for that group.

* Of every message there are at least as many copies on its topic as there are final envelopes with it.
* An envelope that is not final has no acknowledged record, and a claim with room for it returns it once it is visible.
* What is stored on the reserved topic and is no envelope is never final; who works on it only gives it back.
* Whatever a consumer stores is what some envelope on the reserved topic carries, on the topic that it names. -/
theorem outbox_loses_nothing {turns : List Turn} (spares : ∀ t ∈ turns, t.SparesOutbox reserved group) :
    (∀ e : Envelope,
      ((run turns).store.log reserved).toList.countP
          (fun m => e.isCarriedBy m.message && (run turns).store.isFinal reserved group m.offset) ≤
        ((run turns).store.log e.destination).toList.countP (·.message == e.message)) ∧
      (∀ m ∈ (run turns).store.log reserved, (run turns).store.isFinal reserved group m.offset = false →
        (∀ d, (run turns).store.deliveries.get? (m.offset, group) = some d → d.state ≠ .acked) ∧
          ∀ now token request, request.topic = reserved → request.group = group → request.after < m.offset →
            ((run turns).store.log reserved).size ≤ request.limit →
            (∀ d, (run turns).store.deliveries.get? (m.offset, group) = some d → d.visibleAt ≤ now) →
            (run turns).store.closed = false →
            ∃ messages, ((run turns).store.perform now token (.claim request)).2 = (.ok (.claimed messages), []) ∧
              ∃ k ∈ messages, k.receipt.offset = m.offset ∧ k.message = m.message) ∧
      (∀ m ∈ (run turns).store.log reserved, (∀ e, Envelope.unwrap m.message ≠ .ok e) →
        (run turns).store.isFinal reserved group m.offset = false ∧
          ∀ member ∈ (run turns).members, ∀ job, member.consumer.phase.job? = some job →
            job.claimed.receipt.offset = m.offset →
            member.consumer.request? =
              some (.nack job.claimed.receipt member.consumer.setup.settings.redeliveryDelay)) ∧
      ∀ member ∈ (run turns).members, ∀ topic messages,
        member.consumer.request? = some (.enqueue topic messages) →
        ∃ m ∈ (run turns).store.log reserved, ∃ e, Envelope.unwrap m.message = .ok e ∧ topic = e.destination ∧
          messages = [e.message] := by
  obtain ⟨l, hrefines, houtbox⟩ := @run_induction (fun _ c => Outbox reserved group c) turns
    (outbox_start reserved group) fun before t after l l' hturns h hstep =>
      h.step (spares t (by rw [hturns]; exact List.mem_append_right _ List.mem_cons_self)) hstep
  have hmem : ∀ topic m, m ∈ (run turns).store.log topic ↔ m ∈ l.log topic := fun topic m => by
    rw [← hrefines.log, Array.mem_toList_iff]
  have hpost : ∀ member ∈ (run turns).members,
      (member.consumer.setup, member.consumer.phase) ∈ ((run turns).core l).posts :=
    fun member hmember => List.mem_map_of_mem hmember
  refine ⟨fun e => ?_, fun m hm hopen => ?_, fun m hm hno => ?_, fun member hmember topic messages hrequest => ?_⟩
  · rw [hrefines.log, hrefines.log]
    refine Nat.le_trans (List.countP_mono_left fun m hm hcounts => ?_) (houtbox.copied e)
    rw [hrefines.isFinal hm, Bool.and_eq_true] at hcounts
    exact Bool.and_eq_true_iff.2 ⟨hcounts.1, isRelayed_iff.2 (Or.inl hcounts.2)⟩
  · refine ⟨fun d hd hacked => ?_, ?_⟩
    · rw [InMemory.isFinal, hd, Option.any_some, hacked] at hopen
      simp at hopen
    · rintro now token request rfl rfl behind room visible hclosed
      exact hrefines.claim_returns hclosed hm hopen visible behind room
  · have hlog := (hmem reserved m).1 hm
    have hnot : ¬ ((run turns).core l).isRelayed group m.offset := by
      intro hrelayed
      obtain ⟨e, he⟩ := houtbox.decodes m hlog hrelayed
      exact hno e he
    refine ⟨?_, fun member hmember job busy ho => ?_⟩
    · rw [hrefines.isFinal hlog, ← Bool.not_eq_true]
      exact fun hfinal => hnot (isRelayed_iff.2 (Or.inl hfinal))
    · have hp := hpost member hmember
      have hfits := (houtbox.sound.phases _ hp).fits job busy
      obtain ⟨⟨-, m', hm', ho', hmessage⟩, -⟩ := houtbox.sound.held _ hp _ (Phase.claimed_mem_held busy)
      cases job with
      | dispatch k context work => exact absurd ho (houtbox.elsewhere hp busy hfits.1 hlog)
      | forward k e work =>
        have hsame := (houtbox.sound.ledger.unique hm' hlog (ho'.trans ho)).2
        rw [hsame] at hmessage
        exact absurd (hmessage ▸ hfits.2.1) (hno e)
      | refuse k =>
        cases hphase : member.consumer.phase with
        | working s job' =>
          rw [hphase] at busy
          cases busy
          unfold Consumer.request?
          rw [hphase]
          rfl
        | _ =>
          rw [hphase] at busy
          cases busy
  · have hp := hpost member hmember
    obtain ⟨k, e, work, busy, rfl, rfl⟩ := (Consumer.asks_of_request hrequest).enqueue
    obtain ⟨hrole, hunwrap, -⟩ := (houtbox.sound.phases _ hp).fits _ busy
    obtain ⟨⟨-, m, hm, -, hmessage⟩, -⟩ := houtbox.sound.held _ hp _ (Phase.claimed_mem_held busy)
    have hserves := houtbox.serves _ hp
    rw [Serves, if_pos hrole] at hserves
    rw [hserves.1] at hm
    exact ⟨m, (hmem reserved m).2 hm, e, hmessage ▸ hunwrap, rfl, rfl⟩

/-- Two buses in outbox mode that poll for one message at a time. -/
def outboxConfig : Config := Config.standard.withForwarder.withBatchSize 1

/-- Two orders are published, and something that is no envelope is stored between them. The first forwarder passes the
first order on and is giving back what is no envelope; the second one is passing the second order on. -/
def twoForwarders : List Turn :=
  [.addBus outboxConfig .silent, .addBus outboxConfig .silent,
    .publish 0 none "orders" [.new (.ofNat 7) [1]] .performed,
    .ask .performed (.enqueue "_forwarder_queue" [.new (.ofNat 8) []]),
    .publish 1 none "orders" [.new (.ofNat 9) [2]] .performed,
    .startForwarder 0 "main", .startForwarder 1 "main",
    .look 0, .look 0, .look 0, .look 0, .answer 0 .performed, .look 0, .answer 0 .performed, .answer 0 .performed,
    .look 0, .look 0, .answer 0 .performed,
    .look 1, .look 1, .look 1, .look 1, .answer 1 .performed, .look 1]

/-- The first order is stored on its topic, what is no envelope can be claimed again, and the second order is on its
way. -/
theorem outbox_loses_nothing_twoForwarders :
    (∀ t ∈ twoForwarders, t.SparesOutbox "_forwarder_queue" "forwarder-consumer") ∧
      1 ≤ ((run twoForwarders).store.log "orders").toList.countP (·.message == .new (.ofNat 7) [1]) ∧
      (∃ messages, ((run twoForwarders).store.perform 60_000_000_000 (.ofNat 5)
          (.claim ⟨"_forwarder_queue", "forwarder-consumer", 0, 3, .ofSecs 30⟩)).2 = (.ok (.claimed messages), []) ∧
        ∃ k ∈ messages, k.receipt.offset = 2 ∧ k.message = .new (.ofNat 8) []) ∧
      (run twoForwarders).store.isFinal "_forwarder_queue" "forwarder-consumer" 2 = false ∧
      ∃ m ∈ (run twoForwarders).store.log "_forwarder_queue", ∃ e, Envelope.unwrap m.message = .ok e ∧
        e.destination = "orders" ∧ e.message = .new (.ofNat 9) [2] := by
  have spares : ∀ t ∈ twoForwarders, t.SparesOutbox "_forwarder_queue" "forwarder-consumer" := by
    simp only [twoForwarders, List.forall_mem_cons, Turn.SparesOutbox, List.not_mem_nil, false_implies, implies_true]
    decide
  have hstored : (⟨2, .new (.ofNat 8) [], 0⟩ : Stored) ∈ (run twoForwarders).store.log "_forwarder_queue" := by
    decide +kernel
  have hno : ∀ e, Envelope.unwrap (.new (.ofNat 8) []) ≠ .ok e := by
    intro e he
    have : (Envelope.unwrap (.new (.ofNat 8) [])).isOk = false := by decide +kernel
    rw [he] at this
    cases this
  obtain ⟨hcopies, hreturned, hrefused, hpassed⟩ := outbox_loses_nothing spares
  refine ⟨spares, ?_, ?_, (hrefused _ hstored hno).1, ?_⟩
  · refine Nat.le_trans ?_ (hcopies ⟨"orders", .new (.ofNat 7) [1]⟩)
    decide +kernel
  · obtain ⟨-, hclaim⟩ := hreturned _ hstored (hrefused _ hstored hno).1
    exact hclaim _ _ ⟨"_forwarder_queue", "forwarder-consumer", 0, 3, .ofSecs 30⟩ rfl rfl (by decide)
      (by decide +kernel) (by decide +kernel) (by decide +kernel)
  · have hasks : (run twoForwarders).members.any fun m =>
        m.consumer.request? = some (.enqueue "orders" [.new (.ofNat 9) [2]]) := by decide +kernel
    obtain ⟨member, hmember, hrequest⟩ := List.any_eq_true.1 hasks
    obtain ⟨m, hm, e, he, htopic, hmessage⟩ := hpassed member hmember _ _ (of_decide_eq_true hrequest)
    exact ⟨m, hm, e, he, htopic.symm, (List.cons.inj hmessage).1.symm⟩

end System

end DurableBus
