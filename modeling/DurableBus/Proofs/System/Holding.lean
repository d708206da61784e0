import DurableBus.Proofs.Store.Entries
import DurableBus.Proofs.System.Run

/-!
# What the consumers of a system hold

* `Core.Sound` : every claim that a consumer holds is one of its group, on a message of its topic, under a token that has
  been drawn;
* `Sound.ask`, `Sound.moved`, `Sound.answered`, …, `Sound.step` : every step keeps that;
* `Step.posts` : what every consumer keeps that moves, all consumers keep.
-/

set_option autoImplicit false

namespace DurableBus.System.Core

open Consumer (Setup Passes Asks)

/-! ## Requests -/

section Requests

variable (c : Core) (fate : Fate) (request : Store.Request)

@[simp] theorem posts_ask : (c.ask fate request).1.posts = c.posts := by cases fate <;> rfl

@[simp] theorem now_ask : (c.ask fate request).1.now = c.now := by cases fate <;> rfl

@[simp] theorem configs_ask : (c.ask fate request).1.configs = c.configs := by cases fate <;> rfl

theorem drawn_le_ask : c.drawn ≤ (c.ask fate request).1.drawn := by
  cases fate with
  | rejected => exact Nat.le_refl _
  | performed =>
    show c.drawn ≤ if request.operation = .claim then c.drawn + 1 else c.drawn
    split
    · exact Nat.le_succ _
    · exact Nat.le_refl _

theorem extends_ask : c.ledger.Extends (c.ask fate request).1.ledger := by
  cases fate with
  | rejected => exact Ledger.Extends.refl _
  | performed => exact c.ledger.extends_perform _ _ _

variable {c fate request}

theorem ask_ok {a : Store.Answer} (h : (c.ask fate request).2 = .ok a) :
    (c.ledger.perform c.now (.drawn c.drawn) request).2.1 = .ok a ∧
      (c.ask fate request).1.ledger = (c.ledger.perform c.now (.drawn c.drawn) request).1 := by
  cases fate with
  | rejected => cases h
  | performed => exact ⟨h, rfl⟩

/-- Messages are handed out to who claims them. -/
theorem ask_claimed {k : Claimed} (h : k ∈ ClaimStream.claimsOf (c.ask fate request).2) :
    ∃ r, request = .claim r ∧ (c.ask fate request).2 = .ok (.claimed (c.ledger.claim c.now (.drawn c.drawn) r).2) ∧
      (c.ask fate request).1.ledger = (c.ledger.claim c.now (.drawn c.drawn) r).1 ∧
      (c.ask fate request).1.drawn = c.drawn + 1 := by
  unfold ClaimStream.claimsOf at h
  split at h
  case h_1 messages hreply =>
    obtain ⟨hanswer, hledger⟩ := ask_ok hreply
    obtain ⟨r, rfl, hmessages, hclaim⟩ := Ledger.claimed_of_reply hanswer
    refine ⟨r, rfl, by rw [hreply, hmessages], hledger.trans hclaim, ?_⟩
    cases fate with
    | rejected => cases hreply
    | performed => rfl
  case h_2 => cases h

end Requests

/-! ## Soundness -/

def Backs (l : Ledger) (setup : Setup) (k : Claimed) : Prop :=
  k.receipt.group = setup.group ∧
    ∃ m ∈ l.log setup.topic, m.offset = k.receipt.offset ∧ m.message = k.message

theorem Backs.mono {l l' : Ledger} {setup : Setup} {k : Claimed} (h : Backs l setup k) (ext : l.Extends l') :
    Backs l' setup k := by
  obtain ⟨hgroup, m, hm, hsame⟩ := h
  exact ⟨hgroup, m, ext.mem_log hm, hsame⟩

def Issued (drawn : Nat) (token : Uuid) : Prop := ∃ n, n < drawn ∧ token = .drawn n

theorem Issued.mono {n n' : Nat} {token : Uuid} (h : Issued n token) (hle : n ≤ n') : Issued n' token := by
  obtain ⟨k, hk, rfl⟩ := h
  exact ⟨k, by omega, rfl⟩

/-- Consumers hold claims of their groups, on messages of their topics and under tokens that have been drawn. -/
structure Sound (c : Core) : Prop where
  ledger : c.ledger.Sound
  entries : ∀ offset group e, c.ledger.entries offset group = some e → Issued c.drawn e.token
  phases : ∀ p ∈ c.posts, p.2.Sound p.1.role
  held : ∀ p ∈ c.posts, ∀ k ∈ p.2.held, Backs c.ledger p.1 k ∧ Issued c.drawn k.receipt.token

theorem sound_start : start.Sound where
  ledger := Ledger.sound_empty
  entries _ _ _ h := by cases h
  phases _ h := by cases h
  held _ h := by cases h

variable {c : Core}

/-- Everything but the posts may grow. -/
theorem Sound.mono (h : c.Sound) {c' : Core} (sound : c'.ledger.Sound)
    (entries : ∀ offset group e, c'.ledger.entries offset group = some e → Issued c'.drawn e.token)
    (ext : c.ledger.Extends c'.ledger) (drawn : c.drawn ≤ c'.drawn) (posts : c'.posts = c.posts) : c'.Sound where
  ledger := sound
  entries := entries
  phases := by
    rw [posts]
    exact h.phases
  held p hp k hk := by
    rw [posts] at hp
    obtain ⟨hbacks, hissued⟩ := h.held p hp k hk
    exact ⟨hbacks.mono ext, hissued.mono drawn⟩

theorem Sound.grow (h : c.Sound) {c' : Core} (same : c'.ledger = c.ledger) (drawn : c.drawn ≤ c'.drawn)
    (posts : c'.posts = c.posts) : c'.Sound := by
  refine h.mono (same ▸ h.ledger) (fun offset group e he => ?_) (same ▸ Ledger.Extends.refl _) drawn posts
  rw [same] at he
  exact (h.entries offset group e he).mono drawn

theorem Sound.drew (h : c.Sound) (n : Nat) : Sound { c with drawn := c.drawn + n } :=
  h.grow rfl (Nat.le_add_right _ _) rfl

theorem Sound.ask (h : c.Sound) (fate : Fate) (request : Store.Request) : (c.ask fate request).1.Sound := by
  cases fate with
  | rejected => exact h
  | performed =>
    refine h.mono (h.ledger.perform _ _ _) (fun offset group e' he' => ?_) (c.ledger.extends_perform _ _ _)
      (drawn_le_ask c .performed request) rfl
    have hle := drawn_le_ask c .performed request
    have hchanges := c.ledger.changes_perform c.now (.drawn c.drawn) offset group request
    rw [show (c.ledger.perform c.now (.drawn c.drawn) request).1.entries offset group = some e' from he'] at hchanges
    -- the token is a new one, or that of the entry before
    generalize hsome : some e' = entry at hchanges
    cases hchanges with
    | kept => exact (h.entries offset group e' hsome.symm).mono hle
    | claimed own chosen =>
      rw [Option.some.inj hsome]
      exact ⟨c.drawn, Nat.lt_succ_self _, rfl⟩
    | acked held own | nacked held own | renewed held own =>
      rw [Option.some.inj hsome]
      exact (h.entries _ _ _ (Ledger.current?_eq_some.1 held).1).mono hle
    | forgotten => cases hsome

theorem Sound.commit (h : c.Sound) {staged : List (String × List Message)} {l : Ledger}
    (done : c.ledger.commit c.now staged = .ok l) : Sound { c with ledger := l } := by
  obtain ⟨hext, hentries, -⟩ := c.ledger.extends_commit done
  refine h.mono (h.ledger.commit done) (fun offset group e he => ?_) hext (Nat.le_refl _) rfl
  rw [show l.entries offset group = _ from congrFun (congrFun hentries offset) group] at he
  exact h.entries offset group e he

theorem Sound.joined (h : c.Sound) (setup : Setup) : Sound { c with posts := c.posts ++ [(setup, .starting)] } where
  ledger := h.ledger
  entries := h.entries
  phases p hp := by
    rcases List.mem_append.1 hp with hp | hp
    · exact h.phases p hp
    · rw [List.mem_singleton.1 hp]
      exact Phase.sound_starting _
  held p hp k hk := by
    rcases List.mem_append.1 hp with hp | hp
    · exact h.held p hp k hk
    · rw [List.mem_singleton.1 hp] at hk
      cases hk

theorem Sound.enter (h : c.Sound) (i : Nat) {setup : Setup} {p : Phase} (sound : p.Sound setup.role)
    (held : ∀ k ∈ p.held, Backs c.ledger setup k ∧ Issued c.drawn k.receipt.token) : (c.enter i setup p).Sound where
  ledger := h.ledger
  entries := h.entries
  phases q hq := by
    rcases List.mem_or_eq_of_mem_set hq with hq | rfl
    · exact h.phases q hq
    · exact sound
  held q hq := by
    rcases List.mem_or_eq_of_mem_set hq with hq | rfl
    · exact h.held q hq
    · exact held

theorem Sound.moved (h : c.Sound) {i : Nat} {setup : Setup} {p p' : Phase} (post : c.posts[i]? = some (setup, p))
    (passes : Passes setup p none p') : (c.enter i setup p').Sound := by
  have hp := List.mem_of_getElem? post
  refine h.enter i (passes.sound (h.phases _ hp)) fun k hk => h.held _ hp k ?_
  have := passes.held.subset hk
  rwa [Consumer.brought, List.append_nil] at this

theorem Sound.answered (h : c.Sound) {i : Nat} {setup : Setup} {p p' : Phase} {fate : Fate} {request : Store.Request}
    (post : c.posts[i]? = some (setup, p)) (asks : Asks setup p request)
    (passes : Passes setup p (some (request, (c.ask fate request).2)) p') :
    ((c.ask fate request).1.enter i setup p').Sound := by
  have hp := List.mem_of_getElem? post
  refine (h.ask fate request).enter i (passes.sound (h.phases _ hp)) fun k hk => ?_
  rcases List.mem_append.1 (passes.held.subset hk) with hk | hk
  · obtain ⟨hbacks, hissued⟩ := h.held _ hp k hk
    exact ⟨hbacks.mono (extends_ask c fate request), hissued.mono (drawn_le_ask c fate request)⟩
  · obtain ⟨r, rfl, hreply, -, hdrawn⟩ := ask_claimed hk
    obtain rfl := asks.claim_eq
    rw [Consumer.brought, hreply] at hk
    obtain ⟨m, hm, rfl⟩ := List.mem_map.1 hk
    refine ⟨⟨rfl, m, (extends_ask c fate _).mem_log (Ledger.mem_chosen hm).1, rfl, rfl⟩, c.drawn, ?_, rfl⟩
    omega

/-- **Every step keeps a core sound.** -/
theorem Sound.step (h : c.Sound) {t : Turn} {c' : Core} (hstep : Step c t c') : c'.Sound := by
  cases hstep with
  | still => exact h
  | waited => exact h.grow rfl (Nat.le_refl _) rfl
  | drew => exact h.drew 1
  | opened => exact h.grow rfl (Nat.le_refl _) rfl
  | subscribed known free more => exact (h.joined _).grow rfl more rfl
  | forwarding known => exact h.joined _
  | published => exact (h.drew _).ask _ _
  | committed done => exact h.commit done
  | asked => exact h.ask _ _
  | closed => exact h.ask _ _
  | looked post =>
    have hphase := h.phases _ (List.mem_of_getElem? post)
    exact h.moved post (Consumer.passes_look _ _ hphase)
  | finished post =>
    have hphase := h.phases _ (List.mem_of_getElem? post)
    exact h.moved post (Consumer.passes_finish _ _ hphase)
  | answered post waits =>
    have hphase := h.phases _ (List.mem_of_getElem? post)
    exact h.answered post (Consumer.asks_of_request waits) (Consumer.passes_answer _ _ _ hphase waits)

/-- **What every consumer keeps that moves**, all consumers keep. -/
theorem Step.posts {c' : Core} {t : Turn} (hstep : Step c t c') (sound : c.Sound) {keeps : Setup → Phase → Prop}
    (starts : ∀ setup, keeps setup .starting)
    (moves : ∀ setup p p', keeps setup p → Passes setup p none p' → keeps setup p')
    (answers : ∀ setup p p' fate request, keeps setup p → Asks setup p request →
      Passes setup p (some (request, (c.ask fate request).2)) p' → keeps setup p')
    (h : ∀ q ∈ c.posts, keeps q.1 q.2) : ∀ q ∈ c'.posts, keeps q.1 q.2 := by
  have hjoined : ∀ setup, ∀ q ∈ c.posts ++ [(setup, .starting)], keeps q.1 q.2 := by
    intro setup q hq
    rcases List.mem_append.1 hq with hq | hq
    · exact h q hq
    · rw [List.mem_singleton.1 hq]
      exact starts setup
  have hentered : ∀ {i : Nat} {setup : Setup} {p : Phase}, keeps setup p →
      ∀ q ∈ c.posts.set i (setup, p), keeps q.1 q.2 := by
    intro i setup p hkeeps q hq
    rcases List.mem_or_eq_of_mem_set hq with hq | rfl
    · exact h q hq
    · exact hkeeps
  cases hstep with
  | still | waited | drew | opened | committed => exact h
  | subscribed | forwarding => exact hjoined _
  | published | asked | closed =>
    rw [posts_ask]
    exact h
  | looked post =>
    have hp := List.mem_of_getElem? post
    exact hentered (moves _ _ _ (h _ hp) (Consumer.passes_look _ _ (sound.phases _ hp)))
  | finished post =>
    have hp := List.mem_of_getElem? post
    exact hentered (moves _ _ _ (h _ hp) (Consumer.passes_finish _ _ (sound.phases _ hp)))
  | answered post waits =>
    have hp := List.mem_of_getElem? post
    unfold enter
    rw [posts_ask]
    exact hentered (answers _ _ _ _ _ (h _ hp) (Consumer.asks_of_request waits)
      (Consumer.passes_answer _ _ _ (sound.phases _ hp) waits))

end DurableBus.System.Core
