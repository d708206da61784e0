import DurableBus.Proofs.System.Holding

/-!
# Handouts

A `Handout` tells which message a consumer has taken in hand, when, and what came of it.

* `handouts` : the handouts of a run, in the order in which they began;
* `Core.Noted` : whatever consumers have in hand is a handout that has not ended, and the other way round;
* `Noted.passes` : every move of a consumer keeps that.
-/

set_option autoImplicit false

namespace DurableBus

open Consumer (Setup Passes)

namespace System

/-- A message that a consumer takes in hand, from then until its claim is settled. -/
structure Handout where
  member : Nat
  topic : String
  receipt : Receipt
  /-- How long the claims of the consumer are exclusive. -/
  lease : Duration
  began : Instant
  /-- When its claim was settled, and whether the work on it had succeeded. -/
  ended : Option (Instant × Bool)
deriving DecidableEq, Repr

namespace Handout

/-- Whether a message of a topic was taken in hand for a group. -/
def IsOn (topic group : String) (h : Handout) : Prop := h.topic = topic ∧ h.receipt.group = group

instance (topic group : String) (h : Handout) : Decidable (h.IsOn topic group) :=
  inferInstanceAs (Decidable (_ ∧ _))

/-- When its claim was settled, or how late it is by now. -/
def lastsUntil (now : Instant) (h : Handout) : Instant := (h.ended.map (·.1)).getD now

/-- Of two handouts of a message for a group the first ended without success, before the second began. -/
def OneByOne (topic group : String) (h h' : Handout) : Prop :=
  h.IsOn topic group → h'.IsOn topic group → h.receipt.offset = h'.receipt.offset →
    ∃ t, h.ended = some (t, false) ∧ t ≤ h'.began

/-- Every handout is shorter than its lease. -/
def Prompt (topic group : String) (now : Instant) (hs : List Handout) : Prop :=
  ∀ h ∈ hs, h.IsOn topic group → h.lastsUntil now < h.began.plus h.lease

/-- The handout after the message that a member had in hand has been settled. -/
def settle (member : Nat) (now : Instant) (success : Bool) (h : Handout) : Handout :=
  { h with ended := if h.member = member ∧ h.ended = none then some (now, success) else h.ended }

theorem ended_settle (member : Nat) (now : Instant) (success : Bool) (h : Handout) :
    h.member = member ∧ h.ended = none ∧ (h.settle member now success).ended = some (now, success) ∨
      (h.ended = none → h.member ≠ member) ∧ (h.settle member now success).ended = h.ended := by
  unfold settle
  by_cases hopen : h.member = member ∧ h.ended = none
  · exact Or.inl ⟨hopen.1, hopen.2, if_pos hopen⟩
  · exact Or.inr ⟨fun hended hmember => hopen ⟨hmember, hended⟩, if_neg hopen⟩

theorem lastsUntil_mono (h : Handout) {now now' : Instant} (hle : now ≤ now') :
    h.lastsUntil now ≤ h.lastsUntil now' := by
  unfold lastsUntil
  cases h.ended with
  | none => exact hle
  | some outcome => exact Nat.le_refl _

theorem lastsUntil_settle (member : Nat) (now now' : Instant) (success : Bool) (h : Handout) (hle : now ≤ now') :
    h.lastsUntil now ≤ (h.settle member now success).lastsUntil now' := by
  rcases h.ended_settle member now success with ⟨-, hopen, hsettle⟩ | ⟨-, hsettle⟩
  · unfold lastsUntil
    rw [hopen, hsettle]
    exact Nat.le_refl _
  · unfold lastsUntil
    rw [hsettle]
    exact h.lastsUntil_mono hle

/-- The handouts after a move of a member, from what it had in hand before and has in hand then. -/
def note (hs : List Handout) (member : Nat) (now : Instant) :
    Option (Setup × Job) → Option (Setup × Job) → List Handout
  | none, some (setup, job) =>
    hs ++ [⟨member, setup.topic, job.claimed.receipt, setup.settings.claimLease, now, none⟩]
  | some (_, job), none => hs.map (settle member now job.isAcking)
  | _, _ => hs

/-- A handout stays noted, as it was or settled. -/
theorem mem_note {hs : List Handout} {h : Handout} (hh : h ∈ hs) (member : Nat) (now : Instant)
    (before after : Option (Setup × Job)) :
    h ∈ note hs member now before after ∨ ∃ success, h.settle member now success ∈ note hs member now before after := by
  unfold note
  split
  · exact Or.inl (List.mem_append_left _ hh)
  · exact Or.inr ⟨_, List.mem_map_of_mem hh⟩
  · exact Or.inl hh

end Handout

def workAt (s : System) (i : Nat) : Option (Setup × Job) :=
  s.members[i]?.bind fun m => m.consumer.phase.job?.map (m.consumer.setup, ·)

/-- The consumer that a turn moves. Only its own turns change what it has in hand. -/
def Turn.mover? : Turn → Option Nat
  | .look i | .answer i _ | .finish i _ => some i
  | _ => none

/-- The handouts after a turn, from what members had in hand before and have in hand then. -/
def Turn.note (t : Turn) (now : Instant) (before after : Nat → Option (Setup × Job)) (hs : List Handout) :
    List Handout :=
  match t.mover? with
  | some i => Handout.note hs i now (before i) (after i)
  | none => hs

theorem Turn.note_of_mover {t : Turn} {i : Nat} (mover : t.mover? = some i) (now : Instant)
    (before after : Nat → Option (Setup × Job)) (hs : List Handout) :
    t.note now before after hs = Handout.note hs i now (before i) (after i) := by
  unfold note
  rw [mover]

theorem Turn.note_of_unmoved {t : Turn} (unmoved : t.mover? = none) (now : Instant)
    (before after : Nat → Option (Setup × Job)) (hs : List Handout) : t.note now before after hs = hs := by
  unfold note
  rw [unmoved]

theorem Turn.note_same (t : Turn) (now : Instant) (work : Nat → Option (Setup × Job)) (hs : List Handout) :
    t.note now work work hs = hs := by
  unfold note
  split
  case h_1 i _ => cases work i <;> rfl
  case h_2 => rfl

theorem Turn.mem_note (t : Turn) (now : Instant) (before after : Nat → Option (Setup × Job)) {hs : List Handout}
    {h : Handout} (hh : h ∈ hs) :
    h ∈ t.note now before after hs ∨ ∃ i success, h.settle i now success ∈ t.note now before after hs := by
  unfold note
  split
  case h_1 i _ => exact (Handout.mem_note hh i now (before i) (after i)).imp_right fun hsettled => ⟨i, hsettled⟩
  case h_2 => exact Or.inl hh

def handoutsAfter (s : System) (t : Turn) (hs : List Handout) : List Handout :=
  t.note s.now s.workAt (s.turn t).1.workAt hs

def watch (turns : List Turn) : System × List Handout :=
  turns.foldl (fun w t => ((w.1.turn t).1, w.1.handoutsAfter t w.2)) (start, [])

/-- The handouts of a run, in the order in which they began. -/
def handouts (turns : List Turn) : List Handout := (watch turns).2

theorem watch_fst (turns : List Turn) : (watch turns).1 = run turns := by
  have hall : ∀ w : System × List Handout,
      (turns.foldl (fun w t => ((w.1.turn t).1, w.1.handoutsAfter t w.2)) w).1 =
        turns.foldl (fun s t => (s.turn t).1) w.1 := by
    induction turns with
    | nil => exact fun _ => rfl
    | cons t rest ih => exact fun w => ih _
  exact hall (start, [])

theorem handouts_concat (turns : List Turn) (t : Turn) :
    handouts (turns ++ [t]) =
      t.note (run turns).now (run turns).workAt (run (turns ++ [t])).workAt (handouts turns) := by
  have hwatch : watch (turns ++ [t]) =
      (((watch turns).1.turn t).1, (watch turns).1.handoutsAfter t (watch turns).2) := by
    unfold watch
    rw [List.foldl_append]
    rfl
  unfold handouts
  rw [hwatch, run_concat, watch_fst]
  rfl

namespace Core

def workAt (c : Core) (i : Nat) : Option (Setup × Job) := c.posts[i]?.bind fun p => p.2.job?.map (p.1, ·)

theorem workAt_core (s : System) (l : Ledger) : (s.core l).workAt = s.workAt := by
  funext i
  unfold workAt System.workAt
  show ((s.members.map _)[i]?).bind _ = _
  rw [List.getElem?_map]
  cases s.members[i]? <;> rfl

theorem workAt_of_post {c : Core} {i : Nat} {setup : Setup} {p : Phase} (post : c.posts[i]? = some (setup, p)) :
    c.workAt i = p.job?.map (setup, ·) := by
  unfold workAt
  rw [post]
  rfl

theorem post_of_workAt {c : Core} {i : Nat} {setup : Setup} {job : Job} (busy : c.workAt i = some (setup, job)) :
    ∃ p, (setup, p) ∈ c.posts ∧ p.job? = some job := by
  obtain ⟨⟨setup', p⟩, post, hjob⟩ := Option.bind_eq_some_iff.1 busy
  obtain ⟨job', hjob', heq⟩ := Option.map_eq_some_iff.1 hjob
  cases heq
  exact ⟨p, List.mem_of_getElem? post, hjob'⟩

theorem job?_of_workAt {c : Core} {i : Nat} {setup setup' : Setup} {p : Phase} {job : Job}
    (post : c.posts[i]? = some (setup, p)) (busy : c.workAt i = some (setup', job)) : p.job? = some job := by
  rw [workAt_of_post post, Option.map_eq_some_iff] at busy
  obtain ⟨job', hjob, heq⟩ := busy
  cases heq
  exact hjob

theorem workAt_enter {c : Core} {i : Nat} {setup : Setup} {p : Phase} (post : c.posts[i]? = some (setup, p))
    (p' : Phase) (j : Nat) : (c.enter i setup p').workAt j = if j = i then p'.job?.map (setup, ·) else c.workAt j := by
  unfold workAt enter
  simp only [List.getElem?_set]
  by_cases hj : j = i
  · subst hj
    have hlt := (List.getElem?_eq_some_iff.1 post).1
    simp [hlt]
  · rw [if_neg (Ne.symm hj), if_neg hj]

def claimAt (c : Core) (i : Nat) : Option (Setup × Claimed) := (c.workAt i).map fun w => (w.1, w.2.claimed)

theorem claimAt_of_post {c : Core} {i : Nat} {setup : Setup} {p : Phase} (post : c.posts[i]? = some (setup, p)) :
    c.claimAt i = p.job?.map fun job => (setup, job.claimed) := by
  unfold claimAt
  rw [workAt_of_post post, Option.map_map]
  rfl

theorem claimAt_enter {c : Core} {i : Nat} {setup : Setup} {p : Phase} (post : c.posts[i]? = some (setup, p))
    (p' : Phase) (j : Nat) :
    (c.enter i setup p').claimAt j = if j = i then p'.job?.map fun job => (setup, job.claimed) else c.claimAt j := by
  unfold claimAt
  rw [workAt_enter post]
  split
  · rw [Option.map_map]
    rfl
  · rfl

theorem workAt_joined (c : Core) (setup : Setup) :
    workAt { c with posts := c.posts ++ [(setup, .starting)] } = c.workAt := by
  funext i
  unfold workAt
  show (c.posts ++ [(setup, Phase.starting)])[i]?.bind _ = _
  rw [List.getElem?_append]
  split
  case isTrue => rfl
  case isFalse hi =>
    rw [List.getElem?_eq_none (Nat.le_of_not_lt hi)]
    cases hget : [(setup, Phase.starting)][i - c.posts.length]? with
    | none => rfl
    | some p =>
      rw [List.mem_singleton.1 (List.mem_of_getElem? hget)]
      rfl

theorem claimAt_joined (c : Core) (setup : Setup) :
    claimAt { c with posts := c.posts ++ [(setup, .starting)] } = c.claimAt := by
  unfold claimAt
  rw [workAt_joined]

theorem workAt_ask (c : Core) (fate : Fate) (request : Store.Request) : (c.ask fate request).1.workAt = c.workAt := by
  unfold workAt
  rw [posts_ask]

theorem claimAt_ask (c : Core) (fate : Fate) (request : Store.Request) :
    (c.ask fate request).1.claimAt = c.claimAt := by
  unfold claimAt
  rw [workAt_ask]

theorem post_enter {c : Core} {i : Nat} {setup : Setup} {p : Phase} (post : c.posts[i]? = some (setup, p))
    (p' : Phase) : (c.enter i setup p').posts[i]? = some (setup, p') :=
  List.getElem?_set_self (List.getElem?_eq_some_iff.1 post).1

theorem post_of_enter {c : Core} {i j : Nat} {setup : Setup} {p : Phase} {q : Setup × Phase}
    (post : (c.enter i setup p).posts[j]? = some q) : j = i ∧ q = (setup, p) ∨ j ≠ i ∧ c.posts[j]? = some q := by
  unfold enter at post
  rw [List.getElem?_set] at post
  split at post
  case isTrue hij =>
    split at post
    · exact Or.inl ⟨hij.symm, (Option.some.inj post).symm⟩
    · cases post
  case isFalse hij => exact Or.inr ⟨Ne.symm hij, post⟩

theorem post_ask {c : Core} {fate : Fate} {request : Store.Request} {i : Nat} {q : Setup × Phase}
    (post : c.posts[i]? = some q) : (c.ask fate request).1.posts[i]? = some q := by
  rw [posts_ask]
  exact post

theorem post_of_claimAt {c : Core} {i : Nat} {setup : Setup} {k : Claimed} (h : c.claimAt i = some (setup, k)) :
    ∃ p, c.posts[i]? = some (setup, p) ∧ k ∈ p.held := by
  unfold claimAt workAt at h
  rw [Option.map_eq_some_iff] at h
  obtain ⟨⟨setup', job⟩, hwork, heq⟩ := h
  rw [Option.bind_eq_some_iff] at hwork
  obtain ⟨⟨setup'', p⟩, hpost, hjob⟩ := hwork
  rw [Option.map_eq_some_iff] at hjob
  obtain ⟨job', hjob, hsame⟩ := hjob
  cases hsame
  cases heq
  exact ⟨p, hpost, Phase.claimed_mem_held hjob⟩

variable {c c' : Core} {hs : List Handout}

/-! ## The history -/

/-- **Handouts tell what consumers have in hand.** -/
structure Noted (c : Core) (hs : List Handout) : Prop where
  stored : ∀ h ∈ hs, ∃ m ∈ c.ledger.log h.topic, m.offset = h.receipt.offset
  past : ∀ h ∈ hs, ∀ t success, h.ended = some (t, success) → t ≤ c.now
  inHand : ∀ h ∈ hs, h.ended = none → ∃ setup k, c.claimAt h.member = some (setup, k) ∧
    setup.topic = h.topic ∧ k.receipt = h.receipt
  noted : ∀ i setup k, c.claimAt i = some (setup, k) → ∃ h ∈ hs, h.ended = none ∧ h.member = i ∧
    h.topic = setup.topic ∧ h.receipt = k.receipt

theorem noted_start : start.Noted [] where
  stored _ h := by cases h
  past _ h := by cases h
  inHand _ h := by cases h
  noted i setup k h := by cases h

theorem Noted.aside (h : c.Noted hs) (ext : c.ledger.Extends c'.ledger) (now : c.now ≤ c'.now)
    (claims : c'.claimAt = c.claimAt) : c'.Noted hs where
  stored x hx := by
    obtain ⟨m, hm, ho⟩ := h.stored x hx
    exact ⟨m, ext.mem_log hm, ho⟩
  past x hx t success hended := Nat.le_trans (h.past x hx t success hended) now
  inHand := claims ▸ h.inHand
  noted := claims ▸ h.noted

/-- A step that takes a message in hand. -/
theorem Noted.taken (h : c.Noted hs) {i : Nat} {setup : Setup} {k : Claimed} {lease : Duration}
    (ext : c.ledger.Extends c'.ledger) (now : c.now = c'.now) (was : c.claimAt i = none)
    (claims : ∀ j, c'.claimAt j = if j = i then some (setup, k) else c.claimAt j) (backs : Backs c'.ledger setup k) :
    c'.Noted (hs ++ [⟨i, setup.topic, k.receipt, lease, c.now, none⟩]) where
  stored x hx := by
    rcases List.mem_append.1 hx with hx | hx
    · obtain ⟨m, hm, ho⟩ := h.stored x hx
      exact ⟨m, ext.mem_log hm, ho⟩
    · obtain rfl := List.mem_singleton.1 hx
      obtain ⟨-, m, hm, ho, -⟩ := backs
      exact ⟨m, hm, ho⟩
  past x hx t success hended := by
    rcases List.mem_append.1 hx with hx | hx
    · exact now ▸ h.past x hx t success hended
    · obtain rfl := List.mem_singleton.1 hx
      cases hended
  inHand x hx hopen := by
    rcases List.mem_append.1 hx with hx | hx
    · obtain ⟨setup', k', hclaim, hsame⟩ := h.inHand x hx hopen
      have hother : x.member ≠ i := by
        rintro rfl
        rw [was] at hclaim
        cases hclaim
      exact ⟨setup', k', by rw [claims, if_neg hother, hclaim], hsame⟩
    · obtain rfl := List.mem_singleton.1 hx
      exact ⟨setup, k, by rw [claims, if_pos rfl], rfl, rfl⟩
  noted j setup' k' hclaim := by
    rw [claims] at hclaim
    split at hclaim
    case isTrue hj =>
      cases hclaim
      exact ⟨_, List.mem_append_right _ List.mem_cons_self, rfl, hj.symm, rfl, rfl⟩
    case isFalse =>
      obtain ⟨x, hx, hsame⟩ := h.noted j setup' k' hclaim
      exact ⟨x, List.mem_append_left _ hx, hsame⟩

theorem Noted.settled (h : c.Noted hs) {i : Nat} {success : Bool} (ext : c.ledger.Extends c'.ledger)
    (now : c.now = c'.now) (claims : ∀ j, c'.claimAt j = if j = i then none else c.claimAt j) :
    c'.Noted (hs.map (Handout.settle i c.now success)) where
  stored x hx := by
    obtain ⟨y, hy, rfl⟩ := List.mem_map.1 hx
    obtain ⟨m, hm, ho⟩ := h.stored y hy
    exact ⟨m, ext.mem_log hm, ho⟩
  past x hx t success' hended := by
    obtain ⟨y, hy, rfl⟩ := List.mem_map.1 hx
    rcases y.ended_settle i c.now success with ⟨-, -, hsettle⟩ | ⟨-, hsettle⟩
    · rw [hsettle] at hended
      cases hended
      exact Nat.le_of_eq now
    · exact now ▸ h.past y hy t success' (hsettle ▸ hended)
  inHand x hx hopen := by
    obtain ⟨y, hy, rfl⟩ := List.mem_map.1 hx
    rcases y.ended_settle i c.now success with ⟨-, -, hsettle⟩ | ⟨hother, hsettle⟩
    · rw [hsettle] at hopen
      cases hopen
    · rw [hsettle] at hopen
      obtain ⟨setup, k, hclaim, hsame⟩ := h.inHand y hy hopen
      have hkept := claims y.member
      rw [if_neg (hother hopen)] at hkept
      exact ⟨setup, k, hkept.trans hclaim, hsame⟩
  noted j setup k hclaim := by
    rw [claims] at hclaim
    split at hclaim
    case isTrue => cases hclaim
    case isFalse hj =>
      obtain ⟨y, hy, hopen, hmember, hsame⟩ := h.noted j setup k hclaim
      refine ⟨_, List.mem_map_of_mem hy, ?_, hmember, hsame⟩
      rcases y.ended_settle i c.now success with ⟨hi, -, -⟩ | ⟨-, hsettle⟩
      · exact absurd (hmember.symm.trans hi) hj
      · rw [hsettle, hopen]

/-- **Noting what a member has in hand after it has moved.** -/
theorem Noted.passes (h : c.Noted hs) {i : Nat} {setup : Setup} {p p' : Phase}
    {occasion : Option (Store.Request × Store.Reply)} (post : c.posts[i]? = some (setup, p))
    (passes : Passes setup p occasion p') (ext : c.ledger.Extends c'.ledger) (now : c.now = c'.now)
    (claims : ∀ j, c'.claimAt j = if j = i then p'.job?.map fun job => (setup, job.claimed) else c.claimAt j)
    (backs : ∀ k ∈ p'.held, Backs c'.ledger setup k) :
    c'.Noted (Handout.note hs i c.now (p.job?.map (setup, ·)) (p'.job?.map (setup, ·))) := by
  have hclaim := claimAt_of_post post
  -- as long as the claim at hand is the same, nothing is to be noted
  have haside : (p'.job?.map fun job => (setup, job.claimed)) = (p.job?.map fun job => (setup, job.claimed)) →
      c'.Noted hs := by
    intro same
    refine h.aside ext (Nat.le_of_eq now) (funext fun j => ?_)
    rw [claims]
    split
    case isTrue hj => rw [hj, hclaim, same]
    case isFalse => rfl
  cases passes with
  | free was is held waits =>
    rw [was, is] at haside ⊢
    exact haside rfl
  | @taken p s k occasion was gives held waits =>
    rw [was] at hclaim ⊢
    have hheld : (Phase.working s (Consumer.jobFor setup k)).held = k :: s.held := by
      rw [Phase.held, Consumer.claimed_jobFor]
    have hbacks := backs k (hheld ▸ List.mem_cons_self)
    show c'.Noted (hs ++ [⟨i, setup.topic, (Consumer.jobFor setup k).claimed.receipt, _, c.now, none⟩])
    rw [Consumer.claimed_jobFor]
    refine h.taken ext now hclaim (fun j => ?_) hbacks
    rw [claims, Phase.job?, Option.map_some, Consumer.claimed_jobFor]
  | continued underWay settling success => exact haside (by simp [Phase.job?])
  | settled settles => exact h.settled ext now claims

theorem Noted.idle (h : c.Noted hs) {i : Nat} {setup : Setup} {p : Phase} (post : c.posts[i]? = some (setup, p))
    (was : p.job? = none) {x : Handout} (hx : x ∈ hs) (hopen : x.ended = none) : x.member ≠ i := by
  rintro rfl
  obtain ⟨setup', k, hclaim, -⟩ := h.inHand x hx hopen
  rw [claimAt_of_post post, was] at hclaim
  cases hclaim

end Core

end System

end DurableBus
