import DurableBus.Proofs.System.Handouts

/-!
# One at a time

Consumers of a group on a topic work on a message one at a time, and on none that one of them has worked on
successfully, as long as each is done with a message before the lease of its claim ends.

* `Core.Apart` : no two consumers hold claims under the same token;
* `Leased` : who has a message in hand holds its claim, and what was worked on successfully is final;
* `Exclusive.step` : every step keeps that;
* `handouts_exclusive` : what follows for a run.
-/

set_option autoImplicit false

namespace DurableBus

open Consumer (Setup Passes Asks)

/-- How many identifiers are drawn until one comes again. -/
def Uuid.supply : Nat := 0x4000_0000_0000_0000

theorem Uuid.drawn_inj {n n' : Nat} (hn : n < supply) (hn' : n' < supply) (h : drawn n = drawn n') : n = n' := by
  unfold supply at hn hn'
  have hbits := congrArg (fun u => u.bits.toNat) h
  simp only [drawn, ofNat, BitVec.toNat_ofNat] at hbits
  omega

namespace System

def requestAt (s : System) (i : Nat) : Option Store.Request := s.members[i]?.bind (·.consumer.request?)

/-- Whether a turn leaves the claims of a group on a topic to its consumers: nobody forgets the group, nobody else
settles or renews a claim of the group, and no acknowledgement is rejected. -/
def Turn.SparesClaims (topic group : String) (requestAt : Nat → Option Store.Request) : Turn → Prop
  | .ask _ request => request ≠ .forgetGroup topic group ∧ ∀ r ∈ request.receipt?, r.group ≠ group
  | .answer i fate => ∀ request ∈ requestAt i, request ≠ .forgetGroup topic group ∧
      (request.operation = .ack → ∀ r ∈ request.receipt?, r.group = group → fate = .performed)
  | _ => True

instance (topic group : String) (requestAt : Nat → Option Store.Request) :
    (t : Turn) → Decidable (t.SparesClaims topic group requestAt)
  | .ask _ _ => inferInstanceAs (Decidable (_ ∧ _))
  | .answer _ _ => inferInstanceAs (Decidable (∀ _ ∈ _, _ ∧ _))
  | .look _ | .finish _ _ | .receive _ | .abandon _ | .lookLink _ | .fire _ | .wait _ | .draw | .addBus _ _
  | .subscribe _ _ _ _ | .startForwarder _ _ | .publish _ _ _ _ _ | .commit _ | .beginShutdown _ | .lookShutdown _
  | .answerShutdown _ _ => inferInstanceAs (Decidable True)

namespace Core

def requestAt (c : Core) (i : Nat) : Option Store.Request :=
  c.posts[i]?.bind fun p => { Consumer.new p.1 0 with phase := p.2 }.request?

theorem requestAt_core (s : System) (l : Ledger) : (s.core l).requestAt = s.requestAt := by
  funext i
  unfold requestAt System.requestAt
  show ((s.members.map _)[i]?).bind _ = _
  rw [List.getElem?_map]
  cases s.members[i]? with
  | none => rfl
  | some m => exact Consumer.request?_congr rfl rfl

theorem requestAt_of_post {c : Core} {i : Nat} {m : Consumer} (post : c.posts[i]? = some (m.setup, m.phase))
    {request : Store.Request} (waits : m.request? = some request) : c.requestAt i = some request := by
  unfold requestAt
  rw [post]
  exact (Consumer.request?_congr rfl rfl).trans waits

open Handout (OneByOne Prompt)

variable {topic group : String} {c c' : Core} {hs : List Handout}

/-! ## Tokens -/

/-- No two consumers hold claims under the same token. -/
def Apart (c : Core) : Prop :=
  ∀ (i j : Nat) (p q : Setup × Phase), i ≠ j → c.posts[i]? = some p → c.posts[j]? = some q →
    ∀ k ∈ p.2.held, ∀ k' ∈ q.2.held, k.receipt.token ≠ k'.receipt.token

theorem Apart.enter (h : c.Apart) {i : Nat} {setup : Setup} {p' : Phase}
    (own : ∀ (j : Nat) (q : Setup × Phase), j ≠ i → c.posts[j]? = some q →
      ∀ k ∈ p'.held, ∀ k' ∈ q.2.held, k.receipt.token ≠ k'.receipt.token) : (c.enter i setup p').Apart := by
  intro a b p q hab hp hq k hk k' hk'
  rcases post_of_enter hp with ⟨ha, rfl⟩ | ⟨ha, hp'⟩
  · rcases post_of_enter hq with ⟨hb, -⟩ | ⟨hb, hq'⟩
    · exact absurd (ha.trans hb.symm) hab
    · exact own b q hb hq' k hk k' hk'
  · rcases post_of_enter hq with ⟨hb, rfl⟩ | ⟨hb, hq'⟩
    · exact (own a p ha hp' k' hk' k hk).symm
    · exact h a b p q hab hp' hq' k hk k' hk'

theorem Apart.ask (h : c.Apart) (fate : Fate) (request : Store.Request) : (c.ask fate request).1.Apart := by
  unfold Apart
  rw [posts_ask]
  exact h

theorem Apart.joined (h : c.Apart) (setup : Setup) : Apart { c with posts := c.posts ++ [(setup, .starting)] } := by
  have hget : ∀ {j : Nat} {q : Setup × Phase} {k : Claimed}, (c.posts ++ [(setup, Phase.starting)])[j]? = some q →
      k ∈ q.2.held → c.posts[j]? = some q := by
    intro j q k hq hk
    rw [List.getElem?_append] at hq
    split at hq
    case isTrue => exact hq
    case isFalse =>
      rw [List.mem_singleton.1 (List.mem_of_getElem? hq)] at hk
      cases hk
  exact fun i j p q hij hp hq k hk k' hk' => h i j p q hij (hget hp hk) (hget hq hk') k hk k' hk'

theorem Apart.moved (h : c.Apart) {i : Nat} {setup : Setup} {p p' : Phase} (post : c.posts[i]? = some (setup, p))
    (passes : Passes setup p none p') : (c.enter i setup p').Apart := by
  refine h.enter fun j q hj hq k hk k' hk' => ?_
  have hheld := passes.held.subset hk
  rw [Consumer.brought, List.append_nil] at hheld
  exact h i j _ q (Ne.symm hj) post hq k hheld k' hk'

theorem Apart.answered (h : c.Apart) (sound : c.Sound) {i : Nat} {setup : Setup} {p p' : Phase} {fate : Fate}
    {request : Store.Request} (bound : (c.ask fate request).1.drawn ≤ Uuid.supply)
    (post : c.posts[i]? = some (setup, p))
    (passes : Passes setup p (some (request, (c.ask fate request).2)) p') :
    ((c.ask fate request).1.enter i setup p').Apart := by
  refine (h.ask fate request).enter fun j q hj hq k hk k' hk' => ?_
  rw [posts_ask] at hq
  rcases List.mem_append.1 (passes.held.subset hk) with hk | hk
  · exact h i j _ q (Ne.symm hj) post hq k hk k' hk'
  · obtain ⟨r, rfl, hreply, -, hdrawn⟩ := ask_claimed hk
    rw [Consumer.brought, hreply] at hk
    obtain ⟨m, -, rfl⟩ := List.mem_map.1 hk
    obtain ⟨n, hn, htoken⟩ := (sound.held q (List.mem_of_getElem? hq) k' hk').2
    intro same
    rw [htoken] at same
    have := Uuid.drawn_inj (by omega) (by omega) same
    omega

/-! ## Exclusive work -/

/-- What a group's claims are worth to who works under them. -/
structure Leased (topic group : String) (l : Ledger) (hs : List Handout) : Prop where
  /-- What is in hand is claimed, for as long as the lease lasts. -/
  claimed : ∀ h ∈ hs, h.ended = none → h.IsOn topic group → ∃ e, l.entries h.receipt.offset group = some e ∧
    e.state = .claimed ∧ e.token = h.receipt.token ∧ e.visibleAt = h.began.plus h.lease
  /-- What was worked on successfully is final, unless the store has been closed. -/
  final : ∀ h ∈ hs, ∀ t, h.ended = some (t, true) → h.IsOn topic group →
    l.isFinal group h.receipt.offset ∨ l.closed = true
  exclusive : hs.Pairwise (OneByOne topic group)

/-- **The invariant of exclusive work.** -/
structure Exclusive (topic group : String) (c : Core) (hs : List Handout) : Prop where
  sound : c.Sound
  apart : c.Apart
  noted : c.Noted hs
  leased : Leased topic group c.ledger hs

theorem exclusive_start (topic group : String) : Exclusive topic group start [] where
  sound := sound_start
  apart i j p q _ hp := by simp [start] at hp
  noted := noted_start
  leased := ⟨fun _ h => (by cases h), fun _ h => (by cases h), .nil⟩

theorem closed_ask {fate : Fate} {request : Store.Request} (closed : c.ledger.closed = true) :
    (c.ask fate request).1.ledger.closed = true := by
  cases fate with
  | rejected => exact closed
  | performed => exact Ledger.closed_perform closed request

/-- A message that is being worked on is not to be handed out before the lease ends. -/
theorem firm_of_prompt (h : Prompt topic group c.now hs) {x : Handout} (hx : x ∈ hs) (hopen : x.ended = none)
    (hon : x.IsOn topic group) {e : Entry} (visible : e.visibleAt = x.began.plus x.lease) :
    Entry.isOpen c.now (some e) = false := by
  have hlast := h x hx hon
  rw [Handout.lastsUntil, hopen] at hlast
  have hlate : ¬ e.visibleAt ≤ c.now := by
    rw [visible]
    exact Nat.not_le.2 hlast
  rw [Entry.isOpen, decide_eq_false hlate, Bool.and_false]

theorem Exclusive.entry_ask (h : Exclusive topic group c hs) (prompt : Prompt topic group c.now hs) {x : Handout}
    (hx : x ∈ hs) (hopen : x.ended = none) (hon : x.IsOn topic group) {fate : Fate} {request : Store.Request}
    (forgets : request ≠ .forgetGroup topic group) (foreign : request.receipt? ≠ some x.receipt) :
    (c.ask fate request).1.ledger.entries x.receipt.offset group = c.ledger.entries x.receipt.offset group := by
  obtain ⟨e, he, hstate, htoken, hvisible⟩ := h.leased.claimed x hx hopen hon
  cases fate with
  | rejected => rfl
  | performed =>
    rw [he]
    have hstored := h.noted.stored x hx
    rw [hon.1] at hstored
    refine Ledger.entry_kept h.sound.ledger he hstored (firm_of_prompt prompt hx hopen hon hvisible) forgets fun _ => ?_
    rw [htoken, ← hon.2]
    exact foreign

theorem Exclusive.final_ask (h : Exclusive topic group c hs) {x : Handout} (hx : x ∈ hs) (hon : x.IsOn topic group)
    {t : Instant} (hended : x.ended = some (t, true)) {fate : Fate} {request : Store.Request}
    (forgets : request ≠ .forgetGroup topic group) :
    (c.ask fate request).1.ledger.isFinal group x.receipt.offset ∨ (c.ask fate request).1.ledger.closed = true := by
  refine (h.leased.final x hx t hended hon).imp (fun hfinal => ?_) closed_ask
  cases fate with
  | rejected => exact hfinal
  | performed =>
    have hstored := h.noted.stored x hx
    rw [hon.1] at hstored
    exact Ledger.isFinal_perform h.sound.ledger hstored forgets hfinal

theorem Exclusive.leased_ask (h : Exclusive topic group c hs) (prompt : Prompt topic group c.now hs) {fate : Fate}
    {request : Store.Request} (forgets : request ≠ .forgetGroup topic group)
    (foreign : ∀ x ∈ hs, x.ended = none → x.IsOn topic group → request.receipt? ≠ some x.receipt) :
    Leased topic group (c.ask fate request).1.ledger hs where
  claimed x hx hopen hon := by
    rw [h.entry_ask prompt hx hopen hon forgets (foreign x hx hopen hon)]
    exact h.leased.claimed x hx hopen hon
  final x hx t hended hon := h.final_ask hx hon hended forgets
  exclusive := h.leased.exclusive

/-- A consumer settles and renews nothing that another one has in hand. -/
theorem Exclusive.foreign (h : Exclusive topic group c hs) {x : Handout} (hx : x ∈ hs) (hopen : x.ended = none)
    {i : Nat} {setup : Setup} {p : Phase} {request : Store.Request} (post : c.posts[i]? = some (setup, p))
    (asks : Asks setup p request) (other : x.member ≠ i) : request.receipt? ≠ some x.receipt := by
  intro settles
  obtain ⟨k, hk, hreceipt⟩ := asks.held settles
  obtain ⟨setup', k', hclaim, -, hsame⟩ := h.noted.inHand x hx hopen
  obtain ⟨q, hq, hk'⟩ := post_of_claimAt hclaim
  refine h.apart x.member i _ _ other hq post k' hk' k hk ?_
  rw [hsame, hreceipt]

/-- What is handed out has been open or still been claimed until now, and is claimed from now on. -/
theorem granted {setup : Setup} {fate : Fate} {request : Store.Request} {k : Claimed}
    (gives : Consumer.Gives setup k (some (request, (c.ask fate request).2))) :
    c.ledger.closed = false ∧
      (Entry.isOpen c.now (c.ledger.entries k.receipt.offset k.receipt.group) ∨
        request.receipt? = some k.receipt ∧ ∃ e, c.ledger.current? k.receipt = some e) ∧
      ∃ e, (c.ask fate request).1.ledger.entries k.receipt.offset k.receipt.group = some e ∧
        e.state = .claimed ∧ e.token = k.receipt.token ∧ e.visibleAt = c.now.plus setup.settings.claimLease := by
  have hopened : ∀ a, (c.ask fate request).2 = .ok a → request ≠ .close → c.ledger.closed = false := by
    intro a hreply hclose
    rw [← Bool.not_eq_true]
    intro closed
    have hanswer := (ask_ok hreply).1
    rw [Ledger.perform_of_closed closed hclose] at hanswer
    cases hanswer
  rcases gives with ⟨rest, hoccasion⟩ | ⟨a, hheld, hoccasion⟩
  · obtain ⟨hrequest, hreply⟩ := Prod.mk.inj (Option.some.inj hoccasion)
    refine ⟨hopened _ hreply (by rw [hrequest]; simp), ?_⟩
    have hmem : k ∈ ClaimStream.claimsOf (c.ask fate request).2 := by
      rw [hreply]
      exact List.mem_cons_self
    obtain ⟨r, hr, hclaimed, hledger, -⟩ := ask_claimed hmem
    rw [hclaimed] at hmem
    obtain ⟨m, hm, rfl⟩ := List.mem_map.1 hmem
    obtain rfl := Store.Request.claim.inj (hr.symm.trans hrequest)
    refine ⟨Or.inl (Ledger.mem_chosen hm).2.2, ?_⟩
    rw [hledger]
    exact ⟨_, if_pos ⟨rfl, List.mem_map_of_mem hm⟩, rfl, rfl, rfl⟩
  · obtain ⟨rfl, hreply⟩ := Prod.mk.inj (Option.some.inj hoccasion)
    refine ⟨hopened _ hreply (by simp), ?_⟩
    obtain ⟨hanswer, hledger⟩ := ask_ok hreply
    obtain ⟨e, hcurrent, hrenewed⟩ := Ledger.renewed_of_reply hanswer hheld
    refine ⟨Or.inr ⟨rfl, e, hcurrent⟩, ?_⟩
    obtain ⟨-, hstate, htoken⟩ := Ledger.current?_eq_some.1 hcurrent
    rw [hledger, hrenewed, Ledger.entries_putEntry, if_pos ⟨rfl, rfl⟩]
    exact ⟨_, rfl, hstate, htoken, rfl⟩

/-- A message is taken in hand that nobody works on and that nobody has worked on successfully. -/
theorem Exclusive.leased_taken (h : Exclusive topic group c hs) (prompt : Prompt topic group c.now hs) {i : Nat}
    {setup : Setup} {p : Phase} {fate : Fate} {request : Store.Request} {k : Claimed}
    (post : c.posts[i]? = some (setup, p)) (was : p.job? = none) (asks : Asks setup p request)
    (forgets : request ≠ .forgetGroup topic group)
    (gives : Consumer.Gives setup k (some (request, (c.ask fate request).2))) :
    Leased topic group (c.ask fate request).1.ledger
      (hs ++ [⟨i, setup.topic, k.receipt, setup.settings.claimLease, c.now, none⟩]) := by
  have hforeign : ∀ x ∈ hs, x.ended = none → request.receipt? ≠ some x.receipt :=
    fun x hx hopen => h.foreign hx hopen post asks (h.noted.idle post was hx hopen)
  have hleased : Leased topic group (c.ask fate request).1.ledger hs :=
    h.leased_ask prompt forgets fun x hx hopen _ => hforeign x hx hopen
  obtain ⟨hclosed, hopened, hclaimed⟩ := granted gives
  refine ⟨fun x hx hopen hon => ?_, fun x hx t hended hon => ?_, ?_⟩
  · rcases List.mem_append.1 hx with hx | hx
    · exact hleased.claimed x hx hopen hon
    · obtain rfl := List.mem_singleton.1 hx
      rw [← hon.2]
      exact hclaimed
  · rcases List.mem_append.1 hx with hx | hx
    · exact hleased.final x hx t hended hon
    · obtain rfl := List.mem_singleton.1 hx
      cases hended
  · refine List.pairwise_append.2 ⟨h.leased.exclusive, List.pairwise_singleton _ _, fun x hx y hy hon hon' same => ?_⟩
    obtain rfl := List.mem_singleton.1 hy
    have hgroup : k.receipt.group = group := hon'.2
    have hoffset : x.receipt.offset = k.receipt.offset := same
    rw [hgroup, ← hoffset] at hopened
    cases hended : x.ended with
    | none =>
      -- whoever works on it holds its claim
      obtain ⟨e, he, hstate, htoken, hvisible⟩ := h.leased.claimed x hx hended hon
      rcases hopened with hopen | ⟨hreceipt, e', hcurrent⟩
      · rw [he, firm_of_prompt prompt hx hended hon hvisible] at hopen
        cases hopen
      · obtain ⟨he', -, htoken'⟩ := Ledger.current?_eq_some.1 hcurrent
        rw [hgroup, ← hoffset, he] at he'
        obtain rfl := Option.some.inj he'
        refine absurd ?_ (hforeign x hx hended)
        rw [hreceipt, Option.some.injEq, Receipt.mk.injEq]
        exact ⟨hoffset.symm, hgroup.trans hon.2.symm, htoken'.symm.trans htoken⟩
    | some outcome =>
      obtain ⟨t, success⟩ := outcome
      cases success with
      | false => exact ⟨t, rfl, h.noted.past x hx t false hended⟩
      | true =>
        rcases h.leased.final x hx t hended hon with hfinal | hover
        · obtain ⟨e, he, hacked⟩ := Ledger.isFinal_iff.1 hfinal
          rcases hopened with hopen | ⟨-, e', hcurrent⟩
          · rw [he, Entry.isOpen, hacked] at hopen
            cases hopen
          · obtain ⟨he', hstate, -⟩ := Ledger.current?_eq_some.1 hcurrent
            rw [hgroup, ← hoffset, he] at he'
            obtain rfl := Option.some.inj he'
            rw [hacked] at hstate
            cases hstate
        · rw [hclosed] at hover
          cases hover

/-- A message that has been worked on successfully becomes final when its claim is settled. -/
theorem Exclusive.leased_settled (h : Exclusive topic group c hs) (prompt : Prompt topic group c.now hs) {i : Nat}
    {setup : Setup} {s : ClaimStream} {job : Job} {fate : Fate} {request : Store.Request}
    (post : c.posts[i]? = some (setup, .working s job)) (settles : Consumer.Settles setup job request)
    (forgets : request ≠ .forgetGroup topic group)
    (performed : ∀ r, request = .ack r → r.group = group → fate = .performed) :
    Leased topic group (c.ask fate request).1.ledger (hs.map (Handout.settle i c.now job.isAcking)) := by
  have hasks : Asks setup (.working s job) request := .settle rfl settles
  refine ⟨fun x hx hopen hon => ?_, fun x hx t hended hon => ?_, ?_⟩
  · obtain ⟨y, hy, rfl⟩ := List.mem_map.1 hx
    rcases y.ended_settle i c.now job.isAcking with ⟨-, -, hsettle⟩ | ⟨hother, hsettle⟩
    · rw [hsettle] at hopen
      cases hopen
    · rw [hsettle] at hopen
      have hforeign := h.foreign hy hopen post hasks (hother hopen)
      obtain ⟨e, he, hclaimed⟩ := h.leased.claimed y hy hopen hon
      exact ⟨e, (h.entry_ask prompt hy hopen hon forgets hforeign).trans he, hclaimed⟩
  · obtain ⟨y, hy, rfl⟩ := List.mem_map.1 hx
    rcases y.ended_settle i c.now job.isAcking with ⟨rfl, hopen, hsettle⟩ | ⟨-, hsettle⟩
    · rw [hsettle, Option.some.injEq, Prod.mk.injEq] at hended
      obtain ⟨e, he, hstate, htoken, -⟩ := h.leased.claimed y hy hopen hon
      obtain ⟨setup', k, hclaim, -, hreceipt⟩ := h.noted.inHand y hy hopen
      rw [claimAt_of_post post] at hclaim
      cases hclaim
      unfold Consumer.Settles at settles
      rw [if_pos hended.2, hreceipt] at settles
      obtain rfl := performed y.receipt settles hon.2
      rw [settles]
      cases hclosed : c.ledger.closed with
      | true => exact Or.inr (closed_ask hclosed)
      | false =>
        left
        have hcurrent : c.ledger.current? y.receipt = some e :=
          Ledger.current?_eq_some.2 ⟨hon.2 ▸ he, hstate, htoken⟩
        have hfinal : (c.ask .performed (.ack y.receipt)).1.ledger.isFinal y.receipt.group y.receipt.offset :=
          Ledger.isFinal_ack hclosed hcurrent
        exact hon.2 ▸ hfinal
    · exact h.final_ask hy hon (hsettle ▸ hended) forgets
  · refine List.pairwise_map.2 (h.leased.exclusive.imp fun {x y} honce hon hon' same => ?_)
    obtain ⟨t, hended, hle⟩ := honce hon hon' same
    refine ⟨t, ?_, hle⟩
    rcases x.ended_settle i c.now job.isAcking with ⟨-, hopen, -⟩ | ⟨-, hsettle⟩
    · rw [hopen] at hended
      cases hended
    · rw [hsettle, hended]

/-! ## Steps -/

theorem Exclusive.aside (h : Exclusive topic group c hs) (sound : c'.Sound) (apart : c'.Apart)
    (ext : c.ledger.Extends c'.ledger) (now : c.now ≤ c'.now) (claims : c'.claimAt = c.claimAt)
    (leased : Leased topic group c'.ledger hs) : Exclusive topic group c' hs :=
  ⟨sound, apart, h.noted.aside ext now claims, leased⟩

theorem Exclusive.drew (h : Exclusive topic group c hs) (n : Nat) :
    Exclusive topic group { c with drawn := c.drawn + n } hs :=
  h.aside (h.sound.drew n) h.apart (Ledger.Extends.refl _) (Nat.le_refl _) rfl h.leased

theorem Exclusive.joined (h : Exclusive topic group c hs) (setup : Setup) {drawn : Nat} (more : c.drawn ≤ drawn) :
    Exclusive topic group { c with drawn, posts := c.posts ++ [(setup, .starting)] } hs :=
  h.aside ((h.sound.joined setup).grow rfl more rfl) (h.apart.joined setup) (Ledger.Extends.refl _) (Nat.le_refl _)
    (claimAt_joined c setup) h.leased

theorem Exclusive.ask (h : Exclusive topic group c hs) (prompt : Prompt topic group c.now hs) (fate : Fate)
    {request : Store.Request} (forgets : request ≠ .forgetGroup topic group)
    (others : ∀ r, request.receipt? = some r → r.group ≠ group) : Exclusive topic group (c.ask fate request).1 hs := by
  refine h.aside (h.sound.ask fate request) (h.apart.ask fate request) (extends_ask c fate request)
    (Nat.le_of_eq (now_ask c fate request).symm) (claimAt_ask c fate request) ?_
  exact h.leased_ask prompt forgets fun x _ _ hon settles => others x.receipt settles hon.2

theorem Exclusive.commit (h : Exclusive topic group c hs) {staged : List (String × List Message)} {l : Ledger}
    (done : c.ledger.commit c.now staged = .ok l) : Exclusive topic group { c with ledger := l } hs := by
  obtain ⟨hext, hentries, hclosed⟩ := c.ledger.extends_commit done
  refine h.aside (h.sound.commit done) h.apart hext (Nat.le_refl _) rfl ⟨?_, ?_, h.leased.exclusive⟩
  · show ∀ x ∈ hs, _ → _ → ∃ e, l.entries _ _ = some e ∧ _
    rw [hentries]
    exact h.leased.claimed
  · show ∀ x ∈ hs, ∀ t, _ → _ → l.isFinal _ _ ∨ l.closed = true
    unfold Ledger.isFinal
    rw [hentries, hclosed]
    exact h.leased.final

/-- A consumer that moves by itself takes nothing in hand and settles nothing. -/
theorem Exclusive.moved (h : Exclusive topic group c hs) {i : Nat} {setup : Setup} {p p' : Phase}
    (post : c.posts[i]? = some (setup, p)) (passes : Passes setup p none p') :
    Exclusive topic group (c.enter i setup p')
      (Handout.note hs i c.now (p.job?.map (setup, ·)) (p'.job?.map (setup, ·))) := by
  have hsound := h.sound.moved post passes
  have hbacks : ∀ k ∈ p'.held, Backs c.ledger setup k :=
    fun k hk => (hsound.held _ (List.mem_of_getElem? (post_enter post p')) k hk).1
  refine ⟨hsound, h.apart.moved post passes,
    h.noted.passes post passes (Ledger.Extends.refl _) rfl (claimAt_enter post p') hbacks, ?_⟩
  show Leased topic group c.ledger _
  cases passes with
  | free was is held waits =>
    rw [was, is]
    exact h.leased
  | taken was gives held waits =>
    rcases gives with ⟨_, hnone⟩ | ⟨_, _, hnone⟩
    all_goals cases hnone
  | continued underWay settling success => exact h.leased

/-- **A consumer gets an answer.** -/
theorem Exclusive.answered (h : Exclusive topic group c hs) (prompt : Prompt topic group c.now hs) {i : Nat}
    {setup : Setup} {p p' : Phase} {fate : Fate} {request : Store.Request}
    (bound : (c.ask fate request).1.drawn ≤ Uuid.supply) (post : c.posts[i]? = some (setup, p))
    (asks : Asks setup p request) (passes : Passes setup p (some (request, (c.ask fate request).2)) p')
    (forgets : request ≠ .forgetGroup topic group)
    (performed : ∀ r, request = .ack r → r.group = group → fate = .performed) :
    Exclusive topic group ((c.ask fate request).1.enter i setup p')
      (Handout.note hs i c.now (p.job?.map (setup, ·)) (p'.job?.map (setup, ·))) := by
  have hsound := h.sound.answered post asks passes
  have hbacks : ∀ k ∈ p'.held, Backs (c.ask fate request).1.ledger setup k :=
    fun k hk => (hsound.held _ (List.mem_of_getElem? (post_enter (post_ask post) p')) k hk).1
  refine ⟨hsound, h.apart.answered h.sound bound post passes,
    h.noted.passes post passes (extends_ask c fate request) (now_ask c fate request).symm (fun j => ?_) hbacks, ?_⟩
  · rw [claimAt_enter (post_ask post), claimAt_ask]
  · show Leased topic group (c.ask fate request).1.ledger _
    cases passes with
    | free was is held waits =>
      rw [was, is]
      refine h.leased_ask prompt forgets fun x hx hopen _ => ?_
      exact h.foreign hx hopen post asks (h.noted.idle post was hx hopen)
    | @taken p s k occasion was gives held waits =>
      rw [was]
      show Leased _ _ _ (hs ++ [⟨i, setup.topic, (Consumer.jobFor setup k).claimed.receipt, _, c.now, none⟩])
      rw [Consumer.claimed_jobFor]
      exact h.leased_taken prompt post was asks forgets gives
    | continued underWay settling success =>
      refine h.leased_ask prompt forgets fun x _ _ _ settles => settling ⟨request, _, rfl, ?_⟩
      rw [settles]
      rfl
    | settled settles => exact h.leased_settled prompt post settles forgets performed

variable {t : Turn}

theorem Step.now_le (h : Step c t c') : c.now ≤ c'.now := by
  cases h with
  | waited => exact Nat.le_max_left _ _
  | published | asked | closed | answered =>
    refine Nat.le_of_eq (Eq.symm ?_)
    exact now_ask _ _ _
  | _ => exact Nat.le_refl _

theorem Step.drawn_le (h : Step c t c') : c.drawn ≤ c'.drawn := by
  cases h with
  | drew => exact Nat.le_succ _
  | subscribed known free more => exact more
  | published =>
    refine Nat.le_trans ?_ (drawn_le_ask _ _ _)
    exact Nat.le_add_right _ _
  | asked | closed | answered => exact drawn_le_ask _ _ _
  | _ => exact Nat.le_refl _

/-- What has been prompt after a step had been so before. -/
theorem Step.prompt (hstep : Step c t c') (h : Prompt topic group c'.now (t.note c.now c.workAt c'.workAt hs)) :
    Prompt topic group c.now hs := by
  intro x hx hon
  rcases t.mem_note c.now c.workAt c'.workAt hx with hx' | ⟨i, success, hx'⟩
  · exact Nat.lt_of_le_of_lt (x.lastsUntil_mono hstep.now_le) (h x hx' hon)
  · exact Nat.lt_of_le_of_lt (x.lastsUntil_settle i c.now c'.now success hstep.now_le) (h _ hx' hon)

/-- **Every step keeps work exclusive.** -/
theorem Exclusive.step (h : Exclusive topic group c hs) (hstep : Step c t c') (prompt : Prompt topic group c.now hs)
    (bound : c'.drawn ≤ Uuid.supply) (spares : t.SparesClaims topic group c.requestAt) :
    Exclusive topic group c' (t.note c.now c.workAt c'.workAt hs) := by
  have hext := Ledger.Extends.refl c.ledger
  cases hstep with
  | still =>
    rw [Turn.note_same]
    exact h
  | waited =>
    exact h.aside (h.sound.grow rfl (Nat.le_refl _) rfl) h.apart hext (Nat.le_max_left _ _) rfl h.leased
  | drew => exact h.drew 1
  | opened => exact h.aside (h.sound.grow rfl (Nat.le_refl _) rfl) h.apart hext (Nat.le_refl _) rfl h.leased
  | subscribed known free more => exact h.joined _ more
  | forwarding known => exact h.joined _ (Nat.le_refl _)
  | published => exact (h.drew _).ask prompt _ (by simp) fun r hr => by cases hr
  | committed done => exact h.commit done
  | asked => exact h.ask prompt _ spares.1 fun r hr => spares.2 r hr
  | closed => exact h.ask prompt _ (by simp) fun r hr => by cases hr
  | @looked i o m post =>
    have hphase := h.sound.phases _ (List.mem_of_getElem? post)
    show Exclusive _ _ _ (Handout.note hs i c.now (c.workAt i) (workAt _ i))
    rw [workAt_of_post post, workAt_of_post (post_enter post _)]
    exact h.moved post (Consumer.passes_look _ _ hphase)
  | @finished i outcome m post =>
    have hphase := h.sound.phases _ (List.mem_of_getElem? post)
    show Exclusive _ _ _ (Handout.note hs i c.now (c.workAt i) (workAt _ i))
    rw [workAt_of_post post, workAt_of_post (post_enter post _)]
    exact h.moved post (Consumer.passes_finish _ _ hphase)
  | @answered i fate o request m post waits =>
    have hphase := h.sound.phases _ (List.mem_of_getElem? post)
    obtain ⟨forgets, performed⟩ := spares request (requestAt_of_post post waits)
    show Exclusive _ _ _ (Handout.note hs i c.now (c.workAt i) (workAt _ i))
    rw [workAt_of_post post, workAt_of_post (post_enter (post_ask post) _)]
    exact h.answered prompt bound post (Consumer.asks_of_request waits) (Consumer.passes_answer _ _ _ hphase waits)
      forgets fun r hr hgroup => by
        subst hr
        exact performed rfl r rfl hgroup

end Core

open Handout (OneByOne Prompt)

/-- **Consumers of a group handle a message one at a time, and once.** Take any run in which nobody forgets the group,
nobody but consumers settles or renews its claims, and no acknowledgement is rejected. If every handout of a message of
the topic for the group is over before its lease is, then of any two handouts of one message the first has ended without
success, and no later than the second began. Whatever a consumer has in hand is one of the handouts. The bound says that
no identifier is drawn twice. -/
theorem handouts_exclusive {topic group : String} {turns : List Turn}
    (spares : ∀ (n : Nat) (hn : n < turns.length), turns[n].SparesClaims topic group (run (turns.take n)).requestAt)
    (prompt : Prompt topic group (run turns).now (handouts turns)) (bound : (run turns).drawn ≤ Uuid.supply) :
    (handouts turns).Pairwise (OneByOne topic group) ∧
      ∀ i setup job, (run turns).workAt i = some (setup, job) → ∃ h ∈ handouts turns, h.ended = none ∧
        h.member = i ∧ h.topic = setup.topic ∧ h.receipt = job.claimed.receipt := by
  obtain ⟨l, -, hexclusive⟩ := @run_induction
    (fun ts c => Prompt topic group c.now (handouts ts) → c.drawn ≤ Uuid.supply →
      Core.Exclusive topic group c (handouts ts))
    turns (fun _ _ => Core.exclusive_start topic group) fun before t after l l' hturns ih hstep hprompt hbound => by
      have hnote : handouts (before ++ [t]) = t.note ((run before).core l).now ((run before).core l).workAt
          ((run (before ++ [t])).core l').workAt (handouts before) := by
        rw [handouts_concat, Core.workAt_core, Core.workAt_core]
        rfl
      have hspares : t.SparesClaims topic group (run before).requestAt := by
        have := spares before.length (by simp [hturns])
        simpa [hturns] using this
      rw [hnote] at hprompt ⊢
      have hbefore := hstep.prompt hprompt
      refine (ih hbefore (Nat.le_trans hstep.drawn_le hbound)).step hstep hbefore hbound ?_
      rw [Core.requestAt_core]
      exact hspares
  have h := hexclusive prompt bound
  refine ⟨h.leased.exclusive, fun i setup job hwork => h.noted.noted i setup job.claimed ?_⟩
  rw [Core.claimAt, Core.workAt_core, hwork]
  rfl

/-- A bus whose subscribers claim two messages at a time and try a message once. -/
def pairsConfig : Config := (Config.standard.withBatchSize 2).withRetry (.new 1 .zero)

/-- The first subscriber claims both orders and works on the first one for 25 seconds. The lease of the second order
ends while it waits, so that the second subscriber takes it over; the first one skips it then. When it has been given
back, the first subscriber claims it again and works on it. -/
def takenOver : List Turn :=
  [.addBus pairsConfig .silent, .publish 0 none "orders" [.new (.ofNat 7) [1], .new (.ofNat 8) [2]] .performed,
    .subscribe 0 "orders" (.named "workers") 0, .subscribe 0 "orders" (.named "workers") 0,
    .look 0, .look 0, .look 0, .look 0, .answer 0 .performed, .look 0,
    .wait 25_000_000_000, .finish 0 (.ok ()), .answer 0 .performed,
    .wait 31_000_000_000, .look 1, .look 1, .look 1, .look 1, .answer 1 .performed, .look 1,
    .look 0, .look 0, .answer 0 .performed,
    .wait 35_000_000_000, .finish 1 (.error .timedOut), .answer 1 .performed,
    .wait 40_000_000_000, .look 0, .look 0, .look 0, .answer 0 .performed, .look 0, .wait 45_000_000_000]

/-- The first order is handed out once, the second one twice, and it is in hand. -/
theorem handouts_exclusive_takenOver :
    (∀ (n : Nat) (hn : n < takenOver.length),
        takenOver[n].SparesClaims "orders" "workers" (run (takenOver.take n)).requestAt) ∧
      Prompt "orders" "workers" (run takenOver).now (handouts takenOver) ∧ (run takenOver).drawn ≤ Uuid.supply ∧
      (handouts takenOver).map (fun h => (h.member, h.receipt.offset, h.began, h.ended)) =
        [(0, 1, 0, some (25_000_000_000, true)), (1, 2, 31_000_000_000, some (35_000_000_000, false)),
          (0, 2, 40_000_000_000, none)] ∧
      (handouts takenOver).Pairwise (OneByOne "orders" "workers") ∧
      ∃ h ∈ handouts takenOver, h.ended = none ∧ h.member = 0 := by
  have spares : ∀ (n : Nat) (hn : n < takenOver.length),
      takenOver[n].SparesClaims "orders" "workers" (run (takenOver.take n)).requestAt := by decide +kernel
  have prompt : Prompt "orders" "workers" (run takenOver).now (handouts takenOver) := by
    unfold Prompt
    decide +kernel
  have bound : (run takenOver).drawn ≤ Uuid.supply := by decide +kernel
  obtain ⟨hexclusive, hnoted⟩ := handouts_exclusive spares prompt bound
  have hbusy : ((run takenOver).workAt 0).isSome := by decide +kernel
  obtain ⟨⟨setup, job⟩, hwork⟩ := Option.isSome_iff_exists.1 hbusy
  obtain ⟨h, hh, hopen, hmember, -⟩ := hnoted 0 setup job hwork
  exact ⟨spares, prompt, bound, by decide +kernel, hexclusive, h, hh, hopen, hmember⟩

end System

end DurableBus
