import DurableBus.Proofs.Store.Refinement

/-!
# Bans

Whoever has been given a message keeps it from the rest of the group for a while, or for good. `Ban.next` reads this off
what is asked of a store and what it answers, without looking at the store:

* a claim bans the message until its lease ends;
* renewing that claim moves the end, giving the claim back sets it to the instant of redelivery, and acknowledging the
  claim makes the ban final;
* forgetting the group on the topic lifts the ban, and nothing else does (`Ban.lifted_by_forgetting`).

`claim_respects_bans` says that a store keeps to these bans.
-/

set_option autoImplicit false

namespace DurableBus

open Store (Call Outcome)

/-- A ban on claiming a message for a group. -/
structure Ban where
  /-- The topic that the message was claimed from. -/
  topic : String
  /-- When the ban ends by itself, if it does. -/
  ends : Option Instant
  /-- The token of the claim behind it, as long as that claim has not been settled. -/
  holder : Option Uuid
deriving DecidableEq, Repr

namespace Ban

/-- Whether a message must not be claimed at an instant. -/
def Holds (b : Ban) (now : Instant) : Prop := ∀ t, b.ends = some t → now < t

instance (b : Ban) (now : Instant) : Decidable (b.Holds now) :=
  match h : b.ends with
  | none => isTrue fun t ht => by rw [h] at ht; cases ht
  | some t =>
    if hlt : now < t then isTrue fun t' ht' => by rw [h] at ht'; exact Option.some.inj ht' ▸ hlt
    else isFalse fun hb => hlt (hb t h)

def IsFor (offset : Int) (group : String) (b : Ban) (r : Receipt) : Prop :=
  r.offset = offset ∧ r.group = group ∧ b.holder = some r.token

instance (offset : Int) (group : String) (b : Ban) (r : Receipt) : Decidable (b.IsFor offset group r) :=
  inferInstanceAs (Decidable (_ ∧ _ ∧ _))

/-- What settling or renewing a claim makes of the ban behind which it stands. -/
def settle (offset : Int) (group : String) (r : Receipt) (change : Ban → Ban) (ban : Option Ban) : Option Ban :=
  ban.map fun b => if b.IsFor offset group r then change b else b

/-- What a call and its outcome make of the ban on a message for a group. -/
def next (offset : Int) (group : String) (ban : Option Ban) (c : Call) (outcome : Outcome) : Option Ban :=
  match c.action, outcome.1 with
  | .request (.claim request), .ok (.claimed messages) =>
    if request.group = group ∧ offset ∈ messages.map (·.receipt.offset) then
      some ⟨request.topic, some (c.now.plus request.lease), some c.token⟩
    else ban
  | .request (.renew r lease), .ok (.held held) =>
    if held then settle offset group r (fun b => { b with ends := some (c.now.plus lease) }) ban else ban
  | .request (.nack r redeliverAfter), .ok _ =>
    settle offset group r (fun b => { b with ends := some (c.now.plus redeliverAfter), holder := none }) ban
  | .request (.ack r), .ok _ => settle offset group r (fun b => { b with ends := none, holder := none }) ban
  | .request (.forgetGroup topic g), .ok _ => if g = group then ban.filter (·.topic ≠ topic) else ban
  | _, _ => ban

def afterAll (offset : Int) (group : String) (ban : Option Ban) (run : List (Call × Outcome)) : Option Ban :=
  run.foldl (fun ban p => next offset group ban p.1 p.2) ban

/-- Only forgetting the group on the topic lifts a ban. -/
theorem lifted_by_forgetting {offset : Int} {group : String} {b : Ban} {c : Call} {outcome : Outcome}
    (lifted : next offset group (some b) c outcome = none) : c.action = .request (.forgetGroup b.topic group) := by
  unfold next at lifted
  split at lifted
  case h_5 topic g _ hact _ =>
    split at lifted
    case isTrue hg =>
      rw [Option.filter_eq_none_iff] at lifted
      have := lifted b rfl
      simp only [ne_eq, decide_not, Bool.not_eq_true', decide_eq_false_iff_not, Decidable.not_not] at this
      rw [hact, this, hg]
    case isFalse => cases lifted
  case h_1 | h_2 => split at lifted <;> cases lifted
  all_goals cases lifted

/-! ## Bans and entries -/

def ofEntry (topic : String) (e : Entry) : Ban :=
  ⟨topic, if e.state = .acked then none else some e.visibleAt, if e.state = .claimed then some e.token else none⟩

theorem holds_ofEntry (topic : String) (e : Entry) (now : Instant) :
    (ofEntry topic e).Holds now ↔ ¬ Entry.isOpen now (some e) := by
  unfold Holds ofEntry Entry.isOpen
  by_cases hacked : e.state = .acked
  · simp [hacked]
  · simp [hacked]

end Ban

namespace Ledger

/-- A ban says what the ledger has on record. -/
def Tracks (l : Ledger) (offset : Int) (group : String) (ban : Option Ban) : Prop :=
  (l.entries offset group = none ∧ ban = none) ∨
    ∃ topic m e, m ∈ l.log topic ∧ m.offset = offset ∧ l.entries offset group = some e ∧
      ban = some (Ban.ofEntry topic e)

variable {l l' : Ledger} {offset : Int} {group : String} {ban : Option Ban}

theorem Tracks.mono (h : l.Tracks offset group ban) (ext : Extends l l')
    (same : l'.entries offset group = l.entries offset group) : l'.Tracks offset group ban := by
  rcases h with ⟨hnone, hban⟩ | ⟨topic, m, e, hm, ho, he, hban⟩
  · exact Or.inl ⟨same.trans hnone, hban⟩
  · exact Or.inr ⟨topic, m, e, ext.mem_log hm, ho, same.trans he, hban⟩

/-- A receipt is for the claim behind a ban exactly when the ledger says that it is held. -/
theorem Tracks.isFor_iff {topic : String} {e : Entry} (he : l.entries offset group = some e) (r : Receipt) :
    (Ban.ofEntry topic e).IsFor offset group r ↔ r.offset = offset ∧ r.group = group ∧ l.current? r = some e := by
  constructor
  · rintro ⟨rfl, rfl, htoken⟩
    refine ⟨rfl, rfl, current?_eq_some.2 ⟨he, ?_⟩⟩
    unfold Ban.ofEntry at htoken
    simp only [Option.ite_none_right_eq_some, Option.some.injEq] at htoken
    exact htoken
  · rintro ⟨rfl, rfl, hcur⟩
    obtain ⟨-, hstate, htoken⟩ := current?_eq_some.1 hcur
    refine ⟨rfl, rfl, ?_⟩
    simp [Ban.ofEntry, hstate, htoken]

/-- Settling a claim changes the ban as it changes the entry. -/
theorem Tracks.settle (h : l.Tracks offset group ban) {r : Receipt} {e : Entry} (held : l.current? r = some e)
    (e' : Entry) (change : Ban → Ban) (agree : ∀ topic, change (Ban.ofEntry topic e) = Ban.ofEntry topic e') :
    (l.putEntry r e').Tracks offset group (Ban.settle offset group r change ban) := by
  obtain ⟨heheld, -, -⟩ := current?_eq_some.1 held
  have hentries : (l.putEntry r e').entries offset group =
      if offset = r.offset ∧ group = r.group then some e' else l.entries offset group := rfl
  rcases h with ⟨hnone, rfl⟩ | ⟨topic, m, e₀, hm, ho, he, rfl⟩
  · refine Or.inl ⟨?_, rfl⟩
    rw [hentries, if_neg, hnone]
    rintro ⟨rfl, rfl⟩
    rw [heheld] at hnone
    cases hnone
  · by_cases same : offset = r.offset ∧ group = r.group
    · obtain ⟨rfl, rfl⟩ := same
      have heq : e₀ = e := Option.some.inj (he.symm.trans heheld)
      subst heq
      refine Or.inr ⟨topic, m, e', hm, ho, by rw [hentries, if_pos ⟨rfl, rfl⟩], ?_⟩
      rw [Ban.settle, Option.map_some, if_pos ((isFor_iff he r).2 ⟨rfl, rfl, held⟩), agree]
    · refine Or.inr ⟨topic, m, e₀, hm, ho, by rw [hentries, if_neg same, he], ?_⟩
      rw [Ban.settle, Option.map_some, if_neg]
      exact fun hfor => same ⟨hfor.1.symm, hfor.2.1.symm⟩

theorem Tracks.settle_lost (h : l.Tracks offset group ban) {r : Receipt} (lost : l.current? r = none)
    (change : Ban → Ban) : l.Tracks offset group (Ban.settle offset group r change ban) := by
  rcases h with ⟨hnone, rfl⟩ | ⟨topic, m, e, hm, ho, he, rfl⟩
  · exact Or.inl ⟨hnone, rfl⟩
  · refine Or.inr ⟨topic, m, e, hm, ho, he, ?_⟩
    rw [Ban.settle, Option.map_some, if_neg]
    intro hfor
    rw [((isFor_iff he r).1 hfor).2.2] at lost
    cases lost

theorem Tracks.claim (h : l.Tracks offset group ban) (now : Instant) (token : Uuid) (request : ClaimRequest) :
    (l.claim now token request).1.Tracks offset group
      (if request.group = group ∧ offset ∈ (l.claim now token request).2.map (·.receipt.offset) then
        some ⟨request.topic, some (now.plus request.lease), some token⟩
      else ban) := by
  have hentries : (l.claim now token request).1.entries offset group =
      if group = request.group ∧ offset ∈ (l.chosen now request).map (·.offset) then
        some (Entry.claimed now token request.lease (l.entries offset request.group))
      else l.entries offset group := rfl
  rw [offsets_claim]
  by_cases htaken : request.group = group ∧ offset ∈ (l.chosen now request).map (·.offset)
  · obtain ⟨m, hm, ho⟩ := List.mem_map.1 htaken.2
    rw [if_pos htaken]
    refine Or.inr ⟨request.topic, m, Entry.claimed now token request.lease (l.entries offset request.group),
      (mem_chosen hm).1, ho, by rw [hentries, if_pos ⟨htaken.1.symm, htaken.2⟩], rfl⟩
  · rw [if_neg htaken]
    refine h.mono ⟨⟨[], by simp [Ledger.claim]⟩, Int.le_refl _⟩ ?_
    rw [hentries, if_neg fun hg => htaken ⟨hg.1.symm, hg.2⟩]

theorem Tracks.forgetGroup (h : l.Tracks offset group ban) (sound : l.Sound) (topic g : String) :
    (l.forgetGroup topic g).Tracks offset group (if g = group then ban.filter (·.topic ≠ topic) else ban) := by
  have hentries : (l.forgetGroup topic g).entries offset group =
      if group = g ∧ offset ∈ (l.log topic).map (·.offset) then none else l.entries offset group := rfl
  rcases h with ⟨hnone, rfl⟩ | ⟨t, m, e, hm, ho, he, rfl⟩
  · refine Or.inl ⟨by rw [hentries, hnone, ite_self], ?_⟩
    split <;> rfl
  · -- the message is on the topic exactly when the ban was laid there
    have honly : offset ∈ (l.log topic).map (·.offset) ↔ t = topic := by
      constructor
      · intro hmem
        obtain ⟨m', hm', ho'⟩ := List.mem_map.1 hmem
        exact (sound.unique hm hm' (ho.trans ho'.symm)).1
      · rintro rfl
        exact ho ▸ List.mem_map_of_mem hm
    by_cases hboth : group = g ∧ t = topic
    · obtain ⟨rfl, rfl⟩ := hboth
      refine Or.inl ⟨by rw [hentries, if_pos ⟨rfl, honly.2 rfl⟩], ?_⟩
      simp [Ban.ofEntry, Option.filter]
    · refine Or.inr ⟨t, m, e, hm, ho, ?_, ?_⟩
      · rw [hentries, if_neg fun hh => hboth ⟨hh.1, honly.1 hh.2⟩, he]
      · split
        case isTrue hg =>
          have hne : t ≠ topic := fun ht => hboth ⟨hg.symm, ht⟩
          simp [Ban.ofEntry, Option.filter, hne]
        case isFalse => rfl

theorem Tracks.ack (h : l.Tracks offset group ban) (r : Receipt) :
    (l.ack r).1.Tracks offset group
      (Ban.settle offset group r (fun b => { b with ends := none, holder := none }) ban) := by
  unfold Ledger.ack
  split
  case h_1 e held => exact h.settle held _ _ fun topic => by simp [Ban.ofEntry]
  case h_2 lost => exact h.settle_lost lost _

theorem Tracks.nack (h : l.Tracks offset group ban) (now : Instant) (r : Receipt) (d : Duration) :
    (l.nack now r d).1.Tracks offset group
      (Ban.settle offset group r (fun b => { b with ends := some (now.plus d), holder := none }) ban) := by
  unfold Ledger.nack
  split
  case h_1 e held => exact h.settle held _ _ fun topic => by simp [Ban.ofEntry]
  case h_2 lost => exact h.settle_lost lost _

theorem Tracks.renew (h : l.Tracks offset group ban) (now : Instant) (r : Receipt) (lease : Duration) :
    (l.renew now r lease).1.Tracks offset group
      (if (l.renew now r lease).2 then
        Ban.settle offset group r (fun b => { b with ends := some (now.plus lease) }) ban
      else ban) := by
  unfold Ledger.renew
  split
  case h_1 e held =>
    obtain ⟨-, hstate, -⟩ := current?_eq_some.1 held
    exact h.settle held _ _ fun topic => by simp [Ban.ofEntry, hstate]
  case h_2 => exact h

/-- **Every request** that a ledger carries out changes the bans as its answer says. -/
theorem Tracks.perform (h : l.Tracks offset group ban) (sound : l.Sound) (now : Instant) (token : Uuid)
    (request : Store.Request) :
    (l.perform now token request).1.Tracks offset group
      (Ban.next offset group ban ⟨now, token, .request request⟩ (l.perform now token request).2) := by
  unfold Ledger.perform
  split
  case isTrue hclose =>
    subst hclose
    exact h.mono ⟨⟨[], by simp⟩, Int.le_refl _⟩ rfl
  case isFalse hclose =>
    split
    case isTrue =>
      -- a refused request lifts and lays nothing
      cases request <;> exact h
    case isFalse =>
      cases request with
      | setUp | ping | stage | head => exact h
      | close => exact absurd rfl hclose
      | enqueue topic messages =>
        exact h.mono (l.extends_append now topic messages) (by rw [entries_append])
      | claim request => exact h.claim now token request
      | ack r => exact h.ack r
      | nack r d => exact h.nack now r d
      | renew r lease => exact h.renew now r lease
      | forgetGroup topic g => exact h.forgetGroup sound topic g

theorem Tracks.call (h : l.Tracks offset group ban) (sound : l.Sound) (c : Call) :
    (l.call c).1.Tracks offset group (Ban.next offset group ban c (l.call c).2) := by
  obtain ⟨now, token, action⟩ := c
  cases action with
  | request request => exact h.perform sound now token request
  | commit staged =>
    unfold Ledger.call
    cases hcommit : l.commit now staged with
    | ok l' =>
      simp only [hcommit]
      obtain ⟨hext, hentries, -⟩ := l.extends_commit hcommit
      exact h.mono hext (by rw [hentries])
    | error e =>
      simp only [hcommit]
      exact h

/-- The bans read off a whole run say what the ledger has on record at its end. -/
theorem Tracks.play (h : l.Tracks offset group ban) (sound : l.Sound) (calls : List Call) :
    (Store.play Ledger.call l calls).1.Tracks offset group
      (Ban.afterAll offset group ban (calls.zip (Store.play Ledger.call l calls).2)) := by
  induction calls generalizing l ban with
  | nil => exact h
  | cons c rest ih => exact ih (h.call sound c) (sound.call c)

end Ledger

namespace InMemory

/-- The ban that a run of a store leaves on a message for a group. -/
def banAfter (calls : List Call) (offset : Int) (group : String) : Option Ban :=
  Ban.afterAll offset group none (calls.zip (run calls).2)

/-- Whether a group must not be given a message at an instant after a run. -/
def isBanned (calls : List Call) (now : Instant) (offset : Int) (group : String) : Bool :=
  (banAfter calls offset group).any fun b => b.Holds now

theorem banAfter_concat (calls : List Call) (c : Call) (offset : Int) (group : String) :
    banAfter (calls ++ [c]) offset group =
      Ban.next offset group (banAfter calls offset group) c ((run calls).1.call c).2 := by
  have hlen : calls.length = (run calls).2.length := (Store.length_play call empty calls).symm
  have houtcomes : (run (calls ++ [c])).2 = (run calls).2 ++ [((run calls).1.call c).2] := by
    unfold run
    rw [Store.play_append]
    rfl
  unfold banAfter
  rw [houtcomes, List.zip_append hlen, Ban.afterAll, List.foldl_append]
  rfl

/-- The ban of a run, in terms of the ledger to which the same has been done. -/
theorem tracks_banAfter (calls : List Call) (offset : Int) (group : String) :
    (Ledger.run calls).1.Tracks offset group (banAfter calls offset group) := by
  unfold banAfter
  have hsame : (run calls).2 = (Ledger.run calls).2 := (refines_empty.play calls).2
  rw [hsame]
  exact Ledger.Tracks.play (Or.inl ⟨rfl, rfl⟩) Ledger.sound_empty calls

theorem isBanned_eq (calls : List Call) (now : Instant) (offset : Int) (group : String) :
    isBanned calls now offset group = !Entry.isOpen now ((Ledger.run calls).1.entries offset group) := by
  unfold isBanned
  rcases tracks_banAfter calls offset group with ⟨hnone, hban⟩ | ⟨topic, m, e, -, -, he, hban⟩
  · rw [hban, hnone]
    rfl
  · rw [hban, he, Option.any_some, Bool.eq_iff_iff, decide_eq_true_eq, Ban.holds_ofEntry, Bool.not_eq_true',
      Bool.not_eq_true]

theorem claimed_eq {calls : List Call} {now : Instant} {token : Uuid} {request : ClaimRequest}
    {messages : List Claimed} {notices : List Store.Notice}
    (answered : ((run calls).1.perform now token (.claim request)).2 = (.ok (.claimed messages), notices)) :
    messages = ((Ledger.run calls).1.claim now token request).2 := by
  rw [((refines_run calls).perform now token (.claim request)).2] at answered
  unfold Ledger.perform at answered
  rw [if_neg (by simp)] at answered
  split at answered
  case isTrue => cases answered
  case isFalse =>
    simp only [Prod.mk.injEq, Except.ok.injEq, Store.Answer.claimed.injEq] at answered
    exact answered.1.symm

/-- **A claim respects the bans.** After any run, a claim gives out no message twice and none on which a ban lies at that
instant; and a ban once laid stays until the group is forgotten on the topic of the message. -/
theorem claim_respects_bans (calls : List Call) (now : Instant) (token : Uuid) (request : ClaimRequest)
    {messages : List Claimed} {notices : List Store.Notice}
    (answered : ((run calls).1.perform now token (.claim request)).2 = (.ok (.claimed messages), notices)) :
    (messages.map (·.receipt.offset)).Nodup ∧
      (∀ m ∈ messages, m.receipt.group = request.group ∧ isBanned calls now m.receipt.offset request.group = false) ∧
      ∀ offset group b, banAfter calls offset group = some b →
        (∃ m ∈ (run calls).1.log b.topic, m.offset = offset) ∧
          ∀ c, banAfter (calls ++ [c]) offset group = none → c.action = .request (.forgetGroup b.topic group) := by
  have hmessages := claimed_eq answered
  have hoffsets : messages.map (·.receipt.offset) =
      ((Ledger.run calls).1.chosen now request).map (·.offset) := by
    rw [hmessages, Ledger.offsets_claim]
  refine ⟨?_, fun m hm => ?_, fun offset group b hb => ⟨?_, fun c hc => ?_⟩⟩
  · rw [hoffsets]
    exact (refines_run calls).sound.nodup_chosen now request
  · rw [hmessages] at hm
    obtain ⟨m', hm', rfl⟩ := List.mem_map.1 hm
    refine ⟨rfl, ?_⟩
    rw [isBanned_eq, (Ledger.mem_chosen hm').2.2]
    rfl
  · rcases tracks_banAfter calls offset group with ⟨-, hban⟩ | ⟨topic, m, e, hm, ho, -, hban⟩
    · rw [hb] at hban
      cases hban
    · rw [hb] at hban
      rw [Option.some.inj hban]
      refine ⟨m, ?_, ho⟩
      rw [← Array.mem_toList_iff, (refines_run calls).log]
      exact hm
  · rw [banAfter_concat, hb] at hc
    exact Ban.lifted_by_forgetting hc

/-- A handler that gives one of two messages back and acknowledges the other. -/
def halfDone : List Call :=
  [⟨0, .ofNat 0, .request (.enqueue "orders" [.new (.ofNat 7) [], .new (.ofNat 8) []])⟩,
    ⟨0, .ofNat 1, .request (.claim ⟨"orders", "billing", 0, 2, .ofSecs 30⟩)⟩,
    ⟨5, .ofNat 0, .request (.ack ⟨1, "billing", .ofNat 1⟩)⟩,
    ⟨5, .ofNat 0, .request (.nack ⟨2, "billing", .ofNat 1⟩ (.ofSecs 1))⟩]

/-- The message that was given back is claimed at the very end of its ban, the one that was acknowledged stays banned. -/
theorem claim_respects_bans_halfDone :
    ((run halfDone).1.perform 1_000_000_005 (.ofNat 2) (.claim ⟨"orders", "billing", 0, 2, .ofSecs 30⟩)).2 =
        (.ok (.claimed [⟨⟨2, "billing", .ofNat 2⟩, .new (.ofNat 8) [], 0, 2⟩]), []) ∧
      isBanned halfDone 1_000_000_005 2 "billing" = false ∧
      banAfter halfDone 1 "billing" = some ⟨"orders", none, none⟩ ∧
      ∀ c, banAfter (halfDone ++ [c]) 1 "billing" = none → c.action = .request (.forgetGroup "orders" "billing") := by
  have answered : ((run halfDone).1.perform 1_000_000_005 (.ofNat 2)
      (.claim ⟨"orders", "billing", 0, 2, .ofSecs 30⟩)).2 =
      (.ok (.claimed [⟨⟨2, "billing", .ofNat 2⟩, .new (.ofNat 8) [], 0, 2⟩]), []) := by with_unfolding_all rfl
  have banned : banAfter halfDone 1 "billing" = some ⟨"orders", none, none⟩ := by with_unfolding_all rfl
  obtain ⟨-, hfree, hlifted⟩ := claim_respects_bans halfDone _ _ _ answered
  exact ⟨answered, (hfree _ (List.mem_singleton.2 rfl)).2, banned, (hlifted 1 "billing" _ banned).2⟩

end InMemory

end DurableBus
