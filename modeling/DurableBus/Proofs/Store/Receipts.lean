import DurableBus.Proofs.Store.Coherence

/-!
# How long a receipt is honoured

A receipt is spent when its claim is settled, when its message is handed out to its group again, and when its group
forgets the topic. As long as no two claims share a token, a receipt is held from its claim on until it is spent, however
late that is, and never again.

* `held_call`, `held_of_call`, `spent_call` : what a call makes of a receipt, in terms of the ledger;
* `held_play` : from its claim on, a receipt is held as long as it is not spent;
* `token_claimed` : whatever is held has been claimed with its token;
* `receipt_settles_once` : what a store answers to whoever settles or renews a claim.
-/

set_option autoImplicit false

namespace DurableBus

open Store (Call)

def Store.Call.claimToken? (c : Call) : Option Uuid :=
  match c.action with
  | .request (.claim _) => some c.token
  | _ => none

theorem Receipt.eq_of {r r' : Receipt} (offset : r.offset = r'.offset) (group : r.group = r'.group)
    (token : r.token = r'.token) : r = r' := by
  cases r
  cases r'
  simp only at offset group token
  rw [offset, group, token]

namespace InMemory

variable {s : InMemory} {l : Ledger} {c : Call} {r : Receipt} {topic : String}

/-! ## Calls -/

/-- Whether a call settles a claim: it acknowledges it or gives it back. -/
def Visit.Settles (r : Receipt) (x : Visit) : Prop :=
  x.2.action = .request (.ack r) ∨ ∃ wait, x.2.action = .request (.nack r wait)

/-- Whether a call leaves another state than it found. -/
def Visit.Changes (x : Visit) : Prop := (x.1.call x.2).1 ≠ x.1

def Visit.HandsOut (offset : Int) (group : String) (x : Visit) : Prop :=
  ∃ messages, (x.1.call x.2).2.1 = .ok (.claimed messages) ∧
    ∃ k ∈ messages, k.receipt.offset = offset ∧ k.receipt.group = group

/-- Whether a receipt for a message of a topic is worth nothing after a call. -/
def Visit.Spends (topic : String) (r : Receipt) (x : Visit) : Prop :=
  x.Settles r ∧ x.1.closed = false ∨ x.HandsOut r.offset r.group ∨ x.Forgets topic r.group

theorem call_request {request : Store.Request} (h : c.action = .request request) :
    l.call c = l.perform c.now c.token request := by
  unfold Ledger.call
  rw [h]

theorem handsOut_of_chosen (refines : s.Refines l) (opened : s.closed = false) {request : ClaimRequest}
    (h : c.action = .request (.claim request)) {offset : Int}
    (chosen : offset ∈ (l.chosen c.now request).map (·.offset)) : Visit.HandsOut offset request.group (s, c) := by
  refine ⟨(l.claim c.now c.token request).2, ?_, ?_⟩
  · rw [(refines.call c).2, call_request h]
    unfold Ledger.perform
    rw [if_neg (by simp), ← refines.closed, opened]
    rfl
  · obtain ⟨m, hm, rfl⟩ := List.mem_map.1 chosen
    exact ⟨_, List.mem_map_of_mem hm, rfl, rfl⟩

theorem chosen_of_handsOut (refines : s.Refines l) {offset : Int} {group : String}
    (h : Visit.HandsOut offset group (s, c)) :
    ∃ request, c.action = .request (.claim request) ∧ group = request.group ∧
      offset ∈ (l.chosen c.now request).map (·.offset) ∧ (l.call c).1 = (l.claim c.now c.token request).1 := by
  obtain ⟨messages, answered, k, hk, rfl, rfl⟩ := h
  obtain ⟨now, token, action⟩ := c
  rw [(refines.call _).2] at answered
  cases action with
  | commit staged =>
    unfold Ledger.call at answered
    cases hcommit : l.commit now staged with
    | ok l' =>
      simp only [hcommit] at answered
      cases answered
    | error e =>
      simp only [hcommit] at answered
      cases answered
  | request request =>
    obtain ⟨request, rfl, rfl, hstate⟩ := Ledger.claimed_of_reply answered
    refine ⟨request, rfl, ?_, ?_, hstate⟩
    · obtain ⟨m, -, rfl⟩ := List.mem_map.1 hk
      rfl
    · rw [← Ledger.offsets_claim l now token request]
      exact List.mem_map_of_mem hk

/-- **A receipt stays held** until a call spends it. -/
theorem held_call (refines : s.Refines l) (held : (l.current? r).isSome) (stored : ∃ m ∈ l.log topic, m.offset = r.offset)
    (keeps : ¬ Visit.Spends topic r (s, c)) : ((l.call c).1.current? r).isSome := by
  obtain ⟨e, he⟩ := Option.isSome_iff_exists.1 held
  obtain ⟨hentry, hstate, htoken⟩ := Ledger.current?_eq_some.1 he
  -- whoever holds the entry does so with this receipt
  have hown : ∀ {r' e'}, l.current? r' = some e' → r.offset = r'.offset ∧ r.group = r'.group → r' = r ∧ e' = e := by
    intro r' e' held' own
    obtain ⟨hentry', -, htoken'⟩ := Ledger.current?_eq_some.1 held'
    rw [← own.1, ← own.2, hentry] at hentry'
    obtain rfl := Option.some.inj hentry'
    exact ⟨Receipt.eq_of own.1.symm own.2.symm (htoken'.symm.trans htoken), rfl⟩
  obtain ⟨now, token, action⟩ := c
  cases action with
  | commit staged =>
    unfold Ledger.current?
    rw [Ledger.entries_call_commit]
    exact held
  | request request =>
    show ((l.perform now token request).1.current? r).isSome
    cases hclosed : l.closed with
    | true =>
      by_cases hclose : request = .close
      · rw [hclose]
        exact held
      · rw [Ledger.perform_of_closed hclosed hclose]
        exact held
    | false =>
      have hopen : s.closed = false := refines.closed.trans hclosed
      have hchanges := l.changes_perform now token r.offset r.group request
      generalize hafter : (l.perform now token request).1.entries r.offset r.group = entry at hchanges
      cases hchanges with
      | kept => exact Option.isSome_iff_exists.2 ⟨e, Ledger.current?_eq_some.2 ⟨hafter.trans hentry, hstate, htoken⟩⟩
      | claimed own chosen => exact absurd (Or.inr (Or.inl (own ▸ handsOut_of_chosen refines hopen rfl chosen))) keeps
      | acked held' own =>
        obtain ⟨rfl, -⟩ := hown held' own
        exact absurd (Or.inl ⟨Or.inl rfl, hopen⟩) keeps
      | nacked held' own =>
        obtain ⟨rfl, -⟩ := hown held' own
        exact absurd (Or.inl ⟨Or.inr ⟨_, rfl⟩, hopen⟩) keeps
      | renewed held' own =>
        obtain ⟨rfl, rfl⟩ := hown held' own
        exact Option.isSome_iff_exists.2 ⟨_, Ledger.current?_eq_some.2 ⟨hafter, hstate, htoken⟩⟩
      | @forgotten topic' hstored =>
        obtain ⟨m, hm, ho⟩ := stored
        obtain ⟨m', hm', ho'⟩ := List.mem_map.1 hstored
        obtain ⟨rfl, -⟩ := refines.sound.unique hm hm' (ho.trans ho'.symm)
        exact absurd (Or.inr (Or.inr ⟨rfl, hopen⟩)) keeps

/-- Who has just claimed a message holds it. -/
theorem held_of_claim (refines : s.Refines l) {request : ClaimRequest} (hclaim : c.action = .request (.claim request))
    {messages : List Claimed} (answered : (s.call c).2.1 = .ok (.claimed messages)) {k : Claimed} (hk : k ∈ messages) :
    c.claimToken? = some k.receipt.token ∧ ((l.call c).1.current? k.receipt).isSome ∧
      k.receipt.group = request.group ∧ ∃ m ∈ (l.call c).1.log request.topic, m.offset = k.receipt.offset := by
  have hext := l.extends_call c
  rw [(refines.call c).2] at answered
  rw [call_request hclaim] at answered hext ⊢
  obtain ⟨_, hsame, rfl, hstate⟩ := Ledger.claimed_of_reply answered
  obtain rfl := Store.Request.claim.inj hsame
  obtain ⟨m, hm, rfl⟩ := List.mem_map.1 hk
  refine ⟨?_, ?_, rfl, m, hext.mem_log (Ledger.mem_chosen hm).1, rfl⟩
  · unfold Call.claimToken?
    rw [hclaim]
  · rw [hstate]
    unfold Ledger.current?
    show ((ite _ _ _ : Option Entry).filter _).isSome
    rw [if_pos ⟨rfl, List.mem_map_of_mem hm⟩]
    simp [Entry.claimed]

/-- A receipt that is held was held before, or has just been handed out. -/
theorem claimed_of_held (refines : s.Refines l) (held : ((l.call c).1.current? r).isSome) :
    (l.current? r).isSome ∨
      ∃ request messages, c.action = .request (.claim request) ∧ (s.call c).2.1 = .ok (.claimed messages) ∧
        ∃ k ∈ messages, k.receipt = r := by
  obtain ⟨now, token, action⟩ := c
  cases action with
  | commit staged =>
    unfold Ledger.current? at held
    rw [Ledger.entries_call_commit] at held
    exact Or.inl held
  | request request =>
    change ((l.perform now token request).1.current? r).isSome at held
    cases hclosed : l.closed with
    | true =>
      by_cases hclose : request = .close
      · rw [hclose] at held
        exact Or.inl held
      · rw [Ledger.perform_of_closed hclosed hclose] at held
        exact Or.inl held
    | false =>
      obtain ⟨e', he'⟩ := Option.isSome_iff_exists.1 held
      obtain ⟨hentry, hstate, htoken⟩ := Ledger.current?_eq_some.1 he'
      have hchanges := l.changes_perform now token r.offset r.group request
      rw [hentry] at hchanges
      generalize hsome : some e' = entry at hchanges
      cases hchanges with
      | kept => exact Or.inl (Option.isSome_iff_exists.2 ⟨e', Ledger.current?_eq_some.2 ⟨hsome.symm, hstate, htoken⟩⟩)
      | @claimed request own chosen =>
        obtain rfl := Option.some.inj hsome
        obtain ⟨messages, answered, k, hk, hoffset, hgroup⟩ :=
          handsOut_of_chosen (c := ⟨now, token, .request (.claim request)⟩) refines (refines.closed.trans hclosed) rfl
            chosen
        have hsame : token = k.receipt.token := Option.some.inj (held_of_claim refines rfl answered hk).1
        refine Or.inr ⟨request, messages, rfl, answered, k, hk, ?_⟩
        rw [← own] at hgroup
        exact Receipt.eq_of hoffset hgroup (hsame.symm.trans htoken)
      | acked held' own | nacked held' own =>
        obtain rfl := Option.some.inj hsome
        cases hstate
      | @renewed r' e lease held' own =>
        obtain rfl := Option.some.inj hsome
        obtain ⟨hbefore, hclaimed, -⟩ := Ledger.current?_eq_some.1 held'
        rw [← own.1, ← own.2] at hbefore
        exact Or.inl (Option.isSome_iff_exists.2 ⟨e, Ledger.current?_eq_some.2 ⟨hbefore, hclaimed, htoken⟩⟩)
      | forgotten => cases hsome

theorem held_of_call (refines : s.Refines l) (held : ((l.call c).1.current? r).isSome)
    (fresh : c.claimToken? ≠ some r.token) : (l.current? r).isSome := by
  rcases claimed_of_held refines held with hbefore | ⟨request, messages, hclaim, answered, k, hk, rfl⟩
  · exact hbefore
  · exact absurd (held_of_claim refines hclaim answered hk).1 fresh

theorem spent_settled (refines : s.Refines l) (settles : Visit.Settles r (s, c)) (opened : s.closed = false) :
    (l.call c).1.current? r = none := by
  have hopen : l.closed = false := refines.closed.symm.trans opened
  have hput : ∀ e : Entry, e.state ≠ .claimed → (l.putEntry r e).current? r = none := fun e he => by
    unfold Ledger.current?
    rw [Ledger.entries_putEntry, if_pos ⟨rfl, rfl⟩, Option.filter_some, if_neg]
    simp [he]
  rcases settles with h | ⟨wait, h⟩
  · rw [call_request h]
    unfold Ledger.perform
    rw [if_neg (by simp), hopen]
    show (l.ack r).1.current? r = none
    unfold Ledger.ack
    split
    case h_1 e held => exact hput _ (by simp)
    case h_2 lost => exact lost
  · rw [call_request h]
    unfold Ledger.perform
    rw [if_neg (by simp), hopen]
    show (l.nack c.now r wait).1.current? r = none
    unfold Ledger.nack
    split
    case h_1 e held => exact hput _ (by simp)
    case h_2 lost => exact lost

/-- **A receipt that is spent** is not held. -/
theorem spent_call (refines : s.Refines l) (stored : ∃ m ∈ l.log topic, m.offset = r.offset)
    (fresh : c.claimToken? ≠ some r.token) (spends : Visit.Spends topic r (s, c)) :
    (l.call c).1.current? r = none := by
  rcases spends with ⟨settles, opened⟩ | handsOut | ⟨forgets, opened⟩
  · exact spent_settled refines settles opened
  · obtain ⟨request, hclaim, own, chosen, hstate⟩ := chosen_of_handsOut refines handsOut
    have hother : c.token ≠ r.token := by
      unfold Call.claimToken? at fresh
      rw [hclaim] at fresh
      exact fun same => fresh (congrArg some same)
    rw [hstate]
    unfold Ledger.current?
    show Option.filter _ (ite _ _ _) = none
    rw [if_pos ⟨own, chosen⟩, Option.filter_some, if_neg]
    simp [Entry.claimed, hother]
  · rw [call_request forgets]
    unfold Ledger.perform
    rw [if_neg (by simp), ← refines.closed, opened]
    show (l.forgetGroup topic r.group).current? r = none
    unfold Ledger.current?
    show Option.filter _ (ite _ _ _) = none
    obtain ⟨m, hm, ho⟩ := stored
    rw [if_pos ⟨rfl, ho ▸ List.mem_map_of_mem hm⟩]
    rfl

/-! ## What a receipt is answered -/

/-- A store that refuses whatever is done with a receipt. -/
def Refuses (s : InMemory) (r : Receipt) : Prop :=
  ∀ now token request, request.receipt? = some r → s.perform now token request = (s, .error .closed, [])

/-- A store on which nothing comes of a receipt any more, whatever is done with it. -/
structure Ignores (s : InMemory) (r : Receipt) : Prop where
  ack : ∀ now token, s.perform now token (.ack r) = (s, .ok .done, [.lostBeforeAck r])
  nack : ∀ now token wait, s.perform now token (.nack r wait) = (s, .ok .done, [.lostBeforeNack r])
  renew : ∀ now token lease, s.perform now token (.renew r lease) = (s, .ok (.held false), [])

/-- A store that does with a receipt what it is asked, at any instant. -/
structure Honours (s : InMemory) (topic : String) (r : Receipt) : Prop where
  unsettled : s.isFinal topic r.group r.offset = false ∧ ∃ d, s.current? r = some d
  ack : ∀ now token, (s.perform now token (.ack r)).2 = (.ok .done, []) ∧
    (s.perform now token (.ack r)).1.isFinal topic r.group r.offset
  nack : ∀ now token wait, (s.perform now token (.nack r wait)).2 = (.ok .done, []) ∧
    ∃ d, (s.perform now token (.nack r wait)).1.deliveries.get? (r.offset, r.group) = some d ∧
      d.state = .nacked ∧ d.visibleAt = now.plus wait
  renew : ∀ now token lease, (s.perform now token (.renew r lease)).2 = (.ok (.held true), []) ∧
    ∃ d, (s.perform now token (.renew r lease)).1.current? r = some d ∧ d.visibleAt = now.plus lease

theorem refuses_of_closed (closed : s.closed = true) (r : Receipt) : s.Refuses r := fun now token request hr =>
  perform_of_closed closed (fun hclose => by rw [hclose] at hr; cases hr) now token

theorem ignores_of_lost (opened : s.closed = false) (lost : s.current? r = none) : s.Ignores r where
  ack now token := by
    unfold perform InMemory.ack
    simp only [opened, lost]
    rfl
  nack now token wait := by
    unfold perform InMemory.nack
    simp only [opened, lost]
    rfl
  renew now token lease := by
    unfold perform InMemory.renew
    simp only [opened, lost]
    rfl

theorem honours_of_held (refines : s.Refines l) (opened : s.closed = false) (held : (l.current? r).isSome)
    (stored : ∃ m ∈ l.log topic, m.offset = r.offset) : s.Honours topic r := by
  rcases refines.current? r with ⟨hlost, -⟩ | ⟨topic', m, e, hm, ho, -, hl, hs⟩
  · rw [hlost] at held
    cases held
  · obtain ⟨m', hm', ho'⟩ := stored
    obtain ⟨rfl, -⟩ := refines.sound.unique hm' hm (ho'.trans ho.symm)
    obtain ⟨hentry, hstate, htoken⟩ := Ledger.current?_eq_some.1 hl
    have hopen : l.closed = false := refines.closed.symm.trans opened
    have hget : ∀ d, (s.putRecord r d).deliveries.get? (r.offset, r.group) = some d := fun d => by
      show (s.deliveries.put _ _).get? _ = _
      rw [Table.get?_put, if_pos rfl]
    refine ⟨⟨?_, _, hs⟩, fun now token => ⟨?_, ?_⟩, fun now token wait => ?_, fun now token lease => ?_⟩
    · rw [← ho, refines.isFinal hm, ho]
      unfold Ledger.isFinal
      rw [hentry, Option.any_some, hstate]
      rfl
    · unfold perform InMemory.ack
      simp only [opened, hs]
      rfl
    · have hlater := (refines.perform now token (.ack r)).1
      have hfinal : (l.perform now token (.ack r)).1.isFinal r.group r.offset := Ledger.isFinal_ack hopen hl
      rw [← ho] at hfinal ⊢
      rw [hlater.isFinal ((l.extends_perform now token (.ack r)).mem_log hm)]
      exact hfinal
    · unfold perform InMemory.nack
      simp only [opened, hs]
      exact ⟨rfl, _, hget _, rfl, rfl⟩
    · unfold perform InMemory.renew
      simp only [opened, hs]
      refine ⟨rfl, { e.record topic with visibleAt := now.plus lease }, ?_, rfl⟩
      show ((s.putRecord r _).deliveries.get? _).filter _ = _
      rw [hget]
      simp [Entry.record, hstate, htoken]

/-! ## Runs -/

/-- **A receipt is held as long as it is not spent**, once it is held and when no claim is made with its token any more. -/
theorem held_play (refines : s.Refines l) (stored : ∃ m ∈ l.log topic, m.offset = r.offset) {calls : List Call}
    (fresh : ∀ c ∈ calls, c.claimToken? ≠ some r.token) :
    ((Store.play Ledger.call l calls).1.current? r).isSome ↔
      (l.current? r).isSome ∧ ∀ x ∈ s.trailFrom calls, ¬ x.Spends topic r := by
  induction calls generalizing s l with
  | nil => exact ⟨fun h => ⟨h, fun x hx => by cases hx⟩, fun h => h.1⟩
  | cons c rest ih =>
    have hfresh := fresh c List.mem_cons_self
    have hstored : ∃ m ∈ (l.call c).1.log topic, m.offset = r.offset := by
      obtain ⟨m, hm, ho⟩ := stored
      exact ⟨m, (l.extends_call c).mem_log hm, ho⟩
    have hrest := ih (refines.call c).1 hstored fun c' hc' => fresh c' (List.mem_cons_of_mem _ hc')
    show ((Store.play Ledger.call (l.call c).1 rest).1.current? r).isSome ↔ _
    rw [hrest]
    constructor
    · rintro ⟨held, hkeeps⟩
      refine ⟨held_of_call refines held hfresh, fun x hx => ?_⟩
      rcases List.mem_cons.1 hx with rfl | hx
      · intro spends
        rw [spent_call refines stored hfresh spends] at held
        cases held
      · exact hkeeps x hx
    · rintro ⟨held, hkeeps⟩
      exact ⟨held_call refines held stored (hkeeps (s, c) List.mem_cons_self),
        fun x hx => hkeeps x (List.mem_cons_of_mem _ hx)⟩

/-- What a group has on record about a message has been claimed with its token. -/
theorem token_claimed (calls : List Call) {offset : Int} {group : String} {e : Entry}
    (he : (Ledger.run calls).1.entries offset group = some e) : e.token ∈ calls.filterMap Call.claimToken? := by
  induction calls using List.reverseRecOn generalizing e with
  | nil => cases he
  | append_singleton calls c ih =>
    rw [Ledger.run_concat] at he
    rw [List.filterMap_append]
    obtain ⟨now, token, action⟩ := c
    cases action with
    | commit staged =>
      rw [Ledger.entries_call_commit] at he
      exact List.mem_append_left _ (ih he)
    | request request =>
      have hchanges := (Ledger.run calls).1.changes_perform now token offset group request
      rw [show ((Ledger.run calls).1.perform now token request).1.entries offset group = some e from he] at hchanges
      generalize hsome : some e = entry at hchanges
      cases hchanges with
      | kept => exact List.mem_append_left _ (ih hsome.symm)
      | claimed own chosen =>
        obtain rfl := Option.some.inj hsome
        exact List.mem_append_right _ (List.mem_singleton_self _)
      | acked held own | nacked held own | renewed held own =>
        obtain rfl := Option.some.inj hsome
        obtain ⟨rfl, rfl⟩ := own
        have hclaimed := ih (Ledger.current?_eq_some.1 held).1
        exact List.mem_append_left _ hclaimed
      | forgotten => cases hsome

theorem held_of_changes (refines : s.Refines l) (settles : Visit.Settles r (s, c)) (changes : Visit.Changes (s, c)) :
    (l.current? r).isSome ∧ s.closed = false := by
  have hcall : ∀ request, c.action = .request request → s.call c = s.perform c.now c.token request := fun request h => by
    unfold InMemory.call
    rw [h]
  cases hclosed : s.closed with
  | true =>
    refine absurd ?_ changes
    show (s.call c).1 = s
    rcases settles with h | ⟨wait, h⟩ <;> rw [hcall _ h, refuses_of_closed hclosed r _ _ _ rfl]
  | false =>
    rcases refines.current? r with ⟨-, hlost⟩ | ⟨_, _, e, -, -, -, held, -⟩
    · refine absurd ?_ changes
      show (s.call c).1 = s
      rcases settles with h | ⟨wait, h⟩
      · rw [hcall _ h, (ignores_of_lost hclosed hlost).ack]
      · rw [hcall _ h, (ignores_of_lost hclosed hlost).nack]
    · exact ⟨Option.isSome_iff_exists.2 ⟨e, held⟩, rfl⟩

/-- A receipt with which a claim has been settled is not held again. -/
theorem settled_for_good {calls : List Call} (fresh : (calls.filterMap Call.claimToken?).Nodup) {x : Visit}
    (hx : x ∈ trail calls) (settles : x.Settles r) (changes : x.Changes) :
    r.token ∈ calls.filterMap Call.claimToken? ∧ (Ledger.run calls).1.current? r = none := by
  induction calls using List.reverseRecOn with
  | nil => cases hx
  | append_singleton calls c ih =>
    rw [List.filterMap_append] at fresh ⊢
    rw [Ledger.run_concat]
    rw [trail_concat] at hx
    rcases List.mem_append.1 hx with hx | hx
    · obtain ⟨hclaimed, hlost⟩ := ih (List.nodup_append.1 fresh).1 hx
      refine ⟨List.mem_append_left _ hclaimed, ?_⟩
      rw [← Option.not_isSome_iff_eq_none] at hlost ⊢
      refine fun held => hlost (held_of_call (refines_run calls) held fun hagain => ?_)
      exact (List.nodup_append.1 fresh).2.2 _ hclaimed _ (by simp [hagain]) rfl
    · rw [List.mem_singleton.1 hx] at settles changes
      obtain ⟨held, opened⟩ := held_of_changes (refines_run calls) settles changes
      obtain ⟨e, he⟩ := Option.isSome_iff_exists.1 held
      obtain ⟨hentry, -, htoken⟩ := Ledger.current?_eq_some.1 he
      exact ⟨List.mem_append_left _ (htoken ▸ token_claimed calls hentry),
        spent_settled (refines_run calls) settles opened⟩

theorem trailFrom_split {calls : List Call} {before after : List Visit} {x : Visit}
    (h : s.trailFrom calls = before ++ x :: after) :
    ∃ earlier later, calls = earlier ++ x.2 :: later ∧ x.1 = (Store.play call s earlier).1 ∧
      after = (x.1.call x.2).1.trailFrom later := by
  induction before generalizing s calls with
  | nil =>
    cases calls with
    | nil => cases h
    | cons c rest =>
      obtain ⟨rfl, rfl⟩ := List.cons.inj h
      exact ⟨[], rest, rfl, rfl, rfl⟩
  | cons y before ih =>
    cases calls with
    | nil => cases h
    | cons c rest =>
      obtain ⟨-, h⟩ := List.cons.inj h
      obtain ⟨earlier, later, hsplit, hx, hafter⟩ := ih h
      exact ⟨c :: earlier, later, by rw [hsplit]; rfl, hx, hafter⟩

/-- **A receipt settles once and is inert once it is spent.** When no two claims of a run share a token, at most one
acknowledgement or return with a receipt changes the state. A receipt that a claim has handed out is honoured at any
instant until it is spent, and ignored from then on; a closed store refuses it. -/
theorem receipt_settles_once (calls : List Call) (fresh : (calls.filterMap Call.claimToken?).Nodup) :
    (∀ r, (trail calls).Pairwise fun x y => x.Settles r → y.Settles r → x.Changes → ¬ y.Changes) ∧
      ∀ before x after, trail calls = before ++ x :: after →
        ∀ request messages, x.2.action = .request (.claim request) → (x.1.call x.2).2.1 = .ok (.claimed messages) →
          ∀ k ∈ messages,
            ((run calls).1.closed = true → (run calls).1.Refuses k.receipt) ∧
            ((run calls).1.closed = false →
              ((∃ y ∈ after, y.Spends request.topic k.receipt) → (run calls).1.Ignores k.receipt) ∧
              ((∀ y ∈ after, ¬ y.Spends request.topic k.receipt) →
                (run calls).1.Honours request.topic k.receipt)) := by
  refine ⟨fun r => ?_, fun before x after htrail request messages hclaim answered k hk =>
    ⟨fun closed => refuses_of_closed closed _, fun opened => ?_⟩⟩
  · induction calls using List.reverseRecOn with
    | nil => exact .nil
    | append_singleton calls c ih =>
      rw [List.filterMap_append] at fresh
      have hearlier := (List.nodup_append.1 fresh).1
      rw [trail_concat, List.pairwise_append]
      refine ⟨ih hearlier, List.pairwise_singleton _ _, fun x hx y hy settles settles' changes changes' => ?_⟩
      rw [List.mem_singleton.1 hy] at settles' changes'
      have hlost := (settled_for_good hearlier hx settles changes).2
      have held := (held_of_changes (refines_run calls) settles' changes').1
      rw [hlost] at held
      cases held
  · obtain ⟨earlier, later, rfl, hx, rfl⟩ := trailFrom_split htrail
    have hrefines : x.1.Refines (Ledger.run earlier).1 := hx ▸ refines_run earlier
    obtain ⟨htoken, hclaimed, -, hstored⟩ := held_of_claim hrefines hclaim answered hk
    have hlater : ∀ c ∈ later, c.claimToken? ≠ some k.receipt.token := fun c hc hagain => by
      rw [List.filterMap_append, List.filterMap_cons_some htoken] at fresh
      have hunique := (List.nodup_cons.1 (List.nodup_append.1 fresh).2.1).1
      exact hunique (List.mem_filterMap.2 ⟨c, hc, hagain⟩)
    have hheld := held_play (hrefines.call x.2).1 hstored hlater
    have hrun : (Store.play Ledger.call ((Ledger.run earlier).1.call x.2).1 later).1 =
        (Ledger.run (earlier ++ x.2 :: later)).1 := by
      unfold Ledger.run
      rw [Store.play_append]
      rfl
    rw [hrun] at hheld
    have hrefines := refines_run (earlier ++ x.2 :: later)
    refine ⟨fun ⟨y, hy, spends⟩ => ignores_of_lost opened ?_, fun keeps => ?_⟩
    · rcases hrefines.current? k.receipt with ⟨-, hlost⟩ | ⟨_, _, e, -, -, -, held, -⟩
      · exact hlost
      · exact absurd spends ((hheld.1 (Option.isSome_iff_exists.2 ⟨e, held⟩)).2 y hy)
    · refine honours_of_held hrefines opened (hheld.2 ⟨hclaimed, keeps⟩) ?_
      obtain ⟨m, hm, ho⟩ := hstored
      refine ⟨m, ?_, ho⟩
      rw [← hrun]
      exact (Ledger.extends_play _ later).mem_log hm

/-- A claim whose lease runs out before another consumer of the group claims the message. -/
def takenOver : List Call :=
  [⟨0, .ofNat 0, .request (.enqueue "items" [.new (.ofNat 7) []])⟩,
    ⟨0, .ofNat 1, .request (.claim ⟨"items", "workers", 0, 9, .ofSecs 1⟩)⟩,
    ⟨1_000_000_000, .ofNat 2, .request (.claim ⟨"items", "workers", 0, 9, .ofSecs 1⟩)⟩]

/-- The first receipt is ignored from then on; the second is honoured, also when its lease has run out as well. -/
theorem receipt_settles_once_takenOver :
    (takenOver.filterMap Call.claimToken?).Nodup ∧ (run takenOver).1.Ignores ⟨1, "workers", .ofNat 1⟩ ∧
      (run takenOver).1.Honours "items" ⟨1, "workers", .ofNat 2⟩ := by
  have fresh : (takenOver.filterMap Call.claimToken?).Nodup := by decide
  have opened : (run takenOver).1.closed = false := rfl
  have hfirst : ((run (takenOver.take 1)).1.call takenOver[1]).2.1 =
      .ok (.claimed [⟨⟨1, "workers", .ofNat 1⟩, .new (.ofNat 7) [], 0, 1⟩]) := by with_unfolding_all rfl
  have hsecond : ((run (takenOver.take 2)).1.call takenOver[2]).2.1 =
      .ok (.claimed [⟨⟨1, "workers", .ofNat 2⟩, .new (.ofNat 7) [], 0, 2⟩]) := by with_unfolding_all rfl
  obtain ⟨-, hreceipts⟩ := receipt_settles_once takenOver fresh
  have hone := hreceipts ((trail takenOver).take 1) ((run (takenOver.take 1)).1, takenOver[1])
    [((run (takenOver.take 2)).1, takenOver[2])] rfl _ _ rfl hfirst _ (List.mem_singleton_self _)
  have htwo := hreceipts ((trail takenOver).take 2) ((run (takenOver.take 2)).1, takenOver[2]) [] rfl _ _ rfl hsecond _
    (List.mem_singleton_self _)
  refine ⟨fresh, (hone.2 opened).1 ⟨_, List.mem_singleton_self _, Or.inr (Or.inl ?_)⟩,
    (htwo.2 opened).2 fun y hy => by cases hy⟩
  exact ⟨_, hsecond, _, List.mem_singleton_self _, rfl, rfl⟩

end InMemory

end DurableBus
