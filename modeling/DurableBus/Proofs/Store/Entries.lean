import DurableBus.Proofs.Store.Ledger

/-!
# What a request does to an entry

`Ledger.Changes` lists all that may become of the entry of a message for a group, with what it takes for it.

* `changes_perform` : nothing else becomes of it;
* `claimed_of_reply`, `renewed_of_reply`, `appended_of_reply` : what an answer says about the ledger.
-/

set_option autoImplicit false

namespace DurableBus

def Store.Request.receipt? : Store.Request → Option Receipt
  | .ack r | .nack r _ | .renew r _ => some r
  | _ => none

namespace Ledger

variable (l : Ledger) (now : Instant) (token : Uuid) (offset : Int) (group : String)

/-- What a request may make of the entry of a message for a group. -/
inductive Changes : Store.Request → Option Entry → Prop
  | kept {request} : Changes request (l.entries offset group)
  /-- An open message is claimed. -/
  | claimed {request} (own : group = request.group) (chosen : offset ∈ (l.chosen now request).map (·.offset)) :
      Changes (.claim request) (some (Entry.claimed now token request.lease (l.entries offset group)))
  | acked {r e} (held : l.current? r = some e) (own : offset = r.offset ∧ group = r.group) :
      Changes (.ack r) (some { e with state := .acked })
  | nacked {r e d} (held : l.current? r = some e) (own : offset = r.offset ∧ group = r.group) :
      Changes (.nack r d) (some { e with state := .nacked, visibleAt := now.plus d })
  | renewed {r e lease} (held : l.current? r = some e) (own : offset = r.offset ∧ group = r.group) :
      Changes (.renew r lease) (some { e with visibleAt := now.plus lease })
  | forgotten {topic} (stored : offset ∈ (l.log topic).map (·.offset)) : Changes (.forgetGroup topic group) none

variable {l now token offset group}

theorem entries_putEntry (r : Receipt) (e : Entry) :
    (l.putEntry r e).entries offset group =
      if offset = r.offset ∧ group = r.group then some e else l.entries offset group :=
  rfl

/-- **What a request does to an entry.** -/
theorem changes_perform (l : Ledger) (now : Instant) (token : Uuid) (offset : Int) (group : String)
    (request : Store.Request) :
    Changes l now token offset group request ((l.perform now token request).1.entries offset group) := by
  unfold perform
  split
  · exact .kept
  · split
    · exact .kept
    · cases request with
      | setUp | ping | close | stage | head => exact .kept
      | enqueue topic messages =>
        show Changes _ _ _ _ _ _ ((l.append now topic messages).entries offset group)
        rw [entries_append]
        exact .kept
      | claim request =>
        show Changes _ _ _ _ _ _ (ite _ _ _)
        split
        case isTrue hchosen =>
          obtain ⟨rfl, hchosen⟩ := hchosen
          exact .claimed rfl hchosen
        case isFalse => exact .kept
      | ack r =>
        show Changes _ _ _ _ _ _ ((l.ack r).1.entries offset group)
        unfold ack
        split
        case h_1 e held =>
          rw [entries_putEntry]
          split
          case isTrue own => exact .acked held own
          case isFalse => exact .kept
        case h_2 => exact .kept
      | nack r d =>
        show Changes _ _ _ _ _ _ ((l.nack now r d).1.entries offset group)
        unfold nack
        split
        case h_1 e held =>
          rw [entries_putEntry]
          split
          case isTrue own => exact .nacked held own
          case isFalse => exact .kept
        case h_2 => exact .kept
      | renew r lease =>
        show Changes _ _ _ _ _ _ ((l.renew now r lease).1.entries offset group)
        unfold renew
        split
        case h_1 e held =>
          rw [entries_putEntry]
          split
          case isTrue own => exact .renewed held own
          case isFalse => exact .kept
        case h_2 => exact .kept
      | forgetGroup topic g =>
        show Changes _ _ _ _ _ _ (ite _ _ _)
        split
        case isTrue own =>
          obtain ⟨rfl, stored⟩ := own
          exact .forgotten stored
        case isFalse => exact .kept

/-- An acknowledged message was so before, or has just been acknowledged by who held it. -/
theorem Changes.of_acked {request : Store.Request} {e' : Entry}
    (h : Changes l now token offset group request (some e')) (hacked : e'.state = .acked) :
    (∃ e, l.entries offset group = some e ∧ e.state = .acked) ∨
      ∃ r e, request = .ack r ∧ l.current? r = some e ∧ offset = r.offset ∧ group = r.group := by
  generalize hsome : some e' = entry at h
  cases h with
  | kept => exact Or.inl ⟨e', hsome.symm, hacked⟩
  | claimed own chosen =>
    rw [Option.some.inj hsome] at hacked
    cases hacked
  | acked held own => exact Or.inr ⟨_, _, rfl, held, own⟩
  | nacked held own =>
    rw [Option.some.inj hsome] at hacked
    cases hacked
  | renewed held own =>
    rw [Option.some.inj hsome] at hacked
    rw [(current?_eq_some.1 held).2.1] at hacked
    cases hacked
  | forgotten => cases hsome

/-- An entry that is not to be handed out stays as it is, unless its claim is settled or renewed or the group is
forgotten. -/
theorem entry_kept (sound : l.Sound) {e : Entry} (he : l.entries offset group = some e) {topic : String}
    (stored : ∃ m ∈ l.log topic, m.offset = offset) (firm : Entry.isOpen now (some e) = false)
    {request : Store.Request} (forgets : request ≠ .forgetGroup topic group)
    (foreign : e.state = .claimed → request.receipt? ≠ some ⟨offset, group, e.token⟩) :
    (l.perform now token request).1.entries offset group = some e := by
  have hchanges := l.changes_perform now token offset group request
  have hforeign : ∀ {r e'}, l.current? r = some e' → offset = r.offset ∧ group = r.group →
      request.receipt? ≠ some r := by
    rintro r e' held ⟨rfl, rfl⟩
    obtain ⟨he', hstate, htoken⟩ := current?_eq_some.1 held
    obtain rfl := Option.some.inj (he.symm.trans he')
    have := foreign hstate
    rwa [htoken] at this
  generalize (l.perform now token request).1.entries offset group = entry at hchanges ⊢
  cases hchanges with
  | kept => exact he
  | claimed own chosen =>
    obtain ⟨m, hm, rfl⟩ := List.mem_map.1 chosen
    have hopen := (mem_chosen hm).2.2
    rw [← own, he, firm] at hopen
    cases hopen
  | acked held own | nacked held own | renewed held own => exact absurd rfl (hforeign held own)
  | @forgotten topic' hstored =>
    obtain ⟨m, hm, ho⟩ := stored
    obtain ⟨m', hm', ho'⟩ := List.mem_map.1 hstored
    have := (sound.unique hm hm' (ho.trans ho'.symm)).1
    exact absurd (by rw [this]) forgets

/-- What is final stays final until the group is forgotten. -/
theorem isFinal_perform (sound : l.Sound) {topic : String} (stored : ∃ m ∈ l.log topic, m.offset = offset)
    {request : Store.Request} (forgets : request ≠ .forgetGroup topic group) (final : l.isFinal group offset) :
    (l.perform now token request).1.isFinal group offset := by
  obtain ⟨e, he, hacked⟩ := isFinal_iff.1 final
  refine isFinal_iff.2 ⟨e, entry_kept sound he stored ?_ forgets fun hclaimed => ?_, hacked⟩
  · simp [Entry.isOpen, hacked]
  · rw [hacked] at hclaimed
    cases hclaimed

/-! ## Answers -/

theorem perform_of_closed (closed : l.closed = true) {request : Store.Request} (hclose : request ≠ .close) :
    l.perform now token request = (l, .error .closed, []) := by
  unfold perform
  rw [if_neg hclose, if_pos closed]

/-- A closed ledger stays closed. -/
theorem closed_perform (closed : l.closed = true) (request : Store.Request) :
    (l.perform now token request).1.closed = true := by
  by_cases hclose : request = .close
  · rw [hclose]
    rfl
  · rw [perform_of_closed closed hclose]
    exact closed

theorem opened_perform (opened : l.closed = false) {request : Store.Request} (hclose : request ≠ .close) :
    (l.perform now token request).1.closed = false := by
  unfold perform
  rw [if_neg hclose, opened]
  cases request with
  | enqueue topic messages => exact (l.closed_append now topic messages).trans opened
  | ack r =>
    show (l.ack r).1.closed = false
    unfold ack
    split <;> exact opened
  | nack r d =>
    show (l.nack now r d).1.closed = false
    unfold nack
    split <;> exact opened
  | renew r lease =>
    show (l.renew now r lease).1.closed = false
    unfold renew
    split <;> exact opened
  | _ => exact opened

/-- On an open ledger, who holds a claim makes it final. -/
theorem isFinal_ack {r : Receipt} {e : Entry} (opened : l.closed = false) (held : l.current? r = some e) :
    (l.perform now token (.ack r)).1.isFinal r.group r.offset := by
  refine isFinal_iff.2 ⟨{ e with state := .acked }, ?_, rfl⟩
  unfold perform
  rw [if_neg (by simp), opened]
  show (l.ack r).1.entries r.offset r.group = _
  unfold ack
  rw [held]
  show (l.putEntry r _).entries r.offset r.group = _
  rw [entries_putEntry, if_pos ⟨rfl, rfl⟩]

theorem claimed_of_reply {request : Store.Request} {messages : List Claimed}
    (h : (l.perform now token request).2.1 = .ok (.claimed messages)) :
    ∃ r, request = .claim r ∧ messages = (l.claim now token r).2 ∧
      (l.perform now token request).1 = (l.claim now token r).1 := by
  unfold perform at h ⊢
  split at h
  case isTrue => cases h
  case isFalse hclose =>
    rw [if_neg hclose]
    split at h
    case isTrue => cases h
    case isFalse hclosed =>
      rw [if_neg hclosed]
      cases request <;> cases h
      exact ⟨_, rfl, rfl, rfl⟩

theorem renewed_of_reply {r : Receipt} {lease : Duration} {a : Store.Answer}
    (h : (l.perform now token (.renew r lease)).2.1 = .ok a) (ha : a ≠ .held false) :
    ∃ e, l.current? r = some e ∧
      (l.perform now token (.renew r lease)).1 = l.putEntry r { e with visibleAt := now.plus lease } := by
  unfold perform at h ⊢
  rw [if_neg (by simp)] at h ⊢
  split at h
  case isTrue => cases h
  case isFalse hclosed =>
    rw [if_neg hclosed]
    simp only [Except.ok.injEq] at h
    unfold renew at h ⊢
    cases hcur : l.current? r with
    | some e =>
      refine ⟨e, rfl, ?_⟩
      simp only [hcur]
    | none =>
      rw [hcur] at h
      exact absurd h.symm ha

theorem appended_of_reply {topic : String} {messages : List Message} {a : Store.Answer}
    (h : (l.perform now token (.enqueue topic messages)).2.1 = .ok a) :
    (l.perform now token (.enqueue topic messages)).1 = l.append now topic messages := by
  unfold perform at h ⊢
  rw [if_neg (by simp)] at h ⊢
  split at h
  case isTrue => cases h
  case isFalse hclosed =>
    rw [if_neg hclosed]

end Ledger

end DurableBus
