import DurableBus.Proofs.Store.Receipts

/-!
# A group on a topic is on its own

A claim and the forgetting of a group name a topic and a group, a receipt stands for those that it was claimed with.
Whatever is done for one such pair leaves alone what any other pair sees, so that each gets the answers that it would get
if the others did nothing.

* `Ledger.only` : a ledger with the entries of one pair;
* `Ledger.only_call_other` : a call of another pair does not change them;
* `Ledger.only_call` : any other call does the same to them and is answered alike;
* `issued_of_held` : what is held has been handed out to a claim, and `issuer_of_history` to which pair;
* `pairs_are_isolated` : the same of stores, for a single call and for whole runs.
-/

set_option autoImplicit false

namespace DurableBus

open Store (Call Outcome)

namespace Ledger

/-- Whether a message is on a topic and a group is the given one. -/
def Sees (l : Ledger) (topic group : String) (offset : Int) (g : String) : Prop :=
  g = group ∧ offset ∈ (l.log topic).map (·.offset)

instance (l : Ledger) (topic group : String) (offset : Int) (g : String) : Decidable (l.Sees topic group offset g) :=
  inferInstanceAs (Decidable (_ ∧ _))

/-- A ledger that has on record only what a group has about the messages of a topic. -/
def only (l : Ledger) (topic group : String) : Ledger :=
  { l with entries := fun offset g => if l.Sees topic group offset g then l.entries offset g else none }

variable {l l' : Ledger} {topic group : String}

theorem eq_of_entries (lastOffset : l.lastOffset = l'.lastOffset) (messages : l.messages = l'.messages)
    (closed : l.closed = l'.closed) (entries : ∀ offset g, l.entries offset g = l'.entries offset g) : l = l' := by
  obtain ⟨last, written, entry, shut⟩ := l
  obtain ⟨last', written', entry', shut'⟩ := l'
  obtain rfl : last = last' := lastOffset
  obtain rfl : written = written' := messages
  obtain rfl : shut = shut' := closed
  obtain rfl : entry = entry' := funext fun offset => funext fun g => entries offset g
  rfl

theorem log_only (t : String) : (l.only topic group).log t = l.log t := rfl

theorem entries_only (offset : Int) (g : String) :
    (l.only topic group).entries offset g = if l.Sees topic group offset g then l.entries offset g else none := rfl

theorem only_empty (topic group : String) : empty.only topic group = empty := by
  refine eq_of_entries rfl rfl rfl fun offset g => ?_
  rw [entries_only]
  split <;> rfl

/-- Two ledgers with the same messages agree on what a group has on record about a topic if their entries there agree. -/
theorem only_congr (lastOffset : l.lastOffset = l'.lastOffset) (messages : l.messages = l'.messages)
    (closed : l.closed = l'.closed)
    (entries : ∀ offset g, l.Sees topic group offset g → l.entries offset g = l'.entries offset g) :
    l.only topic group = l'.only topic group := by
  refine eq_of_entries lastOffset messages closed fun offset g => ?_
  have hsame : l.Sees topic group offset g ↔ l'.Sees topic group offset g := by
    unfold Sees log
    rw [messages]
  rw [entries_only, entries_only]
  by_cases hsees : l.Sees topic group offset g
  · rw [if_pos hsees, if_pos (hsame.1 hsees), entries offset g hsees]
  · rw [if_neg hsees, if_neg fun h => hsees (hsame.2 h)]

/-! ## What is written -/

theorem only_appendOne (sound : l.Sound) (now : Instant) (t : String) (m : Message) :
    (l.appendOne now t m).only topic group = (l.only topic group).appendOne now t m := by
  refine eq_of_entries rfl rfl rfl fun offset g => ?_
  show (if (l.appendOne now t m).Sees topic group offset g then l.entries offset g else none) =
    if l.Sees topic group offset g then l.entries offset g else none
  by_cases hsees : l.Sees topic group offset g
  · have hlater : (l.appendOne now t m).Sees topic group offset g := by
      obtain ⟨m', hm', ho⟩ := List.mem_map.1 hsees.2
      exact ⟨hsees.1, List.mem_map.2 ⟨m', (l.extends_appendOne now t m).mem_log hm', ho⟩⟩
    rw [if_pos hlater, if_pos hsees]
  · rw [if_neg hsees]
    split
    case isTrue hlater =>
      cases he : l.entries offset g with
      | none => rfl
      | some e =>
        -- whatever has an entry was on its topic before
        obtain ⟨t', m', hm', ho⟩ := sound.known _ _ _ he
        obtain ⟨m'', hm'', ho'⟩ := List.mem_map.1 hlater.2
        have hlog := (l.extends_appendOne now t m).mem_of_le hm'' (ho'.trans ho.symm ▸ sound.le_lastOffset hm')
        exact absurd ⟨hlater.1, ho' ▸ List.mem_map_of_mem hlog⟩ hsees
    case isFalse => rfl

theorem only_append (sound : l.Sound) (now : Instant) (t : String) (messages : List Message) :
    (l.append now t messages).only topic group = (l.only topic group).append now t messages := by
  unfold append
  induction messages generalizing l with
  | nil => rfl
  | cons m rest ih =>
    rw [List.foldl_cons, List.foldl_cons, ih (sound.appendOne now t m), only_appendOne sound]

theorem only_commit (sound : l.Sound) (now : Instant) (staged : List (String × List Message)) :
    (l.only topic group).commit now staged = (l.commit now staged).map (·.only topic group) := by
  have hall : (staged.foldl (fun l w => l.append now w.1 w.2) l).only topic group =
      staged.foldl (fun l w => l.append now w.1 w.2) (l.only topic group) := by
    induction staged generalizing l with
    | nil => rfl
    | cons w rest ih => rw [List.foldl_cons, List.foldl_cons, ih (sound.append now w.1 w.2), only_append sound]
  unfold commit
  show (if l.closed then _ else _) = _
  split
  · rfl
  · rw [← hall]
    rfl

/-! ## What is claimed and settled -/

theorem entries_claim (now : Instant) (token : Uuid) (request : ClaimRequest) (offset : Int) (g : String) :
    (l.claim now token request).1.entries offset g =
      if g = request.group ∧ offset ∈ (l.chosen now request).map (·.offset) then
        some (Entry.claimed now token request.lease (l.entries offset request.group))
      else l.entries offset g := rfl

theorem only_claim (now : Instant) (token : Uuid) (request : ClaimRequest) :
    (l.only request.topic request.group).claim now token request =
      ((l.claim now token request).1.only request.topic request.group, (l.claim now token request).2) := by
  have hentries : ∀ m ∈ l.log request.topic,
      (l.only request.topic request.group).entries m.offset request.group = l.entries m.offset request.group := by
    intro m hm
    rw [entries_only, if_pos ⟨rfl, List.mem_map_of_mem hm⟩]
  have hchosen : (l.only request.topic request.group).chosen now request = l.chosen now request := by
    unfold chosen
    rw [log_only]
    congr 1
    exact List.filter_congr fun m hm => by rw [hentries m hm]
  have hsees : ∀ offset, offset ∈ (l.chosen now request).map (·.offset) →
      l.Sees request.topic request.group offset request.group := by
    intro offset htaken
    obtain ⟨m, hm, rfl⟩ := List.mem_map.1 htaken
    exact ⟨rfl, List.mem_map_of_mem (mem_chosen hm).1⟩
  refine Prod.ext (eq_of_entries rfl rfl rfl fun offset g => ?_) ?_
  · show _ = if l.Sees request.topic request.group offset g then (l.claim now token request).1.entries offset g else none
    rw [entries_claim, entries_claim, hchosen]
    by_cases htaken : g = request.group ∧ offset ∈ (l.chosen now request).map (·.offset)
    · have hown := hsees offset htaken.2
      rw [if_pos htaken, if_pos htaken, if_pos (htaken.1 ▸ hown), entries_only, if_pos hown]
    · rw [if_neg htaken, if_neg htaken, entries_only]
  · show ((l.only request.topic request.group).chosen now request).map _ = (l.chosen now request).map _
    rw [hchosen]
    apply List.map_congr_left
    intro m hm
    have hsame := hentries m (mem_chosen hm).1
    simp only [hsame]

theorem only_claim_other (sound : l.Sound) (now : Instant) (token : Uuid) {request : ClaimRequest}
    (other : (request.topic, request.group) ≠ (topic, group)) :
    (l.claim now token request).1.only topic group = l.only topic group := by
  refine only_congr rfl rfl rfl fun offset g hsees => ?_
  rw [entries_claim, if_neg]
  rintro ⟨rfl, htaken⟩
  obtain ⟨m, hm, ho⟩ := List.mem_map.1 htaken
  obtain ⟨m', hm', ho'⟩ := List.mem_map.1 hsees.2
  have hsame := (sound.unique (mem_chosen hm).1 hm' (ho.trans ho'.symm)).1
  exact other (Prod.ext hsame hsees.1)

/-- A receipt that is held at all is held for the group on the topic. -/
def Within (l : Ledger) (topic group : String) (r : Receipt) : Prop :=
  (l.current? r).isSome → l.Sees topic group r.offset r.group

theorem current?_only {r : Receipt} (within : l.Within topic group r) :
    (l.only topic group).current? r = l.current? r := by
  unfold current?
  rw [entries_only]
  split
  case isTrue => rfl
  case isFalse hother =>
    have hlost : l.current? r = none := Option.not_isSome_iff_eq_none.1 fun held => hother (within held)
    exact hlost.symm

theorem only_putEntry {r : Receipt} (sees : l.Sees topic group r.offset r.group) (e : Entry) :
    (l.putEntry r e).only topic group = (l.only topic group).putEntry r e := by
  refine eq_of_entries rfl rfl rfl fun offset g => ?_
  rw [entries_putEntry, entries_only, entries_only]
  show (if l.Sees topic group offset g then _ else _) = _
  rw [entries_putEntry]
  by_cases same : offset = r.offset ∧ g = r.group
  · rw [if_pos same, if_pos same, same.1, same.2, if_pos sees]
  · rw [if_neg same, if_neg same]

theorem only_ack {r : Receipt} (within : l.Within topic group r) :
    (l.only topic group).ack r = ((l.ack r).1.only topic group, (l.ack r).2) := by
  unfold ack
  rw [current?_only within]
  cases held : l.current? r with
  | none => rfl
  | some e =>
    have hsees := within (by rw [held]; rfl)
    simp only [only_putEntry hsees]

theorem only_nack {r : Receipt} (within : l.Within topic group r) (now : Instant) (wait : Duration) :
    (l.only topic group).nack now r wait = ((l.nack now r wait).1.only topic group, (l.nack now r wait).2) := by
  unfold nack
  rw [current?_only within]
  cases held : l.current? r with
  | none => rfl
  | some e =>
    have hsees := within (by rw [held]; rfl)
    simp only [only_putEntry hsees]

theorem only_renew {r : Receipt} (within : l.Within topic group r) (now : Instant) (lease : Duration) :
    (l.only topic group).renew now r lease = ((l.renew now r lease).1.only topic group, (l.renew now r lease).2) := by
  unfold renew
  rw [current?_only within]
  cases held : l.current? r with
  | none => rfl
  | some e =>
    have hsees := within (by rw [held]; rfl)
    simp only [only_putEntry hsees]

theorem only_putEntry_other {r : Receipt} (other : ¬ l.Sees topic group r.offset r.group) (e : Entry) :
    (l.putEntry r e).only topic group = l.only topic group := by
  refine only_congr rfl rfl rfl fun offset g hsees => ?_
  rw [entries_putEntry, if_neg]
  rintro ⟨rfl, rfl⟩
  exact other hsees

theorem entries_forgetGroup (t : String) (g' : String) (offset : Int) (g : String) :
    (l.forgetGroup t g').entries offset g =
      if g = g' ∧ offset ∈ (l.log t).map (·.offset) then none else l.entries offset g := rfl

theorem only_forgetGroup : (l.only topic group).forgetGroup topic group = (l.forgetGroup topic group).only topic group := by
  refine eq_of_entries rfl rfl rfl fun offset g => ?_
  rw [entries_forgetGroup, log_only, entries_only]
  show _ = if l.Sees topic group offset g then (l.forgetGroup topic group).entries offset g else none
  rw [entries_forgetGroup]
  by_cases hsees : l.Sees topic group offset g
  · rw [if_pos hsees, if_pos hsees]
  · rw [if_neg hsees, if_neg hsees, ite_self]

theorem only_forgetGroup_other (sound : l.Sound) {t g : String} (other : (t, g) ≠ (topic, group)) :
    (l.forgetGroup t g).only topic group = l.only topic group := by
  refine only_congr rfl rfl rfl fun offset g' hsees => ?_
  rw [entries_forgetGroup, if_neg]
  rintro ⟨rfl, hmem⟩
  obtain ⟨m, hm, ho⟩ := List.mem_map.1 hmem
  obtain ⟨m', hm', ho'⟩ := List.mem_map.1 hsees.2
  have hsame := (sound.unique hm hm' (ho.trans ho'.symm)).1
  exact other (Prod.ext hsame hsees.1)

/-! ## Calls -/

/-- A request of a pair, or of none, does the same when only the pair is on record. -/
theorem only_perform (sound : l.Sound) (now : Instant) (token : Uuid) {request : Store.Request}
    (claims : ∀ q, request = .claim q → q.topic = topic ∧ q.group = group)
    (forgets : ∀ t g, request = .forgetGroup t g → t = topic ∧ g = group)
    (settles : ∀ r, request.receipt? = some r → l.Within topic group r) :
    (l.only topic group).perform now token request =
      ((l.perform now token request).1.only topic group, (l.perform now token request).2) := by
  unfold perform
  by_cases hclose : request = .close
  · rw [if_pos hclose, if_pos hclose]
    rfl
  · rw [if_neg hclose, if_neg hclose]
    show (if l.closed then _ else _) = _
    split
    · rfl
    · cases request with
      | setUp | ping | close | stage | head => rfl
      | enqueue t messages =>
        rw [only_append sound]
      | claim q =>
        obtain ⟨rfl, rfl⟩ := claims q rfl
        simp only [only_claim]
      | forgetGroup t g =>
        obtain ⟨rfl, rfl⟩ := forgets t g rfl
        simp only [only_forgetGroup]
      | ack r => simp only [only_ack (settles r rfl)]
      | nack r wait => simp only [only_nack (settles r rfl)]
      | renew r lease => simp only [only_renew (settles r rfl)]

/-- **A request of another pair** leaves alone what a pair sees. -/
theorem only_perform_other (sound : l.Sound) (now : Instant) (token : Uuid) {request : Store.Request}
    (other : (∃ q, request = .claim q ∧ (q.topic, q.group) ≠ (topic, group)) ∨
      (∃ t g, request = .forgetGroup t g ∧ (t, g) ≠ (topic, group)) ∨
      ∃ r, request.receipt? = some r ∧ ¬ l.Sees topic group r.offset r.group) :
    (l.perform now token request).1.only topic group = l.only topic group := by
  have hclose : request ≠ .close := by
    rintro rfl
    rcases other with ⟨q, h, -⟩ | ⟨t, g, h, -⟩ | ⟨r, h, -⟩ <;> cases h
  unfold perform
  rw [if_neg hclose]
  split
  · rfl
  · rcases other with ⟨q, rfl, hother⟩ | ⟨t, g, rfl, hother⟩ | ⟨r, hr, hother⟩
    · exact only_claim_other sound now token hother
    · exact only_forgetGroup_other sound hother
    · cases request with
      | ack r' =>
        obtain rfl := Option.some.inj hr
        show (l.ack r').1.only topic group = _
        unfold ack
        split
        · exact only_putEntry_other hother _
        · rfl
      | nack r' wait =>
        obtain rfl := Option.some.inj hr
        show (l.nack now r' wait).1.only topic group = _
        unfold nack
        split
        · exact only_putEntry_other hother _
        · rfl
      | renew r' lease =>
        obtain rfl := Option.some.inj hr
        show (l.renew now r' lease).1.only topic group = _
        unfold renew
        split
        · exact only_putEntry_other hother _
        · rfl
      | _ => cases hr

end Ledger

namespace InMemory

variable {s s' : InMemory} {l l' : Ledger} {r : Receipt}

/-! ## What a call is about -/

/-- The topic and group that a call has claimed a receipt for. -/
def issuer? (r : Receipt) (e : Call × Outcome) : Option (String × String) :=
  match e.1.action, e.2.1 with
  | .request (.claim request), .ok (.claimed messages) =>
    if r ∈ messages.map (·.receipt) then some (request.topic, request.group) else none
  | _, _ => none

/-- The topic and group that a call is about: those it names, or those that its receipt has been claimed for. -/
def pair? (history : List (Call × Outcome)) (c : Call) : Option (String × String) :=
  match c.action with
  | .request (.claim request) => some (request.topic, request.group)
  | .request (.forgetGroup topic group) => some (topic, group)
  | .request request => request.receipt?.bind fun r => history.findSome? (issuer? r)
  | .commit _ => none

def history (calls : List Call) : List (Call × Outcome) := calls.zip (run calls).2

/-- What is left of the rest of a history when everything is deleted that is about another pair. -/
def aloneFrom (pair : String × String) : List (Call × Outcome) → List (Call × Outcome) → List (Call × Outcome)
  | _, [] => []
  | before, e :: rest =>
    (if (pair? before e.1).all (· = pair) then [e] else []) ++ aloneFrom pair (before ++ [e]) rest

/-- What is left of the history of a run when everything is deleted that is about another pair. -/
def alone (pair : String × String) (calls : List Call) : List (Call × Outcome) := aloneFrom pair [] (history calls)

/-- What a group sees of a topic: the messages, how far all is acknowledged, and the records. -/
structure View where
  log : Array Stored
  mark : Option Int
  record : Int → Option DeliveryRecord

def view (s : InMemory) (topic group : String) : View :=
  ⟨s.log topic, s.watermarks.get? (topic, group),
    fun offset => (s.deliveries.get? (offset, group)).filter (·.topic = topic)⟩

theorem history_concat (calls : List Call) (c : Call) :
    history (calls ++ [c]) = history calls ++ [(c, ((run calls).1.call c).2)] := by
  unfold history run
  rw [Store.play_append, List.zip_append (Store.length_play call empty calls).symm]
  rfl

theorem aloneFrom_concat (pair : String × String) (before rest : List (Call × Outcome)) (e : Call × Outcome) :
    aloneFrom pair before (rest ++ [e]) =
      aloneFrom pair before rest ++ if (pair? (before ++ rest) e.1).all (· = pair) then [e] else [] := by
  induction rest generalizing before with
  | nil => simp [aloneFrom]
  | cons e' rest ih =>
    show _ ++ aloneFrom pair (before ++ [e']) (rest ++ [e]) = (_ ++ aloneFrom pair (before ++ [e']) rest) ++ _
    rw [ih, List.append_assoc, List.append_assoc]
    rfl

theorem alone_concat (pair : String × String) (calls : List Call) (c : Call) :
    alone pair (calls ++ [c]) = alone pair calls ++
      if (pair? (history calls) c).all (· = pair) then [(c, ((run calls).1.call c).2)] else [] := by
  unfold alone
  rw [history_concat, aloneFrom_concat]
  rfl

theorem issuer?_eq_some {e : Call × Outcome} {p : String × String} (h : issuer? r e = some p) :
    ∃ request messages, e.1.action = .request (.claim request) ∧ e.2.1 = .ok (.claimed messages) ∧
      (∃ k ∈ messages, k.receipt = r) ∧ p = (request.topic, request.group) := by
  unfold issuer? at h
  split at h
  case h_1 request messages hclaim answered =>
    split at h
    case isTrue hmem => exact ⟨request, messages, hclaim, answered, List.mem_map.1 hmem, (Option.some.inj h).symm⟩
    case isFalse => cases h
  case h_2 => cases h

/-- **A receipt is for the topic of its message** and the group that claimed it. -/
theorem issuer_of_history (calls : List Call) {e : Call × Outcome} (he : e ∈ history calls) {p : String × String}
    (h : issuer? r e = some p) : (Ledger.run calls).1.Sees p.1 p.2 r.offset r.group := by
  induction calls using List.reverseRecOn with
  | nil => cases he
  | append_singleton calls c ih =>
    have hext := (Ledger.run calls).1.extends_call c
    rw [Ledger.run_concat]
    rw [history_concat] at he
    rcases List.mem_append.1 he with he | he
    · obtain ⟨hgroup, hmem⟩ := ih he
      obtain ⟨m, hm, ho⟩ := List.mem_map.1 hmem
      exact ⟨hgroup, List.mem_map.2 ⟨m, hext.mem_log hm, ho⟩⟩
    · rw [List.mem_singleton.1 he] at h
      obtain ⟨request, messages, hclaim, answered, ⟨k, hk, rfl⟩, rfl⟩ := issuer?_eq_some h
      obtain ⟨-, -, hgroup, m, hm, ho⟩ := held_of_claim (refines_run calls) hclaim answered hk
      exact ⟨hgroup, List.mem_map.2 ⟨m, hm, ho⟩⟩

theorem issued_of_held (calls : List Call) (held : ((Ledger.run calls).1.current? r).isSome) :
    ∃ e ∈ history calls, (issuer? r e).isSome := by
  induction calls using List.reverseRecOn with
  | nil => cases held
  | append_singleton calls c ih =>
    rw [Ledger.run_concat] at held
    rw [history_concat]
    rcases claimed_of_held (refines_run calls) held with hbefore | ⟨request, messages, hclaim, answered, k, hk, rfl⟩
    · obtain ⟨e, he, hissued⟩ := ih hbefore
      exact ⟨e, List.mem_append_left _ he, hissued⟩
    · refine ⟨_, List.mem_append_right _ (List.mem_singleton_self _), ?_⟩
      unfold issuer?
      simp only [hclaim, answered]
      rw [if_pos (List.mem_map_of_mem hk)]
      rfl

theorem pair?_of_receipt {request : Store.Request} {now : Instant} {token : Uuid} (h : request.receipt? = some r)
    (history : List (Call × Outcome)) :
    pair? history ⟨now, token, .request request⟩ = history.findSome? (issuer? r) := by
  cases request <;> cases h <;> rfl

/-- **A call of another pair** leaves alone what a pair has on record. -/
theorem only_call_other (calls : List Call) {c : Call} {p : String × String} (about : pair? (history calls) c = some p)
    {topic group : String} (other : p ≠ (topic, group)) :
    ((Ledger.run calls).1.call c).1.only topic group = (Ledger.run calls).1.only topic group := by
  have hsound := (refines_run calls).sound
  obtain ⟨now, token, action⟩ := c
  cases action with
  | commit staged => cases about
  | request request =>
    refine Ledger.only_perform_other hsound now token ?_
    cases hr : request.receipt? with
    | none =>
      cases request with
      | claim q => exact Or.inl ⟨q, rfl, Option.some.inj about ▸ other⟩
      | forgetGroup t g => exact Or.inr (Or.inl ⟨t, g, rfl, Option.some.inj about ▸ other⟩)
      | ack | nack | renew => cases hr
      | _ => cases about
    | some r =>
      rw [pair?_of_receipt hr] at about
      obtain ⟨e, he, hissuer⟩ := List.exists_of_findSome?_eq_some about
      refine Or.inr (Or.inr ⟨r, rfl, fun hsees => ?_⟩)
      obtain ⟨hgroup, hmem⟩ := issuer_of_history calls he hissuer
      obtain ⟨m, hm, ho⟩ := List.mem_map.1 hmem
      obtain ⟨m', hm', ho'⟩ := List.mem_map.1 hsees.2
      have hsame := (hsound.unique hm hm' (ho.trans ho'.symm)).1
      exact other (Prod.ext hsame (hgroup.symm.trans hsees.1))

/-- **A call of a pair or of none** does the same when only the pair is on record. -/
theorem only_call (calls : List Call) {c : Call} {topic group : String}
    (about : (pair? (history calls) c).all (· = (topic, group))) :
    ((Ledger.run calls).1.only topic group).call c =
      (((Ledger.run calls).1.call c).1.only topic group, ((Ledger.run calls).1.call c).2) := by
  have hsound := (refines_run calls).sound
  obtain ⟨now, token, action⟩ := c
  cases action with
  | commit staged =>
    unfold Ledger.call
    simp only [Ledger.only_commit hsound]
    cases (Ledger.run calls).1.commit now staged <;> rfl
  | request request =>
    refine Ledger.only_perform hsound now token ?_ ?_ fun r hr held => ?_
    · rintro q rfl
      exact Prod.mk.inj (of_decide_eq_true about)
    · rintro t g rfl
      exact Prod.mk.inj (of_decide_eq_true about)
    · rw [pair?_of_receipt hr] at about
      cases hissuer : (history calls).findSome? (issuer? r) with
      | none =>
        obtain ⟨e, he, hissued⟩ := issued_of_held calls held
        rw [List.findSome?_eq_none_iff.1 hissuer e he] at hissued
        cases hissued
      | some p =>
        rw [hissuer] at about
        obtain rfl : p = (topic, group) := of_decide_eq_true about
        obtain ⟨e, he, hissuer⟩ := List.exists_of_findSome?_eq_some hissuer
        exact issuer_of_history calls he hissuer

/-- The ledger of what is left of a run holds what the ledger of the run holds about the pair. -/
theorem ledger_run_alone (calls : List Call) (topic group : String) :
    Ledger.run ((alone (topic, group) calls).map (·.1)) =
      ((Ledger.run calls).1.only topic group, (alone (topic, group) calls).map (·.2)) := by
  induction calls using List.reverseRecOn with
  | nil => exact Prod.ext (Ledger.only_empty topic group).symm rfl
  | append_singleton calls c ih =>
    rw [alone_concat, Ledger.run_concat]
    split
    case isTrue habout =>
      rw [List.map_append, List.map_append, List.map_singleton, List.map_singleton, Ledger.run_append_singleton, ih,
        only_call calls habout, ((refines_run calls).call c).2]
    case isFalse hother =>
      cases habout : pair? (history calls) c with
      | none =>
        rw [habout] at hother
        exact absurd rfl hother
      | some p =>
        rw [habout] at hother
        have hp : p ≠ (topic, group) := fun same => hother (decide_eq_true same)
        rw [List.append_nil, ih, only_call_other calls habout hp]

/-! ## Views -/

/-- The records that a group sees of a topic are those that the ledger has on record above the watermark. -/
theorem Refines.record_view (h : s.Refines l) (topic group : String) (offset : Int) :
    (s.view topic group).record offset =
      if offset ∈ (l.log topic).map (·.offset) ∧ s.watermark topic group < offset then
        (l.entries offset group).map (·.record topic)
      else none := by
  show (s.deliveries.get? (offset, group)).filter (·.topic = topic) = _
  split
  case isTrue hown =>
    obtain ⟨hmem, habove⟩ := hown
    obtain ⟨m, hm, rfl⟩ := List.mem_map.1 hmem
    rw [h.kept topic m group hm habove]
    cases l.entries m.offset group with
    | none => rfl
    | some e => simp [Entry.record, Option.filter]
  case isFalse hother =>
    rw [Option.filter_eq_none_iff]
    intro d hd
    obtain ⟨topic', m, e, hm, ho, habove, -, rfl⟩ := h.of_record hd
    rw [decide_eq_true_eq]
    rintro rfl
    exact hother ⟨ho ▸ List.mem_map_of_mem hm, habove⟩

/-- What a group sees of a topic is in the ledger, apart from the watermark. -/
theorem Refines.view_congr (h : s.Refines l) (h' : s'.Refines l') {topic group : String} (log : s.log topic = s'.log topic)
    (mark : s.watermarks.get? (topic, group) = s'.watermarks.get? (topic, group))
    (only : l.only topic group = l'.only topic group) : s.view topic group = s'.view topic group := by
  have hlog : l.log topic = l'.log topic := by rw [← h.log, log, h'.log]
  have hmark : s.watermark topic group = s'.watermark topic group := by
    unfold watermark
    rw [mark]
  have hrecord : (s.view topic group).record = (s'.view topic group).record := by
    funext offset
    rw [h.record_view, h'.record_view, hlog, hmark]
    by_cases hmem : offset ∈ (l'.log topic).map (·.offset) ∧ s'.watermark topic group < offset
    · have hsees : l.Sees topic group offset group := ⟨rfl, hlog ▸ hmem.1⟩
      have hsees' : l'.Sees topic group offset group := ⟨rfl, hmem.1⟩
      have hentries := congrArg (fun l => l.entries offset group) only
      simp only [Ledger.entries_only, if_pos hsees, if_pos hsees'] at hentries
      rw [if_pos hmem, if_pos hmem, hentries]
    · rw [if_neg hmem, if_neg hmem]
  unfold view at hrecord ⊢
  rw [log, mark]
  exact congrArg (View.mk _ _) hrecord

/-- A watermark moves when its group acknowledges a message of the topic or forgets the topic, and only then. -/
theorem mark_perform (s : InMemory) (now : Instant) (token : Uuid) {request : Store.Request} {topic group : String}
    (acks : ∀ r d, request = .ack r → s.current? r = some d → (d.topic, r.group) ≠ (topic, group))
    (forgets : ∀ t g, request = .forgetGroup t g → (t, g) ≠ (topic, group)) :
    (s.perform now token request).1.watermarks.get? (topic, group) = s.watermarks.get? (topic, group) := by
  by_cases plain : request.operation ≠ .ack ∧ request.operation ≠ .forgetGroup
  · rw [s.watermarks_perform now token plain.1 plain.2]
  · unfold perform
    cases request with
    | ack r =>
      simp only
      split
      · rfl
      · show (s.ack r).1.watermarks.get? _ = _
        unfold ack
        cases held : s.current? r with
        | none => rfl
        | some d =>
          have hother := acks r d rfl held
          show (InMemory.advance _ _ _).watermarks.get? _ = _
          unfold advance
          split
          · rfl
          · rw [Table.get?_put, if_neg hother]
            rfl
    | forgetGroup t g =>
      simp only
      split
      · rfl
      · show (s.watermarks.erase (t, g)).get? _ = _
        rw [Table.get?_erase, if_neg (forgets t g rfl).symm]
    | _ => exact absurd (by simp [Store.Request.operation]) plain

/-- A receipt that is held is held for the pair that its claim was about. -/
theorem held_for_issuer (calls : List Call) {p : String × String}
    (issued : (history calls).findSome? (issuer? r) = some p) {d : DeliveryRecord}
    (held : (run calls).1.current? r = some d) : (d.topic, r.group) = p := by
  obtain ⟨e, he, hissuer⟩ := List.exists_of_findSome?_eq_some issued
  obtain ⟨hgroup, hmem⟩ := issuer_of_history calls he hissuer
  obtain ⟨m, hm, ho⟩ := List.mem_map.1 hmem
  rcases (refines_run calls).current? r with ⟨-, hlost⟩ | ⟨topic, m', e', hm', ho', -, -, hheld⟩
  · rw [hlost] at held
    cases held
  · rw [hheld] at held
    obtain rfl := Option.some.inj held
    have hsame := ((refines_run calls).sound.unique hm' hm (ho'.trans ho.symm)).1
    exact Prod.ext hsame hgroup

/-- **A call about one pair** leaves the view of any other as it is. -/
theorem view_call_other (calls : List Call) {c : Call} {p : String × String} (about : pair? (history calls) c = some p)
    {topic group : String} (other : p ≠ (topic, group)) :
    ((run calls).1.call c).1.view topic group = (run calls).1.view topic group := by
  have hrefines := refines_run calls
  have honly := only_call_other calls about other
  obtain ⟨now, token, action⟩ := c
  cases action with
  | commit staged => cases about
  | request request =>
    refine (hrefines.call _).1.view_congr hrefines ?_ ?_ honly
    · have hwrite : request.operation ≠ .enqueue := by
        cases request <;> first | (cases about; done) | simp [Store.Request.operation]
      rw [← Array.toList_inj, (hrefines.call _).1.log, hrefines.log]
      unfold Ledger.log
      exact congrArg (fun messages => (messages.filter (·.1 = topic)).map (·.2))
        ((Ledger.run calls).1.written_perform now token hwrite).1
    · refine mark_perform _ now token (fun r d hack held => ?_) fun t g hforget => ?_
      · subst hack
        rw [pair?_of_receipt rfl] at about
        rw [held_for_issuer calls about held]
        exact other
      · subst hforget
        exact Option.some.inj about ▸ other

/-- **Groups and topics are isolated.** A claim for one pair of a topic and a group, the settling or renewing of a
receipt that was claimed for it, and the forgetting of the group there leave alone what any other pair sees. So a pair
gets the same answers when everything is deleted from a run that is about other pairs. -/
theorem pairs_are_isolated (calls : List Call) (topic group : String) :
    (∀ c p, pair? (history calls) c = some p → p ≠ (topic, group) →
      ((run calls).1.call c).1.view topic group = (run calls).1.view topic group) ∧
      (run ((alone (topic, group) calls).map (·.1))).2 = (alone (topic, group) calls).map (·.2) := by
  refine ⟨fun c p about other => view_call_other calls about other, ?_⟩
  rw [run_eq_ledger_run, ledger_run_alone]

/-- Two groups on one topic, of which one also reads another: the message that `billing` gives back is claimed again. -/
def sideBySide : List Call :=
  [⟨0, .ofNat 0, .commit [("orders", [.new (.ofNat 7) []]), ("refunds", [.new (.ofNat 8) []])]⟩,
    ⟨0, .ofNat 1, .request (.claim ⟨"orders", "billing", 0, 9, .ofSecs 30⟩)⟩,
    ⟨0, .ofNat 1, .request (.claim ⟨"orders", "shipping", 0, 9, .ofSecs 30⟩)⟩,
    ⟨0, .ofNat 2, .request (.claim ⟨"refunds", "billing", 0, 9, .ofSecs 30⟩)⟩,
    ⟨5, .ofNat 0, .request (.ack ⟨2, "billing", .ofNat 2⟩)⟩,
    ⟨5, .ofNat 0, .request (.ack ⟨1, "shipping", .ofNat 1⟩)⟩,
    ⟨5, .ofNat 0, .request (.nack ⟨1, "billing", .ofNat 1⟩ .zero)⟩,
    ⟨6, .ofNat 3, .request (.claim ⟨"orders", "billing", 0, 9, .ofSecs 30⟩)⟩]

/-- What `billing` does on one topic is answered as if nobody else were there. -/
theorem pairs_are_isolated_sideBySide :
    pair? (history sideBySide) ⟨7, .ofNat 0, .request (.nack ⟨2, "billing", .ofNat 2⟩ .zero)⟩ =
        some ("refunds", "billing") ∧
      ((run sideBySide).1.call ⟨7, .ofNat 0, .request (.nack ⟨2, "billing", .ofNat 2⟩ .zero)⟩).1.view "orders" "billing" =
        (run sideBySide).1.view "orders" "billing" ∧
      (alone ("orders", "billing") sideBySide).map (·.1) =
        [sideBySide[0], sideBySide[1], sideBySide[6], sideBySide[7]] ∧
      (run [sideBySide[0], sideBySide[1], sideBySide[6], sideBySide[7]]).2 =
        (alone ("orders", "billing") sideBySide).map (·.2) := by
  have about : pair? (history sideBySide) ⟨7, .ofNat 0, .request (.nack ⟨2, "billing", .ofNat 2⟩ .zero)⟩ =
      some ("refunds", "billing") := by with_unfolding_all rfl
  have left : (alone ("orders", "billing") sideBySide).map (·.1) =
      [sideBySide[0], sideBySide[1], sideBySide[6], sideBySide[7]] := by with_unfolding_all rfl
  obtain ⟨hviews, hanswers⟩ := pairs_are_isolated sideBySide "orders" "billing"
  rw [left] at hanswers
  exact ⟨about, hviews _ _ about (by decide), left, hanswers⟩

end InMemory

end DurableBus
