import DurableBus.Proofs.Store.Run

/-!
# A plain ledger

A `Ledger` is a store that forgets nothing by itself: it keeps every message with its topic in one list, and one entry
per message and group for good. It knows no watermarks, and what may be claimed is filtered from the whole log.

* `Ledger.claim` : the first claimable messages behind an offset are claimed;
* `Ledger.Sound` : offsets ascend and are counted over all topics, and only stored messages have entries; every
  operation keeps that (`Sound.appendOne`, …, `Sound.perform`).
-/

set_option autoImplicit false

namespace DurableBus

/-- What a group has on record about a message. -/
structure Entry where
  state : DeliveryState
  token : Uuid
  visibleAt : Instant
  count : Nat
deriving DecidableEq, Repr

/-- Every message that was ever stored, and what the groups have on record about them. -/
structure Ledger where
  lastOffset : Int
  /-- The messages with their topics, in the order in which they were stored. -/
  messages : List (String × Stored)
  entries : Int → String → Option Entry
  closed : Bool

namespace Entry

/-- Whether a message with this entry is to be handed out: there is none, or it is open and visible. -/
def isOpen (now : Instant) : Option Entry → Bool
  | none => true
  | some e => e.state != .acked && e.visibleAt ≤ now

def claimed (now : Instant) (token : Uuid) (lease : Duration) (before : Option Entry) : Entry :=
  ⟨.claimed, token, now.plus lease, (before.map (·.count)).getD 0 + 1⟩

end Entry

namespace Ledger

def empty : Ledger := ⟨0, [], fun _ _ => none, false⟩

def log (l : Ledger) (topic : String) : List Stored := (l.messages.filter (·.1 = topic)).map (·.2)

def appendOne (l : Ledger) (now : Instant) (topic : String) (m : Message) : Ledger :=
  { l with
    lastOffset := l.lastOffset + 1
    messages := l.messages ++ [(topic, ⟨l.lastOffset + 1, m, now / 1000⟩)] }

def append (l : Ledger) (now : Instant) (topic : String) (messages : List Message) : Ledger :=
  messages.foldl (fun l m => l.appendOne now topic m) l

def commit (l : Ledger) (now : Instant) (staged : List (String × List Message)) : Except Store.Error Ledger :=
  if l.closed then .error .closed
  else .ok (staged.foldl (fun l w => l.append now w.1 w.2) l)

/-- The messages that a claim takes: the first of those behind the offset that are to be handed out. -/
def chosen (l : Ledger) (now : Instant) (request : ClaimRequest) : List Stored :=
  ((l.log request.topic).filter fun m =>
    request.after < m.offset && Entry.isOpen now (l.entries m.offset request.group)).take request.limit

def claim (l : Ledger) (now : Instant) (token : Uuid) (request : ClaimRequest) : Ledger × List Claimed :=
  let chosen := l.chosen now request
  let entry (offset : Int) := Entry.claimed now token request.lease (l.entries offset request.group)
  ({ l with entries := fun offset group =>
      if group = request.group ∧ offset ∈ chosen.map (·.offset) then some (entry offset) else l.entries offset group },
    chosen.map fun m =>
      ⟨⟨m.offset, request.group, token⟩, m.message, m.publishedAt, (entry m.offset).count⟩)

def current? (l : Ledger) (r : Receipt) : Option Entry :=
  (l.entries r.offset r.group).filter fun e => e.state == .claimed && e.token == r.token

def putEntry (l : Ledger) (r : Receipt) (e : Entry) : Ledger :=
  { l with entries := fun offset group =>
      if offset = r.offset ∧ group = r.group then some e else l.entries offset group }

def ack (l : Ledger) (r : Receipt) : Ledger × List Store.Notice :=
  match l.current? r with
  | some e => (l.putEntry r { e with state := .acked }, [])
  | none => (l, [.lostBeforeAck r])

/-- Gives a claim back; the message is visible again after a while. -/
def nack (l : Ledger) (now : Instant) (r : Receipt) (redeliverAfter : Duration) : Ledger × List Store.Notice :=
  match l.current? r with
  | some e => (l.putEntry r { e with state := .nacked, visibleAt := now.plus redeliverAfter }, [])
  | none => (l, [.lostBeforeNack r])

def renew (l : Ledger) (now : Instant) (r : Receipt) (lease : Duration) : Ledger × Bool :=
  match l.current? r with
  | some e => (l.putEntry r { e with visibleAt := now.plus lease }, true)
  | none => (l, false)

/-- Deletes what a group has on record about the messages of a topic. -/
def forgetGroup (l : Ledger) (topic group : String) : Ledger :=
  { l with entries := fun offset g =>
      if g = group ∧ offset ∈ (l.log topic).map (·.offset) then none else l.entries offset g }

def head (l : Ledger) (topic : String) : Int := ((l.log topic).getLast?.map (·.offset)).getD 0

/-- Carries out a request. A closed ledger carries out none but to be closed. -/
def perform (l : Ledger) (now : Instant) (token : Uuid) (request : Store.Request) : Ledger × Store.Outcome :=
  if request = .close then ({ l with closed := true }, .ok .done, [])
  else if l.closed then (l, .error .closed, [])
  else match request with
    | .setUp | .ping | .close | .stage .. => (l, .ok .done, [])
    | .enqueue topic messages => (l.append now topic messages, .ok .done, [])
    | .head topic => (l, .ok (.offset (l.head topic)), [])
    | .claim request => ((l.claim now token request).1, .ok (.claimed (l.claim now token request).2), [])
    | .ack r => ((l.ack r).1, .ok .done, (l.ack r).2)
    | .nack r redeliverAfter => ((l.nack now r redeliverAfter).1, .ok .done, (l.nack now r redeliverAfter).2)
    | .renew r lease => ((l.renew now r lease).1, .ok (.held (l.renew now r lease).2), [])
    | .forgetGroup topic group => (l.forgetGroup topic group, .ok .done, [])

def call (l : Ledger) (c : Store.Call) : Ledger × Store.Outcome :=
  match c.action with
  | .request request => l.perform c.now c.token request
  | .commit staged =>
    match l.commit c.now staged with
    | .ok l => (l, .ok .done, [])
    | .error e => (l, .error e, [])

def run (calls : List Store.Call) : Ledger × List Store.Outcome := Store.play call empty calls

def isFinal (l : Ledger) (group : String) (offset : Int) : Bool := (l.entries offset group).any (·.state == .acked)

/-! ## Logs -/

theorem mem_log {l : Ledger} {topic : String} {m : Stored} : m ∈ l.log topic ↔ (topic, m) ∈ l.messages := by
  unfold log
  rw [List.mem_map]
  constructor
  · rintro ⟨⟨t, m'⟩, hp, rfl⟩
    obtain ⟨hp, ht⟩ := List.mem_filter.1 hp
    rw [decide_eq_true_eq] at ht
    exact ht ▸ hp
  · intro h
    exact ⟨(topic, m), List.mem_filter.2 ⟨h, by simp⟩, rfl⟩

theorem log_appendOne (l : Ledger) (now : Instant) (topic : String) (m : Message) (t : String) :
    (l.appendOne now topic m).log t =
      if topic = t then l.log t ++ [⟨l.lastOffset + 1, m, now / 1000⟩] else l.log t := by
  unfold log appendOne
  rw [List.filter_append, List.map_append]
  by_cases h : topic = t
  · simp [h]
  · simp [h]

theorem mem_chosen {l : Ledger} {now : Instant} {request : ClaimRequest} {m : Stored}
    (h : m ∈ l.chosen now request) :
    m ∈ l.log request.topic ∧ request.after < m.offset ∧ Entry.isOpen now (l.entries m.offset request.group) := by
  obtain ⟨hlog, hopen⟩ := List.mem_filter.1 (List.mem_of_mem_take h)
  rw [Bool.and_eq_true, decide_eq_true_eq] at hopen
  exact ⟨hlog, hopen⟩

/-- A claim with room for the whole topic takes everything that is to be handed out. -/
theorem mem_chosen_of_room {l : Ledger} {now : Instant} {request : ClaimRequest} {m : Stored}
    (hlog : m ∈ l.log request.topic) (hafter : request.after < m.offset)
    (hopen : Entry.isOpen now (l.entries m.offset request.group)) (room : (l.log request.topic).length ≤ request.limit) :
    m ∈ l.chosen now request := by
  have hlen := List.length_filter_le (fun m =>
    request.after < m.offset && Entry.isOpen now (l.entries m.offset request.group)) (l.log request.topic)
  rw [chosen, List.take_of_length_le (by omega), List.mem_filter, Bool.and_eq_true, decide_eq_true_eq]
  exact ⟨hlog, hafter, hopen⟩

theorem offsets_claim (l : Ledger) (now : Instant) (token : Uuid) (request : ClaimRequest) :
    (l.claim now token request).2.map (·.receipt.offset) = (l.chosen now request).map (·.offset) := by
  show ((l.chosen now request).map _).map _ = _
  rw [List.map_map]
  rfl

theorem current?_eq_some {l : Ledger} {r : Receipt} {e : Entry} :
    l.current? r = some e ↔ l.entries r.offset r.group = some e ∧ e.state = .claimed ∧ e.token = r.token := by
  simp [current?, Option.filter_eq_some_iff]

theorem isFinal_iff {l : Ledger} {group : String} {offset : Int} :
    l.isFinal group offset ↔ ∃ e, l.entries offset group = some e ∧ e.state = .acked := by
  simp [isFinal, Option.any_eq_true]

/-! ## Soundness -/

/-- Offsets ascend and are counted over all topics; only stored messages have entries. -/
structure Sound (l : Ledger) : Prop where
  ascending : l.messages.Pairwise (·.2.offset < ·.2.offset)
  within : ∀ topic m, m ∈ l.log topic → 0 < m.offset ∧ m.offset ≤ l.lastOffset
  nonneg : 0 ≤ l.lastOffset
  known : ∀ offset group e, l.entries offset group = some e → ∃ topic m, m ∈ l.log topic ∧ m.offset = offset

variable {l : Ledger}

theorem sound_empty : empty.Sound :=
  ⟨.nil, fun _ _ h => by simp [log, empty] at h, Int.le_refl _, fun _ _ _ h => by simp [empty] at h⟩

theorem Sound.log_ascending (h : l.Sound) (topic : String) : (l.log topic).Pairwise (·.offset < ·.offset) := by
  unfold log
  rw [List.pairwise_map]
  exact h.ascending.filter _

theorem Sound.log_distinct (h : l.Sound) (topic : String) : (l.log topic).Nodup :=
  (h.log_ascending topic).imp fun {a b} hlt heq => by
    rw [heq] at hlt
    omega

theorem Sound.log_nodup (h : l.Sound) (topic : String) : ((l.log topic).map (·.offset)).Nodup := by
  rw [List.Nodup, List.pairwise_map]
  exact (h.log_ascending topic).imp fun {a b} hlt heq => by omega

theorem Sound.le_lastOffset (h : l.Sound) {topic : String} {m : Stored} (hm : m ∈ l.log topic) :
    m.offset ≤ l.lastOffset := (h.within topic m hm).2

/-- An offset belongs to one message on one topic. -/
theorem Sound.unique (h : l.Sound) {t t' : String} {m m' : Stored} (hm : m ∈ l.log t) (hm' : m' ∈ l.log t')
    (same : m.offset = m'.offset) : t = t' ∧ m = m' := by
  rw [mem_log] at hm hm'
  obtain ⟨i, hi, ei⟩ := List.getElem_of_mem hm
  obtain ⟨j, hj, ej⟩ := List.getElem_of_mem hm'
  rcases Nat.lt_trichotomy i j with hlt | heq | hlt
  · have := List.pairwise_iff_getElem.1 h.ascending i j hi hj hlt
    rw [ei, ej] at this
    simp only at this
    omega
  · subst heq
    exact Prod.mk.inj (ei.symm.trans ej)
  · have := List.pairwise_iff_getElem.1 h.ascending j i hj hi hlt
    rw [ei, ej] at this
    simp only at this
    omega

theorem Sound.nodup_chosen (h : l.Sound) (now : Instant) (request : ClaimRequest) :
    ((l.chosen now request).map (·.offset)).Nodup :=
  List.Nodup.sublist (((List.take_sublist _ _).trans List.filter_sublist).map _) (h.log_nodup request.topic)

theorem Sound.appendOne (h : l.Sound) (now : Instant) (topic : String) (m : Message) :
    (l.appendOne now topic m).Sound := by
  have hlast : (l.appendOne now topic m).lastOffset = l.lastOffset + 1 := rfl
  refine ⟨?_, fun t m' hm' => ?_, ?_, fun offset group e he => ?_⟩
  · show (l.messages ++ [(topic, _)]).Pairwise _
    rw [List.pairwise_append]
    refine ⟨h.ascending, by simp, fun p hp q hq => ?_⟩
    rw [List.mem_singleton.1 hq]
    have := (h.within p.1 p.2 (mem_log.2 hp)).2
    simp only
    omega
  · rw [hlast]
    have := h.nonneg
    rw [log_appendOne] at hm'
    split at hm'
    · rcases List.mem_append.1 hm' with hm' | hm'
      · have := h.within t m' hm'
        omega
      · rw [List.mem_singleton.1 hm']
        simp only
        omega
    · have := h.within t m' hm'
      omega
  · have := h.nonneg
    omega
  · obtain ⟨t, m', hm', ho⟩ := h.known offset group e he
    refine ⟨t, m', ?_, ho⟩
    rw [log_appendOne]
    split
    · exact List.mem_append_left _ hm'
    · exact hm'

theorem Sound.append (h : l.Sound) (now : Instant) (topic : String) (messages : List Message) :
    (l.append now topic messages).Sound := by
  unfold Ledger.append
  induction messages generalizing l with
  | nil => exact h
  | cons m rest ih => exact ih (h.appendOne now topic m)

theorem Sound.commit (h : l.Sound) {now : Instant} {staged : List (String × List Message)} {l' : Ledger}
    (hcommit : l.commit now staged = .ok l') : l'.Sound := by
  have hall : (staged.foldl (fun l w => l.append now w.1 w.2) l).Sound := by
    clear hcommit
    induction staged generalizing l with
    | nil => exact h
    | cons w rest ih => exact ih (h.append now w.1 w.2)
  unfold Ledger.commit at hcommit
  split at hcommit
  · cases hcommit
  · exact Except.ok.inj hcommit ▸ hall

theorem Sound.withEntries (h : l.Sound) {entries : Int → String → Option Entry}
    (known : ∀ offset group e, entries offset group = some e → ∃ topic m, m ∈ l.log topic ∧ m.offset = offset) :
    { l with entries := entries }.Sound :=
  ⟨h.ascending, h.within, h.nonneg, known⟩

theorem Sound.claim (h : l.Sound) (now : Instant) (token : Uuid) (request : ClaimRequest) :
    (l.claim now token request).1.Sound := by
  refine h.withEntries fun offset group e he => ?_
  split at he
  case isTrue hchosen =>
    obtain ⟨m, hm, ho⟩ := List.mem_map.1 hchosen.2
    exact ⟨request.topic, m, (mem_chosen hm).1, ho⟩
  case isFalse => exact h.known offset group e he

theorem Sound.putEntry (h : l.Sound) {r : Receipt} {e : Entry} (held : l.current? r = some e) (e' : Entry) :
    (l.putEntry r e').Sound := by
  refine h.withEntries fun offset group e'' he => ?_
  split at he
  case isTrue same => exact same.1 ▸ h.known r.offset r.group e (current?_eq_some.1 held).1
  case isFalse => exact h.known offset group e'' he

theorem Sound.ack (h : l.Sound) (r : Receipt) : (l.ack r).1.Sound := by
  unfold Ledger.ack
  split
  case h_1 e held => exact h.putEntry held _
  case h_2 => exact h

theorem Sound.nack (h : l.Sound) (now : Instant) (r : Receipt) (d : Duration) : (l.nack now r d).1.Sound := by
  unfold Ledger.nack
  split
  case h_1 e held => exact h.putEntry held _
  case h_2 => exact h

theorem Sound.renew (h : l.Sound) (now : Instant) (r : Receipt) (lease : Duration) : (l.renew now r lease).1.Sound := by
  unfold Ledger.renew
  split
  case h_1 e held => exact h.putEntry held _
  case h_2 => exact h

theorem Sound.forgetGroup (h : l.Sound) (topic group : String) : (l.forgetGroup topic group).Sound := by
  refine h.withEntries fun offset g e he => ?_
  split at he
  case isTrue => cases he
  case isFalse => exact h.known offset g e he

/-- Every request keeps a ledger sound. -/
theorem Sound.perform (h : l.Sound) (now : Instant) (token : Uuid) (request : Store.Request) :
    (l.perform now token request).1.Sound := by
  unfold Ledger.perform
  split
  · exact ⟨h.ascending, h.within, h.nonneg, h.known⟩
  · split
    · exact h
    · cases request with
      | setUp | ping | close | stage | head => exact h
      | enqueue topic messages => exact h.append now topic messages
      | claim request => exact h.claim now token request
      | ack r => exact h.ack r
      | nack r d => exact h.nack now r d
      | renew r lease => exact h.renew now r lease
      | forgetGroup topic group => exact h.forgetGroup topic group

theorem Sound.call (h : l.Sound) (c : Store.Call) : (l.call c).1.Sound := by
  obtain ⟨now, token, action⟩ := c
  cases action with
  | request request => exact h.perform now token request
  | commit staged =>
    unfold Ledger.call
    cases hcommit : l.commit now staged with
    | ok l' =>
      simp only [hcommit]
      exact h.commit hcommit
    | error e =>
      simp only [hcommit]
      exact h

/-! ## What is written stays -/

/-- Everything stored in `l` is stored in `l'`, in the same order and before all that has been added. -/
structure Extends (l l' : Ledger) : Prop where
  messages : ∃ added, l'.messages = l.messages ++ added ∧ ∀ p ∈ added, l.lastOffset < p.2.offset
  lastOffset : l.lastOffset ≤ l'.lastOffset

theorem Extends.refl (l : Ledger) : Extends l l := ⟨⟨[], by simp⟩, Int.le_refl _⟩

theorem Extends.trans {l₁ l₂ l₃ : Ledger} (h : Extends l₁ l₂) (h' : Extends l₂ l₃) : Extends l₁ l₃ := by
  obtain ⟨⟨added, hsame, habove⟩, hlast⟩ := h
  obtain ⟨⟨added', hsame', habove'⟩, hlast'⟩ := h'
  refine ⟨⟨added ++ added', by rw [hsame', hsame, List.append_assoc], fun p hp => ?_⟩, Int.le_trans hlast hlast'⟩
  rcases List.mem_append.1 hp with hp | hp
  · exact habove p hp
  · have := habove' p hp
    omega

theorem Extends.log {l l' : Ledger} (h : Extends l l') (topic : String) :
    ∃ added, l'.log topic = l.log topic ++ added ∧ ∀ m ∈ added, l.lastOffset < m.offset := by
  obtain ⟨⟨added, hsame, habove⟩, -⟩ := h
  refine ⟨(added.filter (·.1 = topic)).map (·.2), ?_, fun m hm => ?_⟩
  · unfold Ledger.log
    rw [hsame, List.filter_append, List.map_append]
  · obtain ⟨p, hp, rfl⟩ := List.mem_map.1 hm
    exact habove p (List.mem_filter.1 hp).1

theorem Extends.mem_log {l l' : Ledger} (h : Extends l l') {topic : String} {m : Stored} (hm : m ∈ l.log topic) :
    m ∈ l'.log topic := by
  obtain ⟨added, hsame, -⟩ := h.log topic
  rw [hsame]
  exact List.mem_append_left _ hm

/-- What was stored before is told apart from what has been added by its offset. -/
theorem Extends.mem_of_le {l l' : Ledger} (h : Extends l l') {topic : String} {m : Stored} (hm : m ∈ l'.log topic)
    (hle : m.offset ≤ l.lastOffset) : m ∈ l.log topic := by
  obtain ⟨added, hsame, habove⟩ := h.log topic
  rw [hsame] at hm
  rcases List.mem_append.1 hm with hm | hm
  · exact hm
  · have := habove m hm
    omega

theorem Sound.head_le (h : l.Sound) (topic : String) : l.head topic ≤ l.lastOffset := by
  unfold head
  cases hlast : (l.log topic).getLast? with
  | none => exact h.nonneg
  | some m => exact h.le_lastOffset (List.mem_of_getLast? hlast)

theorem Sound.le_head (h : l.Sound) {topic : String} {m : Stored} (hm : m ∈ l.log topic) :
    m.offset ≤ l.head topic := by
  unfold head
  cases hlast : (l.log topic).getLast? with
  | none =>
    rw [List.getLast?_eq_none_iff.1 hlast] at hm
    cases hm
  | some last =>
    obtain ⟨first, hlog⟩ := List.getLast?_eq_some_iff.1 hlast
    have hascending := h.log_ascending topic
    rw [hlog] at hm hascending
    rcases List.mem_append.1 hm with hm | hm
    · exact Int.le_of_lt ((List.pairwise_append.1 hascending).2.2 m hm last List.mem_cons_self)
    · rw [List.mem_singleton.1 hm]
      exact Int.le_refl _

/-- What is behind the head of a topic has been added since. -/
theorem Extends.head_lt_iff {l l' : Ledger} (h : Extends l l') (sound : l.Sound) {topic : String} {m : Stored}
    (hm : m ∈ l'.log topic) : l.head topic < m.offset ↔ m ∉ l.log topic := by
  obtain ⟨added, hsame, habove⟩ := h.log topic
  refine ⟨fun hbehind hold => ?_, fun hnew => ?_⟩
  · have := sound.le_head hold
    omega
  · rw [hsame] at hm
    have := habove m ((List.mem_append.1 hm).resolve_left hnew)
    have := sound.head_le topic
    omega

theorem Extends.countP_log {l l' : Ledger} (h : Extends l l') {topic : String} {p : Stored → Bool}
    (old : ∀ m ∈ l'.log topic, p m → m.offset ≤ l.lastOffset) : (l'.log topic).countP p = (l.log topic).countP p := by
  obtain ⟨added, hsame, habove⟩ := h.log topic
  have hadded : added.countP p = 0 := by
    rw [List.countP_eq_zero]
    intro m hm hp
    have := old m (by rw [hsame]; exact List.mem_append_right _ hm) hp
    have := habove m hm
    omega
  rw [hsame, List.countP_append, hadded]
  omega

variable (l)

theorem extends_appendOne (now : Instant) (topic : String) (m : Message) : Extends l (l.appendOne now topic m) := by
  refine ⟨⟨_, rfl, fun p hp => ?_⟩, ?_⟩
  · rw [List.mem_singleton.1 hp]
    show l.lastOffset < l.lastOffset + 1
    omega
  · show l.lastOffset ≤ l.lastOffset + 1
    omega

theorem extends_append (now : Instant) (topic : String) (messages : List Message) :
    Extends l (l.append now topic messages) := by
  unfold append
  induction messages generalizing l with
  | nil => exact Extends.refl l
  | cons m rest ih => exact (l.extends_appendOne now topic m).trans (ih _)

theorem entries_append (now : Instant) (topic : String) (messages : List Message) :
    (l.append now topic messages).entries = l.entries := by
  unfold append
  induction messages generalizing l with
  | nil => rfl
  | cons m rest ih => exact ih (l.appendOne now topic m)

theorem closed_append (now : Instant) (topic : String) (messages : List Message) :
    (l.append now topic messages).closed = l.closed := by
  unfold append
  induction messages generalizing l with
  | nil => rfl
  | cons m rest ih => exact ih (l.appendOne now topic m)

/-- A commit writes messages and nothing else. -/
theorem extends_commit {now : Instant} {staged : List (String × List Message)} {l' : Ledger}
    (hcommit : l.commit now staged = .ok l') : Extends l l' ∧ l'.entries = l.entries ∧ l'.closed = l.closed := by
  unfold commit at hcommit
  split at hcommit
  · cases hcommit
  · rw [← Except.ok.inj hcommit]
    clear hcommit
    induction staged generalizing l with
    | nil => exact ⟨Extends.refl l, rfl, rfl⟩
    | cons w rest ih =>
      obtain ⟨hext, hentries, hclosed⟩ := ih (l.append now w.1 w.2) (by rwa [closed_append])
      exact ⟨(l.extends_append now w.1 w.2).trans hext, hentries.trans (l.entries_append now w.1 w.2),
        hclosed.trans (l.closed_append now w.1 w.2)⟩

theorem extends_perform (now : Instant) (token : Uuid) (request : Store.Request) :
    Extends l (l.perform now token request).1 := by
  unfold perform
  split
  · exact ⟨⟨[], by simp⟩, Int.le_refl _⟩
  · split
    · exact Extends.refl l
    · cases request with
      | enqueue topic messages => exact l.extends_append now topic messages
      | ack r =>
        show Extends l (l.ack r).1
        unfold ack
        split <;> exact ⟨⟨[], by simp [putEntry]⟩, Int.le_refl _⟩
      | nack r d =>
        show Extends l (l.nack now r d).1
        unfold nack
        split <;> exact ⟨⟨[], by simp [putEntry]⟩, Int.le_refl _⟩
      | renew r lease =>
        show Extends l (l.renew now r lease).1
        unfold renew
        split <;> exact ⟨⟨[], by simp [putEntry]⟩, Int.le_refl _⟩
      | _ => exact ⟨⟨[], by simp [claim, forgetGroup]⟩, Int.le_refl _⟩

theorem extends_call (c : Store.Call) : Extends l (l.call c).1 := by
  obtain ⟨now, token, action⟩ := c
  cases action with
  | request request => exact l.extends_perform now token request
  | commit staged =>
    unfold call
    cases hcommit : l.commit now staged with
    | ok l' =>
      simp only [hcommit]
      exact (l.extends_commit hcommit).1
    | error e =>
      simp only [hcommit]
      exact Extends.refl l

theorem extends_play (calls : List Store.Call) : Extends l (Store.play call l calls).1 := by
  induction calls generalizing l with
  | nil => exact Extends.refl l
  | cons c rest ih => exact (l.extends_call c).trans (ih _)

theorem entries_call_commit (now : Instant) (token : Uuid) (staged : List (String × List Message)) :
    (l.call ⟨now, token, .commit staged⟩).1.entries = l.entries := by
  unfold call
  cases hcommit : l.commit now staged with
  | ok l' =>
    simp only [hcommit]
    exact (l.extends_commit hcommit).2.1
  | error e => simp only [hcommit]

theorem run_append_singleton (calls : List Store.Call) (c : Store.Call) :
    run (calls ++ [c]) = (((run calls).1.call c).1, (run calls).2 ++ [((run calls).1.call c).2]) := by
  unfold run
  rw [Store.play_append]
  rfl

theorem run_concat (calls : List Store.Call) (c : Store.Call) : (run (calls ++ [c])).1 = ((run calls).1.call c).1 := by
  rw [run_append_singleton]

end Ledger

end DurableBus
