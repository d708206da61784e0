import DurableBus.Proofs.Store.Coherence
import DurableBus.Scenario.Session

/-!
# Transactions of a store

A `Desk` is an in-memory store with the transactions that are open on it. Its clients ask the store, count, and begin,
fill, commit and discard transactions, in any order. A `Journal` is what should come of it, read off what the clients do
without a look at any store: the writes that take effect one after the other, each with all of its messages.

* `Desk.Keeps`, `keeps_deal` : the store holds what the journal says, numbered through over all topics;
* `Desk.Agree`, `record_filter` : a transaction that is not committed is noticed by nobody;
* `desk_begin`, `desk_stage`, `desk_commit`, `desk_discard` : the transactions of a played session are those of a desk;
* `transactions_atomic` : each log is made of the writes that took effect, and of nothing else.
-/

set_option autoImplicit false

namespace DurableBus

namespace Store

/-- What a client does with a store and the transactions that are open on it. -/
inductive Deed
  | ask (request : Request)
  /-- Counts the messages of a topic. -/
  | count (topic : String)
  | begin (transaction : String)
  | stage (transaction topic : String) (messages : List Message)
  | commit (transaction : String)
  /-- A transaction is rolled back, or dropped. -/
  | discard (transaction : String)
deriving DecidableEq, Repr

/-- Something that is done at an instant; the token is for the messages that it may claim. -/
structure Dealing where
  now : Instant
  token : Uuid
  deed : Deed
deriving DecidableEq, Repr

/-- What a client is told. -/
inductive Response
  | outcome (outcome : Outcome)
  | count (n : Nat)
  | nothing
deriving Repr

def Response.isRefused : Response → Bool
  | .outcome (.error _, _) => true
  | _ => false

def Deed.transaction? : Deed → Option String
  | .ask _ | .count _ => none
  | .begin name | .stage name .. | .commit name | .discard name => some name

/-- Whether a deed writes, or is to be written later. -/
def Deed.isWrite : Deed → Bool
  | .ask (.enqueue ..) | .stage .. | .commit _ => true
  | _ => false

end Store

open Store (Deed Dealing Response)

/-- A store with the transactions that are open on it. -/
structure Desk where
  store : InMemory
  /-- What has been staged in each open transaction, in order. -/
  staged : String → Option (List (String × List Message))

namespace Desk

def start : Desk := ⟨.empty, fun _ => none⟩

def put (d : Desk) (name : String) (staged : Option (List (String × List Message))) : Desk :=
  { d with staged := fun other => if other = name then staged else d.staged other }

def action? (d : Desk) : Deed → Option Store.Action
  | .ask request => some (.request request)
  | .stage _ topic messages => some (.request (.stage topic messages))
  | .commit name => some (.commit ((d.staged name).getD []))
  | _ => none

/-- The desk when a deed is over. Staged is what the store has taken; a transaction is over after its commit, also if
that fails. -/
def settle (d : Desk) (taken : Bool) : Deed → Desk
  | .begin name => d.put name (some [])
  | .stage name topic messages => if taken then d.put name ((d.staged name).map (· ++ [(topic, messages)])) else d
  | .commit name | .discard name => d.put name none
  | _ => d

def tell (d : Desk) : Deed → Response
  | .count topic => .count (d.store.size topic)
  | _ => .nothing

/-- The desk after a deed, and what the client is told. -/
def deal (d : Desk) (c : Dealing) : Desk × Response :=
  match d.action? c.deed with
  | some action =>
    let (store, outcome) := d.store.call ⟨c.now, c.token, action⟩
    ({ d with store }.settle outcome.1.isOk c.deed, .outcome outcome)
  | none => (d.settle true c.deed, d.tell c.deed)

def after (d : Desk) (cs : List Dealing) : Desk := cs.foldl (fun d c => (d.deal c).1) d

/-- Some dealings with what the clients are told. -/
def record : Desk → List Dealing → List (Dealing × Response)
  | _, [] => []
  | d, c :: rest => (c, (d.deal c).2) :: record (d.deal c).1 rest

end Desk

/-- What should come of the dealings of clients. -/
structure Journal where
  closed : Bool
  /-- The messages that wait in each open transaction, with their topics. -/
  waiting : String → Option (List (String × Message))
  /-- The messages of each write that took effect, with their topics. -/
  written : List (List (String × Message))

namespace Journal

def empty : Journal := ⟨false, fun _ => none, []⟩

def put (j : Journal) (name : String) (waiting : Option (List (String × Message))) : Journal :=
  { j with waiting := fun other => if other = name then waiting else j.waiting other }

/-- A write takes effect, unless the store has been closed. -/
def write (j : Journal) (messages : List (String × Message)) : Journal :=
  if j.closed then j else { j with written := j.written ++ [messages] }

def note (j : Journal) : Deed → Journal
  | .ask .close => { j with closed := true }
  | .ask (.enqueue topic messages) => j.write (messages.map (topic, ·))
  | .ask _ | .count _ => j
  | .begin name => j.put name (some [])
  | .stage name topic messages =>
    if j.closed then j else j.put name ((j.waiting name).map (· ++ messages.map (topic, ·)))
  | .commit name => (j.write ((j.waiting name).getD [])).put name none
  | .discard name => j.put name none

/-- The journal of some dealings. -/
def of (cs : List Dealing) : Journal := cs.foldl (fun j c => j.note c.deed) empty

/-- All messages that were written, numbered from one. -/
def numbered (j : Journal) : List ((String × Message) × Nat) := j.written.flatten.zipIdx 1

def log (j : Journal) (topic : String) : List (Int × Message) :=
  (j.numbered.filter (·.1.1 = topic)).map fun p => (p.2, p.1.2)

end Journal

namespace Ledger

/-! ## What is stored, numbered through -/

/-- The ledger holds these messages and no others, numbered from one. -/
structure Numbers (l : Ledger) (written : List (String × Message)) : Prop where
  last : l.lastOffset = written.length
  messages : l.messages.map (fun p => ((p.1, p.2.message), p.2.offset)) =
    (written.zipIdx 1).map fun p => (p.1, (p.2 : Int))

variable {l l' : Ledger} {written : List (String × Message)}

theorem Numbers.of_same (h : l.Numbers written) (messages : l'.messages = l.messages)
    (last : l'.lastOffset = l.lastOffset) : l'.Numbers written :=
  ⟨last.trans h.last, by rw [messages]; exact h.messages⟩

theorem Numbers.appendOne (h : l.Numbers written) (now : Instant) (topic : String) (m : Message) :
    (l.appendOne now topic m).Numbers (written ++ [(topic, m)]) := by
  refine ⟨?_, ?_⟩
  · show l.lastOffset + 1 = _
    rw [h.last, List.length_append]
    rfl
  · show (l.messages ++ [_]).map _ = _
    rw [List.map_append, h.messages, List.zipIdx_append, List.map_append, h.last]
    simp [Int.add_comm]

theorem Numbers.append (h : l.Numbers written) (now : Instant) (topic : String) (messages : List Message) :
    (l.append now topic messages).Numbers (written ++ messages.map (topic, ·)) := by
  unfold Ledger.append
  induction messages generalizing l written with
  | nil => simpa using h
  | cons m rest ih => simpa using ih (h.appendOne now topic m)

/-- What a transaction writes, message by message. -/
def spread (staged : List (String × List Message)) : List (String × Message) :=
  staged.flatMap fun w => w.2.map (w.1, ·)

theorem Numbers.commit (h : l.Numbers written) {now : Instant} {staged : List (String × List Message)}
    (done : l.commit now staged = .ok l') : l'.Numbers (written ++ spread staged) := by
  have hall : (staged.foldl (fun l w => l.append now w.1 w.2) l).Numbers (written ++ spread staged) := by
    clear done
    induction staged generalizing l written with
    | nil => simpa [spread] using h
    | cons w rest ih => simpa [spread] using ih (h.append now w.1 w.2)
  unfold Ledger.commit at done
  split at done
  · cases done
  · exact Except.ok.inj done ▸ hall

end Ledger

open Ledger (spread)

namespace Desk

variable {d : Desk} {j : Journal} {now : Instant} {token : Uuid}

theorem deal_some {c : Dealing} {action : Store.Action} (asks : d.action? c.deed = some action) :
    d.deal c =
      (settle { d with store := (d.store.call ⟨c.now, c.token, action⟩).1 }
        (d.store.call ⟨c.now, c.token, action⟩).2.1.isOk c.deed,
        .outcome (d.store.call ⟨c.now, c.token, action⟩).2) := by
  unfold deal
  rw [asks]

@[simp]
theorem store_settle (d : Desk) (taken : Bool) (deed : Deed) : (d.settle taken deed).store = d.store := by
  cases deed with
  | stage name topic messages => cases taken <;> rfl
  | _ => rfl

/-- The store of a desk and its transactions hold what a journal says. -/
structure Keeps (d : Desk) (j : Journal) : Prop where
  closed : d.store.closed = j.closed
  waiting : ∀ name, j.waiting name = (d.staged name).map spread
  numbered : ∃ l, d.store.Refines l ∧ l.Numbers j.written.flatten

theorem keeps_start : start.Keeps .empty :=
  ⟨rfl, fun _ => rfl, .empty, InMemory.refines_empty, ⟨rfl, rfl⟩⟩

theorem Keeps.put (h : d.Keeps j) (name : String) {staged : Option (List (String × List Message))}
    {waiting : Option (List (String × Message))} (same : waiting = staged.map spread) :
    (d.put name staged).Keeps (j.put name waiting) := by
  refine ⟨h.closed, fun other => ?_, h.numbered⟩
  unfold Desk.put Journal.put
  simp only
  split
  · exact same
  · exact h.waiting other

theorem call_of_closed {s : InMemory} (closed : s.closed = true) {action : Store.Action}
    (hclose : action ≠ .request .close) : s.call ⟨now, token, action⟩ = (s, .error .closed, []) := by
  cases action with
  | commit staged =>
    unfold InMemory.call InMemory.commit
    simp only [closed, if_true]
  | request request => exact InMemory.perform_of_closed closed (fun heq => hclose (congrArg _ heq)) now token

theorem call_of_open {s : InMemory} (opened : s.closed = false) :
    (∀ topic messages, s.call ⟨now, token, .request (.enqueue topic messages)⟩ =
        (s.append now topic messages, .ok .done, [])) ∧
      (∀ topic messages, s.call ⟨now, token, .request (.stage topic messages)⟩ = (s, .ok .done, [])) ∧
      ∀ staged, s.call ⟨now, token, .commit staged⟩ =
        (staged.foldl (fun s w => s.append now w.1 w.2) s, .ok .done, []) := by
  refine ⟨fun topic messages => ?_, fun topic messages => ?_, fun staged => ?_⟩
  · unfold InMemory.call InMemory.perform
    simp [opened]
  · unfold InMemory.call InMemory.perform
    simp [opened]
  · unfold InMemory.call InMemory.commit
    simp [opened]

theorem Keeps.ask (h : d.Keeps j) {request : Store.Request} (hclose : request ≠ .close)
    (reads : request.operation ≠ .enqueue) :
    Keeps { d with store := (d.store.call ⟨now, token, .request request⟩).1 } j := by
  obtain ⟨l, hrefines, hnumbers⟩ := h.numbered
  obtain ⟨hafter, -⟩ := hrefines.perform now token request
  have hkept := l.written_perform now token reads
  refine ⟨?_, h.waiting, _, hafter, hnumbers.of_same hkept.1 hkept.2⟩
  show (d.store.perform now token request).1.closed = _
  rw [hafter.closed, ← h.closed, hrefines.closed]
  cases hclosed : l.closed with
  | true => exact Ledger.closed_perform hclosed request
  | false => exact Ledger.opened_perform hclosed hclose

/-- What is written takes effect as a whole, or not at all. -/
theorem Keeps.write (h : d.Keeps j) (now : Instant) (token : Uuid) {action : Store.Action}
    {staged : List (String × List Message)}
    (writes : action = .commit staged ∨
      ∃ topic messages, action = .request (.enqueue topic messages) ∧ staged = [(topic, messages)]) :
    Keeps { d with store := (d.store.call ⟨now, token, action⟩).1 } (j.write (spread staged)) := by
  unfold Journal.write
  cases hclosed : d.store.closed with
  | true =>
    have hclose : action ≠ .request .close := by
      rcases writes with rfl | ⟨topic, messages, rfl, -⟩ <;> simp
    rw [call_of_closed hclosed hclose, if_pos (h.closed ▸ hclosed)]
    exact h
  | false =>
    obtain ⟨l, hrefines, hnumbers⟩ := h.numbered
    have hdone : (d.store.call ⟨now, token, action⟩).1 =
        staged.foldl (fun s w => s.append now w.1 w.2) d.store := by
      obtain ⟨henqueue, -, hcommit⟩ := @call_of_open now token _ hclosed
      rcases writes with rfl | ⟨topic, messages, rfl, rfl⟩
      · rw [hcommit]
      · rw [henqueue]
        rfl
    rw [hdone, if_neg (by simp [← h.closed, hclosed])]
    rcases hrefines.commit now staged with ⟨s', l', hs, hl, hafter⟩ | ⟨hs, -⟩
    · have hs' : staged.foldl (fun s w => s.append now w.1 w.2) d.store = s' := by
        simpa [InMemory.commit, hclosed] using hs
      have hopen : l'.closed = false := by
        rw [(l.extends_commit hl).2.2, ← hrefines.closed, hclosed]
      rw [hs']
      refine ⟨?_, h.waiting, l', hafter, ?_⟩
      · show s'.closed = j.closed
        rw [hafter.closed, hopen, ← h.closed, hclosed]
      · show l'.Numbers (j.written ++ [spread staged]).flatten
        rw [List.flatten_append, List.flatten_singleton]
        exact hnumbers.commit hl
    · simp [InMemory.commit, hclosed] at hs

theorem Journal.note_of_reads {request : Store.Request} (hclose : request ≠ .close)
    (reads : request.operation ≠ .enqueue) : j.note (.ask request) = j := by
  cases request with
  | close => exact absurd rfl hclose
  | enqueue topic messages => exact absurd rfl reads
  | _ => rfl

theorem keeps_deal (h : d.Keeps j) (c : Dealing) : (d.deal c).1.Keeps (j.note c.deed) := by
  obtain ⟨now, token, deed⟩ := c
  cases deed with
  | ask request =>
    show Keeps { d with store := (d.store.call ⟨now, token, .request request⟩).1 } _
    cases hrequest : request with
    | close =>
      obtain ⟨l, hrefines, hnumbers⟩ := h.numbered
      exact ⟨rfl, h.waiting, _, hrefines.close, hnumbers.of_same rfl rfl⟩
    | enqueue topic messages =>
      have hwrite := h.write now token (.inr ⟨topic, messages, rfl, rfl⟩)
      rw [spread, List.flatMap_singleton] at hwrite
      exact hwrite
    | _ =>
      rw [← hrequest, Journal.note_of_reads (by simp [hrequest]) (by simp [hrequest, Store.Request.operation])]
      exact h.ask (by simp [hrequest]) (by simp [hrequest, Store.Request.operation])
  | count topic => exact h
  | begin name => exact h.put name rfl
  | stage name topic messages =>
    cases hclosed : d.store.closed with
    | true =>
      have hnote : j.note (.stage name topic messages) = j := if_pos (h.closed ▸ hclosed)
      rw [hnote, deal_some rfl, call_of_closed hclosed (by simp)]
      exact h
    | false =>
      have hnote : j.note (.stage name topic messages) = j.put name _ := if_neg (by simp [← h.closed, hclosed])
      rw [hnote, deal_some rfl, (call_of_open hclosed).2.1]
      refine h.put name ?_
      rw [h.waiting]
      cases d.staged name <;> simp [spread]
  | commit name =>
    have hwrite := h.write now token (.inl (Eq.refl (Store.Action.commit ((d.staged name).getD []))))
    have hwaiting : (j.waiting name).getD [] = spread ((d.staged name).getD []) := by
      rw [h.waiting]
      cases d.staged name <;> rfl
    unfold Journal.note
    simp only
    rw [hwaiting]
    exact hwrite.put name rfl
  | discard name => exact h.put name rfl

theorem Keeps.after (h : d.Keeps j) (cs : List Dealing) :
    (d.after cs).Keeps (cs.foldl (fun j c => j.note c.deed) j) := by
  induction cs generalizing d j with
  | nil => exact h
  | cons c rest ih => exact ih (keeps_deal h c)

theorem keeps_run (cs : List Dealing) : (start.after cs).Keeps (.of cs) := keeps_start.after cs

/-! ## Logs -/

theorem Keeps.log (h : d.Keeps j) (topic : String) :
    (d.store.log topic).toList.map (fun m => (m.offset, m.message)) = j.log topic := by
  obtain ⟨l, hrefines, hnumbers⟩ := h.numbered
  have hmessages := congrArg (fun ps => (ps.filter (·.1.1 = topic)).map fun p => (p.2, p.1.2)) hnumbers.messages
  simp only [List.filter_map, List.map_map] at hmessages
  rw [hrefines.log, Ledger.log, List.map_map]
  exact hmessages

/-- The messages of one write are numbered one after the other, over all their topics. -/
theorem Keeps.consecutive (h : d.Keeps j) {earlier later : List (List (String × Message))}
    {write : List (String × Message)} (split : j.written = earlier ++ write :: later) {k : Nat} {topic : String}
    {m : Message} (hk : write[k]? = some (topic, m)) :
    ∃ stored ∈ d.store.log topic, stored.message = m ∧ stored.offset = (earlier.flatten.length + k + 1 : Nat) := by
  have hwritten : j.written.flatten[earlier.flatten.length + k]? = some (topic, m) := by
    rw [split, List.flatten_append, List.flatten_cons, List.getElem?_append_right (by omega),
      Nat.add_sub_cancel_left]
    obtain ⟨hlt, -⟩ := List.getElem?_eq_some_iff.1 hk
    rw [List.getElem?_append_left hlt, hk]
  have hnumbered : ((topic, m), earlier.flatten.length + k + 1) ∈ j.numbered := by
    unfold Journal.numbered
    rw [Nat.add_comm _ 1, List.mk_add_mem_zipIdx_iff_getElem?]
    exact hwritten
  have hlog : (((earlier.flatten.length + k + 1 : Nat) : Int), m) ∈ j.log topic :=
    List.mem_map.2 ⟨_, List.mem_filter.2 ⟨hnumbered, by simp⟩, rfl⟩
  rw [← h.log, List.mem_map] at hlog
  obtain ⟨stored, hmem, heq⟩ := hlog
  obtain ⟨hoffset, hmessage⟩ := Prod.mk.inj heq
  exact ⟨stored, Array.mem_toList_iff.1 hmem, hmessage, hoffset⟩

/-! ## What clients are told -/

theorem asks_of_isWrite {deed : Deed} (write : deed.isWrite) :
    ∃ action, d.action? deed = some action ∧ action ≠ .request .close ∧
      (d.store.closed = false → ∀ now token, (d.store.call ⟨now, token, action⟩).2 = (.ok .done, [])) := by
  cases deed with
  | ask request =>
    cases request with
    | enqueue topic messages =>
      exact ⟨_, rfl, by simp, fun hopen now token => congrArg Prod.snd ((call_of_open hopen).1 topic messages)⟩
    | _ => cases write
  | stage name topic messages =>
    exact ⟨_, rfl, by simp, fun hopen now token => congrArg Prod.snd ((call_of_open hopen).2.1 topic messages)⟩
  | commit name =>
    exact ⟨_, rfl, by simp, fun hopen now token => congrArg Prod.snd ((call_of_open hopen).2.2 _)⟩
  | _ => cases write

/-- Writes are taken as long as the store has not been closed. -/
theorem Keeps.response (h : d.Keeps j) {c : Dealing} (write : c.deed.isWrite) :
    (d.deal c).2 = .outcome (if j.closed then .error .closed else .ok .done, []) := by
  obtain ⟨action, hasks, hclose, hopen⟩ := asks_of_isWrite (d := d) write
  rw [deal_some hasks, ← h.closed]
  cases hclosed : d.store.closed with
  | true => rw [call_of_closed hclosed hclose]; rfl
  | false => rw [hopen hclosed]; rfl

theorem isOk_of_open {s : InMemory} (opened : s.closed = false) (action : Store.Action) :
    (s.call ⟨now, token, action⟩).2.1.isOk := by
  cases action with
  | commit staged => rw [(call_of_open opened).2.2]; rfl
  | request request =>
    unfold InMemory.call InMemory.perform
    cases request with
    | close => rfl
    | _ => simp only [opened]; rfl

theorem call_of_refused {s : InMemory} {action : Store.Action}
    (refused : (s.call ⟨now, token, action⟩).2.1.isOk = false) : (s.call ⟨now, token, action⟩).1 = s := by
  cases hclosed : s.closed with
  | false => rw [isOk_of_open hclosed] at refused; cases refused
  | true =>
    have hclose : action ≠ .request .close := by
      rintro rfl
      cases refused
    rw [call_of_closed hclosed hclose]

/-- What is refused leaves the store as it was, and so does all that a transaction does before it is committed. -/
theorem store_deal {c : Dealing}
    (idle : (d.deal c).2.isRefused ∨ c.deed.transaction?.isSome ∧ ∀ name, c.deed ≠ .commit name) :
    (d.deal c).1.store = d.store := by
  cases hasks : d.action? c.deed with
  | none =>
    unfold deal
    rw [hasks]
    exact store_settle d true c.deed
  | some action =>
    rw [deal_some hasks] at idle ⊢
    rw [store_settle]
    rcases idle with hrefused | ⟨hpending, huncommitted⟩
    · refine call_of_refused ?_
      unfold Response.isRefused at hrefused
      generalize d.store.call ⟨c.now, c.token, action⟩ = called at hrefused
      obtain ⟨s, reply, notices⟩ := called
      cases reply with
      | error e => rfl
      | ok a => cases hrefused
    · obtain ⟨now, token, deed⟩ := c
      cases deed with
      | stage name topic messages =>
        obtain rfl := Option.some.inj hasks
        cases hclosed : d.store.closed with
        | true => rw [call_of_closed hclosed (by simp)]
        | false => rw [(call_of_open hclosed).2.1]
      | commit name => exact absurd rfl (huncommitted name)
      | ask request => cases hpending
      | _ => cases hasks

/-! ## Transactions that are not committed -/

/-- Two desks with one store that agree on all transactions but one. -/
structure Agree (name : String) (d d' : Desk) : Prop where
  store : d.store = d'.store
  staged : ∀ other, other ≠ name → d.staged other = d'.staged other

variable {name : String} {d' : Desk}

theorem Agree.put (h : Agree name d d') (other : String) {staged staged' : Option (List (String × List Message))}
    (same : other ≠ name → staged = staged') : Agree name (d.put other staged) (d'.put other staged') := by
  refine ⟨h.store, fun another hanother => ?_⟩
  unfold Desk.put
  simp only
  split
  · rename_i heq
    exact same (heq ▸ hanother)
  · exact h.staged another hanother

theorem Agree.action? (h : Agree name d d') {deed : Deed} (other : deed.transaction? ≠ some name) :
    d.action? deed = d'.action? deed := by
  cases deed with
  | commit tx =>
    have htx : d.staged tx = d'.staged tx := h.staged tx fun heq => other (congrArg some heq)
    unfold Desk.action?
    simp only [htx]
  | _ => rfl

theorem Agree.settle (h : Agree name d d') (taken : Bool) {deed : Deed} (other : deed.transaction? ≠ some name) :
    Agree name (d.settle taken deed) (d'.settle taken deed) := by
  cases deed with
  | ask request => exact h
  | count topic => exact h
  | begin tx => exact h.put tx fun _ => rfl
  | stage tx topic messages =>
    have htx : d.staged tx = d'.staged tx := h.staged tx fun heq => other (congrArg some heq)
    unfold Desk.settle
    cases taken with
    | true => exact h.put tx fun _ => by rw [htx]
    | false => exact h
  | commit tx | discard tx => exact h.put tx fun _ => rfl

theorem agree_settle (taken : Bool) {deed : Deed} (own : deed.transaction? = some name) :
    Agree name (d.settle taken deed) d := by
  have hput : ∀ staged, Agree name (d.put name staged) d :=
    fun staged => ⟨rfl, fun other hother => if_neg hother⟩
  cases deed with
  | ask request => cases own
  | count topic => cases own
  | begin tx | commit tx | discard tx =>
    obtain rfl := Option.some.inj own
    exact hput _
  | stage tx topic messages =>
    obtain rfl := Option.some.inj own
    unfold Desk.settle
    cases taken with
    | true => exact hput _
    | false => exact ⟨rfl, fun _ _ => rfl⟩

theorem Agree.trans {d'' : Desk} (h : Agree name d d') (h' : Agree name d' d'') : Agree name d d'' :=
  ⟨h.store.trans h'.store, fun other hother => (h.staged other hother).trans (h'.staged other hother)⟩

/-- The others are told the same, whatever the transaction holds. -/
theorem Agree.deal (h : Agree name d d') {c : Dealing} (other : c.deed.transaction? ≠ some name) :
    Agree name (d.deal c).1 (d'.deal c).1 ∧ (d.deal c).2 = (d'.deal c).2 := by
  have hasks := h.action? other
  unfold Desk.deal
  rw [← hasks]
  cases d.action? c.deed with
  | some action =>
    have hstore : Agree name { d with store := (d.store.call ⟨c.now, c.token, action⟩).1 }
        { d' with store := (d.store.call ⟨c.now, c.token, action⟩).1 } := ⟨rfl, h.staged⟩
    simp only [← h.store]
    exact ⟨hstore.settle _ other, trivial⟩
  | none =>
    refine ⟨h.settle true other, ?_⟩
    show d.tell c.deed = d'.tell c.deed
    unfold tell
    rw [h.store]

/-- Before its commit a transaction changes nothing that others see, and a commit that fails changes nothing either. -/
theorem agree_deal {c : Dealing} (own : c.deed.transaction? = some name)
    (idle : c.deed = .commit name → (d.deal c).2.isRefused) : Agree name (d.deal c).1 d := by
  have hstore : (d.deal c).1.store = d.store := by
    refine store_deal ?_
    by_cases hcommit : c.deed = .commit name
    · exact .inl (idle hcommit)
    · refine .inr ⟨by rw [own]; rfl, fun other hother => hcommit ?_⟩
      rw [hother] at own ⊢
      exact congrArg Deed.commit (Option.some.inj own)
  refine ⟨hstore, fun other hother => ?_⟩
  cases hasks : d.action? c.deed with
  | some action =>
    rw [deal_some hasks]
    exact (agree_settle _ own).staged other hother
  | none =>
    unfold Desk.deal
    rw [hasks]
    exact (agree_settle true own).staged other hother

/-- **What is not committed has never been there**, for the store and for everybody else. -/
theorem Agree.record_filter (h : Agree name d d') {cs : List Dealing}
    (uncommitted : ∀ e ∈ d.record cs, e.1.deed = .commit name → e.2.isRefused) :
    (d.after cs).store = (d'.after (cs.filter (·.deed.transaction? ≠ some name))).store ∧
      (d.record cs).filter (·.1.deed.transaction? ≠ some name) =
        d'.record (cs.filter (·.deed.transaction? ≠ some name)) := by
  induction cs generalizing d d' with
  | nil => exact ⟨h.store, rfl⟩
  | cons c rest ih =>
    have hrest : ∀ e ∈ (d.deal c).1.record rest, e.1.deed = .commit name → e.2.isRefused :=
      fun e he => uncommitted e (List.mem_cons_of_mem _ he)
    by_cases hown : c.deed.transaction? = some name
    · have hagree := agree_deal hown (uncommitted (c, (d.deal c).2) List.mem_cons_self)
      obtain ⟨hstore, hrecord⟩ := ih (hagree.trans h) hrest
      rw [List.filter_cons_of_neg (by simpa using hown)]
      refine ⟨hstore, ?_⟩
      rw [record, List.filter_cons_of_neg (by simpa using hown), hrecord]
    · obtain ⟨hagree, hsame⟩ := h.deal hown
      obtain ⟨hstore, hrecord⟩ := ih hagree hrest
      rw [List.filter_cons_of_pos (by simpa using hown)]
      refine ⟨hstore, ?_⟩
      rw [record, record, List.filter_cons_of_pos (by simpa using hown), hrecord, hsame]

end Desk

/-- **Transactions are atomic and isolated.** Each log holds the messages of the writes that took effect, in their order
and numbered through over all topics, so that one commit gets offsets without gaps. Writes are taken until the store is
closed. What is refused, and what a transaction does before its commit, leaves the store as it was; and as long as no
commit of it succeeds, everybody else is told what they would be told without it. -/
theorem transactions_atomic (cs : List Dealing) :
    let d := Desk.start.after cs
    let j := Journal.of cs
    (∀ topic, (d.store.log topic).toList.map (fun m => (m.offset, m.message)) = j.log topic) ∧
      (∀ earlier write later, j.written = earlier ++ write :: later → ∀ k topic m, write[k]? = some (topic, m) →
        ∃ stored ∈ d.store.log topic, stored.message = m ∧ stored.offset = (earlier.flatten.length + k + 1 : Nat)) ∧
      (∀ c : Dealing, c.deed.isWrite → (d.deal c).2 = .outcome (if j.closed then .error .closed else .ok .done, [])) ∧
      (∀ c : Dealing, (d.deal c).2.isRefused ∨ (c.deed.transaction?.isSome ∧ ∀ name, c.deed ≠ .commit name) →
        (d.deal c).1.store = d.store) ∧
      ∀ name rest, (∀ e ∈ d.record rest, e.1.deed = .commit name → e.2.isRefused) →
        (d.after rest).store = (d.after (rest.filter (·.deed.transaction? ≠ some name))).store ∧
          (d.record rest).filter (·.1.deed.transaction? ≠ some name) =
            d.record (rest.filter (·.deed.transaction? ≠ some name)) := by
  intro d j
  have hkeeps : d.Keeps j := Desk.keeps_run cs
  refine ⟨hkeeps.log, fun earlier write later split k topic m hk => hkeeps.consecutive split hk,
    fun c => hkeeps.response, fun c => Desk.store_deal, fun name rest => ?_⟩
  exact Desk.Agree.record_filter ⟨rfl, fun _ _ => rfl⟩

/-- Two transactions and a direct write that overlap, and a reader. The first transaction is committed, the second one
is too late. -/
def overlapping : List Dealing :=
  [⟨0, .ofNat 0, .begin "first"⟩, ⟨0, .ofNat 0, .begin "second"⟩,
    ⟨1, .ofNat 0, .stage "first" "orders" [.new (.ofNat 7) [], .new (.ofNat 8) []]⟩,
    ⟨1, .ofNat 0, .stage "second" "orders" [.new (.ofNat 9) []]⟩,
    ⟨2, .ofNat 0, .ask (.enqueue "orders" [.new (.ofNat 6) []])⟩,
    ⟨2, .ofNat 0, .stage "first" "refunds" [.new (.ofNat 5) []]⟩,
    ⟨3, .ofNat 1, .ask (.claim ⟨"orders", "workers", 0, 9, .ofSecs 30⟩)⟩,
    ⟨4, .ofNat 0, .commit "first"⟩, ⟨5, .ofNat 0, .count "orders"⟩, ⟨6, .ofNat 0, .ask .close⟩,
    ⟨7, .ofNat 0, .commit "second"⟩]

/-- The commit writes the second to the fourth message, over both topics, and nobody learns of the other transaction. -/
theorem transactions_atomic_overlapping :
    ((Desk.start.after overlapping).store.log "orders").toList.map (fun m => (m.offset, m.message)) =
        [(1, .new (.ofNat 6) []), (2, .new (.ofNat 7) []), (3, .new (.ofNat 8) [])] ∧
      (∃ stored ∈ (Desk.start.after overlapping).store.log "refunds",
        stored.message = .new (.ofNat 5) [] ∧ stored.offset = 4) ∧
      (∀ e ∈ Desk.start.record overlapping, e.1.deed = .commit "second" → e.2.isRefused) ∧
      (Desk.start.record overlapping).filter (·.1.deed.transaction? ≠ some "second") =
        Desk.start.record (overlapping.filter (·.deed.transaction? ≠ some "second")) ∧
      ((Desk.start.after overlapping).deal ⟨8, .ofNat 0, .begin "third"⟩).1.store =
        (Desk.start.after overlapping).store ∧
      ((Desk.start.after overlapping).deal ⟨8, .ofNat 0, .commit "third"⟩).2 = .outcome (.error .closed, []) := by
  have hwritten : (Journal.of overlapping).written =
      [[("orders", .new (.ofNat 6) [])]] ++ [("orders", .new (.ofNat 7) []), ("orders", .new (.ofNat 8) []),
        ("refunds", .new (.ofNat 5) [])] :: [] := by rfl
  have hrefused : ∀ e ∈ Desk.start.record overlapping, e.1.deed = .commit "second" → e.2.isRefused := by
    decide +kernel
  obtain ⟨hlogs, hconsecutive, hresponses, hidle, -⟩ := transactions_atomic overlapping
  obtain ⟨-, -, -, -, hisolated⟩ := transactions_atomic []
  refine ⟨(hlogs "orders").trans (by rfl), hconsecutive _ _ _ hwritten 2 _ _ rfl, hrefused,
    (hisolated "second" overlapping hrefused).2, hidle _ (.inr ⟨rfl, by simp⟩), ?_⟩
  exact hresponses ⟨8, .ofNat 0, .commit "third"⟩ rfl

/-! ## Sessions -/

namespace Scenario

variable {α : Type}

theorem lookup?_cons_of_ne {e : String × α} {key : String} (h : e.1 ≠ key) (entries : List (String × α)) :
    lookup? (e :: entries) key = lookup? entries key :=
  congrArg (Option.map Prod.snd) (List.find?_cons_of_neg (by simpa using h))

theorem lookup?_without (entries : List (String × α)) (key other : String) :
    lookup? (without entries key) other = if other = key then none else lookup? entries other := by
  unfold lookup? without
  rw [List.find?_filter]
  split
  case isTrue heq =>
    have hnone : entries.find? (fun e => decide (e.1 != key) && (e.1 == other)) = none := by
      simp [List.find?_eq_none, heq]
    simpa using congrArg (Option.map Prod.snd) hnone
  case isFalse hne =>
    refine congrArg (Option.map Prod.snd) (congrArg (entries.find? ·) ?_)
    funext e
    by_cases h : e.1 = other
    · simp [h, hne]
    · simp [h]

theorem lookup?_map (entries : List (String × α)) (f : α → α) (name other : String) :
    lookup? (entries.map fun t => if t.1 == name then (name, f t.2) else t) other =
      if other = name then (lookup? entries name).map f else lookup? entries other := by
  induction entries with
  | nil => simp [lookup?]
  | cons t rest ih =>
    by_cases ho : t.1 = other
    · by_cases hn : t.1 = name
      · simp [lookup?, ← ho, hn]
      · simp [lookup?, ← ho, hn]
    · have hkey : (if t.1 == name then (name, f t.2) else t).1 ≠ other := by
        split
        case isTrue heq => exact fun h => ho ((beq_iff_eq.1 heq).trans h)
        case isFalse => exact ho
      rw [List.map_cons, lookup?_cons_of_ne hkey, ih, lookup?_cons_of_ne ho]
      split
      case isTrue heq => rw [lookup?_cons_of_ne (heq ▸ ho)]
      case isFalse => rfl

/-- The store of a session with its transactions. -/
def World.desk (w : World) : Desk := ⟨w.system.store, lookup? w.transactions⟩

variable (w : World) (name : String) (token : Uuid)

theorem desk_begin :
    (perform (.openTransaction name) w).2.desk = (w.desk.deal ⟨w.system.now, token, .begin name⟩).1 := by
  show Desk.mk w.system.store _ = w.desk.put name (some [])
  refine congrArg (Desk.mk w.system.store) ?_
  funext other
  show lookup? ((name, []) :: without w.transactions name) other = if other = name then some [] else _
  split
  case isTrue heq => simp [lookup?, heq]
  case isFalse hne =>
    rw [lookup?_cons_of_ne (fun heq => hne heq.symm), lookup?_without, if_neg hne]
    rfl

theorem desk_discard : (perform (.discard name) w).2.desk = (w.desk.deal ⟨w.system.now, token, .discard name⟩).1 := by
  show Desk.mk w.system.store _ = w.desk.put name none
  refine congrArg (Desk.mk w.system.store) ?_
  funext other
  exact lookup?_without w.transactions name other

theorem desk_commit : (perform (.commit name) w).2.desk = (w.desk.deal ⟨w.system.now, token, .commit name⟩).1 := by
  have hstore : ∀ staged, (w.system.commit staged).1.store =
      (w.system.store.call ⟨w.system.now, token, .commit staged⟩).1 := by
    intro staged
    unfold System.commit InMemory.call
    cases h : w.system.store.commit w.system.now staged <;> simp only [h]
  have hdesk : (commit name w).2.desk =
      ⟨(w.system.commit ((lookup? w.transactions name).getD [])).1.store, lookup? (without w.transactions name)⟩ := by
    show (StateT.run (commit name) w).2.desk = _
    unfold commit
    simp only [StateT.run_bind, StateT.run_get, StateT.run_modify, pure_bind]
    cases hresult : (w.system.commit ((lookup? w.transactions name).getD [])).2 <;> rfl
  show (commit name w).2.desk = _
  rw [hdesk, hstore]
  refine congrArg (Desk.mk _) ?_
  funext other
  exact lookup?_without w.transactions name other

theorem desk_stage (topic : String) (messages : List Message) :
    (stage name topic messages w).2.desk = w.desk.put name ((w.desk.staged name).map (· ++ [(topic, messages)])) := by
  refine congrArg (Desk.mk w.system.store) ?_
  funext other
  exact lookup?_map w.transactions (· ++ [(topic, messages)]) name other

end Scenario

end DurableBus
