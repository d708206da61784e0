import DurableBus.Proofs.Store.Refinement

/-!
# What is written

`Ledger.Gains` says which messages a ledger has written on a topic between two moments.

* `gains_append`, `gains_commit`, `gains_perform` : what an operation writes;
* `mem_log_call` : a call writes nothing else;
* `InMemory.writtenOn`, `Refines.log_writtenOn` : what a store has written on a topic between two moments.
-/

set_option autoImplicit false

namespace DurableBus

def Store.Request.writes (topic : String) : Store.Request → List Message
  | .enqueue target messages => if target = topic then messages else []
  | _ => []

def Store.Action.writes (topic : String) : Store.Action → List Message
  | .request r => r.writes topic
  | .commit staged => staged.flatMap fun w => if w.1 = topic then w.2 else []

namespace Ledger

/-- The ledger `l'` has on a topic what `l` has, and these messages behind it. -/
def Gains (l l' : Ledger) (topic : String) (messages : List Message) : Prop :=
  ∃ written : List Stored, l'.log topic = l.log topic ++ written ∧ written.map (·.message) = messages

variable {l l' l'' : Ledger} {topic : String} {messages messages' : List Message}

theorem Gains.nothing (same : l'.messages = l.messages) : Gains l l' topic [] := by
  refine ⟨[], ?_, rfl⟩
  unfold log
  rw [same, List.append_nil]

theorem Gains.trans (h : Gains l l' topic messages) (h' : Gains l' l'' topic messages') :
    Gains l l'' topic (messages ++ messages') := by
  obtain ⟨written, hlog, rfl⟩ := h
  obtain ⟨written', hlog', rfl⟩ := h'
  exact ⟨written ++ written', by rw [hlog', hlog, List.append_assoc], List.map_append⟩

variable (l topic)

theorem gains_appendOne (now : Instant) (target : String) (m : Message) :
    Gains l (l.appendOne now target m) topic (if target = topic then [m] else []) := by
  refine ⟨if target = topic then [⟨l.lastOffset + 1, m, now / 1000⟩] else [], ?_, ?_⟩
  · rw [log_appendOne]
    split
    · rfl
    · exact (List.append_nil _).symm
  · split <;> rfl

theorem gains_append (now : Instant) (target : String) (messages : List Message) :
    Gains l (l.append now target messages) topic (if target = topic then messages else []) := by
  unfold append
  induction messages generalizing l with
  | nil =>
    rw [ite_self]
    exact .nothing rfl
  | cons m rest ih =>
    have hboth := (l.gains_appendOne topic now target m).trans (ih (l.appendOne now target m))
    by_cases htarget : target = topic
    · rw [if_pos htarget, if_pos htarget] at hboth
      rw [if_pos htarget]
      exact hboth
    · rw [if_neg htarget, if_neg htarget] at hboth
      rw [if_neg htarget]
      exact hboth

theorem gains_commit {now : Instant} {staged : List (String × List Message)} (done : l.commit now staged = .ok l') :
    Gains l l' topic (staged.flatMap fun w => if w.1 = topic then w.2 else []) := by
  have hall : ∀ l : Ledger, Gains l (staged.foldl (fun l w => l.append now w.1 w.2) l) topic
      (staged.flatMap fun w => if w.1 = topic then w.2 else []) := by
    clear done
    induction staged with
    | nil => exact fun l => .nothing rfl
    | cons w rest ih => exact fun l => (l.gains_append topic now w.1 w.2).trans (ih _)
  unfold commit at done
  split at done
  · cases done
  · exact Except.ok.inj done ▸ hall l

theorem gains_perform (now : Instant) (token : Uuid) (request : Store.Request) :
    Gains l (l.perform now token request).1 topic
      (if (l.perform now token request).2.1.isOk then request.writes topic else []) := by
  unfold perform
  split
  case isTrue hclose =>
    rw [hclose]
    exact .nothing rfl
  case isFalse =>
    split
    case isTrue => exact .nothing rfl
    case isFalse =>
      cases request with
      | enqueue target messages => exact l.gains_append topic now target messages
      | ack r =>
        refine .nothing ?_
        show (l.ack r).1.messages = _
        unfold ack
        split <;> rfl
      | nack r d =>
        refine .nothing ?_
        show (l.nack now r d).1.messages = _
        unfold nack
        split <;> rfl
      | renew r lease =>
        refine .nothing ?_
        show (l.renew now r lease).1.messages = _
        unfold renew
        split <;> rfl
      | _ => exact .nothing rfl

theorem mem_log_call {c : Store.Call} {m : Stored} (hm : m ∈ (l.call c).1.log topic) :
    m ∈ l.log topic ∨ m.message ∈ c.action.writes topic := by
  have hgains : ∀ {l' : Ledger} {messages : List Message}, Gains l l' topic messages → m ∈ l'.log topic →
      m ∈ l.log topic ∨ m.message ∈ messages := by
    rintro l' _ ⟨new, hlog, rfl⟩ hm
    rw [hlog, List.mem_append] at hm
    exact hm.imp_right fun hnew => List.mem_map_of_mem hnew
  obtain ⟨now, token, action⟩ := c
  cases action with
  | request request =>
    refine (hgains (l.gains_perform topic now token request) hm).imp_right fun hwritten => ?_
    split at hwritten
    · exact hwritten
    · cases hwritten
  | commit staged =>
    unfold call at hm
    cases hcommit : l.commit now staged with
    | ok l' =>
      simp only [hcommit] at hm
      exact hgains (l.gains_commit topic hcommit) hm
    | error e =>
      simp only [hcommit] at hm
      exact Or.inl hm

end Ledger

namespace InMemory

def writtenOn (topic : String) (before after : InMemory) : List Stored :=
  (after.log topic).toList.drop (before.log topic).size

variable {s s' : InMemory} {l l' : Ledger} {topic : String} {messages : List Message}

theorem Refines.log_writtenOn (h : s.Refines l) (h' : s'.Refines l') (gains : l.Gains l' topic messages) :
    l'.log topic = l.log topic ++ writtenOn topic s s' ∧ (writtenOn topic s s').map (·.message) = messages := by
  obtain ⟨written, hlog, hmessages⟩ := gains
  have hwritten : writtenOn topic s s' = written := by
    unfold writtenOn
    rw [h'.log, hlog, ← Array.length_toList, h.log, List.drop_left]
  rw [hwritten]
  exact ⟨hlog, hmessages⟩

end InMemory

end DurableBus
