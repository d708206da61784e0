import Mathlib.Data.List.Induction
import DurableBus.Proofs.Store.Entries
import DurableBus.Proofs.Store.Refinement

/-!
# What holds of every state of a store

`InMemory.Coherent` is what the maps of a store say about each other: logs ascend, every offset belongs to one message,
records name the topic of their message and lie above the watermark, and a watermark stands at a message and stops only
before one that is not acknowledged.

* `Ledger.Full.call`, `Marks.call` : every call keeps what the refinement of the ledger does not say already;
* `watermark_le_call` : only forgetting a group moves its watermark down;
* `acked_of_isFinal` : what is final has been acknowledged since the group was last forgotten;
* `runs_stay_coherent` : what follows for every run.
-/

set_option autoImplicit false

namespace DurableBus

open Store (Call)

namespace Ledger

/-! ## Offsets and counts -/

/-- Every offset up to the last belongs to a message, and an entry tells of one claim at least. -/
structure Full (l : Ledger) : Prop where
  filled : ∀ offset, 1 ≤ offset → offset ≤ l.lastOffset → ∃ topic, ∃ m ∈ l.log topic, m.offset = offset
  counted : ∀ offset group e, l.entries offset group = some e → 1 ≤ e.count

theorem full_empty : empty.Full where
  filled offset h h' := by
    have : (empty : Ledger).lastOffset = 0 := rfl
    omega
  counted _ _ _ h := by cases h

variable {l : Ledger}

theorem Full.appendOne (h : l.Full) (now : Instant) (topic : String) (m : Message) :
    (l.appendOne now topic m).Full where
  filled offset hlow hhigh := by
    have hlast : (l.appendOne now topic m).lastOffset = l.lastOffset + 1 := rfl
    by_cases hold : offset ≤ l.lastOffset
    · obtain ⟨t, m', hm', ho⟩ := h.filled offset hlow hold
      exact ⟨t, m', (l.extends_appendOne now topic m).mem_log hm', ho⟩
    · refine ⟨topic, ⟨l.lastOffset + 1, m, now / 1000⟩, ?_, ?_⟩
      · rw [log_appendOne, if_pos rfl]
        exact List.mem_append_right _ (List.mem_singleton_self _)
      · show l.lastOffset + 1 = offset
        omega
  counted := h.counted

theorem Full.append (h : l.Full) (now : Instant) (topic : String) (messages : List Message) :
    (l.append now topic messages).Full := by
  unfold Ledger.append
  induction messages generalizing l with
  | nil => exact h
  | cons m rest ih => exact ih (h.appendOne now topic m)

theorem Full.commit (h : l.Full) {now : Instant} {staged : List (String × List Message)} {l' : Ledger}
    (done : l.commit now staged = .ok l') : l'.Full := by
  have hall : (staged.foldl (fun l w => l.append now w.1 w.2) l).Full := by
    clear done
    induction staged generalizing l with
    | nil => exact h
    | cons w rest ih => exact ih (h.append now w.1 w.2)
  unfold Ledger.commit at done
  split at done
  · cases done
  · exact Except.ok.inj done ▸ hall

theorem written_perform (l : Ledger) (now : Instant) (token : Uuid) {request : Store.Request}
    (plain : request.operation ≠ .enqueue) :
    (l.perform now token request).1.messages = l.messages ∧
      (l.perform now token request).1.lastOffset = l.lastOffset := by
  unfold perform
  split
  · exact ⟨rfl, rfl⟩
  · split
    · exact ⟨rfl, rfl⟩
    · cases request with
      | enqueue topic messages => exact absurd rfl plain
      | ack r =>
        show (l.ack r).1.messages = _ ∧ (l.ack r).1.lastOffset = _
        unfold ack
        split <;> exact ⟨rfl, rfl⟩
      | nack r d =>
        show (l.nack now r d).1.messages = _ ∧ (l.nack now r d).1.lastOffset = _
        unfold nack
        split <;> exact ⟨rfl, rfl⟩
      | renew r lease =>
        show (l.renew now r lease).1.messages = _ ∧ (l.renew now r lease).1.lastOffset = _
        unfold renew
        split <;> exact ⟨rfl, rfl⟩
      | _ => exact ⟨rfl, rfl⟩

/-- Every change of an entry but a claim keeps its count, and a claim counts one more. -/
theorem Changes.counted {now : Instant} {token : Uuid} {offset : Int} {group : String} {request : Store.Request}
    {e' : Entry} (h : Changes l now token offset group request (some e')) (full : l.Full) : 1 ≤ e'.count := by
  generalize hsome : some e' = entry at h
  cases h with
  | kept => exact full.counted _ _ _ hsome.symm
  | claimed =>
    rw [Option.some.inj hsome]
    exact Nat.succ_le_succ (Nat.zero_le _)
  | acked held | nacked held | renewed held =>
    have := full.counted _ _ _ (current?_eq_some.1 held).1
    rw [Option.some.inj hsome]
    exact this
  | forgotten => cases hsome

theorem Full.perform (h : l.Full) (now : Instant) (token : Uuid) (request : Store.Request) :
    (l.perform now token request).1.Full where
  filled := by
    by_cases plain : request.operation ≠ .enqueue
    · obtain ⟨hmessages, hlast⟩ := l.written_perform now token plain
      unfold log
      rw [hmessages, hlast]
      exact h.filled
    · cases request with
      | enqueue topic messages =>
        unfold Ledger.perform
        rw [if_neg (by simp)]
        split
        · exact h.filled
        · exact (h.append now topic messages).filled
      | _ => exact absurd (by simp [Store.Request.operation]) plain
  counted offset group e he := by
    have hchanges := l.changes_perform now token offset group request
    rw [he] at hchanges
    exact hchanges.counted h

theorem Full.call (h : l.Full) (c : Call) : (l.call c).1.Full := by
  obtain ⟨now, token, action⟩ := c
  cases action with
  | request request => exact h.perform now token request
  | commit staged =>
    unfold Ledger.call
    cases hcommit : l.commit now staged with
    | ok l' =>
      simp only [hcommit]
      exact h.commit hcommit
    | error e =>
      simp only [hcommit]
      exact h

theorem isFinal_of_perform {now : Instant} {token : Uuid} {offset : Int} {group : String} {request : Store.Request}
    (plain : request.operation ≠ .ack) (final : (l.perform now token request).1.isFinal group offset) :
    l.isFinal group offset := by
  obtain ⟨e', he', hacked⟩ := isFinal_iff.1 final
  have hchanges := l.changes_perform now token offset group request
  rw [he'] at hchanges
  rcases hchanges.of_acked hacked with hbefore | ⟨r, e, rfl, -⟩
  · exact isFinal_iff.2 hbefore
  · exact absurd rfl plain

theorem Sound.mem_log_of_isFinal (h : l.Sound) {l' : Ledger} (ext : l.Extends l') {topic group : String} {m : Stored}
    (hm : m ∈ l'.log topic) (final : l.isFinal group m.offset) : m ∈ l.log topic := by
  obtain ⟨e, he, -⟩ := isFinal_iff.1 final
  obtain ⟨t, m', hm', ho⟩ := h.known _ _ _ he
  exact ext.mem_of_le hm (ho ▸ h.le_lastOffset hm')

end Ledger

namespace InMemory

/-! ## Watermarks -/

def next? (s : InMemory) (topic group : String) : Option Stored :=
  (s.log topic).toList.find? (s.watermark topic group < ·.offset)

/-- Every watermark stands at a message, or at the beginning, and stops before a message that is not acknowledged. -/
structure Marks (s : InMemory) (l : Ledger) : Prop where
  stands : ∀ topic group, s.watermark topic group = 0 ∨ ∃ m ∈ l.log topic, m.offset = s.watermark topic group
  stops : ∀ topic group m, (l.log topic).find? (s.watermark topic group < ·.offset) = some m →
    l.isFinal group m.offset = false

theorem marks_empty : Marks empty Ledger.empty where
  stands _ _ := Or.inl rfl
  stops _ _ _ h := by cases h

variable {s s' : InMemory} {l l' : Ledger}

/-- The watermarks stay, nothing is written and nothing becomes final. -/
theorem Marks.still (h : Marks s l) (watermark : ∀ t g, s'.watermark t g = s.watermark t g)
    (messages : l'.messages = l.messages) (final : ∀ offset group, l'.isFinal group offset → l.isFinal group offset) :
    Marks s' l' := by
  have hlog : ∀ t, l'.log t = l.log t := fun t => by
    unfold Ledger.log
    rw [messages]
  refine ⟨fun t g => ?_, fun t g m hm => ?_⟩
  · rw [watermark, hlog]
    exact h.stands t g
  · rw [watermark, hlog] at hm
    have := h.stops t g m hm
    rw [Bool.eq_false_iff] at this ⊢
    exact fun hfinal => this (final _ _ hfinal)

theorem Marks.appendOne (h : Marks s l) (sound : l.Sound) (now : Instant) (topic : String) (m : Message) :
    Marks (s.appendOne now topic m) (l.appendOne now topic m) := by
  have hmark : ∀ t g, (s.appendOne now topic m).watermark t g = s.watermark t g := fun _ _ => rfl
  refine ⟨fun t g => ?_, fun t g m' hm' => ?_⟩
  · rcases h.stands t g with hzero | ⟨m', hm', ho⟩
    · exact Or.inl hzero
    · exact Or.inr ⟨m', (l.extends_appendOne now topic m).mem_log hm', ho⟩
  · rw [hmark, Ledger.log_appendOne] at hm'
    show l.isFinal g m'.offset = false
    split at hm'
    case isTrue =>
      rw [List.find?_append, Option.or_eq_some_iff] at hm'
      rcases hm' with hold | ⟨-, hnew⟩
      · exact h.stops t g m' hold
      · -- the new message has no entry yet
        have hm := List.mem_of_find?_eq_some hnew
        rw [List.mem_singleton.1 hm, Bool.eq_false_iff]
        intro hfinal
        obtain ⟨e, he, -⟩ := Ledger.isFinal_iff.1 hfinal
        obtain ⟨t', m'', hm'', ho⟩ := sound.known _ _ _ he
        have := sound.le_lastOffset hm''
        simp only at ho
        omega
    case isFalse => exact h.stops t g m' hm'

theorem Marks.append (h : Marks s l) (sound : l.Sound) (now : Instant) (topic : String) (messages : List Message) :
    Marks (s.append now topic messages) (l.append now topic messages) := by
  unfold InMemory.append Ledger.append
  induction messages generalizing s l with
  | nil => exact h
  | cons m rest ih => exact ih (h.appendOne sound now topic m) (sound.appendOne now topic m)

theorem Marks.commit (h : Marks s l) (sound : l.Sound) {now : Instant} {staged : List (String × List Message)}
    (done : s.commit now staged = .ok s') (done' : l.commit now staged = .ok l') : Marks s' l' := by
  have hall : Marks (staged.foldl (fun s w => s.append now w.1 w.2) s)
      (staged.foldl (fun l w => l.append now w.1 w.2) l) := by
    clear done done'
    induction staged generalizing s l with
    | nil => exact h
    | cons w rest ih => exact ih (h.append sound now w.1 w.2) (sound.append now w.1 w.2)
  unfold InMemory.commit at done
  unfold Ledger.commit at done'
  split at done
  · cases done
  · split at done'
    · cases done'
    · exact Except.ok.inj done ▸ Except.ok.inj done' ▸ hall

/-- **An advanced watermark stops** before a message that is not acknowledged. -/
theorem Refines.stops_advance (h : s.Refines l) {topic group : String} {m : Stored}
    (next : (l.log topic).find? (s.markAfter topic group < ·.offset) = some m) : l.isFinal group m.offset = false := by
  have hasc := h.ascending topic
  obtain ⟨habove, front, back, hsplit, hfront⟩ := List.find?_eq_some_iff_append.1 next
  rw [decide_eq_true_eq] at habove
  have hm : m ∈ l.log topic := by
    rw [hsplit]
    exact List.mem_append_right _ List.mem_cons_self
  have hmark : s.watermark topic group < m.offset := Int.lt_of_le_of_lt (watermark_le_markAfter hasc) habove
  rw [Bool.eq_false_iff]
  intro hfinal
  -- all that lies below is in the run, so that the run goes on to this message
  have hacked : s.isAcked group m := by
    obtain ⟨e, he, hstate⟩ := Ledger.isFinal_iff.1 hfinal
    rw [isAcked, h.kept topic m group hm hmark, he, Option.map_some, Option.any_some]
    exact beq_iff_eq.2 hstate
  have hbelow : ∀ m' ∈ front.filter (s.watermark topic group < ·.offset), s.isAcked group m' := by
    intro m' hm'
    obtain ⟨hm', hpast⟩ := List.mem_filter.1 hm'
    rw [decide_eq_true_eq] at hpast
    have hlow := hfront m' hm'
    simp only [Bool.not_eq_true', decide_eq_false_iff_not] at hlow
    have hlog : m' ∈ (s.log topic).toList := by
      rw [h.log, hsplit]
      exact List.mem_append_left _ hm'
    exact (mem_ackedRun hasc (mem_ackedRun_of_le hasc hlog hpast (by omega))).2.2.1
  have hrun : m ∈ s.ackedRun topic group := by
    unfold ackedRun
    rw [logAfter_eq_filter hasc, h.log, hsplit, List.filter_append, List.filter_cons_of_pos (by simpa using hmark),
      List.takeWhile_append_of_pos hbelow, List.takeWhile_cons_of_pos hacked]
    exact List.mem_append_right _ List.mem_cons_self
  have := (mem_ackedRun hasc hrun).2.2.2
  omega

/-- Moving the watermark of a group on a topic, after some of its messages there have become final. -/
theorem Marks.advance (h : Marks s l) (refines : s'.Refines l') (topic group : String)
    (watermark : ∀ t g, s'.watermark t g = s.watermark t g) (messages : ∀ t, l'.log t = l.log t)
    (elsewhere : ∀ t g, ¬(topic = t ∧ group = g) → ∀ m ∈ l.log t,
      l'.isFinal g m.offset = l.isFinal g m.offset) :
    Marks (s'.advance topic group) l' := by
  refine ⟨fun t g => ?_, fun t g m hm => ?_⟩
  · rw [watermark_advance]
    split
    case isTrue same =>
      obtain ⟨rfl, rfl⟩ := same
      rcases markAfter_eq s' topic group with heq | ⟨m, hm, heq⟩
      · rw [heq, watermark, messages]
        exact h.stands topic group
      · have hlog := (mem_ackedRun (refines.ascending topic) hm).1
        rw [refines.log] at hlog
        exact Or.inr ⟨m, hlog, heq.symm⟩
    case isFalse =>
      rw [watermark, messages]
      exact h.stands t g
  · rw [watermark_advance] at hm
    split at hm
    case isTrue same =>
      obtain ⟨rfl, rfl⟩ := same
      exact refines.stops_advance hm
    case isFalse other =>
      rw [watermark, messages] at hm
      rw [elsewhere t g other m (List.mem_of_find?_eq_some hm)]
      exact h.stops t g m hm

theorem Marks.ack (h : Marks s l) (refines : s.Refines l) (r : Receipt) : Marks (s.ack r).1 (l.ack r).1 := by
  rcases refines.current? r with ⟨hl, hs⟩ | ⟨topic, m, e, hm, ho, habove, hl, hs⟩
  · unfold InMemory.ack Ledger.ack
    rw [hl, hs]
    exact h
  · have hmarks := h.advance (refines.put hm ho habove hl { e with state := .acked }) topic r.group
      (fun _ _ => rfl) (fun _ => rfl) fun t g other m' hm' => ?_
    · unfold InMemory.ack Ledger.ack
      rw [hl, hs]
      exact hmarks
    · -- the message that has been acknowledged is on one topic only
      unfold Ledger.isFinal
      rw [Ledger.entries_putEntry, if_neg]
      rintro ⟨hsame, rfl⟩
      exact other ⟨(refines.sound.unique hm hm' (ho.trans hsame.symm)).1, rfl⟩

theorem Marks.forgetGroup (h : Marks s l) (sound : l.Sound) (topic group : String) :
    Marks (s.forgetGroup topic group) (l.forgetGroup topic group) := by
  have hentries : ∀ offset g, (l.forgetGroup topic group).entries offset g =
      if g = group ∧ offset ∈ (l.log topic).map (·.offset) then none else l.entries offset g := fun _ _ => rfl
  refine ⟨fun t g => ?_, fun t g m hm => ?_⟩
  · rw [watermark_forgetGroup]
    split
    · exact Or.inl rfl
    · exact h.stands t g
  · rw [watermark_forgetGroup] at hm
    have hlog : m ∈ l.log t := List.mem_of_find?_eq_some hm
    unfold Ledger.isFinal
    rw [hentries]
    split at hm
    case isTrue same =>
      obtain ⟨rfl, rfl⟩ := same
      rw [if_pos ⟨rfl, List.mem_map_of_mem hlog⟩]
      rfl
    case isFalse other =>
      rw [if_neg]
      · exact h.stops t g m hm
      · rintro ⟨rfl, hmem⟩
        obtain ⟨m', hm', ho⟩ := List.mem_map.1 hmem
        exact other ⟨(sound.unique hlog hm' ho.symm).1, rfl⟩

theorem watermark_congr (same : s'.watermarks = s.watermarks) (t g : String) : s'.watermark t g = s.watermark t g := by
  unfold watermark
  rw [same]

theorem watermarks_append (s : InMemory) (now : Instant) (topic : String) (messages : List Message) :
    (s.append now topic messages).watermarks = s.watermarks := by
  unfold append
  induction messages generalizing s with
  | nil => rfl
  | cons m rest ih => exact ih (s.appendOne now topic m)

theorem watermarks_commit {now : Instant} {staged : List (String × List Message)} (done : s.commit now staged = .ok s') :
    s'.watermarks = s.watermarks := by
  have hall : ∀ s : InMemory, (staged.foldl (fun s w => s.append now w.1 w.2) s).watermarks = s.watermarks := by
    clear done
    induction staged with
    | nil => exact fun _ => rfl
    | cons w rest ih => exact fun s => (ih (s.append now w.1 w.2)).trans (s.watermarks_append now w.1 w.2)
  unfold commit at done
  split at done
  · cases done
  · rw [← Except.ok.inj done]
    exact hall s

theorem perform_of_closed (closed : s.closed = true) {request : Store.Request} (hclose : request ≠ .close)
    (now : Instant) (token : Uuid) : s.perform now token request = (s, .error .closed, []) := by
  unfold perform
  rw [closed]
  cases request <;> first | rfl | exact absurd rfl hclose

/-- Only acknowledging and forgetting move watermarks. -/
theorem watermarks_perform (s : InMemory) (now : Instant) (token : Uuid) {request : Store.Request}
    (ack : request.operation ≠ .ack) (forget : request.operation ≠ .forgetGroup) :
    (s.perform now token request).1.watermarks = s.watermarks := by
  unfold perform
  cases request with
  | close => rfl
  | ack => exact absurd rfl ack
  | forgetGroup => exact absurd rfl forget
  | enqueue topic messages =>
    simp only
    split
    · rfl
    · exact s.watermarks_append now topic messages
  | nack r d =>
    simp only
    split
    · rfl
    · show (s.nack now r d).1.watermarks = _
      unfold nack
      split <;> rfl
  | renew r lease =>
    simp only
    split
    · rfl
    · show (s.renew now r lease).1.watermarks = _
      unfold renew
      split <;> rfl
  | _ =>
    simp only
    split <;> rfl

theorem Marks.perform (h : Marks s l) (refines : s.Refines l) (now : Instant) (token : Uuid)
    (request : Store.Request) : Marks (s.perform now token request).1 (l.perform now token request).1 := by
  by_cases hclose : request = .close
  · subst hclose
    exact h.still (fun _ _ => rfl) rfl fun _ _ hfinal => hfinal
  · cases hclosed : l.closed with
    | true =>
      rw [perform_of_closed (refines.closed.trans hclosed) hclose, Ledger.perform_of_closed hclosed hclose]
      exact h
    | false =>
      have hopen := refines.closed.trans hclosed
      by_cases plain : request.operation ≠ .enqueue ∧ request.operation ≠ .ack ∧ request.operation ≠ .forgetGroup
      · obtain ⟨hwrite, hack, hforget⟩ := plain
        exact h.still (watermark_congr (s.watermarks_perform now token hack hforget))
          (l.written_perform now token hwrite).1 fun _ _ => Ledger.isFinal_of_perform hack
      · unfold InMemory.perform Ledger.perform
        rw [if_neg hclose]
        simp only [hclosed, hopen]
        cases request with
        | enqueue topic messages => exact h.append refines.sound now topic messages
        | ack r => exact h.ack refines r
        | forgetGroup topic group => exact h.forgetGroup refines.sound topic group
        | _ => exact absurd (by simp [Store.Request.operation]) plain

theorem Marks.call (h : Marks s l) (refines : s.Refines l) (c : Call) : Marks (s.call c).1 (l.call c).1 := by
  obtain ⟨now, token, action⟩ := c
  cases action with
  | request request => exact h.perform refines now token request
  | commit staged =>
    unfold InMemory.call Ledger.call
    rcases refines.commit now staged with ⟨s', l', hs, hl, -⟩ | ⟨hs, hl⟩
    · simp only [hs, hl]
      exact h.commit refines.sound hs hl
    · simp only [hs, hl]
      exact h

/-! ## Runs -/

/-- A store and a ledger to which the same has been done, with all that every call keeps. -/
theorem kept_run (calls : List Call) :
    (run calls).1.Refines (Ledger.run calls).1 ∧ (Ledger.run calls).1.Full ∧
      Marks (run calls).1 (Ledger.run calls).1 := by
  have hall : ∀ (s : InMemory) (l : Ledger), s.Refines l → l.Full → Marks s l →
      (Store.play call s calls).1.Refines (Store.play Ledger.call l calls).1 ∧
        (Store.play Ledger.call l calls).1.Full ∧
          Marks (Store.play call s calls).1 (Store.play Ledger.call l calls).1 := by
    induction calls with
    | nil => exact fun s l hrefines hfull hmarks => ⟨hrefines, hfull, hmarks⟩
    | cons c rest ih =>
      exact fun s l hrefines hfull hmarks => ih _ _ (hrefines.call c).1 (hfull.call c) (hmarks.call hrefines c)
  exact hall empty Ledger.empty refines_empty Ledger.full_empty marks_empty

theorem run_concat (calls : List Call) (c : Call) : (run (calls ++ [c])).1 = ((run calls).1.call c).1 := by
  unfold run
  rw [Store.play_append]
  rfl

/-- A call, with the state that it finds. -/
abbrev Visit := InMemory × Call

/-- Calls that are made from some state on, each with the state that it finds. -/
def trailFrom : InMemory → List Call → List Visit
  | _, [] => []
  | s, c :: rest => (s, c) :: trailFrom (s.call c).1 rest

/-- The calls of a run, each with the state that it finds. -/
def trail (calls : List Call) : List Visit := trailFrom empty calls

theorem trailFrom_concat (s : InMemory) (calls : List Call) (c : Call) :
    s.trailFrom (calls ++ [c]) = s.trailFrom calls ++ [((Store.play call s calls).1, c)] := by
  induction calls generalizing s with
  | nil => rfl
  | cons c' rest ih => exact congrArg ((s, c') :: ·) (ih (s.call c').1)

theorem trail_concat (calls : List Call) (c : Call) : trail (calls ++ [c]) = trail calls ++ [((run calls).1, c)] :=
  trailFrom_concat empty calls c

/-- Whether a call acknowledges a message for a group: with a receipt that is held. -/
def Visit.Acks (offset : Int) (group : String) (x : Visit) : Prop :=
  ∃ r, x.2.action = .request (.ack r) ∧ r.offset = offset ∧ r.group = group ∧ x.1.closed = false ∧
    (x.1.current? r).isSome

/-- Whether a call makes a group forget a topic. -/
def Visit.Forgets (topic group : String) (x : Visit) : Prop :=
  x.2.action = .request (.forgetGroup topic group) ∧ x.1.closed = false

/-- A watermark moves down only when the group forgets the topic. -/
theorem watermark_le_call (refines : s.Refines l) {c : Call} {topic group : String}
    (keeps : ¬ Visit.Forgets topic group (s, c)) : s.watermark topic group ≤ (s.call c).1.watermark topic group := by
  obtain ⟨now, token, action⟩ := c
  cases action with
  | commit staged =>
    unfold call
    cases hcommit : s.commit now staged with
    | ok s' =>
      simp only [hcommit]
      exact Int.le_of_eq (watermark_congr (watermarks_commit hcommit) topic group).symm
    | error e =>
      simp only [hcommit]
      exact Int.le_refl _
  | request request =>
    show s.watermark topic group ≤ (s.perform now token request).1.watermark topic group
    by_cases plain : request.operation ≠ .ack ∧ request.operation ≠ .forgetGroup
    · exact Int.le_of_eq (watermark_congr (s.watermarks_perform now token plain.1 plain.2) topic group).symm
    · cases hclosed : s.closed with
      | true =>
        by_cases hclose : request = .close
        · rw [hclose]
          exact Int.le_refl _
        · exact Int.le_of_eq (by rw [perform_of_closed hclosed hclose])
      | false =>
        unfold perform
        cases request with
        | ack r =>
          simp only [hclosed]
          show _ ≤ (s.ack r).1.watermark topic group
          unfold ack
          split
          case h_1 d hd =>
            simp only [watermark_advance]
            split
            case isTrue same =>
              obtain ⟨rfl, rfl⟩ := same
              have hasc : ((s.putRecord r { d with state := .acked }).log d.topic).toList.Pairwise (·.offset < ·.offset) :=
                refines.ascending d.topic
              exact watermark_le_markAfter hasc
            case isFalse => exact Int.le_refl _
          case h_2 => exact Int.le_refl _
        | forgetGroup t g =>
          simp only [hclosed]
          have other : ¬(topic = t ∧ group = g) := by
            rintro ⟨rfl, rfl⟩
            exact keeps ⟨rfl, hclosed⟩
          have hsame : (s.forgetGroup t g).watermark topic group = s.watermark topic group := by
            rw [watermark_forgetGroup, if_neg other]
          exact Int.le_of_eq hsame.symm
        | _ => exact absurd (by simp [Store.Request.operation]) plain

theorem watermark_le_play (refines : s.Refines l) {topic group : String} {calls : List Call}
    (keeps : ∀ x ∈ s.trailFrom calls, ¬ x.Forgets topic group) :
    s.watermark topic group ≤ (Store.play call s calls).1.watermark topic group := by
  induction calls generalizing s l with
  | nil => exact Int.le_refl _
  | cons c rest ih =>
    have hstep := watermark_le_call refines (keeps (s, c) List.mem_cons_self)
    exact Int.le_trans hstep (ih (refines.call c).1 fun x hx => keeps x (List.mem_cons_of_mem _ hx))

/-- What becomes final with a call was so before, or is acknowledged with it; and a group that forgets a topic has
nothing final there. -/
theorem isFinal_of_call (refines : s.Refines l) {c : Call} {topic group : String} {m : Stored}
    (hm : m ∈ (l.call c).1.log topic) (final : (l.call c).1.isFinal group m.offset) :
    m ∈ l.log topic ∧ l.isFinal group m.offset ∧ ¬ Visit.Forgets topic group (s, c) ∨
      Visit.Acks m.offset group (s, c) := by
  obtain ⟨now, token, action⟩ := c
  cases action with
  | commit staged =>
    unfold Ledger.call at hm final
    cases hcommit : l.commit now staged with
    | ok l' =>
      simp only [hcommit] at hm final
      obtain ⟨hext, hentries, -⟩ := l.extends_commit hcommit
      unfold Ledger.isFinal at final
      rw [hentries] at final
      exact Or.inl ⟨refines.sound.mem_log_of_isFinal hext hm final, final, fun hforgets => by cases hforgets.1⟩
    | error e =>
      simp only [hcommit] at hm final
      exact Or.inl ⟨hm, final, fun hforgets => by cases hforgets.1⟩
  | request request =>
    change m ∈ (l.perform now token request).1.log topic at hm
    change (l.perform now token request).1.isFinal group m.offset at final
    have hext := l.extends_perform now token request
    cases hclosed : s.closed with
    | true =>
      have hbefore : l.isFinal group m.offset := by
        by_cases hclose : request = .close
        · rw [hclose] at final
          exact final
        · rwa [Ledger.perform_of_closed (refines.closed.symm.trans hclosed) hclose] at final
      refine Or.inl ⟨refines.sound.mem_log_of_isFinal hext hm hbefore, hbefore, fun hforgets => ?_⟩
      rw [hforgets.2] at hclosed
      cases hclosed
    | false =>
      obtain ⟨e', he', hacked⟩ := Ledger.isFinal_iff.1 final
      have hchanges := l.changes_perform now token m.offset group request
      rw [he'] at hchanges
      rcases hchanges.of_acked hacked with hbefore | ⟨r, e, rfl, held, ho, hg⟩
      · have hfinal := Ledger.isFinal_iff.2 hbefore
        have hlog := refines.sound.mem_log_of_isFinal hext hm hfinal
        refine Or.inl ⟨hlog, hfinal, fun hforgets => ?_⟩
        have hrequest : request = .forgetGroup topic group := Store.Action.request.inj hforgets.1
        subst hrequest
        unfold Ledger.perform at he'
        rw [if_neg (by simp), ← refines.closed, hclosed] at he'
        change (if _ then _ else _) = some e' at he'
        rw [if_pos ⟨rfl, List.mem_map_of_mem hlog⟩] at he'
        cases he'
      · refine Or.inr ⟨r, rfl, ho.symm, hg.symm, hclosed, ?_⟩
        rcases refines.current? r with ⟨hnone, -⟩ | ⟨t, m', e₀, -, -, -, -, hs⟩
        · rw [hnone] at held
          cases held
        · show (s.current? r).isSome
          rw [hs]
          rfl

/-- **What is final has been acknowledged** since the group last forgot the topic. -/
theorem acked_of_isFinal (calls : List Call) {topic group : String} {m : Stored}
    (hm : m ∈ (Ledger.run calls).1.log topic) (final : (Ledger.run calls).1.isFinal group m.offset) :
    ∃ before x after, trail calls = before ++ x :: after ∧ x.Acks m.offset group ∧
      ∀ y ∈ after, ¬ y.Forgets topic group := by
  induction calls using List.reverseRecOn with
  | nil => cases hm
  | append_singleton calls c ih =>
    rw [Ledger.run_concat] at hm final
    rw [trail_concat]
    rcases isFinal_of_call (refines_run calls) hm final with ⟨hlog, hfinal, hkeeps⟩ | hacks
    · obtain ⟨before, x, after, htrail, hx, hafter⟩ := ih hlog hfinal
      refine ⟨before, x, after ++ [((run calls).1, c)], by rw [htrail]; simp, hx, fun y hy => ?_⟩
      rcases List.mem_append.1 hy with hy | hy
      · exact hafter y hy
      · rw [List.mem_singleton.1 hy]
        exact hkeeps
    · exact ⟨trail calls, ((run calls).1, c), [], rfl, hacks, fun y hy => by cases hy⟩

/-- **What the maps of a store say about each other.** -/
structure Coherent (s : InMemory) : Prop where
  ascending : ∀ topic, (s.log topic).toList.Pairwise (·.offset < ·.offset)
  /-- Offsets are counted from one over all topics. -/
  counted : ∀ offset, 1 ≤ offset ∧ offset ≤ s.lastOffset ↔ ∃ topic, ∃ m ∈ s.log topic, m.offset = offset
  unique : ∀ topic topic' m m', m ∈ s.log topic → m' ∈ s.log topic' → m.offset = m'.offset → topic = topic' ∧ m = m'
  recorded : ∀ offset group d, s.deliveries.get? (offset, group) = some d →
    (∃ m ∈ s.log d.topic, m.offset = offset) ∧ 1 ≤ d.count ∧ s.watermark d.topic group < offset
  marked : ∀ topic group, s.watermark topic group = 0 ∨ ∃ m ∈ s.log topic, m.offset = s.watermark topic group
  unacked : ∀ topic group m, s.next? topic group = some m → s.isAcked group m = false

theorem Refines.coherent (h : s.Refines l) (full : l.Full) (marks : Marks s l) : s.Coherent := by
  have hmem : ∀ topic m, m ∈ s.log topic ↔ m ∈ l.log topic := fun topic m => by
    rw [← h.log, Array.mem_toList_iff]
  refine ⟨h.ascending, fun offset => ⟨fun hrange => ?_, ?_⟩, ?_, fun offset group d hd => ?_, fun topic group => ?_,
    fun topic group m hm => ?_⟩
  · rw [h.lastOffset] at hrange
    obtain ⟨topic, m, hm, ho⟩ := full.filled offset hrange.1 hrange.2
    exact ⟨topic, m, (hmem topic m).2 hm, ho⟩
  · rintro ⟨topic, m, hm, rfl⟩
    have := h.sound.within topic m ((hmem topic m).1 hm)
    rw [h.lastOffset]
    omega
  · intro topic topic' m m' hm hm' same
    exact h.sound.unique ((hmem topic m).1 hm) ((hmem topic' m').1 hm') same
  · obtain ⟨topic, m, e, hm, ho, habove, he, rfl⟩ := h.of_record hd
    exact ⟨⟨m, (hmem topic m).2 hm, ho⟩, full.counted _ _ _ he, habove⟩
  · rcases marks.stands topic group with hzero | ⟨m, hm, ho⟩
    · exact Or.inl hzero
    · exact Or.inr ⟨m, (hmem topic m).2 hm, ho⟩
  · unfold next? at hm
    rw [h.log] at hm
    have habove := List.find?_some hm
    rw [decide_eq_true_eq] at habove
    have hstops := marks.stops topic group m hm
    unfold Ledger.isFinal at hstops
    rw [isAcked, h.kept topic m group (List.mem_of_find?_eq_some hm) habove, Option.any_map]
    exact hstops

/-- **Every run leaves a coherent store.** A watermark never moves down while the group does not forget the topic, and
every message at or below the watermark of a group has been acknowledged for it since it last forgot the topic. -/
theorem runs_stay_coherent (calls : List Call) :
    (run calls).1.Coherent ∧
      (∀ topic group later, (∀ x ∈ (run calls).1.trailFrom later, ¬ x.Forgets topic group) →
        (run calls).1.watermark topic group ≤ (run (calls ++ later)).1.watermark topic group) ∧
      ∀ topic group, ∀ m ∈ (run calls).1.log topic, m.offset ≤ (run calls).1.watermark topic group →
        ∃ before x after, trail calls = before ++ x :: after ∧ x.Acks m.offset group ∧
          ∀ y ∈ after, ¬ y.Forgets topic group := by
  obtain ⟨hrefines, hfull, hmarks⟩ := kept_run calls
  refine ⟨hrefines.coherent hfull hmarks, fun topic group later keeps => ?_, fun topic group m hm hbelow => ?_⟩
  · have := watermark_le_play hrefines keeps
    unfold run at this ⊢
    rw [Store.play_append]
    exact this
  · rw [← Array.mem_toList_iff, hrefines.log] at hm
    exact acked_of_isFinal calls hm (Ledger.isFinal_iff.2 (hrefines.dropped topic m group hm hbelow).2)

/-- A group on two topics, whose three messages it acknowledges from the last to the first. -/
def outOfOrder : List Call :=
  [⟨0, .ofNat 0, .request (.enqueue "items" [.new (.ofNat 7) []])⟩,
    ⟨0, .ofNat 0, .commit [("notes", [.new (.ofNat 8) []]), ("items", [.new (.ofNat 9) []])]⟩,
    ⟨0, .ofNat 1, .request (.claim ⟨"items", "workers", 0, 9, .ofSecs 30⟩)⟩,
    ⟨0, .ofNat 2, .request (.claim ⟨"notes", "workers", 0, 9, .ofSecs 30⟩)⟩,
    ⟨5, .ofNat 0, .request (.ack ⟨3, "workers", .ofNat 1⟩)⟩,
    ⟨6, .ofNat 0, .request (.ack ⟨2, "workers", .ofNat 2⟩)⟩,
    ⟨7, .ofNat 0, .request (.ack ⟨1, "workers", .ofNat 1⟩)⟩]

/-- The watermark waits for the first message, then moves past both; a stale acknowledgement does not move it back. -/
theorem runs_stay_coherent_outOfOrder :
    (run (outOfOrder.take 6)).1.watermark "items" "workers" = 0 ∧
      (run outOfOrder).1.watermark "items" "workers" = 3 ∧
      3 ≤ (run (outOfOrder ++ [⟨8, .ofNat 0, .request (.ack ⟨1, "workers", .ofNat 1⟩)⟩])).1.watermark "items"
        "workers" ∧
      ∃ before x after, trail outOfOrder = before ++ x :: after ∧ x.Acks 3 "workers" ∧
        ∀ y ∈ after, ¬ y.Forgets "items" "workers" := by
  have hearly : (run (outOfOrder.take 6)).1.watermark "items" "workers" = 0 := by with_unfolding_all rfl
  have hlate : (run outOfOrder).1.watermark "items" "workers" = 3 := by with_unfolding_all rfl
  have hstored : (⟨3, .new (.ofNat 9) [], 0⟩ : Stored) ∈ (run outOfOrder).1.log "items" := by
    rw [← Array.mem_toList_iff]
    exact List.mem_of_getElem? (i := 1) (by with_unfolding_all rfl)
  obtain ⟨-, hrises, hacked⟩ := runs_stay_coherent outOfOrder
  have hkeeps := hrises "items" "workers" [⟨8, .ofNat 0, .request (.ack ⟨1, "workers", .ofNat 1⟩)⟩] fun x hx => by
    rw [List.mem_singleton.1 hx]
    rintro ⟨hforgets, -⟩
    cases hforgets
  rw [hlate] at hkeeps
  exact ⟨hearly, hlate, hkeeps, hacked "items" "workers" _ hstored (Int.le_of_eq hlate.symm)⟩

end InMemory

end DurableBus
