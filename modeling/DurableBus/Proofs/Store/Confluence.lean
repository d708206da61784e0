import DurableBus.Proofs.Store.Coherence

/-!
# Acknowledgements in any order

The watermark of a group is moved after every acknowledgement. How far it gets in the end, and which records are dropped
on its way, does not depend on where it has stopped in between.

* `isLongestRun_ackedRun`, `sweep_eq` : the run that an advance passes, as a whole and message by message;
* `ackedRun_resume` : a run goes on where an earlier one has stopped, hence `advance_advance` (nothing is left to pass) and
  `advance_finalize_advance` (an advance adds nothing to a later one);
* `Clear.ack_ack`, `Clear.ackAll_perm` : acknowledgements may change places;
* `ackAll_matches_advance` : the advances after each of them come to one at the end;
* `advance_is_exact` : all of this, for a group on a topic.
-/

set_option autoImplicit false

namespace DurableBus

/-- What is looked at until a test fails depends on the test only where it is made. -/
theorem takeWhile_congr_of_mem {α : Type} {p q : α → Bool} {xs : List α} (same : ∀ x ∈ xs, p x = q x) :
    xs.takeWhile p = xs.takeWhile q := by
  induction xs with
  | nil => rfl
  | cons x rest ih =>
    rw [List.takeWhile_cons, List.takeWhile_cons, same x List.mem_cons_self,
      ih fun y hy => same y (List.mem_cons_of_mem x hy)]

namespace Table

variable {κ α : Type} [DecidableEq κ]

theorem putRow_of_find? {key : κ} {value : α} {rows : List (κ × α)}
    (h : (rows.find? (·.1 = key)).map (·.2) = some value) : putRow key value rows = rows := by
  induction rows with
  | nil => cases h
  | cons r rest ih =>
    simp only [putRow]
    split
    case isTrue eq =>
      simp only [List.find?_cons, eq, decide_true, Option.map_some, Option.some.injEq] at h
      rw [← h, ← eq]
    case isFalse ne =>
      simp only [List.find?_cons, ne, decide_false] at h
      rw [ih h]

theorem put_of_get? (t : Table κ α) {key : κ} {value : α} (h : t.get? key = some value) : t.put key value = t := by
  obtain ⟨rows, distinct⟩ := t
  simp only [put, mk.injEq]
  exact putRow_of_find? h

end Table

namespace InMemory

variable {s s' : InMemory} {topic group : String} {r r' : Receipt} {d : DeliveryRecord}

/-- What an advance builds on: the log of the topic ascends, and the group keeps no record of a message there at or below
its watermark. -/
structure Regular (s : InMemory) (topic group : String) : Prop where
  ascending : (s.log topic).toList.Pairwise (·.offset < ·.offset)
  above : ∀ m ∈ (s.log topic).toList, m.offset ≤ s.watermark topic group → s.deliveries.get? (m.offset, group) = none

/-! ## The longest run -/

/-- Whether messages are the longest run of acknowledged ones directly above the watermark of a group on a topic. -/
structure IsLongestRun (s : InMemory) (topic group : String) (run : List Stored) : Prop where
  directly : run <+: (s.log topic).toList.filter (s.watermark topic group < ·.offset)
  acked : ∀ m ∈ run, s.isAcked group m
  longest : ∀ other, other <+: (s.log topic).toList.filter (s.watermark topic group < ·.offset) →
    (∀ m ∈ other, s.isAcked group m) → other.length ≤ run.length

theorem isLongestRun_ackedRun (ascending : (s.log topic).toList.Pairwise (·.offset < ·.offset)) :
    s.IsLongestRun topic group (s.ackedRun topic group) := by
  unfold ackedRun
  rw [logAfter_eq_filter ascending]
  refine ⟨List.takeWhile_prefix _, fun m hm => List.all_eq_true.1 List.all_takeWhile m hm, ?_⟩
  rintro other ⟨rest, hsplit⟩ hacked
  rw [← hsplit, List.takeWhile_append_of_pos hacked, List.length_append]
  omega

def holdsAcked (group : String) (records : Table (Int × String) DeliveryRecord) (m : Stored) : Bool :=
  (records.get? (m.offset, group)).any (·.state == .acked)

/-- Scans messages as long as they are acknowledged, dropping the record of each and moving the mark to it. -/
def sweep (group : String) :
    List Stored → Table (Int × String) DeliveryRecord → Int → Table (Int × String) DeliveryRecord × Int
  | [], records, mark => (records, mark)
  | m :: rest, records, mark =>
    if holdsAcked group records m then sweep group rest (records.erase (m.offset, group)) m.offset
    else (records, mark)

/-- **Dropping records while scanning** comes to the same as dropping those of a run that has been found before, because
a message that has been passed is not met again. -/
theorem sweep_eq (group : String) {messages : List Stored} (distinct : (messages.map (·.offset)).Nodup)
    (records : Table (Int × String) DeliveryRecord) (mark : Int) :
    sweep group messages records mark =
      ((messages.takeWhile (holdsAcked group records)).foldl (fun records m => records.erase (m.offset, group)) records,
        ((messages.takeWhile (holdsAcked group records)).getLast?.map (·.offset)).getD mark) := by
  induction messages generalizing records mark with
  | nil => rfl
  | cons m rest ih =>
    obtain ⟨fresh, distinct⟩ := List.nodup_cons.1 distinct
    have hrest : rest.takeWhile (holdsAcked group (records.erase (m.offset, group))) =
        rest.takeWhile (holdsAcked group records) := by
      apply takeWhile_congr_of_mem
      intro m' hm'
      have hne : ¬ (m'.offset, group) = (m.offset, group) := by
        intro heq
        exact fresh (List.mem_map.2 ⟨m', hm', (Prod.mk.inj heq).1⟩)
      unfold holdsAcked
      rw [Table.get?_erase, if_neg hne]
    unfold sweep
    split
    case isTrue hacked =>
      rw [ih distinct, hrest, List.takeWhile_cons_of_pos hacked, List.foldl_cons, List.getLast?_cons]
      cases (rest.takeWhile (holdsAcked group records)).getLast? <;> rfl
    case isFalse hopen =>
      rw [List.takeWhile_cons_of_neg hopen]
      rfl

theorem watermark_advance_self (s : InMemory) (topic group : String) :
    (s.advance topic group).watermark topic group = s.markAfter topic group := by
  rw [watermark_advance, if_pos ⟨rfl, rfl⟩]

theorem advance_eq_sweep (ascending : (s.log topic).toList.Pairwise (·.offset < ·.offset)) :
    ((s.advance topic group).deliveries, (s.advance topic group).watermark topic group) =
      sweep group (logAfter (s.log topic) (s.watermark topic group)) s.deliveries (s.watermark topic group) := by
  have hdistinct : ((logAfter (s.log topic) (s.watermark topic group)).map (·.offset)).Nodup := by
    rw [logAfter_eq_filter ascending, List.Nodup, List.pairwise_map]
    exact (ascending.filter _).imp fun hlt => Int.ne_of_lt hlt
  have hrun : (logAfter (s.log topic) (s.watermark topic group)).takeWhile (holdsAcked group s.deliveries) =
      s.ackedRun topic group := rfl
  rw [sweep_eq group hdistinct, watermark_advance_self, hrun]
  refine Prod.ext ?_ rfl
  unfold advance
  split
  case h_1 unknown =>
    rw [ackedRun_of_unknown s topic group unknown]
    rfl
  case h_2 log known =>
    have hlog : s.log topic = log := by simp [InMemory.log, known]
    rw [ackedRun, hlog]

/-! ## Where a run goes on -/

theorem topics_advance (s : InMemory) (topic group : String) : (s.advance topic group).topics = s.topics := by
  unfold advance
  split <;> rfl

/-- What is acknowledged is so for every message but those of the run, of which no record is left. -/
theorem isAcked_advance (s : InMemory) (topic group g : String) {m : Stored}
    (outside : g = group → m.offset ∉ (s.ackedRun topic group).map (·.offset)) :
    (s.advance topic group).isAcked g m = s.isAcked g m := by
  unfold isAcked
  rw [get?_advance, if_neg]
  rintro ⟨rfl, hmem⟩
  exact outside rfl hmem

theorem notMem_ackedRun (ascending : (s.log topic).toList.Pairwise (·.offset < ·.offset)) {offset : Int}
    (above : s.markAfter topic group < offset) : offset ∉ (s.ackedRun topic group).map (·.offset) := by
  intro hmem
  obtain ⟨m, hm, ho⟩ := List.mem_map.1 hmem
  have := (mem_ackedRun ascending hm).2.2.2
  omega

theorem ackedRun_congr (log : s'.log topic = s.log topic) (mark : s'.watermark topic group = s.watermark topic group)
    (acked : ∀ m ∈ logAfter (s.log topic) (s.watermark topic group), s'.isAcked group m = s.isAcked group m) :
    s'.ackedRun topic group = s.ackedRun topic group := by
  unfold ackedRun
  rw [log, mark]
  exact takeWhile_congr_of_mem acked

theorem markAfter_congr (run : s'.ackedRun topic group = s.ackedRun topic group)
    (mark : s'.watermark topic group = s.watermark topic group) :
    s'.markAfter topic group = s.markAfter topic group := by
  unfold markAfter
  rw [run, mark]

/-- Behind the new watermark lies what is left of the log once the run is taken off. -/
theorem logAfter_markAfter (ascending : (s.log topic).toList.Pairwise (·.offset < ·.offset)) :
    logAfter (s.log topic) (s.markAfter topic group) =
      (logAfter (s.log topic) (s.watermark topic group)).dropWhile (s.isAcked group) := by
  have hle : s.watermark topic group ≤ s.markAfter topic group := watermark_le_markAfter ascending
  have hsplit := List.takeWhile_append_dropWhile (p := s.isAcked group)
    (l := logAfter (s.log topic) (s.watermark topic group))
  have hsorted : (s.ackedRun topic group ++
      (logAfter (s.log topic) (s.watermark topic group)).dropWhile (s.isAcked group)).Pairwise
        (·.offset < ·.offset) := by
    unfold ackedRun
    rw [hsplit, logAfter_eq_filter ascending]
    exact ascending.filter _
  have hrun : (s.ackedRun topic group).filter (s.markAfter topic group < ·.offset) = [] := by
    rw [List.filter_eq_nil_iff]
    intro m hm
    rw [decide_eq_true_eq]
    have := (mem_ackedRun ascending hm).2.2.2
    omega
  have hrest : ((logAfter (s.log topic) (s.watermark topic group)).dropWhile (s.isAcked group)).filter
        (s.markAfter topic group < ·.offset) =
      (logAfter (s.log topic) (s.watermark topic group)).dropWhile (s.isAcked group) := by
    rw [List.filter_eq_self]
    intro m hm
    rw [decide_eq_true_eq]
    apply Int.not_le.1
    intro hlow
    -- so far down, it would be in the run as well
    have hlog := (List.dropWhile_sublist _).subset hm
    rw [logAfter_eq_filter ascending, List.mem_filter, decide_eq_true_eq] at hlog
    have hin := mem_ackedRun_of_le ascending hlog.1 hlog.2 hlow
    have := (List.pairwise_append.1 hsorted).2.2 m hin m hm
    omega
  calc logAfter (s.log topic) (s.markAfter topic group)
      = (logAfter (s.log topic) (s.watermark topic group)).filter (s.markAfter topic group < ·.offset) := by
        rw [logAfter_eq_filter ascending, logAfter_eq_filter ascending, List.filter_filter]
        apply List.filter_congr
        intro m _
        rw [← Bool.decide_and, decide_eq_decide]
        omega
    _ = (s.ackedRun topic group ++
          (logAfter (s.log topic) (s.watermark topic group)).dropWhile (s.isAcked group)).filter
            (s.markAfter topic group < ·.offset) := by
        unfold ackedRun
        rw [hsplit]
    _ = (logAfter (s.log topic) (s.watermark topic group)).dropWhile (s.isAcked group) := by
        rw [List.filter_append, hrun, hrest, List.nil_append]

/-- **A run goes on** where one has stopped: what is passed when more has been acknowledged is what was passed before, and
what is passed from there. -/
theorem ackedRun_resume {later resumed : InMemory}
    (ascending : (s.log topic).toList.Pairwise (·.offset < ·.offset))
    (log : later.log topic = s.log topic) (mark : later.watermark topic group = s.watermark topic group)
    (more : ∀ m ∈ s.ackedRun topic group, later.isAcked group m)
    (log' : resumed.log topic = s.log topic) (mark' : resumed.watermark topic group = s.markAfter topic group)
    (same : ∀ m ∈ (s.log topic).toList, s.markAfter topic group < m.offset →
      resumed.isAcked group m = later.isAcked group m) :
    later.ackedRun topic group = s.ackedRun topic group ++ resumed.ackedRun topic group := by
  have hresumed : resumed.ackedRun topic group =
      ((logAfter (s.log topic) (s.watermark topic group)).dropWhile (s.isAcked group)).takeWhile
        (later.isAcked group) := by
    unfold ackedRun
    rw [log', mark', ← logAfter_markAfter ascending]
    apply takeWhile_congr_of_mem
    intro m hm
    rw [logAfter_eq_filter ascending, List.mem_filter, decide_eq_true_eq] at hm
    exact same m hm.1 hm.2
  calc later.ackedRun topic group
      = (s.ackedRun topic group ++
          (logAfter (s.log topic) (s.watermark topic group)).dropWhile (s.isAcked group)).takeWhile
            (later.isAcked group) := by
        unfold ackedRun
        rw [List.takeWhile_append_dropWhile, log, mark]
    _ = s.ackedRun topic group ++ resumed.ackedRun topic group := by
        rw [List.takeWhile_append_of_pos more, hresumed]

theorem markAfter_of_append (mark : s'.watermark topic group = s.markAfter topic group)
    {later : InMemory} (resume : later.ackedRun topic group = s.ackedRun topic group ++ s'.ackedRun topic group)
    (mark' : later.watermark topic group = s.watermark topic group) :
    later.markAfter topic group = s'.markAfter topic group := by
  unfold markAfter at mark ⊢
  rw [resume, List.getLast?_append, mark, mark']
  cases (s'.ackedRun topic group).getLast? <;> rfl

/-! ## Advancing again -/

/-- A watermark that is written down and has nothing acknowledged next above it stays where it is. -/
theorem advance_of_still (still : s.ackedRun topic group = [])
    (written : s.topics.get? topic = none ∨ (s.watermarks.get? (topic, group)).isSome) :
    s.advance topic group = s := by
  unfold advance
  split
  case h_1 => rfl
  case h_2 log known =>
    have hlog : s.log topic = log := by simp [InMemory.log, known]
    have hmark : s.watermarks.get? (topic, group) = some (s.watermark topic group) := by
      obtain ⟨mark, hmark⟩ := Option.isSome_iff_exists.1 (written.resolve_left (by rw [known]; simp))
      rw [watermark, hmark, Option.getD_some]
    rw [ackedRun, hlog] at still
    simp only [still, List.foldl_nil, List.getLast?_nil, Option.map_none, Option.getD_none]
    rw [Table.put_of_get? s.watermarks hmark]

/-- **Nothing is left to pass** once a watermark has been moved. -/
theorem ackedRun_advance (ascending : (s.log topic).toList.Pairwise (·.offset < ·.offset)) :
    (s.advance topic group).ackedRun topic group = [] := by
  have hresume : s.ackedRun topic group = s.ackedRun topic group ++ (s.advance topic group).ackedRun topic group := by
    refine ackedRun_resume ascending rfl rfl (fun m hm => (mem_ackedRun ascending hm).2.2.1)
      (log_advance s topic group topic) (watermark_advance_self s topic group) fun m _ habove => ?_
    exact isAcked_advance s topic group group fun _ => notMem_ackedRun ascending habove
  exact List.self_eq_append_right.1 hresume

/-- **Advancing again** changes nothing. -/
theorem advance_advance (ascending : (s.log topic).toList.Pairwise (·.offset < ·.offset)) :
    (s.advance topic group).advance topic group = s.advance topic group := by
  apply advance_of_still (ackedRun_advance ascending)
  unfold advance
  split
  case h_1 unknown => exact Or.inl unknown
  case h_2 log known =>
    right
    rw [Table.get?_put, if_pos rfl]
    rfl

/-! ## Stores that hold the same -/

/-- What neither an acknowledgement nor an advance touches: the last offset, the logs, and whether the store is closed. -/
def frame (s : InMemory) : Int × Table String (Array Stored) × Bool := (s.lastOffset, s.topics, s.closed)

theorem frame_advance (s : InMemory) (topic group : String) : (s.advance topic group).frame = s.frame := by
  unfold frame
  rw [lastOffset_advance, topics_advance, closed_advance]

/-- Whether two stores hold the same, in whatever order their tables have been written. -/
structure Matches (s s' : InMemory) : Prop where
  frame : s.frame = s'.frame
  records : ∀ offset group, s.deliveries.get? (offset, group) = s'.deliveries.get? (offset, group)
  watermarks : ∀ topic group, s.watermark topic group = s'.watermark topic group

theorem Matches.refl (s : InMemory) : s.Matches s := ⟨rfl, fun _ _ => rfl, fun _ _ => rfl⟩

theorem Matches.symm (h : s.Matches s') : s'.Matches s :=
  ⟨h.frame.symm, fun o g => (h.records o g).symm, fun t g => (h.watermarks t g).symm⟩

theorem Matches.trans {s'' : InMemory} (h : s.Matches s') (h' : s'.Matches s'') : s.Matches s'' :=
  ⟨h.frame.trans h'.frame, fun o g => (h.records o g).trans (h'.records o g),
    fun t g => (h.watermarks t g).trans (h'.watermarks t g)⟩

theorem log_of_frame (h : s.frame = s'.frame) (topic : String) : s.log topic = s'.log topic := by
  have htopics : s.topics = s'.topics := congrArg (·.2.1) h
  unfold log
  rw [htopics]

theorem Matches.current? (h : s.Matches s') (r : Receipt) : s.current? r = s'.current? r := by
  unfold InMemory.current?
  rw [h.records]

theorem Matches.advance_of_run (h : s.Matches s') (topic group : String)
    (run : s.ackedRun topic group = s'.ackedRun topic group) : (s.advance topic group).Matches (s'.advance topic group) where
  frame := by rw [frame_advance, frame_advance, h.frame]
  records offset g := by rw [get?_advance, get?_advance, run, h.records]
  watermarks t g := by
    rw [watermark_advance, watermark_advance, markAfter_congr run (h.watermarks topic group), h.watermarks]

theorem Matches.advance (h : s.Matches s') (topic group : String) :
    (s.advance topic group).Matches (s'.advance topic group) := by
  apply h.advance_of_run
  apply ackedRun_congr (log_of_frame h.frame topic) (h.watermarks topic group)
  intro m _
  unfold isAcked
  rw [h.records]

/-! ## Acknowledging without advancing -/

/-- Makes a claim final that is still held, and leaves the watermark where it is. -/
def finalize (s : InMemory) (r : Receipt) : InMemory :=
  match s.current? r with
  | some d => s.putRecord r { d with state := .acked }
  | none => s

theorem finalize_of_held (held : s.current? r = some d) :
    s.finalize r = s.putRecord r { d with state := .acked } := by
  unfold finalize
  rw [held]

theorem finalize_of_lost (lost : s.current? r = none) : s.finalize r = s := by
  unfold finalize
  rw [lost]

theorem frame_finalize (s : InMemory) (r : Receipt) : (s.finalize r).frame = s.frame := by
  unfold finalize
  split <;> rfl

theorem log_finalize (s : InMemory) (r : Receipt) (topic : String) : (s.finalize r).log topic = s.log topic :=
  log_of_frame (frame_finalize s r) topic

theorem watermark_finalize (s : InMemory) (r : Receipt) (topic group : String) :
    (s.finalize r).watermark topic group = s.watermark topic group := by
  unfold finalize
  split <;> rfl

theorem ack_of_held (held : s.current? r = some d) : (s.ack r).1 = (s.finalize r).advance d.topic r.group := by
  unfold ack
  rw [finalize_of_held held, held]

theorem ack_of_lost (lost : s.current? r = none) : (s.ack r).1 = s := by
  unfold ack
  rw [lost]

theorem current?_eq_some_iff : s.current? r = some d ↔
    s.deliveries.get? (r.offset, r.group) = some d ∧ d.state = .claimed ∧ d.token = r.token := by
  unfold current?
  rw [Option.filter_eq_some_iff]
  simp

/-- No two claims are held for the same message and group. -/
theorem eq_of_held {d' : DeliveryRecord} (held : s.current? r = some d) (held' : s.current? r' = some d')
    (same : r'.offset = r.offset ∧ r'.group = r.group) : r' = r := by
  obtain ⟨hget, -, htoken⟩ := current?_eq_some_iff.1 held
  obtain ⟨hget', -, htoken'⟩ := current?_eq_some_iff.1 held'
  obtain ⟨offset, group, token⟩ := r
  obtain ⟨offset', group', token'⟩ := r'
  obtain ⟨rfl, rfl⟩ : offset' = offset ∧ group' = group := same
  obtain rfl : d' = d := Option.some.inj (hget'.symm.trans hget)
  obtain rfl : d'.token = token := htoken
  obtain rfl : d'.token = token' := htoken'
  rfl

theorem get?_finalize (held : s.current? r = some d) (offset : Int) (g : String) :
    (s.finalize r).deliveries.get? (offset, g) =
      if offset = r.offset ∧ g = r.group then some { d with state := .acked } else s.deliveries.get? (offset, g) := by
  rw [finalize_of_held held]
  show (s.deliveries.put _ _).get? _ = _
  rw [Table.get?_put]
  by_cases same : offset = r.offset ∧ g = r.group
  · rw [if_pos same, if_pos (by rw [same.1, same.2])]
  · rw [if_neg same, if_neg]
    exact fun heq => same ⟨(Prod.mk.inj heq).1.symm, (Prod.mk.inj heq).2.symm⟩

theorem isAcked_finalize (held : s.current? r = some d) (g : String) (m : Stored) :
    (s.finalize r).isAcked g m = (decide (m.offset = r.offset ∧ g = r.group) || s.isAcked g m) := by
  unfold isAcked
  rw [get?_finalize held]
  split
  case isTrue same => simp [same]
  case isFalse other => simp [other]

theorem current?_advance (s : InMemory) (topic group : String) (r : Receipt) :
    (s.advance topic group).current? r = s.current? r := by
  unfold current?
  rw [get?_advance]
  split
  case isTrue hpassed =>
    obtain ⟨hgroup, hmem⟩ := hpassed
    obtain ⟨m, hm, ho⟩ := List.mem_map.1 hmem
    have hacked := List.all_eq_true.1 List.all_takeWhile m hm
    rw [isAcked, ho, ← hgroup] at hacked
    obtain ⟨d, hd, hstate⟩ := (Option.any_eq_true _ _).1 hacked
    rw [hd]
    simp [Option.filter, beq_iff_eq.1 hstate]
  case isFalse => rfl

theorem current?_finalize_self (s : InMemory) (r : Receipt) : (s.finalize r).current? r = none := by
  cases held : s.current? r with
  | none => rw [finalize_of_lost held, held]
  | some d =>
    unfold current?
    rw [get?_finalize held, if_pos ⟨rfl, rfl⟩]
    rfl

theorem current?_finalize_of_ne (s : InMemory) (ne : r' ≠ r) : (s.finalize r).current? r' = s.current? r' := by
  cases held : s.current? r with
  | none => rw [finalize_of_lost held]
  | some d =>
    by_cases same : r'.offset = r.offset ∧ r'.group = r.group
    · -- the message is claimed with the other token, and final then
      have hlost : s.current? r' = none := by
        cases held' : s.current? r' with
        | none => rfl
        | some d' => exact absurd (eq_of_held held held' same) ne
      rw [hlost]
      unfold current?
      rw [get?_finalize held, if_pos same]
      rfl
    · unfold current?
      rw [get?_finalize held, if_neg same]

theorem held_of_finalize (held : (s.finalize r).current? r' = some d) : s.current? r' = some d := by
  by_cases same : r' = r
  · rw [same, current?_finalize_self] at held
    cases held
  · rwa [current?_finalize_of_ne s same] at held

theorem held_of_ack (held : (s.ack r).1.current? r' = some d) : s.current? r' = some d := by
  cases own : s.current? r with
  | none => rwa [ack_of_lost own] at held
  | some d₀ =>
    rw [ack_of_held own, current?_advance] at held
    exact held_of_finalize held

theorem current?_ack_of_ne (s : InMemory) (ne : r' ≠ r) : (s.ack r).1.current? r' = s.current? r' := by
  cases held : s.current? r with
  | none => rw [ack_of_lost held]
  | some d => rw [ack_of_held held, current?_advance, current?_finalize_of_ne s ne]

theorem Matches.finalize (h : s.Matches s') (r : Receipt) : (s.finalize r).Matches (s'.finalize r) := by
  cases held : s.current? r with
  | none => rwa [finalize_of_lost held, finalize_of_lost ((h.current? r).symm.trans held)]
  | some d =>
    have held' := (h.current? r).symm.trans held
    refine ⟨?_, fun offset g => ?_, fun t g => ?_⟩
    · rw [frame_finalize, frame_finalize, h.frame]
    · rw [get?_finalize held, get?_finalize held', h.records]
    · rw [watermark_finalize, watermark_finalize, h.watermarks]

theorem Matches.ack (h : s.Matches s') (r : Receipt) : (s.ack r).1.Matches (s'.ack r).1 := by
  cases held : s.current? r with
  | none => rwa [ack_of_lost held, ack_of_lost ((h.current? r).symm.trans held)]
  | some d =>
    rw [ack_of_held held, ack_of_held ((h.current? r).symm.trans held)]
    exact (h.finalize r).advance d.topic r.group

/-! ## What may change places -/

variable {d' : DeliveryRecord}

theorem finalize_finalize (held : s.current? r = some d) (held' : s.current? r' = some d') (ne : r' ≠ r) :
    ((s.finalize r).finalize r').Matches ((s.finalize r').finalize r) := by
  have hlater := (current?_finalize_of_ne s ne).trans held'
  have hlater' := (current?_finalize_of_ne s ne.symm).trans held
  refine ⟨?_, fun offset g => ?_, fun t g => ?_⟩
  · simp only [frame_finalize]
  · rw [get?_finalize hlater, get?_finalize held, get?_finalize hlater', get?_finalize held']
    by_cases same : offset = r.offset ∧ g = r.group
    · have hother : ¬ (offset = r'.offset ∧ g = r'.group) := fun same' =>
        ne (eq_of_held held held' ⟨same'.1.symm.trans same.1, same'.2.symm.trans same.2⟩)
      rw [if_neg hother, if_pos same, if_pos same]
    · rw [if_neg same, if_neg same]
  · simp only [watermark_finalize]

theorem mem_log_of_mem_ackedRun {m : Stored} (hm : m ∈ s.ackedRun topic group) : m ∈ (s.log topic).toList :=
  (List.drop_sublist _ _).subset ((List.takeWhile_sublist _).subset hm)

/-- A message that a group has claimed is in none of its runs. -/
theorem offset_ne_of_held (held : s.current? r = some d) {m : Stored} (hm : m ∈ s.ackedRun topic r.group) :
    m.offset ≠ r.offset := by
  intro ho
  obtain ⟨hget, hstate, -⟩ := current?_eq_some_iff.1 held
  have hacked := List.all_eq_true.1 List.all_takeWhile m hm
  rw [isAcked, ho, hget, Option.any_some, hstate] at hacked
  cases hacked

/-- The run once a claim has been made final is the run before, and what an advance in between leaves to be passed. -/
theorem ackedRun_finalize (ascending : (s.log topic).toList.Pairwise (·.offset < ·.offset))
    (held : s.current? r = some d) :
    (s.finalize r).ackedRun topic r.group =
      s.ackedRun topic r.group ++ ((s.advance topic r.group).finalize r).ackedRun topic r.group := by
  refine ackedRun_resume ascending (log_finalize s r topic) (watermark_finalize s r topic r.group) ?more
    ((log_finalize _ r topic).trans (log_advance s topic r.group topic)) ?mark ?same
  case more =>
    intro m hm
    rw [isAcked_finalize held, (mem_ackedRun ascending hm).2.2.1, Bool.or_true]
  case mark => rw [watermark_finalize, watermark_advance_self]
  case same =>
    intro m _ habove
    rw [isAcked_finalize ((current?_advance s topic r.group r).trans held), isAcked_finalize held,
      isAcked_advance s topic r.group r.group fun _ => notMem_ackedRun ascending habove]

/-- **An advance before an acknowledgement** of the group adds nothing to the one after it. -/
theorem advance_finalize_advance (ascending : (s.log topic).toList.Pairwise (·.offset < ·.offset))
    (held : s.current? r = some d) :
    (((s.advance topic r.group).finalize r).advance topic r.group).Matches ((s.finalize r).advance topic r.group) := by
  have hresume := ackedRun_finalize ascending held
  have hmark : ((s.advance topic r.group).finalize r).watermark topic r.group = s.markAfter topic r.group := by
    rw [watermark_finalize, watermark_advance_self]
  have hmarks := markAfter_of_append hmark hresume (watermark_finalize s r topic r.group)
  refine ⟨?_, fun offset g => ?_, fun t g => ?_⟩
  · simp only [frame_advance, frame_finalize]
  · rw [get?_advance, get?_finalize ((current?_advance s topic r.group r).trans held), get?_advance, get?_advance,
      get?_finalize held, hresume, List.map_append]
    by_cases hlate : g = r.group ∧
        offset ∈ (((s.advance topic r.group).finalize r).ackedRun topic r.group).map (·.offset)
    · rw [if_pos hlate, if_pos ⟨hlate.1, List.mem_append_right _ hlate.2⟩]
    · rw [if_neg hlate]
      by_cases hearly : g = r.group ∧ offset ∈ (s.ackedRun topic r.group).map (·.offset)
      · obtain ⟨m, hm, ho⟩ := List.mem_map.1 hearly.2
        have hother : ¬ (offset = r.offset ∧ g = r.group) := fun same => offset_ne_of_held held hm (ho.trans same.1)
        rw [if_neg hother, if_pos hearly, if_pos ⟨hearly.1, List.mem_append_left _ hearly.2⟩]
      · rw [if_neg hearly, if_neg fun hin : g = r.group ∧ _ => ?_]
        rcases List.mem_append.1 hin.2 with hmem | hmem
        · exact hearly ⟨hin.1, hmem⟩
        · exact hlate ⟨hin.1, hmem⟩
  · rw [watermark_advance, watermark_finalize, watermark_advance, watermark_advance, watermark_finalize, hmarks]
    split <;> rfl

/-- An advance, and an acknowledgement of a message that is not on its topic or for another group. -/
theorem finalize_advance (held : s.current? r = some d)
    (foreign : r.group = group → r.offset ∉ (s.log topic).toList.map (·.offset)) :
    ((s.advance topic group).finalize r).Matches ((s.finalize r).advance topic group) := by
  have hrun : (s.finalize r).ackedRun topic group = s.ackedRun topic group := by
    apply ackedRun_congr (log_finalize s r topic) (watermark_finalize s r topic group)
    intro m hm
    rw [isAcked_finalize held, decide_eq_false, Bool.false_or]
    rintro ⟨ho, hg⟩
    exact foreign hg.symm (ho ▸ List.mem_map_of_mem ((List.drop_sublist _ _).subset hm))
  refine ⟨?_, fun offset g => ?_, fun t g => ?_⟩
  · simp only [frame_advance, frame_finalize]
  · rw [get?_finalize ((current?_advance s topic group r).trans held), get?_advance, get?_advance, get?_finalize held,
      hrun]
    by_cases same : offset = r.offset ∧ g = r.group
    · rw [if_pos same, if_pos same, if_neg]
      rintro ⟨hg, hmem⟩
      obtain ⟨m, hm, ho⟩ := List.mem_map.1 hmem
      refine foreign (same.2.symm.trans hg) ?_
      rw [← same.1, ← ho]
      exact List.mem_map_of_mem (mem_log_of_mem_ackedRun hm)
    · rw [if_neg same, if_neg same]
  · rw [watermark_finalize, watermark_advance, watermark_advance, watermark_finalize,
      markAfter_congr hrun (watermark_finalize s r topic group)]

theorem ackedRun_advance_other {topic' group' : String} (other : ¬ (topic = topic' ∧ group = group'))
    (apart : group = group' → ∀ m ∈ s.ackedRun topic group, ∀ m' ∈ (s.log topic').toList, m'.offset ≠ m.offset) :
    (s.advance topic group).ackedRun topic' group' = s.ackedRun topic' group' := by
  apply ackedRun_congr (log_advance s topic group topic')
  · rw [watermark_advance, if_neg other]
  · intro m' hm'
    apply isAcked_advance
    rintro rfl hmem
    obtain ⟨m, hm, ho⟩ := List.mem_map.1 hmem
    exact apart rfl m hm m' ((List.drop_sublist _ _).subset hm') ho.symm

/-- Two advances, of different groups or on topics that do not share messages. -/
theorem advance_comm {topic' group' : String} (other : ¬ (topic = topic' ∧ group = group'))
    (apart : group = group' → ∀ m ∈ s.ackedRun topic group, ∀ m' ∈ (s.log topic').toList, m'.offset ≠ m.offset)
    (apart' : group' = group → ∀ m ∈ s.ackedRun topic' group', ∀ m' ∈ (s.log topic).toList, m'.offset ≠ m.offset) :
    ((s.advance topic group).advance topic' group').Matches ((s.advance topic' group').advance topic group) := by
  have other' : ¬ (topic' = topic ∧ group' = group) := fun h => other ⟨h.1.symm, h.2.symm⟩
  have hrun' := ackedRun_advance_other other apart
  have hrun := ackedRun_advance_other other' apart'
  refine ⟨?_, fun offset g => ?_, fun t g => ?_⟩
  · simp only [frame_advance]
  · rw [get?_advance, get?_advance, get?_advance, get?_advance, hrun, hrun']
    split <;> split <;> rfl
  · have hmark' := markAfter_congr hrun' (by rw [watermark_advance, if_neg other])
    have hmark := markAfter_congr hrun (by rw [watermark_advance, if_neg other'])
    rw [watermark_advance, watermark_advance, watermark_advance, watermark_advance, hmark, hmark']
    by_cases same : topic = t ∧ group = g
    · obtain ⟨rfl, rfl⟩ := same
      rw [if_neg other', if_pos ⟨rfl, rfl⟩, if_pos ⟨rfl, rfl⟩]
    · rw [if_neg same, if_neg same]

/-! ## Any order -/

/-- Whether logs ascend and every record names the topic of its message. -/
structure Filed (s : InMemory) : Prop where
  ascending : ∀ topic, (s.log topic).toList.Pairwise (·.offset < ·.offset)
  named : ∀ offset group d, s.deliveries.get? (offset, group) = some d →
    ∀ topic, ∀ m ∈ (s.log topic).toList, m.offset = offset → topic = d.topic

theorem Filed.finalize (h : s.Filed) (r : Receipt) : (s.finalize r).Filed where
  ascending topic := by
    rw [log_finalize]
    exact h.ascending topic
  named offset group d hd topic m hm ho := by
    rw [log_finalize] at hm
    cases held : s.current? r with
    | none =>
      rw [finalize_of_lost held] at hd
      exact h.named offset group d hd topic m hm ho
    | some before =>
      rw [get?_finalize held] at hd
      split at hd
      case isTrue same =>
        obtain rfl := Option.some.inj hd
        rw [same.1] at ho
        exact h.named r.offset r.group before (current?_eq_some_iff.1 held).1 topic m hm ho
      case isFalse => exact h.named offset group d hd topic m hm ho

theorem Filed.advance (h : s.Filed) (topic group : String) : (s.advance topic group).Filed where
  ascending t := by
    rw [log_advance]
    exact h.ascending t
  named offset g d hd t m hm ho := by
    rw [log_advance] at hm
    rw [get?_advance] at hd
    split at hd
    case isTrue => cases hd
    case isFalse => exact h.named offset g d hd t m hm ho

/-- A message that a group has acknowledged on a topic is on no other. -/
theorem Filed.topic_of_run (h : s.Filed) {topic' : String} {m m' : Stored} (hm : m ∈ s.ackedRun topic group)
    (hm' : m' ∈ (s.log topic').toList) (same : m'.offset = m.offset) : topic = topic' := by
  obtain ⟨hlog, -, hacked, -⟩ := mem_ackedRun (h.ascending topic) hm
  obtain ⟨d, hd, -⟩ := (Option.any_eq_true _ _).1 hacked
  rw [h.named m.offset group d hd topic m hlog rfl, h.named m.offset group d hd topic' m' hm' same]

/-- What keeps acknowledgements out of each other's way: every record names the topic of its message, or the claims that
are acknowledged are all on one topic. -/
def Clear (s : InMemory) (receipts : List Receipt) : Prop :=
  s.Filed ∨ ∃ topic, (s.log topic).toList.Pairwise (·.offset < ·.offset) ∧
    ∀ r ∈ receipts, ∀ d, s.current? r = some d → d.topic = topic

theorem Clear.mono {receipts receipts' : List Receipt} (h : s.Clear receipts) (fewer : ∀ r ∈ receipts', r ∈ receipts) :
    s.Clear receipts' :=
  h.imp_right fun ⟨topic, ascending, named⟩ => ⟨topic, ascending, fun r hr => named r (fewer r hr)⟩

theorem Clear.ascending {receipts : List Receipt} (h : s.Clear receipts) (hr : r ∈ receipts)
    (held : s.current? r = some d) : (s.log d.topic).toList.Pairwise (·.offset < ·.offset) := by
  rcases h with filed | ⟨topic, ascending, named⟩
  · exact filed.ascending d.topic
  · rwa [named r hr d held]

theorem log_ack (s : InMemory) (r : Receipt) (topic : String) : (s.ack r).1.log topic = s.log topic := by
  cases held : s.current? r with
  | none => rw [ack_of_lost held]
  | some d => rw [ack_of_held held, log_advance, log_finalize]

theorem Clear.ack {receipts : List Receipt} (h : s.Clear receipts) (r : Receipt) : (s.ack r).1.Clear receipts := by
  rcases h with filed | ⟨topic, ascending, named⟩
  · left
    cases held : s.current? r with
    | none => rwa [ack_of_lost held]
    | some d =>
      rw [ack_of_held held]
      exact (filed.finalize r).advance d.topic r.group
  · right
    exact ⟨topic, by rwa [log_ack], fun r' hr' d held => named r' hr' d (held_of_ack held)⟩

theorem Filed.foreign (h : s.Filed) (held : s.current? r = some d) (other : topic ≠ d.topic) :
    r.offset ∉ (s.log topic).toList.map (·.offset) := by
  intro hmem
  obtain ⟨m, hm, ho⟩ := List.mem_map.1 hmem
  exact other (h.named r.offset r.group d (current?_eq_some_iff.1 held).1 topic m hm ho)

theorem ack_ack_of_held (held : s.current? r = some d) (held' : s.current? r' = some d') (ne : r' ≠ r) :
    ((s.ack r).1.ack r').1 =
      (((s.finalize r).advance d.topic r.group).finalize r').advance d'.topic r'.group := by
  rw [ack_of_held ((current?_ack_of_ne s ne).trans held'), ack_of_held held]

/-- Two acknowledgements of a group on a topic, which come to one advance. -/
theorem ack_ack_together (ascending : (s.log d.topic).toList.Pairwise (·.offset < ·.offset))
    (held : s.current? r = some d) (held' : s.current? r' = some d') (ne : r' ≠ r)
    (together : d.topic = d'.topic ∧ r.group = r'.group) :
    ((s.ack r).1.ack r').1.Matches (((s.finalize r).finalize r').advance d.topic r.group) := by
  have hlater : (s.finalize r).current? r' = some d' := (current?_finalize_of_ne s ne).trans held'
  have hasc : ((s.finalize r).log d.topic).toList.Pairwise (·.offset < ·.offset) := by rwa [log_finalize]
  have hone := advance_finalize_advance hasc hlater
  rw [ack_ack_of_held held held' ne, ← together.1, together.2]
  exact hone

/-- Two acknowledgements, the second of a message that is not on the topic of the first or for another group. -/
theorem ack_ack_apart (held : s.current? r = some d) (held' : s.current? r' = some d') (ne : r' ≠ r)
    (foreign : r'.group = r.group → r'.offset ∉ (s.log d.topic).toList.map (·.offset)) :
    ((s.ack r).1.ack r').1.Matches
      ((((s.finalize r).finalize r').advance d.topic r.group).advance d'.topic r'.group) := by
  have hlater : (s.finalize r).current? r' = some d' := (current?_finalize_of_ne s ne).trans held'
  rw [ack_ack_of_held held held' ne]
  exact (finalize_advance hlater (by rwa [log_finalize])).advance d'.topic r'.group

/-- **Two acknowledgements** may change places. -/
theorem Clear.ack_ack (h : s.Clear [r, r']) : ((s.ack r).1.ack r').1.Matches ((s.ack r').1.ack r).1 := by
  by_cases ne : r' = r
  · rw [ne]
    exact Matches.refl _
  cases held : s.current? r with
  | none =>
    have hlost : (s.ack r').1.current? r = none := (current?_ack_of_ne s (Ne.symm ne)).trans held
    rw [ack_of_lost held, ack_of_lost hlost]
    exact Matches.refl _
  | some d =>
    cases held' : s.current? r' with
    | none =>
      have hlost : (s.ack r).1.current? r' = none := (current?_ack_of_ne s ne).trans held'
      rw [ack_of_lost held', ack_of_lost hlost]
      exact Matches.refl _
    | some d' =>
      have hswap := finalize_finalize held held' ne
      by_cases together : d.topic = d'.topic ∧ r.group = r'.group
      · have hone := ack_ack_together (h.ascending (by simp) held) held held' ne together
        have hother := ack_ack_together (h.ascending (by simp) held') held' held (Ne.symm ne)
          ⟨together.1.symm, together.2.symm⟩
        rw [← together.1, ← together.2] at hother
        exact (hone.trans (hswap.advance d.topic r.group)).trans hother.symm
      · -- of one group they are on different topics, which the records tell apart
        have hapart : r.group = r'.group → s.Filed ∧ d.topic ≠ d'.topic := by
          intro hgroup
          have htopics : d.topic ≠ d'.topic := fun htopic => together ⟨htopic, hgroup⟩
          rcases h with filed | ⟨topic, -, named⟩
          · exact ⟨filed, htopics⟩
          · exact absurd ((named r (by simp) d held).trans (named r' (by simp) d' held').symm) htopics
        have hone := ack_ack_apart held held' ne fun hgroup =>
          (hapart hgroup.symm).1.foreign held' (hapart hgroup.symm).2
        have hother := ack_ack_apart held' held (Ne.symm ne) fun hgroup =>
          (hapart hgroup).1.foreign held (hapart hgroup).2.symm
        have hcomm := advance_comm (s := (s.finalize r).finalize r') together
          (fun hgroup m hm m' hm' ho => (hapart hgroup).2
            ((((hapart hgroup).1.finalize r).finalize r').topic_of_run hm hm' ho))
          (fun hgroup m hm m' hm' ho => (hapart hgroup.symm).2
            ((((hapart hgroup.symm).1.finalize r).finalize r').topic_of_run hm hm' ho).symm)
        exact ((hone.trans hcomm).trans ((hswap.advance d'.topic r'.group).advance d.topic r.group)).trans hother.symm

/-- The state once receipts have been acknowledged one after the other, with an advance after each. -/
def ackAll (s : InMemory) (receipts : List Receipt) : InMemory := receipts.foldl (fun s r => (s.ack r).1) s

/-- The state once claims have been made final one after the other, without any advance. -/
def finalizeAll (s : InMemory) (receipts : List Receipt) : InMemory := receipts.foldl finalize s

theorem Matches.ackAll (h : s.Matches s') (receipts : List Receipt) : (s.ackAll receipts).Matches (s'.ackAll receipts) := by
  induction receipts generalizing s s' with
  | nil => exact h
  | cons r rest ih => exact ih (h.ack r)

/-- **The order of acknowledgements** does not matter. -/
theorem Clear.ackAll_perm {receipts receipts' : List Receipt} (clear : s.Clear receipts)
    (perm : receipts.Perm receipts') : (s.ackAll receipts).Matches (s.ackAll receipts') := by
  induction perm generalizing s with
  | nil => exact Matches.refl s
  | cons r _ ih => exact ih ((clear.ack r).mono fun r' hr' => List.mem_cons_of_mem r hr')
  | swap r r' rest =>
    have hpair : s.Clear [r', r] := clear.mono fun _ hr => List.mem_append_left rest hr
    exact hpair.ack_ack.ackAll rest
  | trans first _ ih ih' => exact (ih clear).trans (ih' (clear.mono fun r hr => first.mem_iff.2 hr))

/-! ## One advance at the end -/

/-- Whether a receipt holds a claim of a group on a topic. -/
def IsHeld (s : InMemory) (topic group : String) (r : Receipt) : Prop :=
  r.group = group ∧ ∃ d, s.current? r = some d ∧ d.topic = topic

/-- Claims of a group that are acknowledged after an advance: the advances after each come to one at the end. -/
theorem ackAll_advance (ascending : (s.log topic).toList.Pairwise (·.offset < ·.offset)) {receipts : List Receipt}
    (own : ∀ r ∈ receipts, r.group = group ∧ ∀ d, s.current? r = some d → d.topic = topic) :
    ((s.advance topic group).ackAll receipts).Matches ((s.finalizeAll receipts).advance topic group) := by
  induction receipts generalizing s with
  | nil => exact Matches.refl _
  | cons r rest ih =>
    have hrest : ∀ r' ∈ rest, r'.group = group ∧ ∀ d, (s.finalize r).current? r' = some d → d.topic = topic := by
      intro r' hr'
      obtain ⟨hgroup, htopic⟩ := own r' (List.mem_cons_of_mem r hr')
      exact ⟨hgroup, fun d held => htopic d (held_of_finalize held)⟩
    have hlater := ih (s := s.finalize r) (by rwa [log_finalize]) hrest
    have hfirst : ((s.advance topic group).ack r).1.Matches ((s.finalize r).advance topic group) := by
      cases held : s.current? r with
      | none =>
        rw [finalize_of_lost held, ack_of_lost ((current?_advance s topic group r).trans held)]
        exact Matches.refl _
      | some d =>
        obtain ⟨hgroup, htopic⟩ := own r List.mem_cons_self
        rw [ack_of_held ((current?_advance s topic group r).trans held), htopic d held, ← hgroup]
        exact advance_finalize_advance ascending held
    exact (hfirst.ackAll rest).trans hlater

/-- **All advances come to one**, once every claim is final. -/
theorem ackAll_matches_advance (ascending : (s.log topic).toList.Pairwise (·.offset < ·.offset))
    {receipts : List Receipt} (some : receipts ≠ []) (held : ∀ r ∈ receipts, s.IsHeld topic group r) :
    (s.ackAll receipts).Matches ((s.finalizeAll receipts).advance topic group) := by
  cases receipts with
  | nil => exact absurd rfl some
  | cons r rest =>
    obtain ⟨hgroup, d, hd, htopic⟩ := held r List.mem_cons_self
    have hfirst : (s.ack r).1 = (s.finalize r).advance topic group := by rw [ack_of_held hd, htopic, hgroup]
    show ((s.ack r).1.ackAll rest).Matches _
    rw [hfirst]
    refine ackAll_advance (by rwa [log_finalize]) fun r' hr' => ?_
    obtain ⟨hgroup', d', hd', htopic'⟩ := held r' (List.mem_cons_of_mem r hr')
    refine ⟨hgroup', fun d'' hd'' => ?_⟩
    obtain rfl := Option.some.inj (hd'.symm.trans (held_of_finalize hd''))
    exact htopic'

/-! ## Exactness -/

theorem Regular.advance (h : s.Regular topic group) : (s.advance topic group).Regular topic group where
  ascending := by
    rw [log_advance]
    exact h.ascending
  above m hm hlow := by
    rw [log_advance] at hm
    rw [watermark_advance_self] at hlow
    rw [get?_advance]
    by_cases hpast : m.offset ≤ s.watermark topic group
    · rw [h.above m hm hpast, ite_self]
    · rw [if_pos ⟨rfl, List.mem_map_of_mem (mem_ackedRun_of_le h.ascending hm (by omega) hlow)⟩]

theorem Regular.finalize (h : s.Regular topic group) (r : Receipt) : (s.finalize r).Regular topic group where
  ascending := by
    rw [log_finalize]
    exact h.ascending
  above m hm hlow := by
    rw [log_finalize] at hm
    rw [watermark_finalize] at hlow
    have hnone := h.above m hm hlow
    cases held : s.current? r with
    | none => rwa [finalize_of_lost held]
    | some d =>
      rw [get?_finalize held, if_neg, hnone]
      rintro ⟨ho, hg⟩
      rw [ho, hg, (current?_eq_some_iff.1 held).1] at hnone
      cases hnone

theorem Coherent.filed (h : s.Coherent) : s.Filed where
  ascending := h.ascending
  named offset group d hd topic m hm ho := by
    obtain ⟨⟨m', hm', ho'⟩, -⟩ := h.recorded offset group d hd
    exact (h.unique topic d.topic m m' (Array.mem_toList_iff.1 hm) hm' (ho.trans ho'.symm)).1

theorem Coherent.regular (h : s.Coherent) (topic group : String) : s.Regular topic group where
  ascending := h.ascending topic
  above m hm hlow := by
    cases hd : s.deliveries.get? (m.offset, group) with
    | none => rfl
    | some d =>
      have htopic := h.filed.named m.offset group d hd topic m hm rfl
      have := (h.recorded m.offset group d hd).2.2
      rw [← htopic] at this
      omega

/-- **An advance is exact.** It moves the watermark of a group to the end of the longest run of acknowledged messages
directly above it, drops the records of that run and changes nothing else, as does a scan that drops them on its way; a
second one changes nothing. With an advance after each, claims may be acknowledged in any order, be they all on this topic
or, where every record names the topic of its message, on many: the logs, records and watermarks are the same in the end.
For claims of this group on this topic they are those that a single advance makes once every claim is final. -/
theorem advance_is_exact (s : InMemory) (topic group : String) (regular : s.Regular topic group) :
    (∃ run, s.IsLongestRun topic group run ∧
      (∀ t g, (s.advance topic group).watermark t g =
        if topic = t ∧ group = g then (run.getLast?.map (·.offset)).getD (s.watermark topic group)
        else s.watermark t g) ∧
      ∀ offset g, (s.advance topic group).deliveries.get? (offset, g) =
        if g = group ∧ offset ∈ run.map (·.offset) then none else s.deliveries.get? (offset, g)) ∧
    ((s.advance topic group).topics = s.topics ∧ (s.advance topic group).lastOffset = s.lastOffset ∧
      (s.advance topic group).closed = s.closed) ∧
    ((s.advance topic group).deliveries, (s.advance topic group).watermark topic group) =
      sweep group (logAfter (s.log topic) (s.watermark topic group)) s.deliveries (s.watermark topic group) ∧
    (s.advance topic group).Regular topic group ∧
    (s.advance topic group).advance topic group = s.advance topic group ∧
    (∀ receipts receipts' : List Receipt, receipts.Perm receipts' →
      (s.Filed ∨ ∀ r ∈ receipts, ∀ d, s.current? r = some d → d.topic = topic) →
      (s.ackAll receipts).Matches (s.ackAll receipts')) ∧
    ∀ receipts : List Receipt, receipts ≠ [] → (∀ r ∈ receipts, s.IsHeld topic group r) →
      (s.ackAll receipts).Matches ((s.finalizeAll receipts).advance topic group) := by
  have hasc := regular.ascending
  refine ⟨⟨s.ackedRun topic group, isLongestRun_ackedRun hasc, ?marks, get?_advance s topic group⟩,
    ⟨topics_advance s topic group, lastOffset_advance s topic group, closed_advance s topic group⟩,
    advance_eq_sweep hasc, regular.advance, advance_advance hasc, ?order, ?once⟩
  case marks => exact watermark_advance s topic group
  case order =>
    intro receipts receipts' perm clear
    have hclear : s.Clear receipts := clear.imp_right fun named => ⟨topic, hasc, named⟩
    exact hclear.ackAll_perm perm
  case once =>
    intro receipts nonempty held
    exact ackAll_matches_advance hasc nonempty held

/-- A group that claims all three messages of one topic, and the one of another. -/
def claimedThroughout : List Store.Call :=
  [⟨0, .ofNat 0, .request (.enqueue "items" [.new (.ofNat 7) []])⟩,
    ⟨0, .ofNat 0, .commit [("notes", [.new (.ofNat 8) []]), ("items", [.new (.ofNat 9) [], .new (.ofNat 10) []])]⟩,
    ⟨0, .ofNat 1, .request (.claim ⟨"items", "workers", 0, 9, .ofSecs 30⟩)⟩,
    ⟨0, .ofNat 2, .request (.claim ⟨"notes", "workers", 0, 9, .ofSecs 30⟩)⟩]

/-- Its store with the last and the first message of the first topic made final, before any advance. -/
def unswept : InMemory :=
  (run claimedThroughout).1.finalizeAll [⟨4, "workers", .ofNat 1⟩, ⟨1, "workers", .ofNat 1⟩]

/-- The watermark stops before the message in between. That one and the message of the other topic may be acknowledged in
either order; all has been passed then. -/
theorem advance_is_exact_unswept :
    unswept.Regular "items" "workers" ∧ unswept.Filed ∧
      (unswept.advance "items" "workers").watermark "items" "workers" = 1 ∧
      (unswept.advance "items" "workers").advance "items" "workers" = unswept.advance "items" "workers" ∧
      (unswept.ackAll [⟨3, "workers", .ofNat 1⟩, ⟨2, "workers", .ofNat 2⟩]).Matches
        (unswept.ackAll [⟨2, "workers", .ofNat 2⟩, ⟨3, "workers", .ofNat 1⟩]) ∧
      unswept.IsHeld "items" "workers" ⟨3, "workers", .ofNat 1⟩ ∧
      (unswept.ackAll [⟨3, "workers", .ofNat 1⟩]).Matches
        ((unswept.finalizeAll [⟨3, "workers", .ofNat 1⟩]).advance "items" "workers") ∧
      (unswept.ackAll [⟨3, "workers", .ofNat 1⟩]).watermark "items" "workers" = 4 := by
  obtain ⟨hrefines, hfull, hmarks⟩ := kept_run claimedThroughout
  have hcoherent := hrefines.coherent hfull hmarks
  have hregular : unswept.Regular "items" "workers" := ((hcoherent.regular "items" "workers").finalize _).finalize _
  have hfiled : unswept.Filed := (hcoherent.filed.finalize _).finalize _
  have hheld : unswept.IsHeld "items" "workers" ⟨3, "workers", .ofNat 1⟩ :=
    ⟨rfl, ⟨"items", .claimed, .ofNat 1, 30000000000, 1⟩, by with_unfolding_all rfl, rfl⟩
  obtain ⟨-, -, -, -, hagain, horder, honce⟩ := advance_is_exact unswept "items" "workers" hregular
  exact ⟨hregular, hfiled, by with_unfolding_all rfl, hagain, horder _ _ (List.Perm.swap _ _ []) (Or.inl hfiled), hheld,
    honce _ (List.cons_ne_nil _ _) fun r hr => List.mem_singleton.1 hr ▸ hheld, by with_unfolding_all rfl⟩

end InMemory

end DurableBus
