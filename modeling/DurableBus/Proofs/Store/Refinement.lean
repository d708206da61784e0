import DurableBus.Proofs.Store.Advance
import DurableBus.Proofs.Store.Claiming
import DurableBus.Proofs.Store.Ledger

/-!
# The in-memory store refines the ledger

`InMemory.Refines s l` says what the store has thrown away: it keeps the entries of the ledger above the watermarks, and
every entry at or below a watermark is acknowledged.

* `Refines.current?` : a receipt is held in both or in neither;
* `Refines.appendOne`, `Refines.claim`, `Refines.ack`, …, `Refines.perform` : both sides move together and answer alike;
* `run_eq_ledger_run` : whatever is done to a store, it answers as the ledger does.
-/

set_option autoImplicit false

namespace DurableBus

/-- The record that a store keeps of an entry about a message of a topic. -/
def Entry.record (topic : String) (e : Entry) : DeliveryRecord := ⟨topic, e.state, e.token, e.visibleAt, e.count⟩

namespace InMemory

/-- The store holds what the ledger holds, apart from what lies at or below a watermark: that is acknowledged, and its
records are gone. -/
structure Refines (s : InMemory) (l : Ledger) : Prop where
  sound : l.Sound
  lastOffset : s.lastOffset = l.lastOffset
  closed : s.closed = l.closed
  log : ∀ topic, (s.log topic).toList = l.log topic
  mark : ∀ topic group, 0 ≤ s.watermark topic group ∧ s.watermark topic group ≤ l.lastOffset
  kept : ∀ topic m group, m ∈ l.log topic → s.watermark topic group < m.offset →
    s.deliveries.get? (m.offset, group) = (l.entries m.offset group).map (·.record topic)
  dropped : ∀ topic m group, m ∈ l.log topic → m.offset ≤ s.watermark topic group →
    s.deliveries.get? (m.offset, group) = none ∧ ∃ e, l.entries m.offset group = some e ∧ e.state = .acked
  known : ∀ offset group d, s.deliveries.get? (offset, group) = some d → ∃ topic m, m ∈ l.log topic ∧ m.offset = offset

theorem refines_empty : Refines empty Ledger.empty where
  sound := Ledger.sound_empty
  lastOffset := rfl
  closed := rfl
  log _ := rfl
  mark _ _ := ⟨Int.le_refl _, Int.le_refl _⟩
  kept _ _ _ h := by simp [Ledger.log, Ledger.empty] at h
  dropped _ _ _ h := by simp [Ledger.log, Ledger.empty] at h
  known _ _ _ h := by simp [empty, Table.empty, Table.get?] at h

variable {s : InMemory} {l : Ledger}

theorem Refines.ascending (h : Refines s l) (topic : String) :
    (s.log topic).toList.Pairwise (·.offset < ·.offset) := by
  rw [h.log]
  exact h.sound.log_ascending topic

/-- A record belongs to an entry above the watermark of its topic. -/
theorem Refines.of_record (h : Refines s l) {offset : Int} {group : String} {d : DeliveryRecord}
    (hd : s.deliveries.get? (offset, group) = some d) :
    ∃ topic m e, m ∈ l.log topic ∧ m.offset = offset ∧ s.watermark topic group < offset ∧
      l.entries offset group = some e ∧ d = e.record topic := by
  obtain ⟨topic, m, hm, rfl⟩ := h.known offset group d hd
  by_cases habove : s.watermark topic group < m.offset
  · rw [h.kept topic m group hm habove] at hd
    obtain ⟨e, he, rfl⟩ := Option.map_eq_some_iff.1 hd
    exact ⟨topic, m, e, hm, rfl, habove, he, rfl⟩
  · rw [(h.dropped topic m group hm (by omega)).1] at hd
    cases hd

theorem Refines.of_entry (h : Refines s l) {offset : Int} {group : String} {e : Entry}
    (he : l.entries offset group = some e) (hopen : e.state ≠ .acked) :
    ∃ topic m, m ∈ l.log topic ∧ m.offset = offset ∧ s.watermark topic group < offset ∧
      s.deliveries.get? (offset, group) = some (e.record topic) := by
  obtain ⟨topic, m, hm, rfl⟩ := h.sound.known offset group e he
  by_cases habove : s.watermark topic group < m.offset
  · exact ⟨topic, m, hm, rfl, habove, by rw [h.kept topic m group hm habove, he, Option.map_some]⟩
  · obtain ⟨-, e', he', hacked⟩ := h.dropped topic m group hm (by omega)
    rw [he] at he'
    exact absurd (Option.some.inj he' ▸ hacked) hopen

/-- **A receipt is held** by the store exactly when it is held by the ledger. -/
theorem Refines.current? (h : Refines s l) (r : Receipt) :
    (l.current? r = none ∧ s.current? r = none) ∨
      ∃ topic m e, m ∈ l.log topic ∧ m.offset = r.offset ∧ s.watermark topic r.group < r.offset ∧
        l.current? r = some e ∧ s.current? r = some (e.record topic) := by
  cases hl : l.current? r with
  | some e =>
    obtain ⟨he, hstate, htoken⟩ := Ledger.current?_eq_some.1 hl
    obtain ⟨topic, m, hm, ho, habove, hd⟩ := h.of_entry he (by rw [hstate]; decide)
    refine Or.inr ⟨topic, m, e, hm, ho, habove, rfl, ?_⟩
    unfold InMemory.current?
    rw [hd]
    simp [Option.filter, Entry.record, hstate, htoken]
  | none =>
    refine Or.inl ⟨rfl, ?_⟩
    cases hs : s.current? r with
    | none => rfl
    | some d =>
      unfold InMemory.current? at hs
      obtain ⟨hd, hheld⟩ := Option.filter_eq_some_iff.1 hs
      obtain ⟨topic, m, e, -, -, -, he, rfl⟩ := h.of_record hd
      simp only [Entry.record, Bool.and_eq_true, beq_iff_eq] at hheld
      rw [Ledger.current?_eq_some.2 ⟨he, hheld⟩] at hl
      cases hl

/-! ## Writing -/

theorem log_appendOne (s : InMemory) (now : Instant) (topic : String) (m : Message) (t : String) :
    ((s.appendOne now topic m).log t).toList =
      if topic = t then (s.log t).toList ++ [⟨s.lastOffset + 1, m, now / 1000⟩] else (s.log t).toList := by
  simp only [appendOne, InMemory.log, Table.get?_put]
  split
  case isTrue same => simp [same]
  case isFalse => rfl

theorem Refines.appendOne (h : Refines s l) (now : Instant) (topic : String) (m : Message) :
    Refines (s.appendOne now topic m) (l.appendOne now topic m) := by
  -- the new message is above every watermark and has no entry yet
  have hnew : ∀ group, l.entries (l.lastOffset + 1) group = none := by
    intro group
    cases he : l.entries (l.lastOffset + 1) group with
    | none => rfl
    | some e =>
      obtain ⟨t, m', hm', ho⟩ := h.sound.known _ _ _ he
      have := (h.sound.within t m' hm').2
      omega
  have hfresh : ∀ group, s.deliveries.get? (l.lastOffset + 1, group) = none := by
    intro group
    cases hd : s.deliveries.get? (l.lastOffset + 1, group) with
    | none => rfl
    | some d =>
      obtain ⟨t, m', hm', ho⟩ := h.known _ _ _ hd
      have := (h.sound.within t m' hm').2
      omega
  have hcases : ∀ t m', m' ∈ (l.appendOne now topic m).log t → m' ∈ l.log t ∨ m'.offset = l.lastOffset + 1 := by
    intro t m' hm'
    rw [Ledger.log_appendOne] at hm'
    split at hm'
    · rcases List.mem_append.1 hm' with hm' | hm'
      · exact Or.inl hm'
      · exact Or.inr (by rw [List.mem_singleton.1 hm'])
    · exact Or.inl hm'
  refine ⟨h.sound.appendOne now topic m, ?_, h.closed, fun t => ?_, fun t g => ?_, fun t m' g hm' habove => ?_,
    fun t m' g hm' hbelow => ?_, fun offset g d hd => ?_⟩
  · show s.lastOffset + 1 = l.lastOffset + 1
    rw [h.lastOffset]
  · rw [log_appendOne, Ledger.log_appendOne, h.log, h.lastOffset]
  · have := h.mark t g
    refine ⟨this.1, ?_⟩
    show s.watermark t g ≤ l.lastOffset + 1
    omega
  · rcases hcases t m' hm' with hold | hlast
    · exact h.kept t m' g hold habove
    · rw [hlast]
      show s.deliveries.get? _ = (l.entries _ g).map _
      rw [hnew, hfresh, Option.map_none]
  · rcases hcases t m' hm' with hold | hlast
    · exact h.dropped t m' g hold hbelow
    · have hmark : m'.offset ≤ s.watermark t g := hbelow
      have := h.mark t g
      omega
  · obtain ⟨t, m', hm', ho⟩ := h.known offset g d hd
    refine ⟨t, m', ?_, ho⟩
    rw [Ledger.log_appendOne]
    split
    · exact List.mem_append_left _ hm'
    · exact hm'

theorem Refines.append (h : Refines s l) (now : Instant) (topic : String) (messages : List Message) :
    Refines (s.append now topic messages) (l.append now topic messages) := by
  unfold InMemory.append Ledger.append
  induction messages generalizing s l with
  | nil => exact h
  | cons m rest ih => exact ih (h.appendOne now topic m)

theorem Refines.commit (h : Refines s l) (now : Instant) (staged : List (String × List Message)) :
    (∃ s' l', s.commit now staged = .ok s' ∧ l.commit now staged = .ok l' ∧ Refines s' l') ∨
      (s.commit now staged = .error .closed ∧ l.commit now staged = .error .closed) := by
  unfold InMemory.commit Ledger.commit
  rw [h.closed]
  cases l.closed with
  | true => exact Or.inr ⟨rfl, rfl⟩
  | false =>
    refine Or.inl ⟨_, _, rfl, rfl, ?_⟩
    induction staged generalizing s l with
    | nil => exact h
    | cons w rest ih => exact ih (h.append now w.1 w.2)

/-! ## Claiming -/

theorem claimable_record (now : Instant) (topic : String) (e : Option Entry) :
    claimable (e.map (·.record topic)) now = Entry.isOpen now e := by
  cases e <;> rfl

theorem claimedRecord_record (request : ClaimRequest) (now : Instant) (token : Uuid) (e : Option Entry) :
    claimedRecord request now token (e.map (·.record request.topic)) =
      (Entry.claimed now token request.lease e).record request.topic := by
  cases e <;> rfl

/-- What is at or below the watermark is acknowledged, so the store may begin behind it. -/
theorem Refines.taken_eq (h : Refines s l) (now : Instant) (request : ClaimRequest) :
    taken request now request.limit
        (logAfter (s.log request.topic) (max request.after (s.watermark request.topic request.group))) s.deliveries =
      l.chosen now request := by
  unfold taken Ledger.chosen
  rw [logAfter_eq_filter (h.ascending _), h.log, List.filter_filter]
  congr 1
  apply List.filter_congr
  intro m hm
  by_cases habove : s.watermark request.topic request.group < m.offset
  · rw [h.kept request.topic m request.group hm habove, claimable_record, Bool.and_comm]
    congr 1
    rw [decide_eq_decide]
    omega
  · obtain ⟨-, e, he, hacked⟩ := h.dropped request.topic m request.group hm (by omega)
    have hclosed : Entry.isOpen now (l.entries m.offset request.group) = false := by
      simp [Entry.isOpen, he, hacked]
    have hstart : ¬ max request.after (s.watermark request.topic request.group) < m.offset := by omega
    rw [hclosed, decide_eq_false hstart, Bool.and_false, Bool.and_false]

theorem Refines.nodup_logAfter (h : Refines s l) (topic : String) (offset : Int) :
    ((logAfter (s.log topic) offset).map (·.offset)).Nodup := by
  rw [logAfter_eq_filter (h.ascending _), h.log]
  exact (List.filter_sublist.map _).nodup (h.sound.log_nodup topic)

theorem Refines.claim (h : Refines s l) (now : Instant) (token : Uuid) (request : ClaimRequest) :
    Refines (s.claim now token request).1 (l.claim now token request).1 ∧
      (s.claim now token request).2 = (l.claim now token request).2 := by
  have hnodup := h.nodup_logAfter request.topic (max request.after (s.watermark request.topic request.group))
  -- whatever is chosen is on the topic of the request, above the watermark
  have hchosen : ∀ m ∈ l.chosen now request, m ∈ l.log request.topic ∧
      s.deliveries.get? (m.offset, request.group) = (l.entries m.offset request.group).map (·.record request.topic) := by
    intro m hm
    obtain ⟨hlog, -, hopen⟩ := Ledger.mem_chosen hm
    refine ⟨hlog, h.kept _ m _ hlog ?_⟩
    by_cases habove : s.watermark request.topic request.group < m.offset
    · exact habove
    · obtain ⟨-, e, he, hacked⟩ := h.dropped request.topic m request.group hlog (by omega)
      rw [he] at hopen
      simp [Entry.isOpen, hacked] at hopen
  have hentries : ∀ offset group, (l.claim now token request).1.entries offset group =
      if group = request.group ∧ offset ∈ (l.chosen now request).map (·.offset) then
        some (Entry.claimed now token request.lease (l.entries offset request.group))
      else l.entries offset group := fun _ _ => rfl
  have hget : ∀ offset group, (s.claim now token request).1.deliveries.get? (offset, group) =
      if group = request.group ∧ offset ∈ (l.chosen now request).map (·.offset) then
        some (claimedRecord request now token (s.deliveries.get? (offset, group)))
      else s.deliveries.get? (offset, group) := by
    intro offset group
    rw [← h.taken_eq now request]
    exact get?_claimFrom request now token _ _ _ hnodup offset group
  refine ⟨⟨h.sound.claim now token request, h.lastOffset, h.closed, h.log, h.mark, fun t m g hm habove => ?_,
    fun t m g hm hbelow => ?_, fun offset g d hd => ?_⟩, ?_⟩
  · rw [hget, hentries]
    split
    case isTrue htaken =>
      obtain ⟨rfl, htaken⟩ := htaken
      obtain ⟨m', hm', ho⟩ := List.mem_map.1 htaken
      obtain ⟨rfl, rfl⟩ := h.sound.unique hm (hchosen m' hm').1 ho.symm
      rw [(hchosen m hm').2, claimedRecord_record, Option.map_some]
    case isFalse => exact h.kept t m g hm habove
  · have hnot : ¬ (g = request.group ∧ m.offset ∈ (l.chosen now request).map (·.offset)) := by
      rintro ⟨rfl, htaken⟩
      obtain ⟨m', hm', ho⟩ := List.mem_map.1 htaken
      obtain ⟨-, -, hopen⟩ := Ledger.mem_chosen hm'
      obtain ⟨-, e, he, hacked⟩ := h.dropped t m _ hm hbelow
      rw [ho, he] at hopen
      simp [Entry.isOpen, hacked] at hopen
    rw [hget, hentries, if_neg hnot, if_neg hnot]
    exact h.dropped t m g hm hbelow
  · rw [hget] at hd
    split at hd
    case isTrue htaken =>
      obtain ⟨m, hm, ho⟩ := List.mem_map.1 htaken.2
      exact ⟨request.topic, m, (hchosen m hm).1, ho⟩
    case isFalse => exact h.known offset g d hd
  · show (claimFrom request now token request.limit _ s.deliveries).2 = _
    rw [claimFrom_taken request now token _ _ _ hnodup, h.taken_eq now request]
    apply List.map_congr_left
    intro m hm
    unfold claimedOf
    rw [(hchosen m hm).2, claimedRecord_record]
    rfl

/-! ## Settling -/

theorem Refines.put (h : Refines s l) {r : Receipt} {topic : String} {m : Stored} (hm : m ∈ l.log topic)
    (ho : m.offset = r.offset) (habove : s.watermark topic r.group < r.offset) {e : Entry} (held : l.current? r = some e)
    (e' : Entry) : Refines (s.putRecord r (e'.record topic)) (l.putEntry r e') := by
  have hentries : ∀ offset group, (l.putEntry r e').entries offset group =
      if offset = r.offset ∧ group = r.group then some e' else l.entries offset group := fun _ _ => rfl
  have hget : ∀ offset group, (s.putRecord r (e'.record topic)).deliveries.get? (offset, group) =
      if offset = r.offset ∧ group = r.group then some (e'.record topic) else s.deliveries.get? (offset, group) := by
    intro offset group
    show (s.deliveries.put _ _).get? _ = _
    rw [Table.get?_put]
    by_cases same : offset = r.offset ∧ group = r.group
    · rw [if_pos same, if_pos (by rw [same.1, same.2])]
    · rw [if_neg same, if_neg]
      exact fun heq => same ⟨(Prod.mk.inj heq).1.symm, (Prod.mk.inj heq).2.symm⟩
  refine ⟨h.sound.putEntry held e', h.lastOffset, h.closed, h.log, h.mark, fun t m' g hm' habove' => ?_,
    fun t m' g hm' hbelow => ?_, fun offset g d hd => ?_⟩
  · rw [hget, hentries]
    split
    case isTrue same =>
      obtain ⟨rfl, -⟩ := h.sound.unique hm' hm (same.1.trans ho.symm)
      rfl
    case isFalse => exact h.kept t m' g hm' habove'
  · have hnot : ¬ (m'.offset = r.offset ∧ g = r.group) := by
      rintro ⟨hoffset, rfl⟩
      obtain ⟨rfl, -⟩ := h.sound.unique hm' hm (hoffset.trans ho.symm)
      have hmark : m'.offset ≤ s.watermark t r.group := hbelow
      omega
    rw [hget, hentries, if_neg hnot, if_neg hnot]
    exact h.dropped t m' g hm' hbelow
  · rw [hget] at hd
    split at hd
    case isTrue same => exact ⟨topic, m, hm, by rw [ho, same.1]⟩
    case isFalse => exact h.known offset g d hd

/-- Moving a watermark throws away acknowledged records only. -/
theorem Refines.advance (h : Refines s l) (topic group : String) : Refines (s.advance topic group) l := by
  have hasc := h.ascending topic
  have hrun : ∀ m ∈ s.ackedRun topic group, m ∈ l.log topic ∧ s.watermark topic group < m.offset ∧
      m.offset ≤ s.markAfter topic group ∧ ∃ e, l.entries m.offset group = some e ∧ e.state = .acked := by
    intro m hm
    obtain ⟨hlog, habove, hacked, hle⟩ := mem_ackedRun hasc hm
    rw [h.log] at hlog
    refine ⟨hlog, habove, hle, ?_⟩
    rw [isAcked, h.kept topic m group hlog habove, Option.any_map, Option.any_eq_true] at hacked
    obtain ⟨e, he, hstate⟩ := hacked
    exact ⟨e, he, by simpa [Entry.record] using hstate⟩
  have hle : s.watermark topic group ≤ s.markAfter topic group := watermark_le_markAfter hasc
  refine ⟨h.sound, by rw [lastOffset_advance, h.lastOffset], by rw [closed_advance, h.closed],
    fun t => by rw [log_advance, h.log], fun t g => ?_, fun t m g hm habove => ?_, fun t m g hm hbelow => ?_,
    fun offset g d hd => ?_⟩
  · rw [watermark_advance]
    have := h.mark t g
    split
    case isTrue same =>
      obtain ⟨rfl, rfl⟩ := same
      rcases markAfter_eq s topic group with heq | ⟨m, hm, heq⟩
      · omega
      · have := (h.sound.within topic m (hrun m hm).1).2
        omega
    case isFalse => exact this
  · rw [get?_advance, if_neg]
    · apply h.kept t m g hm
      rw [watermark_advance] at habove
      split at habove
      case isTrue same =>
        obtain ⟨rfl, rfl⟩ := same
        omega
      case isFalse => exact habove
    · rintro ⟨rfl, hmem⟩
      obtain ⟨m', hm', ho⟩ := List.mem_map.1 hmem
      obtain ⟨rfl, rfl⟩ := h.sound.unique hm (hrun m' hm').1 ho.symm
      have := (hrun m hm').2.2.1
      rw [watermark_advance, if_pos ⟨rfl, rfl⟩] at habove
      omega
  · rw [watermark_advance] at hbelow
    rw [get?_advance]
    by_cases hin : g = group ∧ m.offset ∈ (s.ackedRun topic group).map (·.offset)
    · rw [if_pos hin]
      obtain ⟨rfl, hmem⟩ := hin
      obtain ⟨m', hm', ho⟩ := List.mem_map.1 hmem
      exact ⟨rfl, ho ▸ (hrun m' hm').2.2.2⟩
    · rw [if_neg hin]
      apply h.dropped t m g hm
      split at hbelow
      case isTrue same =>
        obtain ⟨rfl, rfl⟩ := same
        by_cases habove : s.watermark topic group < m.offset
        · exact absurd ⟨rfl, List.mem_map_of_mem (mem_ackedRun_of_le hasc (by rwa [h.log]) habove hbelow)⟩ hin
        · omega
      case isFalse => exact hbelow
  · rw [get?_advance] at hd
    split at hd
    case isTrue => cases hd
    case isFalse => exact h.known offset g d hd

theorem Refines.ack (h : Refines s l) (r : Receipt) :
    Refines (s.ack r).1 (l.ack r).1 ∧ (s.ack r).2 = (l.ack r).2 := by
  rcases h.current? r with ⟨hl, hs⟩ | ⟨topic, m, e, hm, ho, habove, hl, hs⟩
  · simp only [InMemory.ack, Ledger.ack, hl, hs]
    exact ⟨h, trivial⟩
  · simp only [InMemory.ack, Ledger.ack, hl, hs]
    exact ⟨(h.put hm ho habove hl { e with state := .acked }).advance _ _, trivial⟩

theorem Refines.nack (h : Refines s l) (now : Instant) (r : Receipt) (d : Duration) :
    Refines (s.nack now r d).1 (l.nack now r d).1 ∧ (s.nack now r d).2 = (l.nack now r d).2 := by
  rcases h.current? r with ⟨hl, hs⟩ | ⟨topic, m, e, hm, ho, habove, hl, hs⟩
  · simp only [InMemory.nack, Ledger.nack, hl, hs]
    exact ⟨h, trivial⟩
  · simp only [InMemory.nack, Ledger.nack, hl, hs]
    exact ⟨h.put hm ho habove hl { e with state := .nacked, visibleAt := now.plus d }, trivial⟩

theorem Refines.renew (h : Refines s l) (now : Instant) (r : Receipt) (lease : Duration) :
    Refines (s.renew now r lease).1 (l.renew now r lease).1 ∧ (s.renew now r lease).2 = (l.renew now r lease).2 := by
  rcases h.current? r with ⟨hl, hs⟩ | ⟨topic, m, e, hm, ho, habove, hl, hs⟩
  · simp only [InMemory.renew, Ledger.renew, hl, hs]
    exact ⟨h, trivial⟩
  · simp only [InMemory.renew, Ledger.renew, hl, hs]
    exact ⟨h.put hm ho habove hl { e with visibleAt := now.plus lease }, trivial⟩

theorem watermark_forgetGroup (s : InMemory) (topic group t g : String) :
    (s.forgetGroup topic group).watermark t g = if t = topic ∧ g = group then 0 else s.watermark t g := by
  simp only [watermark, forgetGroup, Table.get?_erase, Prod.mk.injEq]
  split <;> rfl

theorem Refines.forgetGroup (h : Refines s l) (topic group : String) :
    Refines (s.forgetGroup topic group) (l.forgetGroup topic group) := by
  have hget : ∀ offset g, (s.forgetGroup topic group).deliveries.get? (offset, g) =
      (s.deliveries.get? (offset, g)).filter fun d => !(g == group && d.topic == topic) :=
    fun offset g => Table.get?_retain _ _ _
  have hentries : ∀ offset g, (l.forgetGroup topic group).entries offset g =
      if g = group ∧ offset ∈ (l.log topic).map (·.offset) then none else l.entries offset g := fun _ _ => rfl
  refine ⟨h.sound.forgetGroup topic group, h.lastOffset, h.closed, h.log, fun t g => ?_, fun t m g hm habove => ?_,
    fun t m g hm hbelow => ?_, fun offset g d hd => ?_⟩
  · rw [watermark_forgetGroup]
    split
    · exact ⟨Int.le_refl _, h.sound.nonneg⟩
    · exact h.mark t g
  · rw [hget, hentries]
    by_cases same : t = topic ∧ g = group
    · obtain ⟨rfl, rfl⟩ := same
      rw [if_pos ⟨rfl, List.mem_map_of_mem hm⟩, Option.map_none]
      by_cases hold : s.watermark t g < m.offset
      · rw [h.kept t m g hm hold]
        cases l.entries m.offset g <;> simp [Entry.record, Option.filter]
      · rw [(h.dropped t m g hm (by omega)).1]
        rfl
    · rw [watermark_forgetGroup, if_neg same] at habove
      rw [h.kept t m g hm habove, if_neg]
      · cases l.entries m.offset g with
        | none => rfl
        | some e =>
          have hother : (g == group && t == topic) = false := by
            rw [Bool.and_eq_false_imp, beq_iff_eq, beq_eq_false_iff_ne]
            exact fun hg ht => same ⟨ht, hg⟩
          simp [Entry.record, Option.filter, hother]
      · rintro ⟨rfl, hmem⟩
        obtain ⟨m', hm', ho⟩ := List.mem_map.1 hmem
        exact same ⟨(h.sound.unique hm hm' ho.symm).1, rfl⟩
  · have hother : ¬ (t = topic ∧ g = group) := by
      intro same
      rw [watermark_forgetGroup, if_pos same] at hbelow
      have := (h.sound.within t m hm).1
      omega
    rw [watermark_forgetGroup, if_neg hother] at hbelow
    obtain ⟨hnone, e, he, hacked⟩ := h.dropped t m g hm hbelow
    refine ⟨by rw [hget, hnone]; rfl, e, ?_, hacked⟩
    rw [hentries, if_neg, he]
    rintro ⟨rfl, hmem⟩
    obtain ⟨m', hm', ho⟩ := List.mem_map.1 hmem
    exact hother ⟨(h.sound.unique hm hm' ho.symm).1, rfl⟩
  · rw [hget] at hd
    exact h.known offset g d (Option.filter_eq_some_iff.1 hd).1

/-! ## Requests and runs -/

theorem Refines.head (h : Refines s l) (topic : String) : s.head topic = l.head topic := by
  rw [InMemory.head, Ledger.head, ← h.log, ← Array.getLast?_toList]

theorem Refines.close (h : Refines s l) : Refines { s with closed := true } { l with closed := true } :=
  ⟨⟨h.sound.ascending, h.sound.within, h.sound.nonneg, h.sound.known⟩, h.lastOffset, rfl, h.log, h.mark, h.kept,
    h.dropped, h.known⟩

/-- **Both sides carry out a request** in the same way and answer alike. -/
theorem Refines.perform (h : Refines s l) (now : Instant) (token : Uuid) (request : Store.Request) :
    Refines (s.perform now token request).1 (l.perform now token request).1 ∧
      (s.perform now token request).2 = (l.perform now token request).2 := by
  by_cases hclose : request = .close
  · subst hclose
    exact ⟨h.close, rfl⟩
  · cases hclosed : l.closed with
    | true =>
      have hs : s.perform now token request = (s, .error .closed, []) := by
        unfold InMemory.perform
        rw [h.closed, hclosed]
        cases request <;> first | rfl | exact absurd rfl hclose
      have hl : l.perform now token request = (l, .error .closed, []) := by
        unfold Ledger.perform
        rw [if_neg hclose, hclosed]
        rfl
      rw [hs, hl]
      exact ⟨h, rfl⟩
    | false =>
      have hopen : s.closed = false := h.closed.trans hclosed
      unfold InMemory.perform Ledger.perform
      rw [if_neg hclose]
      simp only [hclosed, hopen]
      cases request with
      | setUp | ping | stage => exact ⟨h, rfl⟩
      | close => exact absurd rfl hclose
      | enqueue topic messages => exact ⟨h.append now topic messages, rfl⟩
      | head topic => exact ⟨h, by simp [h.head]⟩
      | claim request =>
        obtain ⟨hrefines, hsame⟩ := h.claim now token request
        exact ⟨hrefines, by simp [hsame]⟩
      | ack r =>
        obtain ⟨hrefines, hsame⟩ := h.ack r
        exact ⟨hrefines, by simp [hsame]⟩
      | nack r d =>
        obtain ⟨hrefines, hsame⟩ := h.nack now r d
        exact ⟨hrefines, by simp [hsame]⟩
      | renew r lease =>
        obtain ⟨hrefines, hsame⟩ := h.renew now r lease
        exact ⟨hrefines, by simp [hsame]⟩
      | forgetGroup topic group => exact ⟨h.forgetGroup topic group, rfl⟩

theorem Refines.call (h : Refines s l) (c : Store.Call) :
    Refines (s.call c).1 (l.call c).1 ∧ (s.call c).2 = (l.call c).2 := by
  obtain ⟨now, token, action⟩ := c
  cases action with
  | request request => exact h.perform now token request
  | commit staged =>
    unfold InMemory.call Ledger.call
    rcases h.commit now staged with ⟨s', l', hs, hl, hrefines⟩ | ⟨hs, hl⟩
    · simp only [hs, hl]
      exact ⟨hrefines, trivial⟩
    · simp only [hs, hl]
      exact ⟨h, trivial⟩

theorem Refines.play (h : Refines s l) (calls : List Store.Call) :
    Refines (Store.play InMemory.call s calls).1 (Store.play Ledger.call l calls).1 ∧
      (Store.play InMemory.call s calls).2 = (Store.play Ledger.call l calls).2 := by
  induction calls generalizing s l with
  | nil => exact ⟨h, rfl⟩
  | cons c rest ih =>
    obtain ⟨hrefines, hsame⟩ := h.call c
    obtain ⟨hlater, hrest⟩ := ih hrefines
    exact ⟨hlater, by simp only [Store.play, hsame, hrest]⟩

/-- Whether a group is done with a message of a topic for good: it has acknowledged the message, or all up to there. -/
def isFinal (s : InMemory) (topic group : String) (offset : Int) : Bool :=
  offset ≤ s.watermark topic group || (s.deliveries.get? (offset, group)).any (·.state == .acked)

theorem Refines.isFinal (h : Refines s l) {topic : String} {m : Stored} (hm : m ∈ l.log topic) {group : String} :
    s.isFinal topic group m.offset = l.isFinal group m.offset := by
  unfold InMemory.isFinal Ledger.isFinal
  by_cases habove : s.watermark topic group < m.offset
  · rw [h.kept topic m group hm habove, decide_eq_false (by omega), Bool.false_or, Option.any_map]
    rfl
  · obtain ⟨-, e, he, hacked⟩ := h.dropped topic m group hm (by omega)
    rw [decide_eq_true (by omega), he, Option.any_some, hacked]
    rfl

/-- A message that is not final is returned by every claim with room for it once it is visible. -/
theorem Refines.claim_returns (h : Refines s l) {request : ClaimRequest} {now : Instant} {token : Uuid} {m : Stored}
    (hclosed : s.closed = false) (hm : m ∈ s.log request.topic)
    (hopen : s.isFinal request.topic request.group m.offset = false)
    (visible : ∀ d, s.deliveries.get? (m.offset, request.group) = some d → d.visibleAt ≤ now)
    (behind : request.after < m.offset) (room : (s.log request.topic).size ≤ request.limit) :
    ∃ messages, (s.perform now token (.claim request)).2 = (.ok (.claimed messages), []) ∧
      ∃ k ∈ messages, k.receipt.offset = m.offset ∧ k.message = m.message := by
  have hlog : m ∈ l.log request.topic := by rwa [← h.log, Array.mem_toList_iff]
  refine ⟨(l.claim now token request).2, ?_, ?_⟩
  · rw [(h.perform now token (.claim request)).2, Ledger.perform, if_neg (by simp), ← h.closed, hclosed]
    rfl
  · have habove : s.watermark request.topic request.group < m.offset := by
      unfold InMemory.isFinal at hopen
      rw [Bool.or_eq_false_iff, decide_eq_false_iff_not] at hopen
      omega
    rw [h.isFinal hlog] at hopen
    rw [h.kept _ m _ hlog habove] at visible
    have hchosen : m ∈ l.chosen now request := by
      refine Ledger.mem_chosen_of_room hlog behind ?_ (by rwa [← h.log, Array.length_toList])
      unfold Ledger.isFinal at hopen
      cases he : l.entries m.offset request.group with
      | none => rfl
      | some e =>
        rw [he, Option.any_some] at hopen
        rw [he] at visible
        simp only [Entry.isOpen, Bool.and_eq_true, decide_eq_true_eq, bne, hopen, Bool.not_false, true_and]
        exact visible (e.record request.topic) rfl
    exact ⟨_, List.mem_map_of_mem hchosen, rfl, rfl⟩

/-- A store and a ledger to which the same has been done. -/
theorem refines_run (calls : List Store.Call) : Refines (run calls).1 (Ledger.run calls).1 :=
  (refines_empty.play calls).1

/-- **The store refines the ledger.** Whatever is done to a store in whatever order, with the same clock readings and
tokens it answers and notes exactly what the ledger does, which keeps every entry and knows no watermark. -/
theorem run_eq_ledger_run (calls : List Store.Call) : (run calls).2 = (Ledger.run calls).2 :=
  (refines_empty.play calls).2

end InMemory

end DurableBus
