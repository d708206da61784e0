import Mathlib.Data.List.Nodup
import DurableBus.Proofs.Store.Coherence

/-!
# What a store keeps of what a group has handled

A record goes when the watermark passes its message, and a watermark passes only what is acknowledged. A group whose
claims are all made behind one offset never acknowledges what lies at or below it: if there is such a message on the
topic, the watermark stops before it for good.

* `acknowledged_iff` : what is final is what has been acknowledged since the group last forgot the topic;
* `Untouched.call` : a group that claims behind an offset has no entry at or below it;
* `Marks.reached`, `Marks.stuck` : a watermark that has passed everything, and one that passes nothing;
* `handled_is_reclaimed` : what is kept, and what a claim looks at, once a group has acknowledged all that it may claim.
-/

set_option autoImplicit false

namespace DurableBus

open Store (Call)

theorem Table.mem_rows_iff {κ α : Type} [DecidableEq κ] (t : Table κ α) (key : κ) (value : α) :
    (key, value) ∈ t.rows ↔ t.get? key = some value := by
  unfold get?
  constructor
  · intro h
    have hfound : (t.rows.find? (·.1 = key)).isSome := List.find?_isSome.2 ⟨(key, value), h, decide_eq_true rfl⟩
    obtain ⟨row, hrow⟩ := Option.isSome_iff_exists.1 hfound
    have hkey := List.find?_some hrow
    rw [decide_eq_true_eq] at hkey
    -- the row that is found has the same key, so that it is the same row
    have hsame : row = (key, value) :=
      List.inj_on_of_nodup_map (List.pairwise_map.2 t.distinct) (List.mem_of_find?_eq_some hrow) h hkey
    rw [hrow, hsame, Option.map_some]
  · intro h
    obtain ⟨row, hrow, rfl⟩ := Option.map_eq_some_iff.1 h
    have hkey := List.find?_some hrow
    rw [decide_eq_true_eq] at hkey
    exact hkey ▸ List.mem_of_find?_eq_some hrow

namespace InMemory

def records (s : InMemory) (topic group : String) : List (Int × DeliveryRecord) :=
  (s.deliveries.rows.filter fun row => row.1.2 = group ∧ row.2.topic = topic).map fun row => (row.1.1, row.2)

/-- The part of a log that a claim of a group behind an offset looks at. -/
def scanned (s : InMemory) (topic group : String) (start : Int) : List Stored :=
  logAfter (s.log topic) (max start (s.watermark topic group))

/-- Whether all claims of a group on a topic are made behind one offset. -/
def ClaimsBehind (topic group : String) (start : Int) (calls : List Call) : Prop :=
  ∀ c ∈ calls, ∀ request, c.action = .request (.claim request) → request.topic = topic → request.group = group →
    request.after = start

/-- Whether a group has acknowledged a message since it last forgot its topic. -/
def Acknowledged (calls : List Call) (topic group : String) (offset : Int) : Prop :=
  ∃ before x after, trail calls = before ++ x :: after ∧ x.Acks offset group ∧ ∀ y ∈ after, ¬ y.Forgets topic group

variable {s : InMemory} {l : Ledger} {c : Call} {topic group : String} {start : Int} {calls : List Call} {m : Stored}

/-! ## What has been acknowledged -/

/-- What is final stays final unless the group forgets the topic. -/
theorem isFinal_call (refines : s.Refines l) (hm : m ∈ l.log topic) (final : l.isFinal group m.offset)
    (keeps : ¬ Visit.Forgets topic group (s, c)) : (l.call c).1.isFinal group m.offset := by
  obtain ⟨now, token, action⟩ := c
  cases action with
  | commit staged =>
    unfold Ledger.isFinal
    rw [l.entries_call_commit]
    exact final
  | request request =>
    show (l.perform now token request).1.isFinal group m.offset
    by_cases forgets : request = .forgetGroup topic group
    · have hclosed : l.closed = true := by
        cases h : l.closed with
        | true => rfl
        | false => exact absurd ⟨congrArg _ forgets, refines.closed.trans h⟩ keeps
      rw [Ledger.perform_of_closed hclosed (by rw [forgets]; simp)]
      exact final
    · exact Ledger.isFinal_perform refines.sound ⟨m, hm, rfl⟩ forgets final

theorem isFinal_of_acks (refines : s.Refines l) {offset : Int} (acks : Visit.Acks offset group (s, c)) :
    (∃ t, ∃ m ∈ l.log t, m.offset = offset) ∧ (l.call c).1.isFinal group offset := by
  obtain ⟨now, token, action⟩ := c
  obtain ⟨r, rfl, rfl, rfl, hopen, held⟩ := acks
  rcases refines.current? r with ⟨-, hlost⟩ | ⟨t, m, e, hm, ho, -, he, -⟩
  · rw [hlost] at held
    cases held
  · have hfinal : (l.perform now token (.ack r)).1.isFinal r.group r.offset :=
      Ledger.isFinal_ack (refines.closed.symm.trans hopen) he
    exact ⟨⟨t, m, hm, ho⟩, hfinal⟩

/-- What a group has acknowledged is stored, and final if it is on the topic that the group has not forgotten. -/
theorem stored_of_acknowledged {offset : Int} (h : Acknowledged calls topic group offset) :
    ∃ t, ∃ m ∈ (Ledger.run calls).1.log t, m.offset = offset ∧
      (t = topic → (Ledger.run calls).1.isFinal group offset) := by
  induction calls using List.reverseRecOn with
  | nil =>
    obtain ⟨before, x, after, htrail, -⟩ := h
    exact absurd (congrArg List.length htrail) (by simp [trail, trailFrom])
  | append_singleton calls c ih =>
    have hrefines := refines_run calls
    have hext := (Ledger.run calls).1.extends_call c
    obtain ⟨before, x, after, htrail, hacks, hkeeps⟩ := h
    rw [Ledger.run_concat]
    rw [trail_concat] at htrail
    rcases List.eq_nil_or_concat after with rfl | ⟨after, y, rfl⟩
    · obtain ⟨-, hlast⟩ := List.append_inj' htrail rfl
      obtain rfl := List.singleton_inj.1 hlast
      obtain ⟨⟨t, m, hm, ho⟩, hfinal⟩ := isFinal_of_acks hrefines hacks
      exact ⟨t, m, hext.mem_log hm, ho, fun _ => hfinal⟩
    · rw [List.concat_eq_append, ← List.cons_append, ← List.append_assoc] at htrail
      obtain ⟨hbefore, hlast⟩ := List.append_inj' htrail rfl
      obtain rfl := List.singleton_inj.1 hlast
      obtain ⟨t, m, hm, rfl, hfinal⟩ := ih ⟨before, x, after, hbefore, hacks, fun z hz => hkeeps z (by simp [hz])⟩
      refine ⟨t, m, hext.mem_log hm, rfl, ?_⟩
      rintro rfl
      exact isFinal_call hrefines hm (hfinal rfl) (hkeeps _ (by simp))

/-- **What is final is what has been acknowledged** since the group last forgot the topic. -/
theorem acknowledged_iff (hm : m ∈ (Ledger.run calls).1.log topic) :
    Acknowledged calls topic group m.offset ↔ (Ledger.run calls).1.isFinal group m.offset := by
  refine ⟨fun h => ?_, acked_of_isFinal calls hm⟩
  obtain ⟨t, m', hm', ho, hfinal⟩ := stored_of_acknowledged h
  exact hfinal ((refines_run calls).sound.unique hm' hm ho).1

/-! ## What is never claimed -/

/-- A group that has no entry at or below an offset on a topic. -/
def Untouched (l : Ledger) (topic group : String) (start : Int) : Prop :=
  ∀ m ∈ l.log topic, m.offset ≤ start → l.entries m.offset group = none

/-- **A group that claims behind an offset** gets no entry at or below it. -/
theorem Untouched.call (h : Untouched l topic group start) (sound : l.Sound)
    (behind : ∀ request, c.action = .request (.claim request) → request.topic = topic → request.group = group →
      request.after = start) : Untouched (l.call c).1 topic group start := by
  intro m hm hlow
  -- an entry that was there before would belong to this message
  have hnone : l.entries m.offset group = none := by
    cases he : l.entries m.offset group with
    | none => rfl
    | some e =>
      obtain ⟨t, m', hm', ho⟩ := sound.known _ _ _ he
      have hold := (l.extends_call c).mem_of_le hm (ho ▸ sound.le_lastOffset hm')
      rw [← he]
      exact h m hold hlow
  have hheld : ∀ {r e}, l.current? r = some e → m.offset = r.offset ∧ group = r.group → False := by
    rintro r e held ⟨ho, rfl⟩
    rw [ho, (Ledger.current?_eq_some.1 held).1] at hnone
    cases hnone
  obtain ⟨now, token, action⟩ := c
  cases action with
  | commit staged => rwa [l.entries_call_commit]
  | request request =>
    have hchanges := l.changes_perform now token m.offset group request
    show (l.perform now token request).1.entries m.offset group = none
    generalize (l.perform now token request).1.entries m.offset group = entry at hchanges
    cases hchanges with
    | kept => exact hnone
    | @claimed request own chosen =>
      -- a claim takes what is behind its offset
      obtain ⟨m', hm', ho⟩ := List.mem_map.1 chosen
      obtain ⟨hlog, hafter, -⟩ := Ledger.mem_chosen hm'
      obtain ⟨htopic, -⟩ := (sound.call _).unique ((l.extends_call _).mem_log hlog) hm ho
      have := behind request rfl htopic own.symm
      omega
    | acked held own | nacked held own | renewed held own => exact (hheld held own).elim
    | forgotten => rfl

theorem untouched_run (fixed : ClaimsBehind topic group start calls) :
    Untouched (Ledger.run calls).1 topic group start := by
  induction calls using List.reverseRecOn with
  | nil => exact fun m hm => by cases hm
  | append_singleton calls c ih =>
    rw [Ledger.run_concat]
    exact (ih fun c' hc' => fixed c' (by simp [hc'])).call (refines_run calls).sound (fixed c (by simp))

/-! ## How far the watermark goes -/

/-- **A watermark passes all** that is final. -/
theorem Marks.reached (marks : Marks s l) (final : ∀ m ∈ l.log topic, l.isFinal group m.offset) (hm : m ∈ l.log topic) :
    m.offset ≤ s.watermark topic group := by
  by_contra habove
  have hnext : ((l.log topic).find? (s.watermark topic group < ·.offset)).isSome :=
    List.find?_isSome.2 ⟨m, hm, decide_eq_true (by omega)⟩
  obtain ⟨next, hnext⟩ := Option.isSome_iff_exists.1 hnext
  have hopen := marks.stops topic group next hnext
  rw [final next (List.mem_of_find?_eq_some hnext)] at hopen
  cases hopen

/-- **A watermark never passes** a message that the group has no entry for; without one below it, it stays where it
began. -/
theorem Marks.stuck (marks : Marks s l) (refines : s.Refines l) (untouched : Untouched l topic group start)
    (skipped : ∃ m ∈ l.log topic, m.offset ≤ start) : s.watermark topic group = 0 := by
  obtain ⟨m, hm, hlow⟩ := skipped
  have hnone : ∀ m' ∈ l.log topic, m'.offset ≤ start → s.watermark topic group < m'.offset := by
    intro m' hm' hlow'
    by_contra hpast
    obtain ⟨-, e, he, -⟩ := refines.dropped topic m' group hm' (by omega)
    rw [untouched m' hm' hlow'] at he
    cases he
  have hmark := hnone m hm hlow
  rcases marks.stands topic group with hzero | ⟨m', hm', ho⟩
  · exact hzero
  · have := hnone m' hm' (by omega)
    omega

/-! ## What is kept -/

theorem mem_records {offset : Int} {d : DeliveryRecord} :
    (offset, d) ∈ s.records topic group ↔ s.deliveries.get? (offset, group) = some d ∧ d.topic = topic := by
  unfold records
  rw [List.mem_map]
  constructor
  · rintro ⟨⟨⟨o, g⟩, d'⟩, hrow, hsame⟩
    obtain ⟨hmem, hown⟩ := List.mem_filter.1 hrow
    rw [decide_eq_true_eq] at hown
    obtain ⟨rfl, rfl⟩ := Prod.mk.inj hsame
    obtain ⟨rfl, htopic⟩ := hown
    exact ⟨(Table.mem_rows_iff _ _ _).1 hmem, htopic⟩
  · rintro ⟨hget, rfl⟩
    exact ⟨((offset, group), d), List.mem_filter.2 ⟨(Table.mem_rows_iff _ _ _).2 hget, by simp⟩, rfl⟩

/-- A store keeps one record for a group and a message. -/
theorem nodup_records (s : InMemory) (topic group : String) : ((s.records topic group).map (·.1)).Nodup := by
  unfold records
  rw [List.map_map, List.Nodup, List.pairwise_map]
  refine (s.deliveries.distinct.filter _).imp_of_mem ?_
  intro row row' hrow hrow' hkeys hsame
  have hgroup := (List.mem_filter.1 hrow).2
  have hgroup' := (List.mem_filter.1 hrow').2
  simp only [decide_eq_true_eq] at hgroup hgroup'
  exact hkeys (Prod.ext hsame (hgroup.1.trans hgroup'.1.symm))

/-- A record that is kept belongs to an entry above the watermark, and such an entry has its record. -/
theorem Refines.mem_records (refines : s.Refines l) {offset : Int} {d : DeliveryRecord} :
    (offset, d) ∈ s.records topic group ↔
      ∃ m ∈ l.log topic, m.offset = offset ∧ s.watermark topic group < offset ∧
        ∃ e, l.entries offset group = some e ∧ d = e.record topic := by
  rw [InMemory.mem_records]
  constructor
  · rintro ⟨hget, htopic⟩
    obtain ⟨t, m, e, hm, ho, habove, he, rfl⟩ := refines.of_record hget
    obtain rfl : t = topic := htopic
    exact ⟨m, hm, ho, habove, e, he, rfl⟩
  · rintro ⟨m, hm, rfl, habove, e, he, rfl⟩
    have hkept := refines.kept topic m group hm habove
    rw [he, Option.map_some] at hkept
    exact ⟨hkept, rfl⟩

theorem Refines.scanned_eq (refines : s.Refines l) (topic group : String) (start : Int) :
    s.scanned topic group start =
      (l.log topic).filter (max start (s.watermark topic group) < ·.offset) := by
  rw [scanned, logAfter_eq_filter (refines.ascending topic), refines.log]

/-- **Nothing is kept of a topic that is final throughout**, and a claim looks at nothing. -/
theorem Marks.reclaimed (marks : Marks s l) (refines : s.Refines l)
    (final : ∀ m ∈ l.log topic, l.isFinal group m.offset) :
    s.records topic group = [] ∧ s.scanned topic group start = [] := by
  refine ⟨List.eq_nil_iff_forall_not_mem.2 ?_, ?_⟩
  · rintro ⟨offset, d⟩ hd
    obtain ⟨m, hm, rfl, habove, -⟩ := refines.mem_records.1 hd
    have := marks.reached final hm
    omega
  · rw [refines.scanned_eq, List.filter_eq_nil_iff]
    intro m hm hpast
    rw [decide_eq_true_eq] at hpast
    have := marks.reached final hm
    omega

/-- **Everything is kept that is final behind a message without an entry**: its acknowledged record, and its place among
what a claim looks at. -/
theorem Marks.retained (marks : Marks s l) (refines : s.Refines l) (untouched : Untouched l topic group start)
    (skipped : ∃ m ∈ l.log topic, m.offset ≤ start)
    (final : ∀ m ∈ l.log topic, start < m.offset → l.isFinal group m.offset) :
    s.scanned topic group start = (l.log topic).filter (start < ·.offset) ∧
      ((s.records topic group).map (·.1)).Perm ((s.scanned topic group start).map (·.offset)) ∧
      ∀ kept ∈ s.records topic group, kept.2.state = .acked := by
  have hzero := marks.stuck refines untouched skipped
  have hstart : 0 < start := by
    obtain ⟨m, hm, hlow⟩ := skipped
    have := (refines.sound.within topic m hm).1
    omega
  have hscanned : s.scanned topic group start = (l.log topic).filter (start < ·.offset) := by
    rw [refines.scanned_eq, hzero, Int.max_eq_left (Int.le_of_lt hstart)]
  have hbehind : ∀ m ∈ l.log topic, ∀ e, l.entries m.offset group = some e → start < m.offset := by
    intro m hm e he
    by_contra hlow
    rw [untouched m hm (by omega)] at he
    cases he
  refine ⟨hscanned, ?_, ?_⟩
  · have hnodup : ((s.scanned topic group start).map (·.offset)).Nodup := by
      rw [hscanned]
      exact (List.filter_sublist.map _).nodup (refines.sound.log_nodup topic)
    refine (List.perm_ext_iff_of_nodup (nodup_records s topic group) hnodup).2 fun offset => ?_
    rw [hscanned]
    simp only [List.mem_map, List.mem_filter, decide_eq_true_eq]
    constructor
    · rintro ⟨⟨o, d⟩, hd, rfl⟩
      obtain ⟨m, hm, rfl, -, e, he, -⟩ := refines.mem_records.1 hd
      exact ⟨m, ⟨hm, hbehind m hm e he⟩, rfl⟩
    · rintro ⟨m, ⟨hm, hpast⟩, rfl⟩
      obtain ⟨e, he, -⟩ := Ledger.isFinal_iff.1 (final m hm hpast)
      exact ⟨(m.offset, e.record topic), refines.mem_records.2 ⟨m, hm, rfl, by omega, e, he, rfl⟩, rfl⟩
  · rintro ⟨offset, d⟩ hd
    obtain ⟨m, hm, rfl, -, e, he, rfl⟩ := refines.mem_records.1 hd
    obtain ⟨e', he', hacked⟩ := Ledger.isFinal_iff.1 (final m hm (hbehind m hm e he))
    obtain rfl := Option.some.inj (he.symm.trans he')
    exact hacked

theorem records_forgetGroup (s : InMemory) (topic group : String) :
    (s.forgetGroup topic group).records topic group = [] := by
  refine List.eq_nil_iff_forall_not_mem.2 ?_
  rintro ⟨offset, d⟩ hd
  obtain ⟨hget, htopic⟩ := InMemory.mem_records.1 hd
  rw [forgetGroup, Table.get?_retain] at hget
  have hkept := (Option.filter_eq_some_iff.1 hget).2
  simp [htopic] at hkept

/-- **What a group has handled is reclaimed** where nothing lies at or below the offset behind which it claims: with all
that it may claim acknowledged, no record is kept and a claim looks at nothing. That is so for every group that claims
from the beginning. Where a message does lie there, the watermark never moves: one record is kept for every message that
the group has acknowledged, and a claim looks at all of these. Forgetting the group drops them in either case. -/
theorem handled_is_reclaimed (calls : List Call) (topic group : String) (start : Int)
    (fixed : ClaimsBehind topic group start calls)
    (handled : ∀ m ∈ (run calls).1.log topic, start < m.offset → Acknowledged calls topic group m.offset) :
    ((start ≤ 0 ∨ ∀ m ∈ (run calls).1.log topic, start < m.offset) →
      (run calls).1.records topic group = [] ∧ (run calls).1.scanned topic group start = []) ∧
    ((∃ m ∈ (run calls).1.log topic, m.offset ≤ start) →
      (run calls).1.watermark topic group = 0 ∧
        (run calls).1.scanned topic group start = ((run calls).1.log topic).toList.filter (start < ·.offset) ∧
        (((run calls).1.records topic group).map (·.1)).Perm
          (((run calls).1.scanned topic group start).map (·.offset)) ∧
        ∀ kept ∈ (run calls).1.records topic group, kept.2.state = .acked) ∧
    ((run calls).1.forgetGroup topic group).records topic group = [] := by
  obtain ⟨hrefines, -, hmarks⟩ := kept_run calls
  have hlog : ∀ m, m ∈ (run calls).1.log topic ↔ m ∈ (Ledger.run calls).1.log topic := fun m => by
    rw [← hrefines.log, Array.mem_toList_iff]
  have hfinal : ∀ m ∈ (Ledger.run calls).1.log topic, start < m.offset → (Ledger.run calls).1.isFinal group m.offset :=
    fun m hm hbehind => (acknowledged_iff hm).1 (handled m ((hlog m).2 hm) hbehind)
  refine ⟨fun hnothing => ?reclaimed, fun hskipped => ?retained, records_forgetGroup _ topic group⟩
  case reclaimed =>
    refine hmarks.reclaimed hrefines fun m hm => hfinal m hm ?_
    rcases hnothing with hstart | hnothing
    · have := (hrefines.sound.within topic m hm).1
      omega
    · exact hnothing m ((hlog m).2 hm)
  case retained =>
    have huntouched := untouched_run fixed
    have hskipped' : ∃ m ∈ (Ledger.run calls).1.log topic, m.offset ≤ start :=
      hskipped.imp fun m hm => ⟨(hlog m).1 hm.1, hm.2⟩
    rw [hrefines.log]
    exact ⟨hmarks.stuck hrefines huntouched hskipped', hmarks.retained hrefines huntouched hskipped' hfinal⟩

/-- A group that claims from the beginning leaves nothing behind, in whatever order it acknowledges. -/
theorem handled_is_reclaimed_outOfOrder :
    ClaimsBehind "items" "workers" 0 outOfOrder ∧
      (∀ m ∈ (run outOfOrder).1.log "items", 0 < m.offset → Acknowledged outOfOrder "items" "workers" m.offset) ∧
      ((run outOfOrder).1.log "items").size = 2 ∧ (run outOfOrder).1.records "items" "workers" = [] ∧
      (run outOfOrder).1.scanned "items" "workers" 0 = [] := by
  have hfixed : ClaimsBehind "items" "workers" 0 outOfOrder := by
    simp [ClaimsBehind, outOfOrder]
  have hlog : ((run outOfOrder).1.log "items").toList = [⟨1, .new (.ofNat 7) [], 0⟩, ⟨3, .new (.ofNat 9) [], 0⟩] := by
    with_unfolding_all rfl
  have hhandled : ∀ m ∈ (run outOfOrder).1.log "items", 0 < m.offset →
      Acknowledged outOfOrder "items" "workers" m.offset := by
    intro m hm _
    rw [← Array.mem_toList_iff] at hm
    have hledger : m ∈ (Ledger.run outOfOrder).1.log "items" := by rwa [← (refines_run outOfOrder).log]
    rw [acknowledged_iff hledger]
    rw [hlog, List.mem_pair] at hm
    rcases hm with rfl | rfl <;> with_unfolding_all rfl
  obtain ⟨hnone, hnothing⟩ :=
    (handled_is_reclaimed outOfOrder "items" "workers" 0 hfixed hhandled).1 (Or.inl (Int.le_refl 0))
  exact ⟨hfixed, hhandled, congrArg List.length hlog, hnone, hnothing⟩

/-- A group that joins a topic behind its first message, and then handles all that it may claim. -/
def joinedLate : List Call :=
  [⟨0, .ofNat 0, .request (.enqueue "items" [.new (.ofNat 7) []])⟩,
    ⟨0, .ofNat 0, .request (.head "items")⟩,
    ⟨0, .ofNat 0, .request (.enqueue "items" [.new (.ofNat 8) []])⟩,
    ⟨0, .ofNat 1, .request (.claim ⟨"items", "late", 1, 10, .ofSecs 30⟩)⟩,
    ⟨0, .ofNat 0, .request (.ack ⟨2, "late", .ofNat 1⟩)⟩]

/-- The record of what such a group has acknowledged is kept, so that a claim from the beginning finds the message that
the group has skipped, but not the one that it has acknowledged. -/
theorem handled_is_kept_joinedLate :
    ((run joinedLate).2.map (·.1))[1]? = some (.ok (.offset 1)) ∧
      ClaimsBehind "items" "late" 1 joinedLate ∧
      (∀ m ∈ (run joinedLate).1.log "items", 1 < m.offset → Acknowledged joinedLate "items" "late" m.offset) ∧
      (run joinedLate).1.records "items" "late" = [(2, ⟨"items", .acked, .ofNat 1, 30000000000, 1⟩)] ∧
      ((run joinedLate).1.scanned "items" "late" 1).map (·.offset) = [2] ∧
      ((run joinedLate).1.claim 0 (.ofNat 2) ⟨"items", "late", 0, 10, .ofSecs 30⟩).2.map (·.receipt.offset) = [1] := by
  have hfixed : ClaimsBehind "items" "late" 1 joinedLate := by
    simp [ClaimsBehind, joinedLate]
  have hlog : ((run joinedLate).1.log "items").toList = [⟨1, .new (.ofNat 7) [], 0⟩, ⟨2, .new (.ofNat 8) [], 0⟩] := by
    with_unfolding_all rfl
  have hacked : Acknowledged joinedLate "items" "late" 2 :=
    ⟨trail (joinedLate.take 4), ((run (joinedLate.take 4)).1, ⟨0, .ofNat 0, .request (.ack ⟨2, "late", .ofNat 1⟩)⟩), [],
      rfl, ⟨⟨2, "late", .ofNat 1⟩, rfl, rfl, rfl, rfl, by with_unfolding_all rfl⟩, by simp⟩
  refine ⟨by with_unfolding_all rfl, hfixed, fun m hm hbehind => ?_, by with_unfolding_all rfl,
    by with_unfolding_all rfl, by with_unfolding_all rfl⟩
  rw [← Array.mem_toList_iff, hlog, List.mem_pair] at hm
  rcases hm with rfl | rfl
  · exact absurd hbehind (by decide)
  · exact hacked

end InMemory

end DurableBus
