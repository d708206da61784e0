import DurableBus.Proofs.Store.Log

/-!
# How a watermark moves

`InMemory.ackedRun` is the run of acknowledged messages next above the watermark of a group, `InMemory.markAfter` the
offset at its end.

* `watermark_advance`, `get?_advance`, `log_advance` : what `advance` leaves behind;
* `mem_ackedRun`, `mem_ackedRun_of_le` : in a log with ascending offsets the run is exactly what lies between the old
  watermark and the new one.
-/

set_option autoImplicit false

namespace DurableBus.InMemory

/-- The acknowledged messages next above the watermark. -/
def ackedRun (s : InMemory) (topic group : String) : List Stored :=
  (logAfter (s.log topic) (s.watermark topic group)).takeWhile (s.isAcked group)

def markAfter (s : InMemory) (topic group : String) : Int :=
  ((s.ackedRun topic group).getLast?.map (·.offset)).getD (s.watermark topic group)

theorem get?_foldl_erase (run : List Stored) (records : Table (Int × String) DeliveryRecord) (group : String)
    (offset : Int) (g : String) :
    (run.foldl (fun records m => records.erase (m.offset, group)) records).get? (offset, g) =
      if g = group ∧ offset ∈ run.map (·.offset) then none else records.get? (offset, g) := by
  induction run generalizing records with
  | nil => simp
  | cons m rest ih =>
    rw [List.foldl_cons, ih, Table.get?_erase, List.map_cons]
    by_cases hrest : g = group ∧ offset ∈ rest.map (·.offset)
    · rw [if_pos hrest, if_pos ⟨hrest.1, List.mem_cons_of_mem _ hrest.2⟩]
    · rw [if_neg hrest]
      by_cases hself : (offset, g) = (m.offset, group)
      · obtain ⟨ho, hg⟩ := Prod.mk.inj hself
        rw [if_pos hself, if_pos ⟨hg, by rw [ho]; exact List.mem_cons_self⟩]
      · rw [if_neg hself, if_neg]
        rintro ⟨hg, hmem⟩
        rcases List.mem_cons.1 hmem with ho | hmem
        · exact hself (by rw [ho, hg])
        · exact hrest ⟨hg, hmem⟩

/-! ## What is left behind -/

variable (s : InMemory) (topic group : String)

theorem ackedRun_of_unknown (unknown : s.topics.get? topic = none) : s.ackedRun topic group = [] := by
  have hlog : s.log topic = #[] := by simp [log, unknown]
  simp [ackedRun, hlog, logAfter]

theorem log_advance (t : String) : (s.advance topic group).log t = s.log t := by
  unfold advance
  split <;> rfl

theorem lastOffset_advance : (s.advance topic group).lastOffset = s.lastOffset := by
  unfold advance
  split <;> rfl

theorem closed_advance : (s.advance topic group).closed = s.closed := by
  unfold advance
  split <;> rfl

theorem watermark_advance (t g : String) :
    (s.advance topic group).watermark t g =
      if topic = t ∧ group = g then s.markAfter topic group else s.watermark t g := by
  unfold advance
  split
  case h_1 unknown =>
    split
    case isTrue same =>
      obtain ⟨rfl, rfl⟩ := same
      simp [markAfter, ackedRun_of_unknown s topic group unknown]
    case isFalse => rfl
  case h_2 log known =>
    have hlog : s.log topic = log := by simp [InMemory.log, known]
    simp only [watermark, Table.get?_put, Prod.mk.injEq]
    split
    case isTrue same =>
      obtain ⟨rfl, rfl⟩ := same
      simp only [Option.getD_some, markAfter, ackedRun, hlog, watermark]
    case isFalse => rfl

theorem get?_advance (offset : Int) (g : String) :
    (s.advance topic group).deliveries.get? (offset, g) =
      if g = group ∧ offset ∈ (s.ackedRun topic group).map (·.offset) then none
      else s.deliveries.get? (offset, g) := by
  unfold advance
  split
  case h_1 unknown => simp [ackedRun_of_unknown s topic group unknown]
  case h_2 log known =>
    have hlog : s.log topic = log := by simp [InMemory.log, known]
    rw [ackedRun, hlog]
    exact get?_foldl_erase _ _ _ _ _

/-! ## The run -/

variable {s topic group}

/-- Everything in the run is on the topic, above the old watermark, acknowledged, and at or below the new one. -/
theorem mem_ackedRun (ascending : (s.log topic).toList.Pairwise (·.offset < ·.offset)) {m : Stored}
    (hm : m ∈ s.ackedRun topic group) :
    m ∈ (s.log topic).toList ∧ s.watermark topic group < m.offset ∧ s.isAcked group m ∧
      m.offset ≤ s.markAfter topic group := by
  have hall : m ∈ (s.log topic).toList ∧ s.watermark topic group < m.offset := by
    have hmem := (List.takeWhile_sublist _).subset hm
    rw [logAfter_eq_filter ascending, List.mem_filter, decide_eq_true_eq] at hmem
    exact hmem
  have hacked : s.isAcked group m := by
    have := List.all_takeWhile (p := s.isAcked group) (l := logAfter (s.log topic) (s.watermark topic group))
    exact List.all_eq_true.1 this m hm
  refine ⟨hall.1, hall.2, hacked, ?_⟩
  have hsorted : (s.ackedRun topic group).Pairwise (·.offset < ·.offset) := by
    unfold ackedRun
    rw [logAfter_eq_filter ascending]
    exact (ascending.filter _).sublist (List.takeWhile_sublist _)
  obtain ⟨front, last, hsplit⟩ := (List.eq_nil_or_concat _).resolve_left (List.ne_nil_of_mem hm)
  rw [List.concat_eq_append] at hsplit
  unfold markAfter
  rw [hsplit] at hm hsorted ⊢
  rw [List.getLast?_concat, Option.map_some, Option.getD_some]
  rcases List.mem_append.1 hm with hfront | hlast
  · have := (List.pairwise_append.1 hsorted).2.2 m hfront last (List.mem_singleton_self _)
    omega
  · exact Int.le_of_eq (congrArg _ (List.mem_singleton.1 hlast))

/-- The watermark never moves down. -/
theorem watermark_le_markAfter (ascending : (s.log topic).toList.Pairwise (·.offset < ·.offset)) :
    s.watermark topic group ≤ s.markAfter topic group := by
  rcases List.eq_nil_or_concat (s.ackedRun topic group) with hnil | ⟨front, last, hsplit⟩
  · simp [markAfter, hnil]
  · have hm := mem_ackedRun ascending (m := last) (by rw [hsplit]; simp)
    omega

/-- The new watermark is the old one or the offset of a message in the run. -/
theorem markAfter_eq (s : InMemory) (topic group : String) : s.markAfter topic group = s.watermark topic group ∨
    ∃ m ∈ s.ackedRun topic group, s.markAfter topic group = m.offset := by
  rcases List.eq_nil_or_concat (s.ackedRun topic group) with hnil | ⟨front, last, hsplit⟩
  · exact Or.inl (by simp [markAfter, hnil])
  · exact Or.inr ⟨last, by rw [hsplit]; simp, by simp [markAfter, hsplit]⟩

theorem mem_ackedRun_of_le (ascending : (s.log topic).toList.Pairwise (·.offset < ·.offset)) {m : Stored}
    (hm : m ∈ (s.log topic).toList) (above : s.watermark topic group < m.offset)
    (below : m.offset ≤ s.markAfter topic group) : m ∈ s.ackedRun topic group := by
  rcases markAfter_eq s topic group with heq | ⟨last, hlast, heq⟩
  · omega
  · have hmem : m ∈ (s.log topic).toList.filter (s.watermark topic group < ·.offset) :=
      List.mem_filter.2 ⟨hm, decide_eq_true above⟩
    have hsorted := ascending.filter (s.watermark topic group < ·.offset)
    unfold ackedRun at hlast ⊢
    rw [logAfter_eq_filter ascending] at hlast ⊢
    rw [← List.takeWhile_append_dropWhile (p := s.isAcked group)
      (l := (s.log topic).toList.filter (s.watermark topic group < ·.offset))] at hmem hsorted
    rcases List.mem_append.1 hmem with hmem | hmem
    · exact hmem
    · have := (List.pairwise_append.1 hsorted).2.2 last hlast m hmem
      omega

end DurableBus.InMemory
