import DurableBus.Store.InMemory

/-!
# What a claim takes

`claimFrom` walks over a log and changes records on its way. Over messages with distinct offsets it takes the first
`limit` of those that are claimable before it starts (`claimFrom_taken`), and changes the records of exactly these
(`get?_claimFrom`).
-/

set_option autoImplicit false

namespace DurableBus.InMemory

variable (request : ClaimRequest) (now : Instant) (token : Uuid)

def taken (limit : Nat) (log : List Stored) (records : Table (Int × String) DeliveryRecord) : List Stored :=
  (log.filter fun m => claimable (records.get? (m.offset, request.group)) now).take limit

def claimedRecord (before : Option DeliveryRecord) : DeliveryRecord :=
  ⟨(before.map (·.topic)).getD request.topic, .claimed, token, now.plus request.lease, (before.map (·.count)).getD 0 + 1⟩

def claimedOf (records : Table (Int × String) DeliveryRecord) (m : Stored) : Claimed :=
  ⟨⟨m.offset, request.group, token⟩, m.message, m.publishedAt,
    (claimedRecord request now token (records.get? (m.offset, request.group))).count⟩

theorem claimFrom_cons (limit : Nat) (m : Stored) (rest : List Stored)
    (records : Table (Int × String) DeliveryRecord) :
    claimFrom request now token (limit + 1) (m :: rest) records =
      if claimable (records.get? (m.offset, request.group)) now then
        ((claimFrom request now token limit rest (records.put (m.offset, request.group)
            (claimedRecord request now token (records.get? (m.offset, request.group))))).1,
          claimedOf request now token records m ::
            (claimFrom request now token limit rest (records.put (m.offset, request.group)
              (claimedRecord request now token (records.get? (m.offset, request.group))))).2)
      else claimFrom request now token (limit + 1) rest records := by
  rw [claimFrom]
  rfl

/-- Changing the record of one message does not change what is taken of messages with other offsets. -/
theorem get?_put_of_notMem {m : Stored} {rest : List Stored} (fresh : m.offset ∉ rest.map (·.offset))
    (records : Table (Int × String) DeliveryRecord) (d : DeliveryRecord) {m' : Stored} (hm' : m' ∈ rest) :
    (records.put (m.offset, request.group) d).get? (m'.offset, request.group) =
      records.get? (m'.offset, request.group) := by
  have hne : ¬ (m.offset, request.group) = (m'.offset, request.group) := by
    intro heq
    exact fresh ((Prod.mk.inj heq).1 ▸ List.mem_map_of_mem hm')
  rw [Table.get?_put, if_neg hne]

theorem taken_put {m : Stored} {rest : List Stored} (fresh : m.offset ∉ rest.map (·.offset)) (limit : Nat)
    (records : Table (Int × String) DeliveryRecord) (d : DeliveryRecord) :
    taken request now limit rest (records.put (m.offset, request.group) d) = taken request now limit rest records := by
  unfold taken
  congr 1
  apply List.filter_congr
  intro m' hm'
  rw [get?_put_of_notMem request fresh records d hm']

/-- **A claim takes** the first messages that were claimable when it began. -/
theorem claimFrom_taken (log : List Stored) (limit : Nat) (records : Table (Int × String) DeliveryRecord)
    (distinct : (log.map (·.offset)).Nodup) :
    (claimFrom request now token limit log records).2 =
      (taken request now limit log records).map (claimedOf request now token records) := by
  induction log generalizing limit records with
  | nil => simp [claimFrom, taken]
  | cons m rest ih =>
    obtain ⟨fresh, distinct⟩ := List.nodup_cons.1 distinct
    cases limit with
    | zero => simp [claimFrom, taken]
    | succ limit =>
      rw [claimFrom_cons]
      split
      case isTrue hclaim =>
        rw [ih limit _ distinct, taken_put request now fresh]
        simp only [taken, List.filter_cons, hclaim, if_true, List.take_succ_cons, List.map_cons]
        congr 1
        apply List.map_congr_left
        intro m' hm'
        have hrest : m' ∈ rest := (List.mem_filter.1 (List.mem_of_mem_take hm')).1
        unfold claimedOf
        rw [get?_put_of_notMem request fresh records _ hrest]
      case isFalse hclaim =>
        rw [ih (limit + 1) records distinct]
        simp [taken, hclaim]

/-- **A claim changes** the records of what it takes and no others. -/
theorem get?_claimFrom (log : List Stored) (limit : Nat) (records : Table (Int × String) DeliveryRecord)
    (distinct : (log.map (·.offset)).Nodup) (offset : Int) (group : String) :
    (claimFrom request now token limit log records).1.get? (offset, group) =
      if group = request.group ∧ offset ∈ (taken request now limit log records).map (·.offset) then
        some (claimedRecord request now token (records.get? (offset, group)))
      else records.get? (offset, group) := by
  induction log generalizing limit records with
  | nil => simp [claimFrom, taken]
  | cons m rest ih =>
    obtain ⟨fresh, distinct⟩ := List.nodup_cons.1 distinct
    cases limit with
    | zero => simp [claimFrom, taken]
    | succ limit =>
      rw [claimFrom_cons]
      split
      case isTrue hclaim =>
        have hnot : m.offset ∉ (taken request now limit rest records).map (·.offset) := fun hmem =>
          fresh (((List.take_sublist _ _).trans List.filter_sublist).map _ |>.subset hmem)
        have hcons : taken request now (limit + 1) (m :: rest) records = m :: taken request now limit rest records := by
          simp only [taken, List.filter_cons, hclaim, if_true, List.take_succ_cons]
        rw [ih limit _ distinct, taken_put request now fresh, hcons, Table.get?_put]
        by_cases hself : group = request.group ∧ offset = m.offset
        · obtain ⟨rfl, rfl⟩ := hself
          simp [hnot]
        · have hne : ¬ (m.offset, request.group) = (offset, group) := fun heq =>
            hself ⟨(Prod.mk.inj heq).2.symm, (Prod.mk.inj heq).1.symm⟩
          have hmem : (group = request.group ∧
              offset ∈ (m :: taken request now limit rest records).map (·.offset)) ↔
              (group = request.group ∧ offset ∈ (taken request now limit rest records).map (·.offset)) := by
            rw [List.map_cons, List.mem_cons]
            constructor
            · rintro ⟨hg, ho | ho⟩
              · exact absurd ⟨hg, ho⟩ hself
              · exact ⟨hg, ho⟩
            · exact fun ⟨hg, ho⟩ => ⟨hg, Or.inr ho⟩
          rw [if_neg hne]
          simp only [hmem]
      case isFalse hclaim =>
        have hskip : taken request now (limit + 1) (m :: rest) records = taken request now (limit + 1) rest records := by
          simp [taken, hclaim]
        rw [ih (limit + 1) records distinct, hskip]

end DurableBus.InMemory
