import DurableBus.Proofs.Store.Isolation

/-!
# What a store knows about a group

A store knows about a group what its records and its watermarks say.

* `Knows.call` : a group that is known on certain topics is known on no others until it claims there;
* `Knows.forgotten` : a group that is known on one topic is unknown once it has been forgotten there;
* `Knows.isUnknown` : then no record and no watermark of it is left.
-/

set_option autoImplicit false

namespace DurableBus.InMemory

open Store (Call)

def IsUnknown (s : InMemory) (group : String) : Prop :=
  (∀ offset, s.deliveries.get? (offset, group) = none) ∧ ∀ topic, s.watermarks.get? (topic, group) = none

/-- Whatever is known about a group is about topics of a kind. -/
structure Knows (s : InMemory) (l : Ledger) (group : String) (topics : String → Prop) : Prop where
  entries : ∀ offset e, l.entries offset group = some e → ∃ topic m, topics topic ∧ m ∈ l.log topic ∧ m.offset = offset
  marks : ∀ topic mark, s.watermarks.get? (topic, group) = some mark → topics topic

theorem knows_empty (group : String) (topics : String → Prop) : Knows empty .empty group topics where
  entries _ _ he := by cases he
  marks _ _ hmark := by cases hmark

variable {s : InMemory} {l : Ledger} {group : String} {topics : String → Prop}

theorem Knows.mono (h : Knows s l group topics) {topics' : String → Prop} (more : ∀ t, topics t → topics' t) :
    Knows s l group topics' where
  entries offset e he := by
    obtain ⟨topic, m, htopic, hm⟩ := h.entries offset e he
    exact ⟨topic, m, more topic htopic, hm⟩
  marks topic mark hmark := more topic (h.marks topic mark hmark)

theorem Knows.isUnknown (h : Knows s l group fun _ => False) (refines : s.Refines l) : s.IsUnknown group := by
  refine ⟨fun offset => ?_, fun topic => ?_⟩
  · cases hd : s.deliveries.get? (offset, group) with
    | none => rfl
    | some d =>
      obtain ⟨_, _, e, -, -, -, he, -⟩ := refines.of_record hd
      obtain ⟨_, _, hfalse, -⟩ := h.entries offset e he
      exact hfalse.elim
  · cases hmark : s.watermarks.get? (topic, group) with
    | none => rfl
    | some mark => exact (h.marks topic mark hmark).elim

theorem Knows.of_current? (h : Knows s l group topics) (refines : s.Refines l) {r : Receipt} (own : r.group = group)
    {d : DeliveryRecord} (held : s.current? r = some d) : topics d.topic := by
  rcases refines.current? r with ⟨-, hlost⟩ | ⟨topic, m, e, hm, ho, -, hl, hs⟩
  · rw [hlost] at held
    cases held
  · rw [hs] at held
    obtain rfl := Option.some.inj held
    have hentry := (Ledger.current?_eq_some.1 hl).1
    rw [own] at hentry
    obtain ⟨topic', m', htopic, hm', ho'⟩ := h.entries _ e hentry
    obtain ⟨rfl, -⟩ := refines.sound.unique hm hm' (ho.trans ho'.symm)
    exact htopic

theorem Knows.perform (h : Knows s l group topics) (refines : s.Refines l) (now : Instant) (token : Uuid)
    {request : Store.Request} (claims : ∀ q, request = .claim q → q.group = group → topics q.topic) :
    Knows (s.perform now token request).1 (l.perform now token request).1 group topics where
  entries offset e' he' := by
    have hext := l.extends_perform now token request
    have hbefore : ∀ e, l.entries offset group = some e →
        ∃ topic m, topics topic ∧ m ∈ (l.perform now token request).1.log topic ∧ m.offset = offset := by
      intro e he
      obtain ⟨topic, m, htopic, hm, ho⟩ := h.entries offset e he
      exact ⟨topic, m, htopic, hext.mem_log hm, ho⟩
    have hchanges := l.changes_perform now token offset group request
    rw [he'] at hchanges
    generalize hsome : some e' = entry at hchanges
    cases hchanges with
    | kept => exact hbefore e' hsome.symm
    | @claimed request own chosen =>
      obtain ⟨m, hm, ho⟩ := List.mem_map.1 chosen
      exact ⟨request.topic, m, claims request rfl own.symm, hext.mem_log (Ledger.mem_chosen hm).1, ho⟩
    | acked held own | nacked held own | renewed held own =>
      obtain ⟨rfl, rfl⟩ := own
      exact hbefore _ (Ledger.current?_eq_some.1 held).1
    | forgotten => cases hsome
  marks topic mark hmark := by
    by_cases hforget : request = .forgetGroup topic group
    · -- the watermark is gone, unless the store has been closed
      subst hforget
      cases hclosed : s.closed with
      | true =>
        rw [perform_of_closed hclosed (by simp)] at hmark
        exact h.marks topic mark hmark
      | false =>
        unfold InMemory.perform at hmark
        simp only [hclosed] at hmark
        change (s.watermarks.erase (topic, group)).get? _ = _ at hmark
        rw [Table.get?_erase, if_pos rfl] at hmark
        cases hmark
    · by_cases hacks : ∃ r d, request = .ack r ∧ s.current? r = some d ∧ (d.topic, r.group) = (topic, group)
      · obtain ⟨r, d, -, held, hsame⟩ := hacks
        obtain ⟨rfl, hgroup⟩ := Prod.mk.inj hsame
        exact h.of_current? refines hgroup held
      · refine h.marks topic mark ?_
        rw [← s.mark_perform now token (fun r d hr hd hsame => hacks ⟨r, d, hr, hd, hsame⟩) fun t g hr hsame => ?_]
        · exact hmark
        · obtain ⟨rfl, rfl⟩ := Prod.mk.inj hsame
          exact hforget hr

/-- **What is known about a group** stays within the topics on which it claims. -/
theorem Knows.call (h : Knows s l group topics) (refines : s.Refines l) {c : Call}
    (claims : ∀ q, c.action = .request (.claim q) → q.group = group → topics q.topic) :
    Knows (s.call c).1 (l.call c).1 group topics := by
  obtain ⟨now, token, action⟩ := c
  cases action with
  | request request => exact h.perform refines now token fun q hq => claims q (congrArg _ hq)
  | commit staged =>
    refine ⟨fun offset e he => ?_, fun topic mark hmark => h.marks topic mark ?_⟩
    · rw [Ledger.entries_call_commit] at he
      obtain ⟨topic, m, htopic, hm, ho⟩ := h.entries offset e he
      exact ⟨topic, m, htopic, (l.extends_call _).mem_log hm, ho⟩
    · unfold InMemory.call at hmark
      cases hcommit : s.commit now staged with
      | ok s' =>
        simp only [hcommit] at hmark
        rwa [watermarks_commit hcommit] at hmark
      | error e =>
        simp only [hcommit] at hmark
        exact hmark

/-- **A group that is forgotten** on the one topic where it is known is not known any more. -/
theorem Knows.forgotten {topic : String} (h : Knows s l group (· = topic)) (refines : s.Refines l)
    (opened : s.closed = false) {c : Call} (forgets : c.action = .request (.forgetGroup topic group)) :
    Knows (s.call c).1 (l.call c).1 group fun _ => False := by
  have hlater := h.call refines (c := c) fun q hq => by rw [forgets] at hq; cases hq
  have hsame : (l.call c).1 = l.forgetGroup topic group := by
    rw [call_request forgets]
    unfold Ledger.perform
    rw [if_neg (by simp), ← refines.closed, opened]
    rfl
  refine ⟨fun offset e he => ?_, fun t mark hmark => ?_⟩
  · obtain ⟨t, m, rfl, hm, rfl⟩ := hlater.entries offset e he
    rw [hsame] at he hm
    rw [Ledger.entries_forgetGroup, if_pos ⟨rfl, List.mem_map_of_mem hm⟩] at he
    cases he
  · obtain rfl := hlater.marks t mark hmark
    obtain ⟨now, token, action⟩ := c
    subst forgets
    unfold InMemory.call InMemory.perform at hmark
    simp only [opened] at hmark
    change (s.watermarks.erase (t, group)).get? _ = _ at hmark
    rw [Table.get?_erase, if_pos rfl] at hmark
    cases hmark

end DurableBus.InMemory
