import DurableBus.Store.Stream

/-!
# What waits in a stream

A stream of claims holds the messages of a batch that have not been handed out yet.

* `Poller.looks_look`, `ClaimStream.follows_follow` : what looking comes to for a poller, and what a stream makes of it;
* `ClaimStream.items_look`, `ClaimStream.items_answer` : a claim that is handed out was held or came with the answer, and
  none is held twice;
* `ClaimStream.mem_items_answer` : what is handed out has just been claimed, or has just been renewed.
-/

set_option autoImplicit false

namespace DurableBus

/-! ## Pollers -/

namespace Poller

variable {α ε : Type}

def queue : Poller α → List α
  | .handing _ rest => rest
  | _ => []

def Move.items : Move α ε → List α
  | .yield (.ok item) => [item]
  | _ => []

def batchItems : Except ε (List α) → List α
  | .ok items => items
  | .error _ => []

/-- What looking comes to. There is nothing in the queue unless an item is handed out. -/
inductive Looks (cancelled : Bool) : Poller α → Poller α × Move α ε → Prop
  | hands {due item rest} : Looks cancelled (.handing due (item :: rest)) (.handing due rest, .yield (.ok item))
  | starts {now} : Looks cancelled .idle (.waiting now, .started)
  | polling {due} : Looks cancelled (.polling due) (.polling due, .blocked)
  | waits {p due} (empty : p.queue = []) : Looks cancelled p (.waiting due, .blocked)
  | polls {p due} (going : cancelled = false) (empty : p.queue = []) : Looks cancelled p (.polling due, .poll)
  | finishes {p} (seen : p = .over ∨ cancelled = true) (empty : p.queue = []) : Looks cancelled p (.over, .finished)
  | breaks {p} (empty : p.queue = []) : Looks cancelled p (.broken, .broke)

theorem looks_await {p : Poller α} (empty : p.queue = []) (period : Duration) (now due : Instant) (cancelled : Bool) :
    Looks cancelled p (@await α ε period now cancelled due) := by
  unfold await
  split
  case isTrue seen => exact .finishes (Or.inr seen) empty
  case isFalse going =>
    split
    · exact .polls (Bool.eq_false_iff.2 going) empty
    · exact .waits empty

theorem looks_look (period : Duration) (now : Instant) (cancelled : Bool) (p : Poller α) :
    Looks cancelled p (@look α ε period now cancelled p) := by
  cases p with
  | idle =>
    show Looks cancelled _ (if period = .zero then (.broken, .broke) else (.waiting now, .started))
    split
    · exact .breaks rfl
    · exact .starts
  | waiting due | pausing due => exact looks_await rfl period now due cancelled
  | polling due => exact .polling
  | handing due rest =>
    cases rest with
    | nil =>
      show Looks cancelled _ (pollUnless cancelled due)
      unfold pollUnless
      split
      case isTrue seen => exact .finishes (Or.inr seen) rfl
      case isFalse going => exact .polls (Bool.eq_false_iff.2 going) rfl
    | cons item rest => exact .hands
  | «over» => exact .finishes (Or.inl rfl) rfl
  | broken => exact .breaks rfl

/-- Looking hands out the first of the queue or nothing. -/
theorem Looks.items {cancelled : Bool} {p : Poller α} {step : Poller α × Move α ε} (h : Looks cancelled p step) :
    step.2.items ++ step.1.queue = p.queue := by
  cases h with
  | hands | starts | polling => rfl
  | waits empty | polls _ empty | finishes _ empty | breaks empty => exact empty.symm

theorem items_answer (batch : Except ε (List α)) (p : Poller α) :
    (∃ due, p = .polling due ∧ (p.answer batch).2.items ++ (p.answer batch).1.queue = batchItems batch) ∨
      (p.answer batch).1 = p ∧ (p.answer batch).2.items = [] := by
  cases p with
  | polling due =>
    refine Or.inl ⟨due, rfl, ?_⟩
    rcases batch with e | _ | ⟨item, rest⟩ <;> rfl
  | _ => exact Or.inr ⟨rfl, rfl⟩

end Poller

/-! ## Streams -/

namespace ClaimStream

def queue : ClaimStream → List Pending
  | .pulling batches => batches.queue
  | .renewing batches _ | .releasing batches _ => batches.queue

def held : ClaimStream → List Claimed
  | .pulling batches => batches.queue.map (·.claimed)
  | .renewing batches c | .releasing batches c => c :: batches.queue.map (·.claimed)

/-- Whether every message in the poller is marked as one that waited. -/
def Waits (s : ClaimStream) : Prop := ∀ p ∈ s.queue, p.waited = true

def Move.items : Move → List Claimed
  | .yield (.ok c) => [c]
  | _ => []

def claimsOf : Store.Reply → List Claimed
  | .ok (.claimed messages) => messages
  | _ => []

theorem map_claimed_ofBatch (messages : List Claimed) : (Pending.ofBatch messages).map (·.claimed) = messages := by
  cases messages with
  | nil => rfl
  | cons c rest => simp [Pending.ofBatch, Function.comp_def]

theorem batchItems_batch (reply : Store.Reply) :
    (Poller.batchItems (batch reply)).map (·.claimed) = claimsOf reply := by
  unfold batch claimsOf
  split
  · exact map_claimed_ofBatch _
  · split <;> simp_all [Poller.batchItems]
  · rfl

/-- What a stream makes of a move of its poller: it passes the move on, or sets a message aside. -/
inductive Follows (cancelled : Bool) (batches : Poller Pending) :
    Poller.Move Pending Store.Error → ClaimStream × Move → Prop
  /-- What has waited is not handed out before its lease is restarted, and nothing is after the token has fired. -/
  | passes {move move'} (items : move'.items = move.items.map (·.claimed))
      (fresh : ∀ p ∈ move.items, cancelled = false ∧ p.waited = false) (finished : move' = .finished → move = .finished)
      (broke : move' = .broke → move = .broke) : Follows cancelled batches move (.pulling batches, move')
  | renews {p} (going : cancelled = false) (waited : p.waited = true) :
      Follows cancelled batches (.yield (.ok p)) (.renewing batches p.claimed, .proceed none)
  | releases {p} (seen : cancelled = true) :
      Follows cancelled batches (.yield (.ok p)) (.releasing batches p.claimed, .proceed none)

theorem follows_follow (cancelled : Bool) (batches : Poller Pending) (move : Poller.Move Pending Store.Error) :
    Follows cancelled batches move (follow cancelled batches move) := by
  have hnone : ∀ p ∈ ([] : List Pending), cancelled = false ∧ p.waited = false := fun p hp => by cases hp
  rcases move with _ | _ | _ | _ | (e | p) | _ | _
  case yield.ok =>
    show Follows cancelled batches _ (if cancelled then _ else if p.waited then _ else _)
    split
    case isTrue seen => exact .releases seen
    case isFalse going =>
      have hgoing := Bool.eq_false_iff.2 going
      split
      case isTrue waited => exact .renews hgoing waited
      case isFalse fresh =>
        have hfresh : ∀ p' ∈ [p], cancelled = false ∧ p'.waited = false := fun p' hp' => by
          rw [List.mem_singleton.1 hp']
          exact ⟨hgoing, Bool.eq_false_iff.2 fresh⟩
        exact .passes rfl hfresh (fun h => by cases h) fun h => by cases h
  case finished => exact .passes rfl hnone (fun _ => rfl) fun h => by cases h
  case broke => exact .passes rfl hnone (fun h => by cases h) fun _ => rfl
  all_goals exact .passes rfl hnone (fun h => by cases h) fun h => by cases h

section Follows

variable {cancelled : Bool} {batches : Poller Pending} {move : Poller.Move Pending Store.Error}
  {step : ClaimStream × Move}

theorem Follows.items (h : Follows cancelled batches move step) :
    step.2.items ++ step.1.held = (move.items ++ batches.queue).map (·.claimed) := by
  cases h with
  | passes items => rw [items, List.map_append]; rfl
  | renews | releases => rfl

theorem Follows.queue (h : Follows cancelled batches move step) : step.1.queue = batches.queue := by
  cases h <;> rfl

theorem Follows.items_of_waited (h : Follows cancelled batches move step) (waited : ∀ p ∈ move.items, p.waited = true) :
    step.2.items = [] := by
  cases h with
  | passes items fresh =>
    have hnone : move.items = [] := List.eq_nil_iff_forall_not_mem.2 fun p hp => by
      have := (fresh p hp).2
      rw [waited p hp] at this
      cases this
    rw [items, hnone]
    rfl
  | renews | releases => rfl

end Follows

variable {s : ClaimStream} (setup : Setup) (now : Instant) (cancelled : Bool)

theorem look_pulling (batches : Poller Pending) :
    look setup now cancelled (.pulling batches) =
      follow cancelled (@Poller.look _ Store.Error setup.period now cancelled batches).1
        (batches.look setup.period now cancelled).2 := rfl

theorem answer_pulling (reply : Store.Reply) (batches : Poller Pending) :
    answer cancelled reply (.pulling batches) =
      follow cancelled (batches.answer (batch reply)).1 (batches.answer (batch reply)).2 := rfl

theorem items_look (s : ClaimStream) :
    (s.look setup now cancelled).2.items ++ (s.look setup now cancelled).1.held = s.held := by
  cases s with
  | pulling batches =>
    rw [look_pulling, (follows_follow _ _ _).items, (Poller.looks_look _ _ _ _).items]
    rfl
  | renewing | releasing => rfl

theorem Waits.look (h : s.Waits) : (s.look setup now cancelled).1.Waits := by
  cases s with
  | pulling batches =>
    intro p hp
    rw [look_pulling, (follows_follow _ _ _).queue] at hp
    refine h p ?_
    show p ∈ batches.queue
    rw [← (Poller.looks_look setup.period now cancelled batches).items]
    exact List.mem_append_right _ hp
  | renewing | releasing => exact h

theorem Waits.items_look (h : s.Waits) : (s.look setup now cancelled).2.items = [] := by
  cases s with
  | pulling batches =>
    rw [look_pulling]
    refine (follows_follow _ _ _).items_of_waited fun p hp => h p ?_
    show p ∈ batches.queue
    rw [← (Poller.looks_look setup.period now cancelled batches).items]
    exact List.mem_append_left _ hp
  | renewing | releasing => rfl

theorem items_answer (reply : Store.Reply) (s : ClaimStream) :
    ((s.answer cancelled reply).2.items ++ (s.answer cancelled reply).1.held).Sublist (s.held ++ claimsOf reply) := by
  cases s with
  | pulling batches =>
    rw [answer_pulling, (follows_follow _ _ _).items]
    rcases Poller.items_answer (batch reply) batches with ⟨due, rfl, hbatch⟩ | ⟨hsame, hnone⟩
    · rw [hbatch, batchItems_batch]
      exact List.sublist_append_right _ _
    · rw [hsame, hnone]
      exact List.sublist_append_left _ _
  | renewing batches c =>
    refine List.Sublist.trans ?_ (List.sublist_append_left _ _)
    unfold answer
    simp only
    split
    · exact List.sublist_cons_self c _
    · exact List.Sublist.refl _
    · exact List.sublist_cons_self c _
  | releasing batches c =>
    refine List.Sublist.trans ?_ (List.sublist_append_left _ _)
    unfold answer
    simp only
    split <;> exact List.sublist_cons_self c _

theorem Waits.answer (h : s.Waits) (reply : Store.Reply) : (s.answer cancelled reply).1.Waits := by
  cases s with
  | pulling batches =>
    intro p hp
    rw [answer_pulling, (follows_follow _ _ _).queue] at hp
    rcases Poller.items_answer (batch reply) batches with ⟨due, rfl, -⟩ | ⟨hsame, -⟩
    · -- of a new batch, the first is handed out and the others are marked
      rcases reply with e | _ | offset | (_ | ⟨c, rest⟩) | still
      case ok.claimed.cons =>
        obtain ⟨c', -, rfl⟩ := List.mem_map.1 hp
        rfl
      all_goals cases hp
    · rw [hsame] at hp
      exact h p hp
  | renewing batches c =>
    unfold ClaimStream.answer
    simp only
    split <;> exact h
  | releasing batches c =>
    unfold ClaimStream.answer
    simp only
    split <;> exact h

/-- A claim is handed out when the store has just given it, as the first of its batch, or has just restarted its
lease. -/
theorem mem_items_answer {reply : Store.Reply} {c : Claimed} (h : c ∈ (s.answer cancelled reply).2.items) :
    (∃ due rest, s = .pulling (.polling due) ∧ reply = .ok (.claimed (c :: rest))) ∨
      ∃ batches a, s = .renewing batches c ∧ reply = .ok a ∧ a ≠ .held false := by
  cases s with
  | pulling batches =>
    rcases Poller.items_answer (batch reply) batches with ⟨due, rfl, -⟩ | ⟨-, hnone⟩
    · rcases reply with e | _ | offset | (_ | ⟨c', rest⟩) | still
      case ok.claimed.cons =>
        cases cancelled with
        | true => cases h
        | false =>
          rw [List.mem_singleton.1 h]
          exact Or.inl ⟨due, rest, rfl, rfl⟩
      all_goals cases h
    · have hwaited : ∀ p ∈ (batches.answer (batch reply)).2.items, p.waited = true := by
        rw [hnone]
        exact fun p hp => by cases hp
      rw [answer_pulling, (follows_follow _ _ _).items_of_waited hwaited] at h
      cases h
  | renewing batches c' =>
    rcases reply with e | _ | offset | messages | (_ | _)
    case error | ok.held.false => cases h
    all_goals
      rw [List.mem_singleton.1 h]
      exact Or.inr ⟨batches, _, rfl, rfl, by simp⟩
  | releasing batches c' => rcases reply with e | a <;> cases h

end ClaimStream

end DurableBus
