import DurableBus.Proofs.Chronicle
import DurableBus.Proofs.Consumer.Stream

/-!
# What a poller does

A `Tap` is a poller with its token and somebody who pulls. Whatever polls come to, whenever items are asked for and
whenever the token fires is a list of cues.

* `Permitted` : what may be seen next, after what has been seen;
* `keeps_step`, `keeps_run` : everything that is seen is permitted, and where a poller stands can be told from it;
* `Advances` : what is seen when somebody pulls;
* `polling_told` : both, for every course.
-/

set_option autoImplicit false

namespace DurableBus

namespace Poller

variable {α ε : Type}

/-! ## What happens and what is seen -/

/-- What may happen to a poller. -/
inductive Cue (α ε : Type)
  /-- The next item is asked for. -/
  | pull
  /-- Nobody waits for it any more. -/
  | leave
  | fire
  | look (now : Instant)
  /-- The poll under way ends. -/
  | answer (result : Except ε (List α))

/-- What is seen of a poller. -/
inductive Act (α ε : Type)
  | pulled
  | left
  | fired
  /-- It starts, and tells whoever wants to know. -/
  | started (now : Instant)
  | ticked (now : Instant)
  | polled
  | answered (result : Except ε (List α))
  | gave (item : Except ε α)
  | ended
  | broke

/-- A poller, whether an item has been asked for, and whether the token has fired. -/
structure Tap (α : Type) where
  poller : Poller α
  asked : Bool
  fired : Bool

/-- Whether a move is what a pull waits for. -/
@[simp] def Move.serves : Move α ε → Bool
  | .yield _ | .finished | .broke => true
  | _ => false

/-- What is seen of a move. A poll begins at a tick, unless the poller has just handed out a batch. -/
@[simp] def Move.acts (now : Instant) (atTick : Bool) : Move α ε → List (Act α ε)
  | .blocked | .proceed => []
  | .started => [.started now]
  | .poll => if atTick then [.ticked now, .polled] else [.polled]
  | .yield item => [.gave item]
  | .finished => [.ended]
  | .broke => [.broke]

def awaitsTick : Poller α → Bool
  | .waiting _ | .pausing _ => true
  | _ => false

namespace Tap

def fresh : Tap α := ⟨.idle, false, false⟩

def moved (t : Tap α) (done : Poller α × Move α ε) : Tap α := { t with poller := done.1, asked := !done.2.serves }

/-- Something happens. Nothing of a poller runs unless an item has been asked for. -/
def step (period : Duration) (t : Tap α) : Cue α ε → Tap α
  | .pull => { t with asked := true }
  | .leave => { t with asked := false }
  | .fire => { t with fired := true }
  | .look now => if t.asked then t.moved (@look α ε period now t.fired t.poller) else t
  | .answer result => if t.asked then t.moved (t.poller.answer result) else t

def acts (period : Duration) (t : Tap α) : Cue α ε → List (Act α ε)
  | .pull => [.pulled]
  | .leave => [.left]
  | .fire => [.fired]
  | .look now => if t.asked then (look period now t.fired t.poller).2.acts now t.poller.awaitsTick else []
  | .answer result =>
    match t.asked, t.poller with
    | true, .polling _ => .answered result :: (t.poller.answer result).2.acts 0 false
    | _, _ => []

def run (period : Duration) (t : Tap α) (course : List (Cue α ε)) : Tap α := course.foldl (step period) t

end Tap

def history (period : Duration) (course : List (Cue α ε)) : List (Act α ε) :=
  chronicle (Tap.step period) (Tap.acts period) .fresh course

/-! ## What can be told from what has been seen -/

namespace Act

@[simp] def isPoll : Act α ε → Bool
  | .polled => true
  | _ => false

@[simp] def result? : Act α ε → Option (Except ε (List α))
  | .answered result => some result
  | _ => none

@[simp] def item? : Act α ε → Option (Except ε α)
  | .gave item => some item
  | _ => none

/-- Whether an item is asked for after this. -/
@[simp] def asking (before : Bool) : Act α ε → Bool
  | .pulled => true
  | .left | .gave _ | .ended | .broke => false
  | _ => before

/-- Whether there has been a tick for the next poll after this. -/
@[simp] def ticking (before : Bool) : Act α ε → Bool
  | .ticked _ => true
  | .polled => false
  | _ => before

/-- When the next tick is due after this: the first one at once. -/
@[simp] def due (period : Duration) (before : Option Instant) : Act α ε → Option Instant
  | .started now => some now
  | .ticked now => before.map (nextTick period · now)
  | _ => before

end Act

section Past

variable (past : List (Act α ε))

def polls : Nat := past.countP Act.isPoll

def results : List (Except ε (List α)) := past.filterMap Act.result?

def given : List (Except ε α) := past.filterMap Act.item?

def entries : Except ε (List α) → List (Except ε α)
  | .ok items => items.map .ok
  | .error e => [.error e]

def fetched : List (Except ε α) := (results past).flatMap entries

def isAsked : Bool := past.foldl Act.asking false

def isTicked : Bool := past.foldl Act.ticking false

/-- When the next tick is due; there is a ticker once the poller has started. -/
def due? (period : Duration) : Option Instant := past.foldl (Act.due period) none

def isFull : Except ε (List α) → Bool
  | .ok (_ :: _) => true
  | _ => false

def wasFull : Bool := (results past).getLast?.any isFull

/-- No poll is under way, and all that was fetched has been given. -/
structure Spent : Prop where
  idle : polls past = (results past).length
  given : fetched past = given past

end Past

/-- What may be seen after what has been seen. -/
inductive Permitted (period : Duration) (past : List (Act α ε)) : Act α ε → Prop
  | pulled : Permitted period past .pulled
  | left : Permitted period past .left
  | fired : Permitted period past .fired
  | started {now} (asked : isAsked past = true) (first : due? past period = none) (unpolled : polls past = 0) :
      Permitted period past (.started now)
  | ticked {now at'} (asked : isAsked past = true) (going : .fired ∉ past) (due : due? past period = some at')
      (reached : at' ≤ now) (once : isTicked past = false) (spent : Spent past) (unfilled : wasFull past = false) :
      Permitted period past (.ticked now)
  /-- A poll begins when everything has been given and more is asked for, after a tick or after a batch. -/
  | polled (asked : isAsked past = true) (going : .fired ∉ past) (spent : Spent past)
      (paced : isTicked past = !wasFull past) : Permitted period past .polled
  | answered {result} (asked : isAsked past = true) (underWay : polls past = (results past).length + 1) :
      Permitted period past (.answered result)
  | gave {item rest} (asked : isAsked past = true) (next : fetched past = given past ++ item :: rest) :
      Permitted period past (.gave item)
  | ended (asked : isAsked past = true) (seen : .fired ∈ past) (spent : Spent past) : Permitted period past .ended
  | broke (asked : isAsked past = true) (zero : period = .zero) (unpolled : polls past = 0) :
      Permitted period past .broke

/-! ## Where a poller stands -/

/-- Where a poller stands after what has been seen. -/
inductive Stands (period : Duration) (past : List (Act α ε)) : Poller α → Prop
  | idle (spent : Spent past) (unpolled : polls past = 0) (unstarted : due? past period = none)
      (unticked : isTicked past = false) : Stands period past .idle
  | waiting {due} (spent : Spent past) (unfilled : wasFull past = false) (is : due? past period = some due)
      (unticked : isTicked past = false) : Stands period past (.waiting due)
  | pausing {due} (spent : Spent past) (unfilled : wasFull past = false) (is : due? past period = some due)
      (unticked : isTicked past = false) : Stands period past (.pausing due)
  | polling {due} (underWay : polls past = (results past).length + 1) (given : fetched past = given past)
      (is : due? past period = some due) (unticked : isTicked past = false) : Stands period past (.polling due)
  | handing {due rest} (idle : polls past = (results past).length)
      (left : fetched past = given past ++ rest.map .ok) (full : wasFull past = true)
      (is : due? past period = some due) (unticked : isTicked past = false) : Stands period past (.handing due rest)
  | over {due} (spent : Spent past) (seen : .fired ∈ past) (is : due? past period = some due) : Stands period past .over
  | broken (zero : period = .zero) (unpolled : polls past = 0) : Stands period past .broken

/-- Everything is permitted, and where the poller stands can be told. -/
structure Keeps (period : Duration) (told : List (Act α ε)) (t : Tap α) : Prop where
  founded : Founded (Permitted period) told
  asked : isAsked told = t.asked
  fired : .fired ∈ told ↔ t.fired = true
  stands : Stands period told t.poller

section Append

variable (past more : List (Act α ε)) (period : Duration)

@[simp] theorem polls_nil : polls ([] : List (Act α ε)) = 0 := rfl

@[simp] theorem polls_cons (act : Act α ε) : polls (act :: past) = polls past + if act.isPoll then 1 else 0 :=
  List.countP_cons

@[simp] theorem results_nil : results ([] : List (Act α ε)) = [] := rfl

@[simp] theorem results_cons (act : Act α ε) : results (act :: past) = act.result?.toList ++ results past := by
  rw [results, List.filterMap_cons]
  cases act.result? <;> rfl

@[simp] theorem given_nil : given ([] : List (Act α ε)) = [] := rfl

@[simp] theorem given_cons (act : Act α ε) : given (act :: past) = act.item?.toList ++ given past := by
  rw [given, List.filterMap_cons]
  cases act.item? <;> rfl

@[simp] theorem fetched_nil : fetched ([] : List (Act α ε)) = [] := rfl

@[simp] theorem fetched_cons (act : Act α ε) :
    fetched (act :: past) = act.result?.toList.flatMap entries ++ fetched past := by
  simp [fetched]

@[simp] theorem polls_append : polls (past ++ more) = polls past + polls more := List.countP_append

@[simp] theorem results_append : results (past ++ more) = results past ++ results more := List.filterMap_append

@[simp] theorem given_append : given (past ++ more) = given past ++ given more := List.filterMap_append

@[simp] theorem fetched_append : fetched (past ++ more) = fetched past ++ fetched more := by
  simp [fetched]

@[simp] theorem isAsked_append : isAsked (past ++ more) = more.foldl Act.asking (isAsked past) := List.foldl_append

@[simp] theorem isTicked_append : isTicked (past ++ more) = more.foldl Act.ticking (isTicked past) := List.foldl_append

@[simp] theorem due?_append : due? (past ++ more) period = more.foldl (Act.due period) (due? past period) :=
  List.foldl_append

/-- Only a result changes what the last poll brought. -/
theorem wasFull_append (h : results more = []) : wasFull (past ++ more) = wasFull past := by
  simp [wasFull, h]

theorem wasFull_answered (result : Except ε (List α)) (h : results more = []) :
    wasFull (past ++ .answered result :: more) = isFull result := by
  have hresults : results (.answered result :: more) = [result] := by
    rw [← h]
    rfl
  simp [wasFull, hresults]

end Append

/-! ## One step -/

section Step

variable {period : Duration} {told told' more : List (Act α ε)} {t : Tap α} {p : Poller α} {fired : Bool}
  {now due : Instant}

theorem Spent.unfilled (h : Spent told) (unpolled : polls told = 0) : wasFull told = false := by
  have hresults : results told = [] := List.length_eq_zero_iff.1 (h.idle.symm.trans unpolled)
  rw [wasFull, hresults]
  rfl

theorem Spent.append (h : Spent told) (h' : Spent more) : Spent (told ++ more) := by
  constructor
  · simp only [polls_append, results_append, List.length_append, h.idle, h'.idle]
  · rw [fetched_append, given_append, h.given, h'.given]

/-- Two pasts from which the same can be told. -/
structure Alike (period : Duration) (told told' : List (Act α ε)) : Prop where
  polls : polls told' = polls told
  results : results told' = results told
  given : given told' = given told
  ticked : isTicked told' = isTicked told
  due : due? told' period = due? told period
  fired : .fired ∈ told → .fired ∈ told'

theorem Alike.spent (h : Alike period told told') (hspent : Spent told) : Spent told' := by
  constructor
  · rw [h.polls, h.results, hspent.idle]
  · rw [fetched, h.results, h.given]
    exact hspent.given

theorem Stands.alike (hp : Stands period told p) (h : Alike period told told') : Stands period told' p := by
  have hfull : wasFull told' = wasFull told := by rw [wasFull, h.results, wasFull]
  have hfetched : fetched told' = fetched told := by rw [fetched, h.results, fetched]
  cases hp with
  | idle spent unpolled unstarted unticked =>
    exact .idle (h.spent spent) (h.polls.trans unpolled) (h.due.trans unstarted) (h.ticked.trans unticked)
  | waiting spent unfilled due unticked =>
    exact .waiting (h.spent spent) (hfull.trans unfilled) (h.due.trans due) (h.ticked.trans unticked)
  | pausing spent unfilled due unticked =>
    exact .pausing (h.spent spent) (hfull.trans unfilled) (h.due.trans due) (h.ticked.trans unticked)
  | polling underWay given due unticked =>
    refine .polling ?_ ?_ (h.due.trans due) (h.ticked.trans unticked)
    · rw [h.polls, h.results, underWay]
    · rw [hfetched, h.given, given]
  | handing idle left full due unticked =>
    refine .handing ?_ ?_ (hfull.trans full) (h.due.trans due) (h.ticked.trans unticked)
    · rw [h.polls, h.results, idle]
    · rw [hfetched, h.given, left]
  | «over» spent seen due => exact .over (h.spent spent) (h.fired seen) (h.due.trans due)
  | broken zero unpolled => exact .broken zero (h.polls.trans unpolled)

/-- An item is asked for, given up or the token fires. -/
theorem alike_aside {act : Act α ε} (h : act = .pulled ∨ act = .left ∨ act = .fired) :
    Alike period told (told ++ [act]) := by
  have hmem : Act.fired ∈ told → Act.fired ∈ told ++ [act] := fun hfired => List.mem_append_left _ hfired
  rcases h with rfl | rfl | rfl
  all_goals exact ⟨polls_append _ _, by simp, by simp, isTicked_append _ _,
    due?_append _ _ _, hmem⟩

theorem founded_one {act : Act α ε} (h : Permitted period told act) :
    Founded (fun before => Permitted period (told ++ before)) [act] := by
  simpa using h

theorem Keeps.aside {act : Act α ε} (h : Keeps period told t) (hact : act = .pulled ∨ act = .left ∨ act = .fired)
    {t' : Tap α} (hpoller : t'.poller = t.poller) (hasked : t'.asked = act.asking t.asked)
    (hfired : t'.fired = true ↔ t.fired = true ∨ act = .fired) : Keeps period (told ++ [act]) t' := by
  constructor
  · refine h.founded.append (founded_one ?_)
    rcases hact with rfl | rfl | rfl
    · exact .pulled
    · exact .left
    · exact .fired
  · rw [isAsked_append, hasked, h.asked]
    rfl
  · rw [List.mem_append, List.mem_singleton, h.fired, hfired, eq_comm (a := act)]
  · rw [hpoller]
    exact h.stands.alike (alike_aside hact)

theorem Keeps.ended (h : Keeps period told ⟨p, true, fired⟩) (seen : fired = true) (hspent : Spent told)
    (hdue : due? told period = some due) : Keeps period (told ++ [.ended]) ⟨.over, false, fired⟩ := by
  have hfired : Act.fired ∈ told := h.fired.2 seen
  constructor
  · exact h.founded.append (founded_one (.ended h.asked hfired hspent))
  · simp
  · simpa using h.fired
  · refine .over (hspent.append ⟨rfl, rfl⟩) (List.mem_append_left _ hfired) (?_ : _ = some due)
    simpa using hdue

theorem Keeps.blocked {p' : Poller α} (h : Keeps period told ⟨p, true, fired⟩) (hp : Stands period told p') :
    Keeps period (told ++ []) ⟨p', true, fired⟩ := by
  rw [List.append_nil]
  exact ⟨h.founded, h.asked, h.fired, hp⟩

theorem stands_polled (hspent : Spent told) (hdue : due? told period = some due) :
    Stands period (told ++ [.polled]) (.polling due) := by
  refine .polling ?_ ?_ ?_ ?_
  · simp [hspent.idle]
  · simp [hspent.given]
  · simpa using hdue
  · simp

/-- A poller that waits for a tick sees the token, the tick, or nothing. -/
theorem keeps_await (h : Keeps period told ⟨p, true, fired⟩) (hspent : Spent told) (unfilled : wasFull told = false)
    (hdue : due? told period = some due) (unticked : isTicked told = false) :
    Keeps period (told ++ (@await α ε period now fired due).2.acts now true)
      (Tap.moved ⟨p, true, fired⟩ (@await α ε period now fired due)) := by
  unfold await
  split
  case isTrue seen => exact h.ended seen hspent hdue
  case isFalse going =>
    have hgoing : Act.fired ∉ told := fun hfired => going (h.fired.1 hfired)
    split
    case isTrue reached =>
      have hticked : Permitted period told (.ticked now) := .ticked h.asked hgoing hdue reached unticked hspent unfilled
      have hspent' : Spent (told ++ [.ticked now]) := hspent.append ⟨rfl, rfl⟩
      have hdue' : due? (told ++ [.ticked now]) period = some (nextTick period due now) := by simp [hdue]
      have hpolled : Permitted period (told ++ [.ticked now]) .polled := by
        refine .polled ?_ (by simpa using hgoing) hspent' ?_
        · simpa using h.asked
        · rw [wasFull_append _ _ rfl, unfilled]
          simp
      show Keeps period (told ++ ([.ticked now] ++ [.polled])) _
      rw [← List.append_assoc]
      constructor
      · exact (h.founded.append (founded_one hticked)).append (founded_one hpolled)
      · simpa [Tap.moved] using h.asked
      · simpa [Tap.moved] using h.fired
      · exact stands_polled hspent' hdue'
    case isFalse early => exact h.blocked (.waiting hspent unfilled hdue unticked)

theorem keeps_look (h : Keeps period told ⟨p, true, fired⟩) :
    Keeps period (told ++ (@look α ε period now fired p).2.acts now p.awaitsTick)
      (Tap.moved ⟨p, true, fired⟩ (@look α ε period now fired p)) := by
  cases h.stands with
  | idle spent unpolled unstarted unticked =>
    rw [look]
    split
    case isTrue zero =>
      constructor
      · exact h.founded.append (founded_one (.broke h.asked zero unpolled))
      · simp [Tap.moved]
      · simpa [Tap.moved] using h.fired
      · exact .broken zero (by simpa using unpolled)
    case isFalse =>
      constructor
      · exact h.founded.append (founded_one (.started h.asked unstarted unpolled))
      · simpa [Tap.moved] using h.asked
      · simpa [Tap.moved] using h.fired
      · refine .waiting (spent.append ⟨rfl, rfl⟩) ?_ (by simp) (by simpa using unticked)
        rw [wasFull_append _ _ rfl, spent.unfilled unpolled]
  | waiting spent unfilled hdue unticked | pausing spent unfilled hdue unticked =>
    exact keeps_await h spent unfilled hdue unticked
  | polling => exact h.blocked h.stands
  | @handing due rest idle left full hdue unticked =>
    cases rest with
    | nil =>
      have hspent : Spent told := ⟨idle, by simpa using left⟩
      rw [look, pollUnless]
      split
      case isTrue seen => exact h.ended seen hspent hdue
      case isFalse going =>
        have hgoing : Act.fired ∉ told := fun hfired => going (h.fired.1 hfired)
        constructor
        · refine h.founded.append (founded_one (.polled h.asked hgoing hspent ?_))
          rw [unticked, full]
          rfl
        · simpa [Tap.moved, awaitsTick] using h.asked
        · simpa [Tap.moved, awaitsTick] using h.fired
        · exact stands_polled hspent hdue
    | cons item rest =>
      constructor
      · exact h.founded.append (founded_one (.gave h.asked left))
      · simp [Tap.moved, look]
      · simpa [Tap.moved, look] using h.fired
      · refine .handing ?_ ?_ ?_ ?_ ?_
        · simpa [look] using idle
        · simpa [look] using left
        · rw [wasFull_append _ _ rfl, full]
        · simpa [look] using hdue
        · simpa [look] using unticked
  | «over» spent seen hdue => exact h.ended (h.fired.1 seen) spent hdue
  | broken zero unpolled =>
    constructor
    · exact h.founded.append (founded_one (.broke h.asked zero unpolled))
    · simp [Tap.moved, look]
    · simpa [Tap.moved, look] using h.fired
    · exact .broken zero (by simpa [look] using unpolled)

theorem Keeps.answered {result : Except ε (List α)} {entry : Except ε α} {rest : List (Except ε α)}
    (h : Keeps period told ⟨.polling due, true, fired⟩) (hresult : entries result = entry :: rest)
    (hp : Stands period (told ++ [.answered result, .gave entry]) p) :
    Keeps period (told ++ [.answered result, .gave entry]) ⟨p, false, fired⟩ := by
  have hstands := h.stands
  cases hstands with
  | polling underWay hgiven hdue unticked =>
    have hgave : Permitted period (told ++ [.answered result]) (.gave entry) := by
      refine @Permitted.gave _ _ _ _ _ rest ?_ ?_
      · simpa using h.asked
      · simp [hresult, ← hgiven]
    constructor
    · rw [List.append_cons]
      exact (h.founded.append (founded_one (.answered h.asked underWay))).append (founded_one hgave)
    · simp
    · simpa using h.fired
    · exact hp

theorem keeps_answer (h : Keeps period told ⟨.polling due, true, fired⟩) (result : Except ε (List α)) :
    Keeps period (told ++ .answered result :: ((polling due).answer result).2.acts 0 false)
      (Tap.moved ⟨.polling due, true, fired⟩ ((polling due).answer result)) := by
  have hstands := h.stands
  cases hstands with
  | polling underWay hgiven hdue unticked =>
    rcases result with e | _ | ⟨item, rest⟩
    case error =>
      refine h.answered rfl (.pausing ⟨?_, ?_⟩ ?_ ?_ ?_)
      · simp [underWay]
      · simp [hgiven, entries]
      · rw [wasFull_answered _ _ _ rfl]
        rfl
      · simpa using hdue
      · simpa using unticked
    case ok.nil =>
      constructor
      · exact h.founded.append (founded_one (.answered h.asked underWay))
      · simpa [answer, Tap.moved] using h.asked
      · simpa [answer, Tap.moved] using h.fired
      · refine .waiting ⟨?_, ?_⟩ ?_ ?_ ?_
        · simp [answer, underWay]
        · simp [answer, hgiven, entries]
        · rw [wasFull_answered _ _ _ rfl]
          rfl
        · simpa [answer] using hdue
        · simpa [answer] using unticked
    case ok.cons =>
      refine h.answered rfl (.handing ?_ ?_ ?_ ?_ ?_)
      · simp [underWay]
      · simp [hgiven, entries]
      · rw [wasFull_answered _ _ _ rfl]
        rfl
      · simpa using hdue
      · simpa using unticked

theorem keeps_step (h : Keeps period told t) (cue : Cue α ε) :
    Keeps period (told ++ t.acts period cue) (t.step period cue) := by
  obtain ⟨p, asked, fired⟩ := t
  cases cue with
  | pull => exact h.aside (Or.inl rfl) rfl rfl (by simp [Tap.step])
  | leave => exact h.aside (Or.inr (Or.inl rfl)) rfl rfl (by simp [Tap.step])
  | fire => exact h.aside (Or.inr (Or.inr rfl)) rfl rfl (by simp [Tap.step])
  | look now =>
    cases asked with
    | false =>
      show Keeps period (told ++ []) _
      rw [List.append_nil]
      exact h
    | true => exact keeps_look h
  | answer result =>
    cases asked with
    | false =>
      show Keeps period (told ++ []) _
      rw [List.append_nil]
      exact h
    | true =>
      cases p with
      | polling due => exact keeps_answer h result
      | _ => exact h.blocked h.stands

end Step

/-! ## Whole courses -/

theorem keeps_nil (period : Duration) : Keeps period ([] : List (Act α ε)) Tap.fresh := by
  constructor
  · exact founded_nil
  · rfl
  · simp [Tap.fresh]
  · exact .idle ⟨rfl, rfl⟩ rfl rfl rfl

/-- **Whatever happens to a poller, everything that is seen is permitted.** -/
theorem keeps_run (period : Duration) (course : List (Cue α ε)) :
    Keeps period (history period course) (Tap.fresh.run period course) := by
  induction course using List.reverseRecOn with
  | nil => exact keeps_nil period
  | append_singleton course cue ih =>
    rw [history, chronicle_concat, Tap.run, List.foldl_append]
    exact keeps_step ih cue

/-! ## What a pull gets -/

/-- What is seen when an item is asked for and something happens then. -/
def Tap.pull (period : Duration) (t : Tap α) (cues : List (Cue α ε)) : List (Act α ε) :=
  chronicle (Tap.step period) (Tap.acts period) t (.pull :: cues)

/-- What a pull gets when so much has been seen. -/
structure Serves (told : List (Act α ε)) (period : Duration) (seen : List (Cue α ε) → List (Act α ε)) : Prop where
  /-- What has been fetched is given before anything else, also after the token has fired. -/
  gives (now) : ∀ item rest, fetched told = given told ++ item :: rest → seen [.look now] = [.pulled, .gave item]
  starts (now) : due? told period = none → seen [.look now] = [.pulled, .started now]
  /-- A poll follows a batch without waiting. -/
  polls (now) : Spent told → .fired ∉ told → wasFull told = true → seen [.look now] = [.pulled, .polled]
  /-- After an empty batch and after a failure the next poll waits for the tick. -/
  paces (now due) : Spent told → .fired ∉ told → wasFull told = false → due? told period = some due →
    seen [.look now] = .pulled :: if due ≤ now then [.ticked now, .polled] else []
  answers (result) : Poller.polls told = (results told).length + 1 →
    seen [.answer result] = .pulled :: .answered result :: (entries result).head?.toList.map .gave
  /-- The stream ends when the token has fired and nothing is left. -/
  ends (now later) : Spent told → .fired ∈ told → seen [.look now, .look later] =
    .pulled :: (if (due? told period).isSome then [] else [.started now]) ++ [.ended]

section Pull

variable {period : Duration} {told : List (Act α ε)} {t : Tap α} {item : Except ε α} {rest : List (Except ε α)}
  {now later due : Instant}

theorem pull_look (t : Tap α) (more : List (Cue α ε)) :
    t.pull period (.look now :: more) =
      .pulled :: ((@look α ε period now t.fired t.poller).2.acts now t.poller.awaitsTick ++
        chronicle (Tap.step period) (Tap.acts period)
          (Tap.moved { t with asked := true } (@look α ε period now t.fired t.poller)) more) := rfl

theorem Spent.not_fetched (h : Spent told) : fetched told ≠ Poller.given told ++ item :: rest := by
  rw [h.given]
  simp

theorem pull_gives (h : Keeps period told t) (hperiod : period ≠ .zero)
    (hitem : fetched told = given told ++ item :: rest) : t.pull period [.look now] = [.pulled, .gave item] := by
  obtain ⟨p, asked, fired⟩ := t
  rw [pull_look]
  cases h.stands with
  | idle spent | waiting spent | pausing spent | «over» spent => exact absurd hitem spent.not_fetched
  | polling _ hgiven =>
    rw [hgiven] at hitem
    simp at hitem
  | @handing due queue _ left =>
    rw [left] at hitem
    cases queue with
    | nil => simp at hitem
    | cons first queue =>
      obtain ⟨rfl, -⟩ := List.cons.inj (List.append_cancel_left hitem)
      rfl
  | broken zero => exact absurd zero hperiod

theorem pull_starts (h : Keeps period told t) (hperiod : period ≠ .zero) (hdue : due? told period = none) :
    t.pull period [.look now] = ([.pulled, .started now] : List (Act α ε)) := by
  obtain ⟨p, asked, fired⟩ := t
  rw [pull_look]
  cases h.stands with
  | idle =>
    rw [look, if_neg hperiod]
    rfl
  | waiting _ _ is | pausing _ _ is | polling _ _ is | handing _ _ _ is | «over» _ _ is =>
    rw [is] at hdue
    cases hdue
  | broken zero => exact absurd zero hperiod

theorem pull_polls (h : Keeps period told t) (hperiod : period ≠ .zero) (hspent : Spent told) (going : .fired ∉ told)
    (full : wasFull told = true) : t.pull period [.look now] = ([.pulled, .polled] : List (Act α ε)) := by
  have hfired : t.fired = false := Bool.eq_false_iff.2 fun hfired => going (h.fired.2 hfired)
  obtain ⟨p, asked, fired⟩ := t
  obtain rfl : fired = false := hfired
  rw [pull_look]
  cases h.stands with
  | idle spent unpolled =>
    rw [spent.unfilled unpolled] at full
    cases full
  | waiting _ unfilled | pausing _ unfilled =>
    rw [unfilled] at full
    cases full
  | polling underWay => exact absurd hspent.idle (by omega)
  | @handing due queue _ left =>
    cases queue with
    | nil => rfl
    | cons item queue => exact absurd left hspent.not_fetched
  | «over» _ seen => exact absurd seen going
  | broken zero => exact absurd zero hperiod

theorem pull_paces (h : Keeps period told t) (hperiod : period ≠ .zero) (hspent : Spent told) (going : .fired ∉ told)
    (unfilled : wasFull told = false) (hdue : due? told period = some due) :
    t.pull period [.look now] =
      (.pulled :: if due ≤ now then [.ticked now, .polled] else [] : List (Act α ε)) := by
  have hfired : t.fired = false := Bool.eq_false_iff.2 fun hfired => going (h.fired.2 hfired)
  obtain ⟨p, asked, fired⟩ := t
  obtain rfl : fired = false := hfired
  rw [pull_look]
  cases h.stands with
  | idle _ _ unstarted =>
    rw [unstarted] at hdue
    cases hdue
  | waiting _ _ is | pausing _ _ is =>
    obtain rfl := Option.some.inj (hdue.symm.trans is)
    by_cases reached : due ≤ now <;> simp [look, await, reached, awaitsTick, chronicle]
  | polling underWay => exact absurd hspent.idle (by omega)
  | handing _ _ full =>
    rw [full] at unfilled
    cases unfilled
  | «over» _ seen => exact absurd seen going
  | broken zero => exact absurd zero hperiod

theorem pull_answers (h : Keeps period told t) (result : Except ε (List α))
    (underWay : polls told = (results told).length + 1) :
    t.pull period [.answer result] = .pulled :: .answered result :: (entries result).head?.toList.map .gave := by
  obtain ⟨p, asked, fired⟩ := t
  cases h.stands with
  | idle spent | waiting spent | pausing spent | «over» spent => exact absurd spent.idle (by omega)
  | polling => rcases result with e | _ | ⟨item, rest⟩ <;> rfl
  | handing idle => exact absurd idle (by omega)
  | broken _ unpolled => exact absurd unpolled (by omega)

theorem pull_ends (h : Keeps period told t) (hperiod : period ≠ .zero) (hspent : Spent told) (seen : .fired ∈ told) :
    t.pull period [.look now, .look later] =
      (.pulled :: (if (due? told period).isSome then [] else [.started now]) ++ [.ended] : List (Act α ε)) := by
  have hfired : t.fired = true := h.fired.1 seen
  obtain ⟨p, asked, fired⟩ := t
  obtain rfl : fired = true := hfired
  rw [pull_look]
  cases h.stands with
  | idle _ _ unstarted =>
    rw [unstarted, look, if_neg hperiod]
    rfl
  | waiting _ _ is | pausing _ _ is | «over» _ _ is =>
    rw [is]
    rfl
  | polling underWay => exact absurd hspent.idle (by omega)
  | @handing due queue _ left _ is =>
    rw [is]
    cases queue with
    | nil => rfl
    | cons item queue => exact absurd left hspent.not_fetched
  | broken zero => exact absurd zero hperiod

end Pull

/-- **Whatever polls come to, whenever items are asked for and whenever the token fires.** Everything that is seen is
permitted. Unless the period is zero, a pull gets what it should. -/
theorem polling_told (period : Duration) (course : List (Cue α ε)) :
    Founded (Permitted period) (history period course) ∧
      (period ≠ .zero → Serves (history period course) period ((Tap.fresh.run period course).pull period)) := by
  have hkeeps := keeps_run period course
  refine ⟨hkeeps.founded, fun hperiod => ?_⟩
  constructor
  case gives => exact fun now item rest hitem => pull_gives hkeeps hperiod hitem
  case starts => exact fun now hdue => pull_starts hkeeps hperiod hdue
  case polls => exact fun now hspent going full => pull_polls hkeeps hperiod hspent going full
  case paces => exact fun now due hspent going unfilled hdue => pull_paces hkeeps hperiod hspent going unfilled hdue
  case answers => exact fun result underWay => pull_answers hkeeps result underWay
  case ends => exact fun now later hspent seen => pull_ends hkeeps hperiod hspent seen

/-- A batch of two is fetched and the token fires after its first item: the second is still given. -/
theorem polling_told_cutShort :
    Duration.ofMillis 10 ≠ .zero ∧
      @history Nat String (.ofMillis 10) [.pull, .look 0, .look 0, .answer (.ok [7, 8]), .fire] =
        [.pulled, .started 0, .ticked 0, .polled, .answered (.ok [7, 8]), .gave (.ok 7), .fired] ∧
      (@Tap.run Nat String (.ofMillis 10) .fresh [.pull, .look 0, .look 0, .answer (.ok [7, 8]), .fire]).pull
        (.ofMillis 10) [.look 5] = ([.pulled, .gave (.ok 8)] : List (Act Nat String)) := by
  have hperiod : Duration.ofMillis 10 ≠ .zero := by decide
  exact ⟨hperiod, rfl, ((polling_told _ _).2 hperiod).gives 5 (.ok 8) [] rfl⟩

/-- With a period of zero the stream breaks when it is first pulled, and does not end once the token has fired. -/
theorem polling_breaks_without_period :
    @history Nat String .zero [.fire, .pull, .look 0, .look 0] = [.fired, .pulled, .broke] ∧
      ¬ Serves (@history Nat String .zero [.fire]) .zero ((@Tap.run Nat String .zero .fresh [.fire]).pull .zero) := by
  refine ⟨rfl, fun h => ?_⟩
  have hends := h.ends 0 0 ⟨rfl, rfl⟩ (List.mem_singleton_self _)
  cases hends

end Poller

end DurableBus
