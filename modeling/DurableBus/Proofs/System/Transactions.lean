import DurableBus.Proofs.System.Trail

/-!
# Transactions

What is published in a transaction is stored when the transaction is committed, and never if it is rolled back. An
`Act` is a turn of the system or something that a caller does with a transaction; every act comes to turns of the
system, so that a run of acts is a run of the system.

* `Exchange` : a system with the transactions that callers have open;
* `turnsOf`, `system_perform` : the turns that a run of acts comes to;
* `perform_rolledBack` : what is published in a transaction that is rolled back leaves no trace but the identifiers
  that were drawn for it.
-/

set_option autoImplicit false

namespace DurableBus

namespace System

/-- What is published, and what is to be stored for it. -/
structure Posting where
  context : TraceContext
  topic : String
  messages : List Message
  /-- Where it is stored. -/
  target : String
  /-- What is stored for the messages, one for each. -/
  written : List Message
deriving Repr

/-- What a bus makes of messages that are published through it, unless it refuses or there are none. -/
def posting? (s : System) (bus : Nat) (context : TraceContext) (topic : String) (messages : List Message) :
    Option Posting :=
  s.buses[bus]?.bind fun b =>
    match (b.publisher.prepare s.drawn context topic messages : Except (BusError Store.Error) _) with
    | .ok (some (target, written)) => some ⟨context, topic, messages, target, written⟩
    | _ => none

/-- What is published in a transaction: what the bus makes of the messages, if the store takes it. -/
def staged (s : System) (bus : Nat) (context : TraceContext) (topic : String) (messages : List Message) (fate : Fate) :
    List Posting :=
  ((s.posting? bus context topic messages).filter fun p =>
    (s.ask fate (.stage p.target p.written)).2.1.isOk).toList

theorem publish_of_posting? {s : System} {bus : Nat} {context : TraceContext} {topic : String}
    {messages : List Message} {fate : Fate} :
    (s.publish bus context topic messages fate).1 =
      match s.posting? bus context topic messages with
      | some p => (System.ask { s with drawn := s.drawn + p.written.length } fate (.enqueue p.target p.written)).1
      | none => s := by
  unfold publish posting?
  cases s.buses[bus]? with
  | none => rfl
  | some b =>
    dsimp only [Option.bind_some]
    generalize (b.publisher.prepare s.drawn context topic messages : Except (BusError Store.Error) _) = prepared
    rcases prepared with e | (_ | ⟨target, written⟩) <;> rfl

/-- A system with the transactions that callers have open. -/
structure Exchange where
  system : System
  /-- What has been published in each transaction. -/
  pending : String → List Posting

/-- What a caller does with a transaction, or anybody else does. -/
inductive Act
  | turn (t : Turn)
  /-- Messages are published through a bus, within a transaction. -/
  | publishIn (transaction : String) (bus : Nat) (context : TraceContext) (topic : String) (messages : List Message)
      (fate : Fate)
  | commit (transaction : String)
  | rollback (transaction : String)
deriving Repr

namespace Exchange

def start : Exchange := ⟨System.start, fun _ => []⟩

def put (x : Exchange) (transaction : String) (postings : List Posting) : Exchange :=
  { x with pending := fun name => if name = transaction then postings else x.pending name }

/-- What a transaction stores when it is committed, and where. -/
def writes (x : Exchange) (transaction : String) : List (String × List Message) :=
  (x.pending transaction).map fun p => (p.target, p.written)

/-- The turns that publishing in a transaction comes to: an identifier is drawn for each message, and the store is asked
to take the messages into the transaction. -/
def staging (fate : Fate) (p : Posting) : List Turn :=
  List.replicate p.written.length .draw ++ [.ask fate (.stage p.target p.written)]

def turns (x : Exchange) : Act → List Turn
  | .turn t => [t]
  | .publishIn _ bus context topic messages fate =>
    match x.system.posting? bus context topic messages with
    | some p => staging fate p
    | none => []
  | .commit transaction => [.commit (x.writes transaction)]
  | .rollback _ => []

def settle (x : Exchange) : Act → Exchange
  | .turn _ => x
  | .publishIn transaction bus context topic messages fate =>
    x.put transaction (x.pending transaction ++ x.system.staged bus context topic messages fate)
  | .commit transaction | .rollback transaction => x.put transaction []

def act (x : Exchange) (a : Act) : Exchange := { x.settle a with system := x.system.after (x.turns a) }

def after (x : Exchange) (acts : List Act) : Exchange := acts.foldl act x

/-- The turns that acts come to from some point on. -/
def turnsFrom : Exchange → List Act → List Turn
  | _, [] => []
  | x, a :: rest => x.turns a ++ turnsFrom (x.act a) rest

theorem after_append (x : Exchange) (acts acts' : List Act) : x.after (acts ++ acts') = (x.after acts).after acts' :=
  List.foldl_append

theorem turnsFrom_append (x : Exchange) (acts acts' : List Act) :
    x.turnsFrom (acts ++ acts') = x.turnsFrom acts ++ (x.after acts).turnsFrom acts' := by
  induction acts generalizing x with
  | nil => rfl
  | cons a rest ih =>
    show x.turns a ++ (x.act a).turnsFrom (rest ++ acts') = _
    rw [ih, ← List.append_assoc]
    rfl

theorem system_after (x : Exchange) (acts : List Act) : (x.after acts).system = x.system.after (x.turnsFrom acts) := by
  induction acts generalizing x with
  | nil => rfl
  | cons a rest ih =>
    show ((x.act a).after rest).system = x.system.after (x.turns a ++ (x.act a).turnsFrom rest)
    rw [ih, System.after_append]
    rfl

/-- What consumers store on a topic while acts are performed and they work on the message at an offset. -/
def causes (x : Exchange) (acts : List Act) (offset : Int) (topic : String) : List Stored :=
  x.system.causedFrom (x.turnsFrom acts) offset topic

theorem causes_append (x : Exchange) (acts acts' : List Act) (offset : Int) (topic : String) :
    x.causes (acts ++ acts') offset topic =
      x.causes acts offset topic ++ (x.after acts).causes acts' offset topic := by
  unfold causes
  rw [turnsFrom_append, causedFrom_append, ← system_after]

end Exchange

def perform (acts : List Act) : Exchange := Exchange.start.after acts

def turnsOf (acts : List Act) : List Turn := Exchange.start.turnsFrom acts

/-- **A run of acts is a run of the system.** -/
theorem system_perform (acts : List Act) : (perform acts).system = run (turnsOf acts) :=
  Exchange.start.system_after acts

theorem refines_perform (acts : List Act) : ∃ l, (perform acts).system.store.Refines l := by
  obtain ⟨l, hrefines, -⟩ := extends_after InMemory.refines_empty (s := start) (turnsOf acts)
  exact ⟨l, by rwa [system_perform]⟩

namespace Exchange

/-! ## Rolling back -/

/-- Two exchanges that agree on everything but one transaction. -/
structure Agree (transaction : String) (x y : Exchange) : Prop where
  system : x.system = y.system
  pending : ∀ name, name ≠ transaction → x.pending name = y.pending name

variable {transaction : String} {x y : Exchange}

theorem Agree.put (h : Agree transaction x y) (name : String) {ps qs : List Posting}
    (same : name ≠ transaction → ps = qs) : Agree transaction (x.put name ps) (y.put name qs) := by
  refine ⟨h.system, fun other hother => ?_⟩
  unfold Exchange.put
  simp only
  split
  case isTrue heq => exact same (heq ▸ hother)
  case isFalse => exact h.pending other hother

theorem Agree.act (h : Agree transaction x y) {a : Act} (uncommitted : a ≠ .commit transaction) :
    x.turns a = y.turns a ∧ Agree transaction (x.act a) (y.act a) := by
  -- only a commit reads what is pending, and only its own transaction
  have hturns : x.turns a = y.turns a := by
    cases a with
    | commit name =>
      have hname : name ≠ transaction := fun heq => uncommitted (by rw [heq])
      simp only [Exchange.turns, writes, h.pending name hname]
    | _ => simp only [Exchange.turns, h.system]
  have hsettle : Agree transaction (x.settle a) (y.settle a) := by
    cases a with
    | turn t => exact h
    | publishIn name bus context topic messages fate =>
      exact h.put name fun hname => by rw [h.pending name hname, h.system]
    | commit name | rollback name => exact h.put name fun _ => rfl
  refine ⟨hturns, ?_, hsettle.pending⟩
  show x.system.after (x.turns a) = y.system.after (y.turns a)
  rw [hturns, h.system]

theorem Agree.after (h : Agree transaction x y) {acts : List Act} (uncommitted : ∀ a ∈ acts, a ≠ .commit transaction) :
    x.turnsFrom acts = y.turnsFrom acts ∧ Agree transaction (x.after acts) (y.after acts) := by
  induction acts generalizing x y with
  | nil => exact ⟨rfl, h⟩
  | cons a rest ih =>
    obtain ⟨hturns, hact⟩ := h.act (uncommitted a List.mem_cons_self)
    obtain ⟨hrest, hafter⟩ := ih hact fun b hb => uncommitted b (List.mem_cons_of_mem _ hb)
    refine ⟨?_, hafter⟩
    show x.turns a ++ (x.act a).turnsFrom rest = y.turns a ++ (y.act a).turnsFrom rest
    rw [hturns, hrest]

theorem Agree.rollback (h : Agree transaction x y) : x.act (.rollback transaction) = y.act (.rollback transaction) := by
  have hpending : (x.put transaction []).pending = (y.put transaction []).pending := by
    funext name
    unfold Exchange.put
    simp only
    split
    · rfl
    · exact h.pending name ‹_›
  show Exchange.mk x.system _ = Exchange.mk y.system _
  rw [h.system]
  exact congrArg (Exchange.mk y.system) hpending

/-- After the transaction has been rolled back, the exchanges go on alike. -/
theorem Agree.rolledBack (h : Agree transaction x y) {between : List Act}
    (uncommitted : ∀ a ∈ between, a ≠ .commit transaction) (rest : List Act) :
    x.turnsFrom (between ++ .rollback transaction :: rest) = y.turnsFrom (between ++ .rollback transaction :: rest) ∧
      x.after (between ++ .rollback transaction :: rest) = y.after (between ++ .rollback transaction :: rest) := by
  obtain ⟨hturns, hafter⟩ := h.after uncommitted
  have hback := hafter.rollback
  refine ⟨?_, ?_⟩
  · rw [turnsFrom_append, turnsFrom_append, hturns]
    show _ ++ ((x.after between).act (.rollback transaction)).turnsFrom rest = _
    rw [hback]
    rfl
  · rw [after_append, after_append]
    show ((x.after between).act (.rollback transaction)).after rest = _
    rw [hback]
    rfl

theorem after_draws (x : Exchange) (n : Nat) :
    x.turnsFrom (List.replicate n (.turn .draw)) = List.replicate n .draw ∧
      (x.after (List.replicate n (.turn .draw))).pending = x.pending := by
  induction n generalizing x with
  | zero => exact ⟨rfl, rfl⟩
  | succ n ih =>
    obtain ⟨hturns, hpending⟩ := ih (x.act (.turn .draw))
    refine ⟨?_, hpending⟩
    show .draw :: (x.act (.turn .draw)).turnsFrom (List.replicate n (.turn .draw)) = _
    rw [hturns, List.replicate_succ]

end Exchange

/-- The store keeps nothing of what it takes into a transaction. -/
theorem after_stage (s : System) (fate : Fate) (target : String) (written : List Message) :
    s.after [.ask fate (.stage target written)] = s := by
  show (s.ask fate (.stage target written)).1 = s
  cases fate with
  | rejected => rfl
  | performed =>
    unfold ask InMemory.perform
    cases s.store.closed <;> rfl

variable (transaction : String) (bus : Nat) (context : TraceContext) (topic : String) (messages : List Message)
  (fate : Fate)

theorem publishIn_stores_nothing (x : Exchange) :
    ∃ n, Exchange.Agree transaction (x.after [.publishIn transaction bus context topic messages fate])
        (x.after (List.replicate n (.turn .draw))) ∧
      x.causes [.publishIn transaction bus context topic messages fate] = x.causes (List.replicate n (.turn .draw)) := by
  have hothers : ∀ name, name ≠ transaction →
      (x.after [.publishIn transaction bus context topic messages fate]).pending name = x.pending name :=
    fun name hname => if_neg hname
  have hturns : x.turnsFrom [.publishIn transaction bus context topic messages fate] =
      match x.system.posting? bus context topic messages with
      | some p => Exchange.staging fate p
      | none => [] := List.append_nil _
  cases hposting : x.system.posting? bus context topic messages with
  | none =>
    -- the bus refuses, or there is nothing to publish
    simp only [hposting] at hturns
    refine ⟨0, ⟨?_, hothers⟩, ?_⟩
    · rw [Exchange.system_after, hturns]
      rfl
    · unfold Exchange.causes
      rw [hturns]
      rfl
  | some p =>
    simp only [hposting] at hturns
    obtain ⟨hdraws, hpending⟩ := x.after_draws p.written.length
    refine ⟨p.written.length, ⟨?_, fun name hname => ?_⟩, ?_⟩
    · rw [Exchange.system_after, Exchange.system_after, hturns, hdraws, Exchange.staging, System.after_append,
        after_stage]
    · rw [hothers name hname, hpending]
    · funext offset topic'
      unfold Exchange.causes
      rw [hturns, hdraws, Exchange.staging, causedFrom_append, causedFrom_of_mover? _ rfl, List.append_nil]

variable {transaction bus context topic messages fate} in
/-- **What is rolled back has never been published.** A run with something published in a transaction that is rolled
back ends as it would if only the identifiers had been drawn, and consumers store the same in both. -/
theorem perform_rolledBack (before : List Act) {between : List Act}
    (uncommitted : ∀ a ∈ between, a ≠ .commit transaction) (rest : List Act) :
    ∃ n,
      perform (before ++ ([.publishIn transaction bus context topic messages fate] ++
          (between ++ .rollback transaction :: rest))) =
        perform (before ++ (List.replicate n (.turn .draw) ++ (between ++ .rollback transaction :: rest))) ∧
      caused (turnsOf (before ++ ([.publishIn transaction bus context topic messages fate] ++
          (between ++ .rollback transaction :: rest)))) =
        caused (turnsOf (before ++ (List.replicate n (.turn .draw) ++
          (between ++ .rollback transaction :: rest)))) := by
  obtain ⟨n, hagree, hcauses⟩ :=
    publishIn_stores_nothing transaction bus context topic messages fate (perform before)
  obtain ⟨hturns, hafter⟩ := hagree.rolledBack uncommitted rest
  generalize between ++ Act.rollback transaction :: rest = ending at *
  refine ⟨n, ?_, ?_⟩
  · unfold perform
    rw [Exchange.after_append, Exchange.after_append, Exchange.after_append, Exchange.after_append]
    exact hafter
  · funext offset topic'
    show Exchange.start.causes _ _ _ = Exchange.start.causes _ _ _
    rw [Exchange.causes_append, Exchange.causes_append, Exchange.causes_append, Exchange.causes_append]
    unfold perform at hcauses hturns hagree
    rw [hcauses]
    unfold Exchange.causes
    rw [hturns, hagree.system]

end System

end DurableBus
