import DurableBus.Postgres.Pool
import DurableBus.Postgres.Store
import DurableBus.Proofs.Chronicle

/-!
# Transactions up to the first failure

What a client says on a connection, together with what the database answers to it, is a list of exchanges. The database
may answer anything.

* `exchanges_bind`, `result_bind`, `run_eq` : dialogues one after the other, and what `Dialogue.run` makes of them;
* `UpToFailure` : a plan of lines is carried out until the first of them fails (`upToFailure_queries`);
* `Transacts` : the ways in which statements in a transaction of their own can end (`transacts_transaction`);
* `use_taken` : what is said on a connection of a pool;
* `stageEach_eq` : messages for several topics in one open transaction;
* `transactions_stop_at_failure` : storing messages, forgetting a group and setting up the schema.
-/

set_option autoImplicit false

namespace DurableBus.Postgres

/-- A line and what the database answers to it. -/
abbrev Exchange := Line × Response

def Exchange.isStatement (x : Exchange) : Bool := x.1.command.sql?.isSome

/-! ## Exchanges -/

namespace Dialogue

variable {α β σ : Type}

def exchanges (database : σ → Line → Response × σ) (s : σ) : Dialogue α → List Exchange
  | done _ => []
  | say line next =>
    let (response, s) := database s line
    (line, response) :: exchanges database s (next response)

def result (database : σ → Line → Response × σ) (s : σ) (d : Dialogue α) : α := (d.run database s).1

def after (database : σ → Line → Response × σ) (s : σ) (d : Dialogue α) : σ := (d.run database s).2.2

variable (database : σ → Line → Response × σ) (s : σ)

@[simp] theorem exchanges_done (a : α) : (done a).exchanges database s = [] := rfl

@[simp] theorem exchanges_say (line : Line) (next : Response → Dialogue α) :
    (say line next).exchanges database s =
      (line, (database s line).1) :: (next (database s line).1).exchanges database (database s line).2 := rfl

@[simp] theorem result_done (a : α) : (done a).result database s = a := rfl

@[simp] theorem result_say (line : Line) (next : Response → Dialogue α) :
    (say line next).result database s = (next (database s line).1).result database (database s line).2 := rfl

@[simp] theorem after_done (a : α) : (done a).after database s = s := rfl

@[simp] theorem after_say (line : Line) (next : Response → Dialogue α) :
    (say line next).after database s = (next (database s line).1).after database (database s line).2 := rfl

theorem run_eq (d : Dialogue α) :
    d.run database s = (d.result database s, (d.exchanges database s).map Prod.fst, d.after database s) := by
  induction d generalizing s with
  | done a => rfl
  | say line next ih =>
    simp only [run, exchanges, ih, List.map_cons]
    rfl

@[simp] theorem done_bind (a : α) (f : α → Dialogue β) : (done a).bind f = f a := rfl

@[simp] theorem say_bind (line : Line) (next : Response → Dialogue α) (f : α → Dialogue β) :
    (say line next).bind f = say line fun response => (next response).bind f := rfl

theorem result_bind (d : Dialogue α) (f : α → Dialogue β) :
    (d.bind f).result database s = (f (d.result database s)).result database (d.after database s) := by
  induction d generalizing s with
  | done a => rfl
  | say line next ih => simp [ih]

theorem exchanges_bind (d : Dialogue α) (f : α → Dialogue β) :
    (d.bind f).exchanges database s =
      d.exchanges database s ++ (f (d.result database s)).exchanges database (d.after database s) := by
  induction d generalizing s with
  | done a => rfl
  | say line next ih => simp [ih]

@[simp] theorem exchanges_tell (inTransaction : Bool) (c : Command) :
    (tell inTransaction c).exchanges database s = [(⟨inTransaction, c⟩, (database s ⟨inTransaction, c⟩).1)] := rfl

@[simp] theorem result_tell (inTransaction : Bool) (c : Command) :
    (tell inTransaction c).result database s = (database s ⟨inTransaction, c⟩).1 := rfl

theorem andThen_error {d : Dialogue (Except Error α)} {e : Error} (h : d.result database s = .error e)
    (f : α → Dialogue (Except Error β)) :
    (d.andThen f).exchanges database s = d.exchanges database s ∧ (d.andThen f).result database s = .error e := by
  rw [andThen, exchanges_bind, result_bind, h]
  simp

theorem andThen_ok {d : Dialogue (Except Error α)} {a : α} (h : d.result database s = .ok a)
    (f : α → Dialogue (Except Error β)) :
    (d.andThen f).exchanges database s =
        d.exchanges database s ++ (f a).exchanges database (d.after database s) ∧
      (d.andThen f).result database s = (f a).result database (d.after database s) := by
  rw [andThen, exchanges_bind, result_bind, h]
  exact ⟨rfl, rfl⟩

end Dialogue

/-! ## Plans -/

/-- A plan of lines, carried out until one of them fails: what is exchanged, and what comes of it. -/
inductive UpToFailure : List Line → List Exchange → Except Error Unit → Prop
  | finished : UpToFailure [] [] (.ok ())
  | failed {line rest e} : UpToFailure (line :: rest) [(line, .error e)] (.error e)
  | goesOn {line rest outcome t r} (more : UpToFailure rest t r) :
      UpToFailure (line :: rest) ((line, .ok outcome) :: t) r

namespace UpToFailure

variable {plan plan' : List Line} {t t' : List Exchange} {r : Except Error Unit}

theorem lines_prefix (h : UpToFailure plan t r) : t.map Prod.fst <+: plan := by
  induction h with
  | finished => exact List.prefix_rfl
  | failed => simp
  | goesOn more ih => simpa using ih

theorem lines_eq (h : UpToFailure plan t (.ok ())) : t.map Prod.fst = plan := by
  generalize hr : Except.ok () = r at h
  induction h with
  | finished => rfl
  | failed => cases hr
  | goesOn more ih => simp [ih hr]

/-- Whatever is followed by more has succeeded. -/
theorem founded (h : UpToFailure plan t r) : Founded (fun before _ => ∀ x ∈ before, x.2.isOk = true) t := by
  induction h with
  | finished => simp
  | failed => simp
  | goesOn more ih =>
    rw [founded_cons]
    refine ⟨by simp, fun before x after htold y hy => ?_⟩
    obtain rfl | hy := List.mem_cons.1 hy
    · rfl
    · exact ih before x after htold y hy

theorem ok_iff (h : UpToFailure plan t r) : r = .ok () ↔ ∀ x ∈ t, x.2.isOk = true := by
  induction h with
  | finished => simp
  | failed => simp [Except.isOk, Except.toBool]
  | goesOn more ih => simp [ih, Except.isOk, Except.toBool]

end UpToFailure

def asked (inTransaction : Bool) (statements : List Statement) : List Line :=
  statements.map fun s => ⟨inTransaction, .query s⟩

namespace Dialogue

variable {α σ : Type} (database : σ → Line → Response × σ) (s : σ)

theorem upToFailure_queries (inTransaction : Bool) (statements : List Statement) :
    UpToFailure (asked inTransaction statements) ((queries inTransaction statements).exchanges database s)
      ((queries inTransaction statements).result database s) := by
  induction statements generalizing s with
  | nil => exact .finished
  | cons q rest ih =>
    cases hresponse : (database s ⟨inTransaction, .query q⟩).1 with
    | error e =>
      obtain ⟨ht, hr⟩ := andThen_error database s (d := query inTransaction q) hresponse
        fun _ => queries inTransaction rest
      rw [queries, ht, hr, query, exchanges_tell, hresponse]
      exact .failed
    | ok outcome =>
      obtain ⟨ht, hr⟩ := andThen_ok database s (d := query inTransaction q) hresponse
        fun _ => queries inTransaction rest
      rw [queries, ht, hr, query, exchanges_tell, hresponse]
      exact .goesOn (ih _)

theorem queries_append (inTransaction : Bool) (first second : List Statement) :
    queries inTransaction (first ++ second) =
      (queries inTransaction first).andThen fun _ => queries inTransaction second := by
  induction first with
  | nil => rfl
  | cons q rest ih =>
    simp only [List.cons_append, queries, query, tell, andThen, say_bind, done_bind] at ih ⊢
    congr 1
    funext response
    cases response with
    | error e => rfl
    | ok outcome => exact ih

end Dialogue

/-! ## Transactions -/

/-- How statements in a transaction of their own can end, and what comes of it. -/
inductive Transacts (statements : List Statement) : List Exchange → Except Error Unit → Prop
  /-- The transaction does not begin. -/
  | refused {e} : Transacts statements [(⟨false, .begin⟩, .error e)] (.error e)
  /-- A statement fails, and what was done before is rolled back. -/
  | abandoned {begun t e response} (fails : UpToFailure (asked true statements) t (.error e)) :
      Transacts statements ((⟨false, .begin⟩, .ok begun) :: t ++ [(⟨true, .rollback⟩, response)]) (.error e)
  /-- All statements succeed, and then the commit fails. -/
  | undone {begun t e response} (succeeds : UpToFailure (asked true statements) t (.ok ())) :
      Transacts statements
        ((⟨false, .begin⟩, .ok begun) :: t ++ [(⟨true, .commit⟩, .error e), (⟨false, .rollback⟩, response)])
        (.error e)
  | committed {begun t outcome} (succeeds : UpToFailure (asked true statements) t (.ok ())) :
      Transacts statements ((⟨false, .begin⟩, .ok begun) :: t ++ [(⟨true, .commit⟩, .ok outcome)]) (.ok ())

namespace UpToFailure

variable {plan plan' : List Line} {t t' : List Exchange} {r : Except Error Unit}

/-- A plan that has been carried out is followed by the next. -/
theorem append (h : UpToFailure plan t (.ok ())) (next : UpToFailure plan' t' r) :
    UpToFailure (plan ++ plan') (t ++ t') r := by
  generalize hr : Except.ok () = r' at h
  induction h with
  | finished => exact next
  | failed => cases hr
  | goesOn more ih => exact .goesOn (ih hr)

theorem append_plan {e : Error} (h : UpToFailure plan t (.error e)) (plan' : List Line) :
    UpToFailure (plan ++ plan') t (.error e) := by
  generalize hr : Except.error e = r' at h
  induction h with
  | finished => cases hr
  | failed =>
    cases hr
    exact .failed
  | goesOn more ih => exact .goesOn (ih hr)

/-- Queries are said where queries are planned. -/
theorem query_of_mem {inTransaction : Bool} {statements : List Statement}
    (h : UpToFailure (asked inTransaction statements) t r) {x : Exchange} (hx : x ∈ t) :
    ∃ q ∈ statements, x.1 = ⟨inTransaction, .query q⟩ := by
  have hmem : x.1 ∈ asked inTransaction statements := h.lines_prefix.subset (List.mem_map_of_mem hx)
  obtain ⟨q, hq, hline⟩ := List.mem_map.1 hmem
  exact ⟨q, hq, hline.symm⟩

end UpToFailure

/-- What is promised of statements in a transaction of their own. -/
structure IsAtomic (statements : List Statement) (t : List Exchange) (r : Except Error Unit) : Prop where
  /-- The transaction begins, the statements follow in order, and it is committed, up to the first failure; what is
  said behind that is at most one rollback. -/
  planned : ∃ sent rest, t = sent ++ rest ∧
    UpToFailure (⟨false, .begin⟩ :: asked true statements ++ [⟨true, .commit⟩]) sent r ∧
    (rest = [] ∨ ∃ x, rest = [x] ∧ x.1.command = .rollback)
  /-- It is committed only behind statements that have all succeeded. -/
  commits : Founded (fun before x => x.1.command = .commit → ∀ y ∈ before, y.2.isOk = true) t
  /-- Nothing but a rollback follows a failure. -/
  stops : Founded (fun before x => (∃ y ∈ before, y.2.isOk = false) → x.1.command = .rollback) t
  ok_iff : r = .ok () ↔ ∃ outcome, (⟨true, .commit⟩, .ok outcome) ∈ t
  /-- What has begun and is not committed is rolled back. -/
  rolledBack_iff : (∃ x ∈ t, x.1.command = .rollback) ↔ (∃ outcome, (⟨false, .begin⟩, .ok outcome) ∈ t) ∧ r ≠ .ok ()

namespace Transacts

variable {statements : List Statement} {t : List Exchange} {r : Except Error Unit}

theorem planned (h : Transacts statements t r) : ∃ sent rest, t = sent ++ rest ∧
    UpToFailure (⟨false, .begin⟩ :: asked true statements ++ [⟨true, .commit⟩]) sent r ∧
    (rest = [] ∨ ∃ x, rest = [x] ∧ x.1.command = .rollback) := by
  cases h with
  | refused => exact ⟨_, [], rfl, .failed, .inl rfl⟩
  | abandoned fails => exact ⟨_, _, rfl, .goesOn (fails.append_plan _), .inr ⟨_, rfl, rfl⟩⟩
  | @undone begun t e response succeeds =>
    have hcommit : UpToFailure [⟨true, .commit⟩] [(⟨true, .commit⟩, .error e)] (.error e) := .failed
    refine ⟨(⟨false, .begin⟩, .ok begun) :: (t ++ [(⟨true, .commit⟩, .error e)]), [(⟨false, .rollback⟩, response)],
      ?_, .goesOn (succeeds.append hcommit), .inr ⟨_, rfl, rfl⟩⟩
    simp
  | @committed begun t outcome succeeds =>
    have hcommit : UpToFailure [⟨true, .commit⟩] [(⟨true, .commit⟩, .ok outcome)] (.ok ()) := .goesOn .finished
    exact ⟨_, [], (List.append_nil _).symm, .goesOn (succeeds.append hcommit), .inl rfl⟩

/-- Whatever is no rollback stands behind statements that have all succeeded. -/
theorem founded (h : Transacts statements t r) :
    Founded (fun before x => x.1.command = .rollback ∨ ∀ y ∈ before, y.2.isOk = true) t := by
  obtain ⟨sent, rest, rfl, hsent, hrest⟩ := h.planned
  apply Founded.append
  · intro before x after hx
    exact .inr (hsent.founded before x after hx)
  · obtain rfl | ⟨x, rfl, hx⟩ := hrest
    · simp
    · simp [hx]

theorem isAtomic (h : Transacts statements t r) : IsAtomic statements t r where
  planned := h.planned
  commits before x after ht commits := by
    obtain hrollback | hall := h.founded before x after ht
    · rw [hrollback] at commits
      cases commits
    · exact hall
  stops before x after ht := by
    rintro ⟨y, hy, hfails⟩
    obtain hrollback | hall := h.founded before x after ht
    · exact hrollback
    · rw [hall y hy] at hfails
      cases hfails
  ok_iff := by
    have hnone : ∀ {t r outcome}, UpToFailure (asked true statements) t r →
        ((⟨true, .commit⟩, .ok outcome) : Exchange) ∉ t := by
      intro t r outcome h hmem
      obtain ⟨q, -, hq⟩ := h.query_of_mem hmem
      cases hq
    cases h with
    | refused => simp
    | abandoned fails => simp [hnone fails]
    | undone succeeds => simp [hnone succeeds]
    | @committed begun t outcome succeeds => exact ⟨fun _ => ⟨outcome, by simp⟩, fun _ => rfl⟩
  rolledBack_iff := by
    cases h with
    | refused => simp
    | @abandoned begun t e response fails =>
      exact ⟨fun _ => ⟨⟨begun, by simp⟩, nofun⟩, fun _ => ⟨(⟨true, .rollback⟩, response), by simp, rfl⟩⟩
    | @undone begun t e response succeeds =>
      exact ⟨fun _ => ⟨⟨begun, by simp⟩, nofun⟩, fun _ => ⟨(⟨false, .rollback⟩, response), by simp, rfl⟩⟩
    | @committed begun t outcome succeeds =>
      refine ⟨fun ⟨x, hx, hrollback⟩ => ?_, fun h => absurd rfl h.2⟩
      simp only [List.cons_append, List.mem_cons, List.mem_append, List.not_mem_nil, or_false] at hx
      obtain rfl | hx | rfl := hx
      · cases hrollback
      · obtain ⟨q, -, hq⟩ := succeeds.query_of_mem hx
        rw [hq] at hrollback
        cases hrollback
      · cases hrollback

theorem isStatement (h : Transacts statements t r) {x : Exchange} (hx : x ∈ t) : x.isStatement = true := by
  unfold Exchange.isStatement
  obtain ⟨sent, rest, rfl, hsent, hrest⟩ := h.planned
  obtain hx | hx := List.mem_append.1 hx
  · have hmem := hsent.lines_prefix.subset (List.mem_map_of_mem hx)
    simp only [List.cons_append, List.mem_cons, List.mem_append, asked, List.mem_map, List.not_mem_nil, or_false] at hmem
    obtain hline | ⟨q, -, hline⟩ | hline := hmem
    · rw [hline]
      rfl
    · rw [← hline]
      rfl
    · rw [hline]
      rfl
  · obtain rfl | ⟨y, rfl, hy⟩ := hrest
    · cases hx
    · rw [List.mem_singleton.1 hx, hy]
      rfl

end Transacts

namespace Dialogue

variable {σ : Type} (database : σ → Line → Response × σ) (s : σ)

theorem transacts_transaction (statements : List Statement) :
    Transacts statements ((transaction (queries true statements)).exchanges database s)
      ((transaction (queries true statements)).result database s) := by
  unfold transaction
  cases hbegin : (database s ⟨false, .begin⟩).1 with
  | error e =>
    have hbegin : (tell false .begin).result database s = .error e := hbegin
    rw [(andThen_error database s hbegin _).1, (andThen_error database s hbegin _).2, exchanges_tell,
      ← result_tell, hbegin]
    exact .refused
  | ok begun =>
    have hbegin : (tell false .begin).result database s = .ok begun := hbegin
    rw [(andThen_ok database s hbegin _).1, (andThen_ok database s hbegin _).2, exchanges_tell, ← result_tell, hbegin,
      exchanges_bind, result_bind]
    generalize (tell false .begin).after database s = s₁
    have hqueries := upToFailure_queries database s₁ true statements
    generalize (queries true statements).exchanges database s₁ = t at hqueries ⊢
    generalize (queries true statements).after database s₁ = s₂
    generalize (queries true statements).result database s₁ = r at hqueries ⊢
    cases r with
    | error e => exact .abandoned hqueries
    | ok a =>
      simp only [commit, exchanges_bind, result_bind, exchanges_tell, result_tell]
      cases hcommit : (database s₂ ⟨true, .commit⟩).1 with
      | error e => exact .undone hqueries
      | ok outcome => exact .committed hqueries

end Dialogue

/-! ## Connections -/

namespace Pool

open Dialogue

variable {α σ : Type} (database : σ → Line → Response × σ) (s : σ) (p : Pool)

theorem connect_no_statement (tries : Nat) :
    ((Dialogue.connect tries).exchanges database s).filter Exchange.isStatement = [] := by
  induction tries generalizing s with
  | zero => rfl
  | succ tries ih =>
    simp only [Dialogue.connect, Dialogue.tell, say_bind, done_bind, exchanges_say]
    rw [List.filter_cons_of_neg (by simp [Exchange.isStatement, Command.sql?])]
    cases (database s ⟨false, .connect⟩).1 with
    | ok outcome => rfl
    | error e =>
      simp only
      split
      · exact ih _
      · rfl

theorem acquire_no_statement : (p.acquire.exchanges database s).filter Exchange.isStatement = [] := by
  unfold acquire
  split
  · rfl
  · split
    · rfl
    · rw [andThen, exchanges_bind, List.filter_append, connect_no_statement, List.nil_append]
      split <;> rfl

/-- Without a connection nothing is done. -/
theorem use_refused (d : Dialogue (Except Error α)) {e : Error} (h : p.acquire.result database s = .error e) :
    ((p.use d).exchanges database s).filter Exchange.isStatement = [] ∧
      ((p.use d).result database s).1 = .error e := by
  unfold use
  rw [exchanges_bind, result_bind, h, List.filter_append, acquire_no_statement]
  exact ⟨rfl, rfl⟩

theorem use_taken (d : Dialogue (Except Error α)) {taken : Pool} (h : p.acquire.result database s = .ok taken) :
    ((p.use d).exchanges database s).filter Exchange.isStatement =
        (d.exchanges database (p.acquire.after database s)).filter Exchange.isStatement ∧
      ((p.use d).result database s).1 = d.result database (p.acquire.after database s) := by
  unfold use
  rw [exchanges_bind, result_bind, h, List.filter_append, acquire_no_statement, exchanges_bind, result_bind]
  simp

end Pool

/-- What is promised of statements in a transaction of their own, on a connection of a pool: if none can be had, nothing
is sent. -/
def IsAtomicOn {σ : Type} (database : σ → Line → Response × σ) (s : σ) (p : Pool) (d : Dialogue (Except Error Unit))
    (statements : List Statement) : Prop :=
  let sent := ((p.use d).exchanges database s).filter Exchange.isStatement
  let r := ((p.use d).result database s).1
  match p.acquire.result database s with
  | .error e => sent = [] ∧ r = .error e
  | .ok _ => IsAtomic statements sent r

theorem isAtomicOn_transaction {σ : Type} (database : σ → Line → Response × σ) (s : σ) (p : Pool)
    (statements : List Statement) :
    IsAtomicOn database s p (.transaction (.queries true statements)) statements := by
  unfold IsAtomicOn
  cases hacquire : p.acquire.result database s with
  | error e => exact p.use_refused database s _ hacquire
  | ok taken =>
    obtain ⟨hsent, hr⟩ := p.use_taken database s (.transaction (.queries true statements)) hacquire
    have htransacts := Dialogue.transacts_transaction database (p.acquire.after database s) statements
    simp only [hsent, hr]
    rw [List.filter_eq_self.2 fun x hx => htransacts.isStatement hx]
    exact htransacts.isAtomic

/-! ## Open transactions -/

/-- Stores messages for several topics, one after the other, in a transaction that is already open, until that fails. -/
def stageEach : List (String × List Message) → Dialogue (Except Error Unit)
  | [] => .done (.ok ())
  | (topic, messages) :: rest => (stage topic messages).andThen fun _ => stageEach rest

theorem stageEach_eq (lists : List (String × List Message)) :
    stageEach lists = .queries true (lists.flatMap fun l => insertions l.1 l.2) := by
  induction lists with
  | nil => rfl
  | cons l rest ih =>
    rw [stageEach, ih, List.flatMap_cons, Dialogue.queries_append]
    rfl

end DurableBus.Postgres
