import DurableBus.Store.InMemory

/-!
# Runs of a store

A `Store.Call` is one thing done to a store: a request, or the commit of a transaction. `Store.play` carries out calls
one after the other and collects what is answered. It works for any store that can carry out a single call.
-/

set_option autoImplicit false

namespace DurableBus

namespace Store

/-- What can be done to a store. -/
inductive Action
  | request (request : Request)
  /-- Writes what a transaction has staged. -/
  | commit (staged : List (String × List Message))
deriving DecidableEq, Repr

/-- Something done at an instant; the token is for the messages that it may claim. -/
structure Call where
  now : Instant
  token : Uuid
  action : Action
deriving DecidableEq, Repr

/-- What comes of a call: the answer, and what is noted in the log. -/
abbrev Outcome := Reply × List Notice

variable {σ : Type}

def play (perform : σ → Call → σ × Outcome) : σ → List Call → σ × List Outcome
  | s, [] => (s, [])
  | s, c :: rest =>
    let done := perform s c
    let later := play perform done.1 rest
    (later.1, done.2 :: later.2)

theorem play_append (perform : σ → Call → σ × Outcome) (s : σ) (before after : List Call) :
    play perform s (before ++ after) =
      ((play perform (play perform s before).1 after).1,
        (play perform s before).2 ++ (play perform (play perform s before).1 after).2) := by
  induction before generalizing s with
  | nil => rfl
  | cons c rest ih => simp only [List.cons_append, play, ih]

theorem length_play (perform : σ → Call → σ × Outcome) (s : σ) (calls : List Call) :
    (play perform s calls).2.length = calls.length := by
  induction calls generalizing s with
  | nil => rfl
  | cons c rest ih => exact congrArg (· + 1) (ih (perform s c).1)

end Store

namespace InMemory

def call (s : InMemory) (c : Store.Call) : InMemory × Store.Outcome :=
  match c.action with
  | .request request => s.perform c.now c.token request
  | .commit staged =>
    match s.commit c.now staged with
    | .ok s => (s, .ok .done, [])
    | .error e => (s, .error e, [])

/-- A run of a store that nothing has been written to. -/
def run (calls : List Store.Call) : InMemory × List Store.Outcome := Store.play call empty calls

end InMemory

end DurableBus
