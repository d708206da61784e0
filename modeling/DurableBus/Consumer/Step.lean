import DurableBus.Consumer.Basic

/-!
# How a consumer moves

A consumer moves in three ways: it looks at the clock and its token (`look`), the request that it waits for
(`request?`) is answered (`answer`), or the attempt of its handler ends (`finish`). While it selects and while it waits
for the next attempt the token comes first. A running attempt is never given up, and every message it works on is
acknowledged or given back before the next one is pulled.

When the token has fired, the consumer goes on pulling until its stream ends and drops what is still handed out.
-/

set_option autoImplicit false

namespace DurableBus.Consumer

def enter (c : Consumer) (phase : Phase) : Consumer := { c with phase }

def workOn (c : Consumer) (s : ClaimStream) (job : Job) (work : Work) : Consumer :=
  c.enter (.working s (job.withWork work))

/-! ## Attempts -/

/-- The attempts are over: a success is to be acknowledged, a failure to be given back. -/
def conclude (c : Consumer) (s : ClaimStream) (job : Job) (result : Except (RetryError Failure) Nat) :
    Consumer × List Effect :=
  match result, job with
  | .ok n, .forward _ e _ => (c.workOn s job (.acking n), [.hook (.forwarded e.destination job.id)])
  | .ok n, _ => (c.workOn s job (.acking n), [])
  | .error e, _ => (c.workOn s job (.nacking e), [.hook (.nacked c.setup.topic job.id e)])

/-- The attempts go on, or are over. -/
def carryOn (c : Consumer) (s : ClaimStream) (job : Job) (attempts : Retry Failure) : Consumer × List Effect :=
  match attempts with
  | .over result => c.conclude s job result
  | attempts => (c.workOn s job (.trying attempts), [])

def endAttempt (c : Consumer) (s : ClaimStream) (job : Job) (attempts : Retry Failure)
    (outcome : Except Failure Unit) : Consumer × List Effect :=
  match attempts.finish c.setup.settings.retry outcome with
  | .reported n delay e =>
    (c.workOn s job (.trying (.reported n delay e)), [.hook (.retrying c.setup.topic job.id n delay e)])
  | attempts => c.carryOn s job attempts

def beginAttempt (c : Consumer) (o : Observation) (s : ClaimStream) (job : Job) (n : Nat) (delay : Duration) :
    Consumer × List Effect :=
  match job with
  | .dispatch claimed context _ =>
    (c.workOn s job (.trying (.running n delay)),
      [.invoke { Delivery.ofClaimed c.setup.topic claimed context with attempt := n }])
  | .forward _ e _ =>
    match o.publisher.forward e with
    | .ok _ => (c.workOn s job (.trying (.running n delay)), [])
    | .error refusal => c.endAttempt s job (.running n delay) (.error (.bus refusal))
  | .refuse _ => (c, [])

/-- A message has been pulled. -/
def take (c : Consumer) (s : ClaimStream) (claimed : Claimed) : Consumer × List Effect :=
  let work := Work.trying (.start c.setup.settings.retry)
  match c.setup.role with
  | .subscriber _ =>
    let context := c.setup.settings.propagator.extract claimed.message.metadata
    (c.enter (.working s (.dispatch claimed context work)), [])
  | .forwarder =>
    match Envelope.unwrap claimed.message with
    | .ok e => (c.enter (.working s (.forward claimed e work)), [])
    | .error problem =>
      (c.enter (.working s (.refuse claimed)), [.hook (.rejected claimed.message.id problem)])

/-! ## The stream -/

/-- The stream starts polling; the one who started a forwarder is told. -/
def announce (c : Consumer) : List Effect :=
  match c.setup.role with
  | .subscriber _ => []
  | .forwarder => [.ready]

/-- What a pull comes to before the token has been seen. -/
def pulled (c : Consumer) (s : ClaimStream) : ClaimStream.Move → Consumer × List Effect
  | .blocked => (c.enter (.selecting s), [])
  | .started => (c.enter (.pulling s), c.announce)
  | .proceed notice => (c.enter (.pulling s), notice.toList.map .note)
  | .yield (.ok claimed) => c.take s claimed
  | .yield (.error e) => (c.enter (.selecting s), [.hook (.claimFailed c.setup.topic e)])
  | .finished => (c.enter (.draining s), [])
  | .broke => (c.enter .crashed, [])

def farewell (c : Consumer) : HookEvent :=
  match c.setup.role with
  | .subscriber _ => .unsubscribed c.setup.topic c.setup.group
  | .forwarder => .forwarderStopped c.setup.topic

/-- Nothing is at hand any more. -/
def leave (c : Consumer) : Consumer × List Effect :=
  if c.setup.role = .subscriber true then (c.enter .forgetting, [])
  else (c.enter .ended, [.hook c.farewell])

/-- What a pull comes to after the token has been seen. -/
def drained (c : Consumer) (s : ClaimStream) : ClaimStream.Move → Consumer × List Effect
  | .blocked => (c.enter (.draining s), [])
  | .started => (c.enter (.draining s), c.announce)
  | .proceed notice => (c.enter (.draining s), notice.toList.map .note)
  | .yield _ => (c.enter (.draining s), [])
  | .finished => c.leave
  | .broke => (c.enter .crashed, [])

/-! ## Looking -/

def lookAt (c : Consumer) (o : Observation) (s : ClaimStream) (job : Job) : Retry Failure → Consumer × List Effect
  | .ready n delay => c.beginAttempt o s job n delay
  | attempts => c.carryOn s job (attempts.look c.setup.settings.retry o.now o.cancelled)

/-- Goes on as far as the clock and the token allow. -/
def look (c : Consumer) (o : Observation) : Consumer × List Effect :=
  match c.phase with
  | .starting =>
    (c.enter (.selecting .start), [.hook (match c.setup.role with
      | .subscriber _ => .subscribed c.setup.topic c.setup.group
      | .forwarder => .forwarderStarted c.setup.topic)])
  | .selecting s => if o.cancelled then (c.enter (.draining s), []) else (c.enter (.pulling s), [])
  | .pulling s =>
    let (s, move) := s.look (stream c.setup) o.now o.cancelled
    c.pulled s move
  | .working s (.dispatch claimed context (.trying attempts)) =>
    c.lookAt o s (.dispatch claimed context (.trying attempts)) attempts
  | .working s (.forward claimed e (.trying attempts)) =>
    c.lookAt o s (.forward claimed e (.trying attempts)) attempts
  | .draining s =>
    let (s, move) := s.look (stream c.setup) o.now o.cancelled
    c.drained s move
  | _ => (c, [])

/-! ## Settling -/

/-- The hook is told if the store refused to settle a claim. -/
def settled (c : Consumer) (job : Job) : Store.Reply → List Effect
  | .ok _ => []
  | .error e => [.hook (.unsettled c.setup.topic job.id e)]

/-- Reports a message that has used up its attempts. -/
def report (c : Consumer) (job : Job) (e : RetryError Failure) : Consumer × List Effect :=
  if e.cancelled then (c, [])
  else if c.errors.accepts then ({ c with errors := c.errors.send ⟨c.setup.topic, job.id, e⟩ }, [])
  else (c, [.hook (.errorDropped c.setup.topic job.id)])

/-! ## Requests -/

/-- The request that the work on a message waits for. -/
def jobRequest? (c : Consumer) : Job → Option Store.Request
  | .dispatch claimed _ (.acking _) => some (.ack claimed.receipt)
  | .forward claimed _ (.acking _) => some (.ack claimed.receipt)
  | .dispatch claimed _ (.nacking _) => some (.nack claimed.receipt c.setup.settings.redeliveryDelay)
  | .forward claimed _ (.nacking _) => some (.nack claimed.receipt c.setup.settings.redeliveryDelay)
  | .refuse claimed => some (.nack claimed.receipt c.setup.settings.redeliveryDelay)
  | .forward _ e (.trying (.running _ _)) => some (.enqueue e.destination [e.message])
  | _ => none

def request? (c : Consumer) : Option Store.Request :=
  match c.phase with
  | .selecting s | .pulling s | .draining s => s.request? (stream c.setup)
  | .working _ job => c.jobRequest? job
  | .forgetting => some (.forgetGroup c.setup.topic c.setup.group)
  | _ => none

/-- The request that the work on a message waits for is answered. -/
def answerJob (c : Consumer) (s : ClaimStream) (job : Job) (reply : Store.Reply) : Consumer × List Effect :=
  match job with
  | .forward _ e (.trying (.running n delay)) =>
    c.endAttempt s job (.running n delay) (match reply with
      | .ok _ => .ok ()
      | .error refusal => .error (.bus (.store "forward" (some e.destination) refusal)))
  | .dispatch _ _ (.acking n) =>
    (c.enter (.selecting s), match reply with
      | .ok _ => [.hook (.acked c.setup.topic job.id n)]
      | .error _ => c.settled job reply)
  | .dispatch _ _ (.nacking e) =>
    let (c', effects) := c.report job e
    (c'.enter (.selecting s), c.settled job reply ++ effects)
  | .forward _ _ (.acking _) | .forward _ _ (.nacking _) | .refuse _ =>
    (c.enter (.selecting s), c.settled job reply)
  | _ => (c, [])

/-- The request that the consumer waits for is answered. A consumer that selects takes no answer: it looks at its token
first. -/
def answer (c : Consumer) (o : Observation) (reply : Store.Reply) : Consumer × List Effect :=
  match c.phase with
  | .pulling s =>
    let (s, move) := s.answer o.cancelled reply
    c.pulled s move
  | .draining s =>
    let (s, move) := s.answer o.cancelled reply
    c.drained s move
  | .working s job => c.answerJob s job reply
  | .forgetting =>
    (c.enter .ended, (match reply with
      | .ok _ => []
      | .error e => [.note (.notForgotten c.setup.topic c.setup.group e)]) ++ [.hook c.farewell])
  | _ => (c, [])

/-- The attempt of the handler ends. -/
def finish (c : Consumer) (outcome : Except Failure Unit) : Consumer × List Effect :=
  match c.phase with
  | .working s (.dispatch claimed context (.trying attempts)) =>
    c.endAttempt s (.dispatch claimed context (.trying attempts)) attempts outcome
  | _ => (c, [])

/-! ## Waiting -/

def isHandling (c : Consumer) : Bool :=
  match c.phase with
  | .working _ (.dispatch _ _ (.trying (.running _ _))) => true
  | _ => false

/-- Whether a step would do something at this moment; `answered` says that the request under way can be answered, or
that the attempt under way can end. -/
def isEnabled (c : Consumer) (now : Instant) (cancelled answered : Bool) : Bool :=
  match c.phase with
  | .starting | .pulling _ => true
  | .selecting s => cancelled || s.isEnabled now cancelled answered
  | .draining s => s.isEnabled now cancelled answered
  | .working _ (.dispatch _ _ (.trying attempts)) | .working _ (.forward _ _ (.trying attempts)) =>
    match attempts with
    | .running _ _ => answered
    | .resting _ _ _ wakeAt => cancelled || wakeAt ≤ now
    | _ => true
  | .working _ _ | .forgetting => answered
  | .ended | .crashed => false

/-- When a step becomes possible by itself. -/
def alarm? (c : Consumer) : Option Instant :=
  match c.phase with
  | .selecting s | .draining s => s.alarm?
  | .working _ (.dispatch _ _ (.trying attempts)) | .working _ (.forward _ _ (.trying attempts)) => attempts.alarm?
  | _ => none

end DurableBus.Consumer
