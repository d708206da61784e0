import DurableBus.Proofs.Chronicle
import DurableBus.Proofs.Consumer.Stream
import DurableBus.Proofs.Store.Receipts

/-!
# What a stream of claims hands out

An `Outlet` is a stream of claims with its token on a store that others use as well. What is done to the store between
any two steps of the stream, and how often the stream is pulled, is a list of cues.

* `Permitted` : what may be seen next, after what has been seen;
* `keeps_step`, `keeps_run` : everything that is seen is permitted, and what the stream holds can be told from it;
* `unspent_of_founded` : nothing has been done with a claim when it is handed out;
* `handouts_told` : all of it, for every course.
-/

set_option autoImplicit false

namespace DurableBus

open InMemory (Visit trail trail_concat refines_run)

/-! ## Claims on a store -/

namespace InMemory

variable {s : InMemory} {l : Ledger} {now : Instant} {token : Uuid} {r : Receipt} {request : ClaimRequest}

/-- Whether a store has on record that a claim is held, and until when. -/
def Leases (s : InMemory) (r : Receipt) (visibleAt : Instant) : Prop :=
  ∃ d, s.deliveries.get? (r.offset, r.group) = some d ∧ d.state = .claimed ∧ d.token = r.token ∧ d.visibleAt = visibleAt

theorem leases_of_current? (refines : s.Refines l) {e : Entry} (h : l.current? r = some e) : s.Leases r e.visibleAt := by
  obtain ⟨hentry, hstate, htoken⟩ := Ledger.current?_eq_some.1 h
  obtain ⟨topic, m, -, -, -, hrecord⟩ := refines.of_entry hentry (by rw [hstate]; decide)
  exact ⟨_, hrecord, hstate, htoken, rfl⟩

theorem Leases.current? {visibleAt : Instant} (h : s.Leases r visibleAt) : (s.current? r).isSome := by
  obtain ⟨d, hd, hstate, htoken, -⟩ := h
  rw [InMemory.current?, hd]
  simp [hstate, htoken]

/-- What a claim hands out is leased under its token, ascends and is within the limit. -/
theorem claimed_perform (refines : s.Refines l) {messages : List Claimed}
    (h : ClaimStream.claimsOf (s.perform now token (.claim request)).2.1 = messages) :
    (∀ k ∈ messages, k.receipt.token = token ∧
        (s.perform now token (.claim request)).1.Leases k.receipt (now.plus request.lease)) ∧
      messages.Pairwise (·.receipt.offset < ·.receipt.offset) ∧ messages.length ≤ request.limit := by
  obtain ⟨hafter, hsame⟩ := refines.perform now token (.claim request)
  generalize hreply : (s.perform now token (.claim request)).2.1 = reply at h
  rw [hsame] at hreply
  unfold ClaimStream.claimsOf at h
  split at h
  case h_1 claimed =>
    subst h
    obtain ⟨_, hrequest, rfl, hstate⟩ := Ledger.claimed_of_reply hreply
    obtain rfl := Store.Request.claim.inj hrequest
    rw [hstate] at hafter
    refine ⟨fun k hk => ?_, ?_, ?_⟩
    · obtain ⟨m, hm, rfl⟩ := List.mem_map.1 hk
      have hentry : (l.claim now token request).1.entries m.offset request.group =
          some (Entry.claimed now token request.lease (l.entries m.offset request.group)) :=
        if_pos ⟨rfl, List.mem_map_of_mem hm⟩
      have hheld : (l.claim now token request).1.current? ⟨m.offset, request.group, token⟩ = some _ :=
        Ledger.current?_eq_some.2 ⟨hentry, rfl, rfl⟩
      exact ⟨rfl, leases_of_current? hafter hheld⟩
    · rw [← List.pairwise_map (f := fun k : Claimed => k.receipt.offset) (R := (· < ·)), Ledger.offsets_claim,
        List.pairwise_map]
      exact (refines.sound.log_ascending request.topic).sublist ((List.take_sublist _ _).trans List.filter_sublist)
    · show ((l.chosen now request).map _).length ≤ _
      rw [List.length_map]
      exact List.length_take_le _ _
  case h_2 =>
    subst h
    exact ⟨fun k hk => (List.not_mem_nil hk).elim, .nil, Nat.zero_le _⟩

theorem renewed_perform (refines : s.Refines l) {lease : Duration} {a : Store.Answer}
    (h : (s.perform now token (.renew r lease)).2.1 = .ok a) (ha : a ≠ .held false) :
    (s.perform now token (.renew r lease)).1.Leases r (now.plus lease) := by
  obtain ⟨hafter, hsame⟩ := refines.perform now token (.renew r lease)
  rw [hsame] at h
  obtain ⟨e, he, hstate⟩ := Ledger.renewed_of_reply h ha
  obtain ⟨-, hclaimed, htoken⟩ := Ledger.current?_eq_some.1 he
  rw [hstate] at hafter
  have hentry : (l.putEntry r { e with visibleAt := now.plus lease }).entries r.offset r.group =
      some { e with visibleAt := now.plus lease } := by
    rw [Ledger.entries_putEntry, if_pos ⟨rfl, rfl⟩]
  exact leases_of_current? hafter (Ledger.current?_eq_some.2 ⟨hentry, hclaimed, htoken⟩)

theorem opened_of_ok {q : Store.Request} (hclose : q ≠ .close) {a : Store.Answer}
    (h : (s.perform now token q).2.1 = .ok a) : s.closed = false := by
  rw [← Bool.not_eq_true]
  intro closed
  rw [perform_of_closed closed hclose] at h
  cases h

theorem lost_perform {lease : Duration} (h : (s.perform now token (.renew r lease)).2.1 = .ok (.held false)) :
    s.current? r = none := by
  have opened := opened_of_ok (by simp) h
  cases held : s.current? r with
  | none => rfl
  | some d =>
    unfold perform renew at h
    simp only [opened, held] at h
    cases h

theorem closed_of_error {q : Store.Request} {e : Store.Error} (h : (s.perform now token q).2.1 = .error e) :
    s.closed = true := by
  rw [← Bool.not_eq_false]
  intro opened
  unfold perform at h
  simp only [opened] at h
  cases q <;> cases h

/-- **A claim is held** as long as nothing spends it, when no two claims share a token. -/
theorem held_iff_unspent {calls : List Store.Call} (fresh : (calls.filterMap Store.Call.claimToken?).Nodup)
    {before after : List Visit} {x : Visit} (htrail : trail calls = before ++ x :: after)
    (hclaim : x.2.action = .request (.claim request)) {messages : List Claimed}
    (answered : (x.1.call x.2).2.1 = .ok (.claimed messages)) {k : Claimed} (hk : k ∈ messages) :
    ((run calls).1.current? k.receipt).isSome ↔ ∀ y ∈ after, ¬ y.Spends request.topic k.receipt := by
  obtain ⟨earlier, later, rfl, hx, rfl⟩ := trailFrom_split htrail
  have hrefines : x.1.Refines (Ledger.run earlier).1 := hx ▸ refines_run earlier
  obtain ⟨htoken, hclaimed, -, hstored⟩ := held_of_claim hrefines hclaim answered hk
  have hlater : ∀ c ∈ later, c.claimToken? ≠ some k.receipt.token := by
    intro c hc hagain
    rw [List.filterMap_append, List.filterMap_cons_some htoken] at fresh
    have hunique := (List.nodup_cons.1 (List.nodup_append.1 fresh).2.1).1
    exact hunique (List.mem_filterMap.2 ⟨c, hc, hagain⟩)
  have hheld := held_play (hrefines.call x.2).1 hstored hlater
  have hrun : (Store.play Ledger.call ((Ledger.run earlier).1.call x.2).1 later).1 =
      (Ledger.run (earlier ++ x.2 :: later)).1 := by
    unfold Ledger.run
    rw [Store.play_append]
    rfl
  rw [hrun] at hheld
  have hsame : ((run (earlier ++ x.2 :: later)).1.current? k.receipt).isSome ↔
      ((Ledger.run (earlier ++ x.2 :: later)).1.current? k.receipt).isSome := by
    rcases (refines_run (earlier ++ x.2 :: later)).current? k.receipt with ⟨hl, hs⟩ | ⟨_, _, e, -, -, -, hl, hs⟩ <;>
      simp [hl, hs]
  rw [hsame, hheld, and_iff_right hclaimed]

end InMemory

/-- A message is set aside to be given back when the token has fired. -/
theorem ClaimStream.Follows.fired_of_releasing {cancelled : Bool} {batches batches' : Poller Pending} {k : Claimed}
    {move : Poller.Move Pending Store.Error} {done : ClaimStream × ClaimStream.Move}
    (h : ClaimStream.Follows cancelled batches move done) (releasing : done.1 = .releasing batches' k) :
    cancelled = true := by
  cases h with
  | passes | renews => cases releasing
  | releases seen => exact seen

/-! ## What happens and what is seen -/

/-- A stream of claims on a store that others use as well. -/
structure Outlet where
  stream : ClaimStream
  store : InMemory
  fired : Bool

namespace Outlet

open InMemory (renewed_perform claimed_perform lost_perform closed_of_error)

/-- What may happen to a stream on a store. -/
inductive Cue
  | fire
  | look (now : Instant)
  /-- The store carries out and answers the request that the stream waits for. -/
  | answer (now : Instant) (token : Uuid)
  /-- Somebody else does something to the store. -/
  | other (call : Store.Call)

/-- What is seen of it. A claim departs when it is handed out, lost, released or reported. -/
inductive Act
  | fired
  | other (x : Visit)
  | own (x : Visit)
  | took (messages : List Claimed)
  | handed (k : Claimed)
  /-- Its renewal was refused. -/
  | lost (k : Claimed)
  /-- It has been given back. -/
  | released (k : Claimed)
  /-- Its renewal has failed. -/
  | reported (k : Claimed)

/-- Nobody has pulled yet, and nothing has been written to the store. -/
def fresh : Outlet := ⟨.start, .empty, false⟩

def outcome (reply : Store.Reply) : ClaimStream → ClaimStream.Move → List Act
  | .pulling _, move => .took (ClaimStream.claimsOf reply) :: move.items.map .handed
  | .renewing _ k, .yield (.ok _) => [.handed k]
  | .renewing _ k, .yield (.error _) => [.reported k]
  | .renewing _ k, _ => [.lost k]
  | .releasing _ k, _ => [.released k]

variable (setup : ClaimStream.Setup)

/-- What the stream asks the store for. -/
def call? (o : Outlet) (now : Instant) (token : Uuid) : Option Store.Call :=
  (o.stream.request? setup).map fun request => ⟨now, token, .request request⟩

def step (o : Outlet) : Cue → Outlet
  | .fire => { o with fired := true }
  | .look now => { o with stream := (o.stream.look setup now o.fired).1 }
  | .answer now token =>
    match o.call? setup now token with
    | some c =>
      { o with
        stream := (o.stream.answer o.fired (o.store.call c).2.1).1
        store := (o.store.call c).1 }
    | none => o
  | .other c => { o with store := (o.store.call c).1 }

def acts (o : Outlet) : Cue → List Act
  | .fire => [.fired]
  | .look _ => []
  | .answer now token =>
    match o.call? setup now token with
    | some c => .own (o.store, c) ::
        outcome (o.store.call c).2.1 o.stream (o.stream.answer o.fired (o.store.call c).2.1).2
    | none => []
  | .other c => [.other (o.store, c)]

def run (course : List Cue) : Outlet := course.foldl (step setup) fresh

def history (course : List Cue) : List Act := chronicle (step setup) (acts setup) fresh course

/-! ## What can be told from what has been seen -/

namespace Act

@[simp] def visit? : Act → Option Visit
  | .other x | .own x => some x
  | _ => none

@[simp] def taken : Act → List Claimed
  | .took messages => messages
  | _ => []

@[simp] def departed? : Act → Option Claimed
  | .handed k | .lost k | .released k | .reported k => some k
  | _ => none

end Act

section Past

variable (past : List Act)

def visits : List Visit := past.filterMap Act.visit?

def calls : List Store.Call := (visits past).map (·.2)

/-- Everything the stream has claimed. -/
def taken : List Claimed := past.flatMap Act.taken

def departed : List Claimed := past.filterMap Act.departed?

end Past

/-- Whether a claim departs next. -/
def IsNext (past : List Act) (k : Claimed) : Prop := ∃ rest, taken past = departed past ++ k :: rest

/-- Whether the last thing done to the store is a request of a kind. -/
def Follows (past : List Act) (x : Visit) (request : Store.Request) : Prop :=
  (visits past).getLast? = some x ∧ x.2.action = .request request

/-- What may be seen after what has been seen. -/
inductive Permitted (past : List Act) : Act → Prop
  | fired : Permitted past .fired
  | other {x} : Permitted past (.other x)
  /-- A claim is made when all of the last one have departed. -/
  | claims {x} (asks : x.2.action = .request (.claim setup.request)) (spent : taken past = departed past) :
      Permitted past (.own x)
  | renews {x k} (asks : x.2.action = .request (.renew k.receipt setup.request.lease)) (next : IsNext past k) :
      Permitted past (.own x)
  | releases {x k} (asks : x.2.action = .request (.nack k.receipt .zero)) (next : IsNext past k)
      (seen : .fired ∈ past) : Permitted past (.own x)
  | took {x messages} (follows : Follows past x (.claim setup.request)) (spent : taken past = departed past)
      (ascending : messages.Pairwise (·.receipt.offset < ·.receipt.offset))
      (within : messages.length ≤ setup.request.limit)
      (all : ∀ k ∈ messages, k.receipt.token = x.2.token) : Permitted past (.took messages)
  /-- What is handed out is leased from now on. -/
  | handed {x request k} (follows : Follows past x request) (next : IsNext past k)
      (leases : (x.1.call x.2).1.Leases k.receipt (x.2.now.plus setup.request.lease)) : Permitted past (.handed k)
  | lost {x k} (follows : Follows past x (.renew k.receipt setup.request.lease)) (next : IsNext past k)
      (lost : x.1.current? k.receipt = none) : Permitted past (.lost k)
  | released {x k} (follows : Follows past x (.nack k.receipt .zero)) (next : IsNext past k) : Permitted past (.released k)
  | reported {x k} (follows : Follows past x (.renew k.receipt setup.request.lease)) (next : IsNext past k)
      (closed : x.1.closed = true) : Permitted past (.reported k)

section Append

variable (past more : List Act) (act : Act)

@[simp] theorem visits_nil : visits [] = [] := rfl

@[simp] theorem visits_cons : visits (act :: past) = act.visit?.toList ++ visits past := by
  rw [visits, List.filterMap_cons]
  cases act.visit? <;> rfl

@[simp] theorem taken_nil : taken [] = [] := rfl

@[simp] theorem taken_cons : taken (act :: past) = act.taken ++ taken past := rfl

@[simp] theorem departed_nil : departed [] = [] := rfl

@[simp] theorem departed_cons : departed (act :: past) = act.departed?.toList ++ departed past := by
  rw [departed, List.filterMap_cons]
  cases act.departed? <;> rfl

@[simp] theorem visits_append : visits (past ++ more) = visits past ++ visits more := List.filterMap_append

@[simp] theorem calls_append : calls (past ++ more) = calls past ++ calls more := by
  simp [calls]

@[simp] theorem taken_append : taken (past ++ more) = taken past ++ taken more := List.flatMap_append

@[simp] theorem departed_append : departed (past ++ more) = departed past ++ departed more := List.filterMap_append

end Append

/-! ## One act more -/

/-- What has been seen of a stream with such claims at hand, on a store in such a state. -/
structure Tells (told : List Act) (store : InMemory) (held : List Claimed) : Prop where
  founded : Founded (Permitted setup) told
  trail : visits told = trail (calls told)
  store : store = (InMemory.run (calls told)).1
  account : taken told = departed told ++ held
  few : held.length ≤ setup.request.limit

section Tells

variable {setup : ClaimStream.Setup} {told : List Act} {s : InMemory} {c : Store.Call} {act : Act} {k : Claimed}
  {held rest : List Claimed}

theorem founded_one (h : Permitted setup told act) :
    Founded (fun before => Permitted setup (told ++ before)) [act] := by
  simpa using h

theorem Tells.refines (h : Tells setup told s held) : s.Refines (Ledger.run (calls told)).1 := by
  rw [h.store]
  exact refines_run (calls told)

theorem Tells.isNext (h : Tells setup told s (k :: rest)) : IsNext told k := ⟨rest, h.account⟩

theorem Tells.fired (h : Tells setup told s held) : Tells setup (told ++ [.fired]) s held := by
  constructor
  · exact h.founded.append (founded_one .fired)
  · simpa [calls] using h.trail
  · simpa [calls] using h.store
  · simpa using h.account
  · exact h.few

/-- Something is done to the store. -/
theorem Tells.call (h : Tells setup told s held) (permitted : Permitted setup told act)
    (hact : act = .own (s, c) ∨ act = .other (s, c)) : Tells setup (told ++ [act]) (s.call c).1 held := by
  have hvisits : visits [act] = [(s, c)] := by rcases hact with rfl | rfl <;> rfl
  have hcalls : calls [act] = [c] := by rw [calls, hvisits]; rfl
  constructor
  · exact h.founded.append (founded_one permitted)
  · rw [visits_append, calls_append, hvisits, hcalls, trail_concat, h.trail, ← h.store]
  · rw [calls_append, hcalls, InMemory.run_concat, ← h.store]
  · rcases hact with rfl | rfl <;> simpa using h.account
  · exact h.few

theorem Tells.took (h : Tells setup told s []) (permitted : Permitted setup told (.took held))
    (few : held.length ≤ setup.request.limit) : Tells setup (told ++ [.took held]) s held := by
  constructor
  · exact h.founded.append (founded_one permitted)
  · simpa [calls] using h.trail
  · simpa [calls] using h.store
  · simp [h.account]
  · exact few

theorem Tells.departed (h : Tells setup told s (k :: rest)) (permitted : Permitted setup told act)
    (hact : act.departed? = some k) : Tells setup (told ++ [act]) s rest := by
  have hvisits : visits [act] = [] := by cases act <;> first | rfl | cases hact
  have hcalls : calls [act] = [] := by rw [calls, hvisits]; rfl
  have htaken : taken [act] = [] := by cases act <;> first | rfl | cases hact
  have hdeparted : Outlet.departed [act] = [k] := by rw [departed_cons, hact]; rfl
  constructor
  · exact h.founded.append (founded_one permitted)
  · rw [visits_append, calls_append, hvisits, hcalls, List.append_nil, List.append_nil, h.trail]
  · rw [calls_append, hcalls, List.append_nil, h.store]
  · rw [taken_append, departed_append, htaken, hdeparted, List.append_nil, List.append_assoc, h.account]
    rfl
  · exact Nat.le_of_succ_le h.few

end Tells

/-! ## One step -/

/-- Everything is permitted, and what the stream holds can be told. -/
structure Keeps (told : List Act) (o : Outlet) : Prop where
  tells : Tells setup told o.store o.stream.held
  fired : o.fired = true → .fired ∈ told
  waits : o.stream.Waits
  releasing : ∀ batches k, o.stream = .releasing batches k → .fired ∈ told

section Step

variable {setup : ClaimStream.Setup} {told : List Act} {s : InMemory} {o : Outlet} {now : Instant} {token : Uuid}

theorem keeps_look (h : Keeps setup told o) : Keeps setup told (o.step setup (.look now)) := by
  obtain ⟨stream, store, fired⟩ := o
  have hitems := stream.items_look setup now fired
  rw [h.waits.items_look, List.nil_append] at hitems
  constructor
  · show Tells setup told store (stream.look setup now fired).1.held
    rw [hitems]
    exact h.tells
  · exact h.fired
  · exact h.waits.look setup now fired
  · intro batches k hreleasing
    cases stream with
    | pulling pending =>
      change (ClaimStream.look setup now fired (.pulling pending)).1 = _ at hreleasing
      rw [ClaimStream.look_pulling] at hreleasing
      exact h.fired ((ClaimStream.follows_follow _ _ _).fired_of_releasing hreleasing)
    | renewing => cases hreleasing
    | releasing => exact h.releasing _ _ rfl

theorem keeps_other (h : Keeps setup told o) (c : Store.Call) :
    Keeps setup (told ++ [.other (o.store, c)]) (o.step setup (.other c)) := by
  constructor
  · exact h.tells.call .other (Or.inr rfl)
  · exact fun hfired => List.mem_append_left _ (h.fired hfired)
  · exact h.waits
  · exact fun batches k hreleasing => List.mem_append_left _ (h.releasing batches k hreleasing)

theorem keeps_fire (h : Keeps setup told o) : Keeps setup (told ++ [.fired]) (o.step setup .fire) := by
  constructor
  · exact h.tells.fired
  · exact fun _ => List.mem_append_right _ (List.mem_singleton_self _)
  · exact h.waits
  · exact fun batches k hreleasing => List.mem_append_left _ (h.releasing batches k hreleasing)

/-- The last thing done to the store, also after a batch has been taken. -/
theorem follows_own {x : Visit} {request : Store.Request} (more : List Act) (asks : x.2.action = .request request)
    (hmore : visits more = []) : Follows (told ++ .own x :: more) x request := by
  refine ⟨?_, asks⟩
  simp [hmore]

theorem keeps_release {batches : Poller Pending} {k : Claimed} (h : Keeps setup told o)
    (hstream : o.stream = .releasing batches k) :
    Keeps setup (told ++ o.acts setup (.answer now token)) (o.step setup (.answer now token)) := by
  obtain ⟨stream, store, fired⟩ := o
  obtain rfl : stream = .releasing batches k := hstream
  let c : Store.Call := ⟨now, token, .request (.nack k.receipt .zero)⟩
  have hseen : .fired ∈ told := h.releasing batches k rfl
  have hasked := h.tells.call (c := c) (.releases rfl h.tells.isNext hseen) (Or.inl rfl)
  have hreleased : Permitted setup (told ++ [.own (store, c)]) (.released k) :=
    .released (follows_own [] rfl rfl) hasked.isNext
  have hdone := hasked.departed hreleased rfl
  have hanswer : ((ClaimStream.releasing batches k).answer fired (store.call c).2.1).1 = .pulling batches := by
    cases hreply : (store.call c).2.1 <;> rfl
  rw [List.append_assoc] at hdone
  constructor
  · show Tells setup _ _ ((ClaimStream.releasing batches k).answer fired (store.call c).2.1).1.held
    rw [hanswer]
    exact hdone
  · exact fun hfired => List.mem_append_left _ (h.fired hfired)
  · exact h.waits.answer fired (store.call c).2.1
  · exact fun _ _ _ => List.mem_append_left _ hseen

theorem keeps_renewal {batches : Poller Pending} {k : Claimed} (h : Keeps setup told o)
    (hstream : o.stream = .renewing batches k) :
    Keeps setup (told ++ o.acts setup (.answer now token)) (o.step setup (.answer now token)) := by
  obtain ⟨stream, store, fired⟩ := o
  obtain rfl : stream = .renewing batches k := hstream
  let c : Store.Call := ⟨now, token, .request (.renew k.receipt setup.request.lease)⟩
  have hasked := h.tells.call (c := c) (.renews rfl h.tells.isNext) (Or.inl rfl)
  have hfollows : Follows (told ++ [.own (store, c)]) (store, c) (.renew k.receipt setup.request.lease) :=
    follows_own [] rfl rfl
  -- whatever the answer, the claim departs
  have hdeparts : ∃ act : Act, act.departed? = some k ∧ Permitted setup (told ++ [.own (store, c)]) act ∧
      outcome (store.call c).2.1 (.renewing batches k)
        ((ClaimStream.renewing batches k).answer fired (store.call c).2.1).2 = [act] ∧
      ((ClaimStream.renewing batches k).answer fired (store.call c).2.1).1 = .pulling batches := by
    have hrefines := h.tells.refines
    generalize hreply : (store.call c).2.1 = reply
    change (store.perform now token (.renew k.receipt setup.request.lease)).2.1 = reply at hreply
    rcases reply with e | a
    case error => exact ⟨.reported k, rfl, .reported hfollows hasked.isNext (closed_of_error hreply), rfl, rfl⟩
    case ok =>
      by_cases ha : a = .held false
      · obtain rfl := ha
        exact ⟨.lost k, rfl, .lost hfollows hasked.isNext (lost_perform hreply), rfl, rfl⟩
      · have hleases := renewed_perform hrefines hreply ha
        refine ⟨.handed k, rfl, .handed hfollows hasked.isNext hleases, ?_⟩
        rcases a with _ | _ | _ | (_ | _)
        case held.false => exact absurd rfl ha
        all_goals exact ⟨rfl, rfl⟩
  obtain ⟨act, hact, permitted, houtcome, hanswer⟩ := hdeparts
  have hdone := hasked.departed permitted hact
  rw [List.append_assoc] at hdone
  constructor
  · show Tells setup (told ++ .own (store, c) :: outcome _ _ _) _
      ((ClaimStream.renewing batches k).answer fired (store.call c).2.1).1.held
    rw [hanswer, houtcome]
    exact hdone
  · exact fun hfired => List.mem_append_left _ (h.fired hfired)
  · exact h.waits.answer fired (store.call c).2.1
  · intro batches' k' hreleasing
    change ((ClaimStream.renewing batches k).answer fired (store.call c).2.1).1 = _ at hreleasing
    rw [hanswer] at hreleasing
    cases hreleasing

theorem Tells.handed {x : Visit} {request : Store.Request} {move : ClaimStream.Move} {messages held : List Claimed}
    (h : Tells setup told s messages) (follows : Follows told x request)
    (leases : ∀ k ∈ messages, (x.1.call x.2).1.Leases k.receipt (x.2.now.plus setup.request.lease))
    (items : move.items ++ held = messages) : Tells setup (told ++ move.items.map .handed) s held := by
  rcases move with _ | _ | _ | (_ | k) | _ | _
  case yield.ok =>
    obtain rfl : k :: held = messages := items
    exact h.departed (.handed follows h.isNext (leases k List.mem_cons_self)) rfl
  all_goals
    obtain rfl : held = messages := items
    show Tells setup (told ++ []) s held
    rw [List.append_nil]
    exact h

theorem items_claim (fired : Bool) (reply : Store.Reply) (due : Instant) :
    ((ClaimStream.pulling (.polling due)).answer fired reply).2.items ++
      ((ClaimStream.pulling (.polling due)).answer fired reply).1.held = ClaimStream.claimsOf reply := by
  rw [ClaimStream.answer_pulling, (ClaimStream.follows_follow _ _ _).items]
  rcases Poller.items_answer (ClaimStream.batch reply) (.polling due) with ⟨due', -, hitems⟩ | ⟨hsame, -⟩
  · rw [hitems, ClaimStream.batchItems_batch]
  · rcases reply with e | _ | _ | (_ | _) | _ <;> cases hsame

theorem keeps_claim {due : Instant} (h : Keeps setup told o) (hstream : o.stream = .pulling (.polling due)) :
    Keeps setup (told ++ o.acts setup (.answer now token)) (o.step setup (.answer now token)) := by
  obtain ⟨stream, store, fired⟩ := o
  obtain rfl : stream = .pulling (.polling due) := hstream
  let c : Store.Call := ⟨now, token, .request (.claim setup.request)⟩
  have hspent : taken told = departed told := by simpa [ClaimStream.held, Poller.queue] using h.tells.account
  have hasked := h.tells.call (c := c) (.claims rfl hspent) (Or.inl rfl)
  generalize hmessages : ClaimStream.claimsOf (store.call c).2.1 = messages
  obtain ⟨hleases, hascending, hwithin⟩ := claimed_perform h.tells.refines hmessages
  have htook : Permitted setup (told ++ [.own (store, c)]) (.took messages) :=
    .took (follows_own [] rfl rfl) (by simpa using hspent) hascending hwithin fun k hk => (hleases k hk).1
  have hbatch := hasked.took htook hwithin
  have hitems := items_claim fired (store.call c).2.1 due
  rw [hmessages] at hitems
  have hreleasing : ∀ batches k, ((ClaimStream.pulling (.polling due)).answer fired (store.call c).2.1).1 =
      .releasing batches k → .fired ∈ told := by
    intro batches k hreleasing
    rw [ClaimStream.answer_pulling] at hreleasing
    exact h.fired ((ClaimStream.follows_follow _ _ _).fired_of_releasing hreleasing)
  have hfollows : Follows (told ++ [.own (store, c)] ++ [.took messages]) (store, c) (.claim setup.request) := by
    rw [List.append_assoc]
    exact follows_own [.took messages] rfl rfl
  have hdone := hbatch.handed hfollows (fun k hk => (hleases k hk).2) hitems
  constructor
  · rw [List.append_assoc, List.append_assoc, ← hmessages] at hdone
    exact hdone
  · exact fun hfired => List.mem_append_left _ (h.fired hfired)
  · exact h.waits.answer fired (store.call c).2.1
  · exact fun batches k heq => List.mem_append_left _ (hreleasing batches k heq)

theorem keeps_step (h : Keeps setup told o) (cue : Cue) :
    Keeps setup (told ++ o.acts setup cue) (o.step setup cue) := by
  have hblocked : Keeps setup (told ++ []) o := by
    rw [List.append_nil]
    exact h
  cases cue with
  | fire => exact keeps_fire h
  | look now =>
    show Keeps setup (told ++ []) _
    rw [List.append_nil]
    exact keeps_look h
  | answer now token =>
    cases hstream : o.stream with
    | pulling batches =>
      cases batches with
      | polling due => exact keeps_claim h hstream
      | _ =>
        have hcall : o.call? setup now token = none := by rw [call?, hstream]; rfl
        simp only [acts, step, hcall]
        exact hblocked
    | renewing batches k => exact keeps_renewal h hstream
    | releasing batches k => exact keeps_release h hstream
  | other c => exact keeps_other h c

end Step

/-! ## Whole courses -/

theorem keeps_nil (setup : ClaimStream.Setup) : Keeps setup [] fresh := by
  constructor
  · exact ⟨founded_nil, rfl, rfl, rfl, Nat.zero_le _⟩
  · intro hfired
    cases hfired
  · intro p hp
    cases hp
  · intro batches k hreleasing
    cases hreleasing

theorem keeps_run (setup : ClaimStream.Setup) (course : List Cue) :
    Keeps setup (history setup course) (run setup course) := by
  induction course using List.reverseRecOn with
  | nil => exact keeps_nil setup
  | append_singleton course cue ih =>
    rw [history, chronicle_concat, run, List.foldl_append]
    exact keeps_step ih cue

/-! ## What has been done with a claim -/

theorem visits_trail {past rest : List Act} (h : visits (past ++ rest) = trail (calls (past ++ rest))) :
    visits past = trail (calls past) := by
  induction rest using List.reverseRecOn with
  | nil => simpa using h
  | append_singleton rest act ih =>
    apply ih
    rw [← List.append_assoc, visits_append, calls_append] at h
    cases hact : act.visit? with
    | none =>
      have hvisits : visits [act] = [] := by rw [visits_cons, hact]; rfl
      have hcalls : calls [act] = [] := by rw [calls, hvisits]; rfl
      rw [hvisits, hcalls, List.append_nil, List.append_nil] at h
      exact h
    | some x =>
      have hvisits : visits [act] = [x] := by rw [visits_cons, hact]; rfl
      have hcalls : calls [act] = [x.2] := by rw [calls, hvisits]; rfl
      rw [hvisits, hcalls, trail_concat] at h
      exact (List.append_inj' h rfl).1

/-- The store after everything that has been done. -/
theorem run_calls {past : List Act} {x : Visit} (h : visits past = trail (calls past))
    (last : (visits past).getLast? = some x) : (x.1.call x.2).1 = (InMemory.run (calls past)).1 := by
  obtain ⟨earlier, hearlier⟩ := List.getLast?_eq_some_iff.1 last
  have hcalls : calls past = earlier.map (·.2) ++ [x.2] := by rw [calls, hearlier, List.map_append]; rfl
  rw [hcalls, trail_concat, hearlier] at h
  obtain ⟨-, hx⟩ := List.append_inj' h rfl
  rw [hcalls, InMemory.run_concat, (List.cons.inj hx).1]

/-- What is handed out is not spent: of what has been done since its claim was made, nothing settles it, hands its
message out again or makes the group forget the topic. No two claims may share a token. -/
def Unspent (past : List Act) (act : Act) : Prop :=
  ∀ k, act = .handed k → ((calls past).filterMap Store.Call.claimToken?).Nodup →
    ∀ before x after request messages, visits past = before ++ x :: after → x.2.action = .request (.claim request) →
      (x.1.call x.2).2.1 = .ok (.claimed messages) → k ∈ messages → ∀ y ∈ after, ¬ y.Spends request.topic k.receipt

theorem unspent_of_founded {setup : ClaimStream.Setup} {told : List Act} (founded : Founded (Permitted setup) told)
    (htrail : visits told = trail (calls told)) : Founded Unspent told := by
  rintro past _ rest rfl k rfl fresh before x after request messages hvisits hclaim answered hk
  have hpast := visits_trail htrail
  cases founded past (.handed k) rest rfl with
  | @handed latest request' _ follows next leases =>
    have hleased := leases.current?
    rw [run_calls hpast follows.1] at hleased
    exact (InMemory.held_iff_unspent fresh (hpast.symm.trans hvisits) hclaim answered hk).1 hleased

/-- **What a stream hands out is leased, in order and not spent.** This is for every store that is used by others as
well, every batch size and whenever the stream is pulled or cancelled. What is claimed departs in the order of the claim,
and the stream holds what has not departed: at most one batch, and nothing when it claims. -/
theorem handouts_told (setup : ClaimStream.Setup) (course : List Cue) :
    Founded (Permitted setup) (history setup course) ∧ Founded Unspent (history setup course) ∧
      taken (history setup course) = departed (history setup course) ++ (run setup course).stream.held ∧
      (run setup course).stream.held.length ≤ setup.request.limit ∧
      ∀ request, (run setup course).stream.request? setup = some (.claim request) →
        request = setup.request ∧ (run setup course).stream.held = [] := by
  obtain ⟨tells, -, -, -⟩ := keeps_run setup course
  refine ⟨tells.founded, unspent_of_founded tells.founded tells.trail, tells.account, tells.few, fun request hrequest => ?_⟩
  rcases hstream : (run setup course).stream with (batches | ⟨batches, k⟩ | ⟨batches, k⟩) <;> rw [hstream] at hrequest
  case pulling =>
    cases batches <;> cases hrequest
    exact ⟨rfl, rfl⟩
  all_goals cases hrequest

/-- Three messages are published and claimed, and the second is renewed in time. -/
def renewedOnce : List Cue :=
  [.other ⟨0, .ofNat 0, .request (.enqueue "items" [.new (.ofNat 7) [], .new (.ofNat 8) [], .new (.ofNat 9) []])⟩,
    .look 0, .look 0, .answer 0 (.ofNat 1), .look 0, .answer 500_000_000 (.ofNat 2)]

/-- Another consumer claims what is left when the leases of the first claim have run out. -/
def takenOver : List Cue :=
  renewedOnce ++
    [.other ⟨1_000_000_000, .ofNat 3, .request (.claim ⟨"items", "workers", 0, 9, .ofSecs 1⟩)⟩,
      .look 1_000_000_000, .answer 1_000_000_000 (.ofNat 4)]

def inThrees : ClaimStream.Setup := ⟨⟨"items", "workers", 0, 3, .ofSecs 1⟩, .ofMillis 10⟩

/-- Nothing but the renewal has been done with the second claim when it is handed out; the third is found lost. -/
theorem handouts_told_takenOver :
    (∃ past k, history inThrees renewedOnce = past ++ [.handed k] ∧ k.receipt = ⟨2, "workers", .ofNat 1⟩ ∧
      ((calls past).filterMap Store.Call.claimToken?).Nodup ∧ (visits past).length = 3 ∧
      ∀ y ∈ (visits past).drop 2, ¬ y.Spends "items" k.receipt) ∧
      ∃ past k, history inThrees takenOver = past ++ [.lost k] ∧ k.receipt = ⟨3, "workers", .ofNat 1⟩ := by
  refine ⟨⟨(history inThrees renewedOnce).take 5, ⟨⟨2, "workers", .ofNat 1⟩, .new (.ofNat 8) [], 0, 1⟩,
    by with_unfolding_all rfl, rfl, by with_unfolding_all decide, by with_unfolding_all rfl, ?_⟩,
    (history inThrees takenOver).take 8, _, by with_unfolding_all rfl, rfl⟩
  let publish : Store.Call :=
    ⟨0, .ofNat 0, .request (.enqueue "items" [.new (.ofNat 7) [], .new (.ofNat 8) [], .new (.ofNat 9) []])⟩
  let claim : Store.Call := ⟨0, .ofNat 1, .request (.claim inThrees.request)⟩
  have hclaimed : ((InMemory.empty.call publish).1.call claim).2.1 = .ok (.claimed
      [⟨⟨1, "workers", .ofNat 1⟩, .new (.ofNat 7) [], 0, 1⟩, ⟨⟨2, "workers", .ofNat 1⟩, .new (.ofNat 8) [], 0, 1⟩,
        ⟨⟨3, "workers", .ofNat 1⟩, .new (.ofNat 9) [], 0, 1⟩]) := by
    with_unfolding_all rfl
  have hunspent := (handouts_told inThrees renewedOnce).2.1 ((history inThrees renewedOnce).take 5) _ []
    (by with_unfolding_all rfl) _ rfl (by with_unfolding_all decide)
  exact hunspent [(.empty, publish)] ((InMemory.empty.call publish).1, claim) _ _ _ (by with_unfolding_all rfl) rfl
    hclaimed (by decide)

end Outlet

end DurableBus
