import DurableBus.Proofs.Consumer.Dispatch
import DurableBus.Proofs.System.Course

/-!
# What is asked of timers, channels and the clock

A ticker has to have a period, the clock can represent the moments before its limit, and a channel has room for one
report at least and for so many at most. Asked for anything else they fail, and with them the task that asks.

* `Demand` : what they are asked for;
* `Poller.demands`, `Retry.demands`, `Consumer.demands`, `Store.Request.demands` : what consumers ask for, and the store
  on behalf of their requests;
* `Config.IsSensible` : a configuration that asks for nothing that cannot be had;
* `demands_met`, `demands_met_before` : then everything that an event asks for on behalf of a bus can be had, and whatever
  has been asked for could be.
-/

set_option autoImplicit false

namespace DurableBus

open Consumer (Setup)

/-- Something that a timer, a channel or the clock is asked for. -/
inductive Demand
  /-- A ticker with a period. -/
  | ticker (period : Duration)
  /-- A moment, computed from another one and a span. -/
  | moment (t : Instant)
  /-- A channel with room for so many reports. -/
  | channel (capacity : Nat)
deriving DecidableEq, Repr

namespace Demand

/-- The most reports that a channel can have room for. -/
def mostRoom : Nat := 0x1FFF_FFFF_FFFF_FFFF

def IsMet : Demand → Prop
  | ticker period => period ≠ .zero
  | moment t => t < Instant.limit
  | channel capacity => 1 ≤ capacity ∧ capacity ≤ mostRoom

/-- What a wait asks for that begins at an instant: if the clock cannot represent its end, it ends far away. -/
def wait (now begins : Instant) (d : Duration) : List Demand :=
  if begins.plus d < Instant.limit then [] else [moment (now + Instant.farAway)]

/-- What a tick asks for that was due at an instant and is seen now: whether it has been missed, and the next one. -/
def tick (period : Duration) (due now : Instant) : List Demand :=
  moment (due + tickTolerance) :: if due + tickTolerance < now then [moment (now.plus period)] else wait now due period

end Demand

/-! ## Consumers -/

def Poller.demands {α : Type} (period : Duration) (now : Instant) (cancelled : Bool) : Poller α → List Demand
  | .idle => [.ticker period]
  | .waiting due | .pausing due => if !cancelled && due ≤ now then Demand.tick period due now else []
  | _ => []

def Retry.demands {ε : Type} (now : Instant) (cancelled : Bool) : Retry ε → List Demand
  | .reported _ delay _ => if cancelled then [] else Demand.wait now now delay
  | _ => []

def Job.demands (now : Instant) (cancelled : Bool) (job : Job) : List Demand :=
  match job.work? with
  | some (.trying attempts) => attempts.demands now cancelled
  | _ => []

def ClaimStream.demands (period : Duration) (now : Instant) (cancelled : Bool) : ClaimStream → List Demand
  | .pulling batches => batches.demands period now cancelled
  | _ => []

def Consumer.demands (c : Consumer) (now : Instant) (cancelled : Bool) : List Demand :=
  match c.phase with
  | .pulling s | .draining s => s.demands c.setup.settings.pollInterval now cancelled
  | .working _ job => job.demands now cancelled
  | _ => []

/-- What the store asks for at most when it carries out a request. -/
def Store.Request.demands (now : Instant) : Store.Request → List Demand
  | .claim q => [.moment (now.plus q.lease)]
  | .nack _ d | .renew _ d => [.moment (now.plus d)]
  | _ => []

/-- A configuration that asks for nothing that cannot be had at an instant. It has a period, and neither its spans nor
its error channels are too long. -/
structure Config.IsSensible (config : Config) (now : Instant) : Prop where
  period : config.pollInterval ≠ .zero
  spans : ∀ d ∈ [config.pollInterval, config.claimLease, config.redeliveryDelay], now.plus d < Instant.limit
  capacity : config.errorChannelCapacity ≤ Demand.mostRoom
  /-- The far future is still to come. -/
  remote : now + Instant.farAway < Instant.limit

section Met

variable {now begins due : Instant} {d period : Duration} {cancelled : Bool} {config : Config}
  {propagator : Propagator} {x : Demand}

theorem Config.IsSensible.earlier {now' : Instant} (h : config.IsSensible now') (earlier : now ≤ now') :
    config.IsSensible now where
  period := h.period
  spans d hd := Nat.lt_of_le_of_lt (Nat.add_le_add_right earlier d.toNanos) (h.spans d hd)
  capacity := h.capacity
  remote := Nat.lt_of_le_of_lt (Nat.add_le_add_right earlier Instant.farAway) h.remote

theorem tickTolerance_lt : tickTolerance < Instant.farAway := by decide

theorem Demand.met_wait (remote : now + Instant.farAway < Instant.limit) (hx : x ∈ Demand.wait now begins d) :
    x.IsMet := by
  unfold Demand.wait at hx
  split at hx
  · cases hx
  · rw [List.mem_singleton.1 hx]
    exact remote

theorem Demand.met_tick (h : config.IsSensible now) (reached : due ≤ now)
    (hx : x ∈ Demand.tick config.pollInterval due now) : x.IsMet := by
  rcases List.mem_cons.1 hx with rfl | hx
  · exact Nat.lt_trans (Nat.add_lt_add_of_le_of_lt reached tickTolerance_lt) h.remote
  · split at hx
    · rw [List.mem_singleton.1 hx]
      exact h.spans _ List.mem_cons_self
    · exact met_wait h.remote hx

theorem Poller.demands_met {α : Type} (h : config.IsSensible now) {p : Poller α}
    (hx : x ∈ p.demands config.pollInterval now cancelled) : x.IsMet := by
  cases p with
  | idle =>
    rw [List.mem_singleton.1 hx]
    exact h.period
  | waiting due | pausing due =>
    simp only [demands, Bool.and_eq_true, decide_eq_true_eq] at hx
    split at hx
    case isTrue hreached => exact Demand.met_tick h hreached.2 hx
    case isFalse => cases hx
  | _ => cases hx

theorem Retry.demands_met {ε : Type} (remote : now + Instant.farAway < Instant.limit) {attempts : Retry ε}
    (hx : x ∈ attempts.demands now cancelled) : x.IsMet := by
  cases attempts with
  | reported n delay e =>
    simp only [demands] at hx
    split at hx
    · cases hx
    · exact Demand.met_wait remote hx
  | _ => cases hx

theorem Job.demands_met (remote : now + Instant.farAway < Instant.limit) {job : Job}
    (hx : x ∈ job.demands now cancelled) : x.IsMet := by
  unfold demands at hx
  split at hx
  · exact Retry.demands_met remote hx
  · cases hx

theorem ClaimStream.demands_met (h : config.IsSensible now) {s : ClaimStream}
    (hx : x ∈ s.demands config.pollInterval now cancelled) : x.IsMet := by
  cases s with
  | pulling batches => exact Poller.demands_met h hx
  | _ => cases hx

/-- **What a consumer asks for when it looks can be had.** -/
theorem Consumer.demands_met (h : config.IsSensible now) {c : Consumer}
    (fitted : c.setup.settings = .ofConfig config propagator) (hx : x ∈ c.demands now cancelled) : x.IsMet := by
  have hperiod : c.setup.settings.pollInterval = config.pollInterval := by rw [fitted]; rfl
  unfold demands at hx
  rw [hperiod] at hx
  split at hx
  · exact ClaimStream.demands_met h hx
  · exact ClaimStream.demands_met h hx
  · exact Job.demands_met h.remote hx
  · cases hx

/-- **What the store asks for on behalf of a consumer can be had.** -/
theorem Store.Request.demands_met (h : config.IsSensible now) {c : Consumer}
    (fitted : c.setup.settings = .ofConfig config propagator) {request : Store.Request}
    (asks : c.request? = some request) (hx : x ∈ request.demands now) : x.IsMet := by
  have hlease : c.setup.settings.claimLease = config.claimLease := by rw [fitted]; rfl
  have hredelivery : c.setup.settings.redeliveryDelay = config.redeliveryDelay := by rw [fitted]; rfl
  have hsettles : ∀ {d}, d ∈ [config.pollInterval, config.claimLease, config.redeliveryDelay] →
      x ∈ [Demand.moment (now.plus d)] → x.IsMet := by
    intro d hd hx
    rw [List.mem_singleton.1 hx]
    exact h.spans d hd
  cases Consumer.asks_of_request asks with
  | claim =>
    change x ∈ [Demand.moment (now.plus c.setup.settings.claimLease)] at hx
    rw [hlease] at hx
    exact hsettles (by simp) hx
  | renew =>
    change x ∈ [Demand.moment (now.plus c.setup.settings.claimLease)] at hx
    rw [hlease] at hx
    exact hsettles (by simp) hx
  | release =>
    rw [List.mem_singleton.1 hx]
    exact Nat.lt_of_le_of_lt (Nat.le_add_right now _) h.remote
  | @settle job _ busy settles =>
    unfold Consumer.Settles at settles
    split at settles
    · rw [settles] at hx
      cases hx
    · rw [settles, hredelivery] at hx
      exact hsettles (by simp) hx
  | forward | forget => cases hx

end Met

/-! ## Systems -/

namespace System

/-- Every bus has the settings that its configuration asks for, and hands them on to its consumers. -/
structure Fitted (s : System) : Prop where
  kits : ∀ kit ∈ s.kits, ∃ propagator, kit.2.1 = .ofConfig kit.1 propagator
  members : ∀ (i : Nat) (m : Member), s.members[i]? = some m →
    ∃ b, s.buses[m.bus]? = some b ∧ m.consumer.setup.settings = b.settings

/-- What an event asks of timers, channels and the clock, and on behalf of which bus. -/
def demands (s : System) : Event → List (Nat × Demand)
  | .turn (.look i) =>
    match s.members[i]? with
    | some m => (m.consumer.demands s.now (s.isCancelled m)).map (Prod.mk m.bus)
    | none => []
  | .turn (.answer i .performed) =>
    match s.members[i]?, s.requestAt i with
    | some m, some request => (request.demands s.now).map (Prod.mk m.bus)
    | _, _ => []
  | .turn (.subscribe bus _ _ _) | .subscribed bus _ _ _ =>
    match s.buses[bus]? with
    | some b => [(bus, .channel (ErrorChannel.new b.config.errorChannelCapacity).capacity)]
    | none => []
  | .turn (.beginShutdown bus) =>
    match s.buses[bus]? with
    | some b => (Demand.wait s.now s.now b.config.shutdownTimeout).map (Prod.mk bus)
    | none => []
  | _ => []

variable {s : System} {e : Event} {i : Nat} {m m' : Member}

theorem fitted_start : Fitted start where
  kits _ h := by cases h
  members _ _ h := by cases h

theorem Fitted.settings (h : Fitted s) (hm : s.members[i]? = some m) :
    ∃ b propagator, s.buses[m.bus]? = some b ∧ m.consumer.setup.settings = .ofConfig b.config propagator := by
  obtain ⟨b, hb, hsettings⟩ := h.members i m hm
  obtain ⟨propagator, hkit⟩ := h.kits b.kit (List.mem_map_of_mem (List.mem_of_getElem? hb))
  exact ⟨b, propagator, hb, hsettings.trans hkit⟩

theorem spawned {bus : Nat} {setup : Setup} {capacity : Nat} (hnone : s.members[i]? = none)
    (hm' : (s.spawn bus setup capacity).members[i]? = some m') : m'.bus = bus ∧ m'.consumer.setup = setup := by
  change (s.members ++ _)[i]? = _ at hm'
  rw [List.getElem?_append_right (List.getElem?_eq_none_iff.1 hnone)] at hm'
  rw [List.mem_singleton.1 (List.mem_of_getElem? hm')]
  exact ⟨rfl, rfl⟩

theorem settings_subscribe {bus : Nat} {topic : String} {group : Group} {head : Int} (hnone : s.members[i]? = none)
    (hm' : (s.subscribe bus topic group head).members[i]? = some m') :
    ∃ b, s.buses[m'.bus]? = some b ∧ m'.consumer.setup.settings = b.settings := by
  unfold subscribe at hm'
  cases hb : s.buses[bus]? with
  | none =>
    rw [hb, hnone] at hm'
    cases hm'
  | some b =>
    rw [hb] at hm'
    cases group with
    | named name =>
      obtain ⟨hbus, hsetup⟩ := spawned hnone hm'
      exact ⟨b, by rw [hbus, hb], by rw [hsetup]; rfl⟩
    | broadcast =>
      obtain ⟨hbus, hsetup⟩ := spawned (s := { s with drawn := s.drawn + 1 }) hnone hm'
      exact ⟨b, by rw [hbus, hb], by rw [hsetup]; rfl⟩

theorem settings_startForwarder {bus : Nat} {caller : String} (hnone : s.members[i]? = none)
    (hm' : (s.startForwarder bus caller).members[i]? = some m') :
    ∃ b, s.buses[m'.bus]? = some b ∧ m'.consumer.setup.settings = b.settings := by
  unfold startForwarder at hm'
  cases hb : s.buses[bus]? with
  | none =>
    rw [hb, hnone] at hm'
    cases hm'
  | some b =>
    rw [hb] at hm'
    obtain ⟨hbus, hsetup⟩ := spawned (s := { s.modifyBus bus _ with links := _ }) hnone hm'
    exact ⟨b, by rw [hbus, hb], by rw [hsetup]; rfl⟩

/-- Whoever joins has the settings of its bus. -/
theorem settings_new (hnone : s.members[i]? = none) (hm' : (s.occur e).1.members[i]? = some m') :
    ∃ b, s.buses[m'.bus]? = some b ∧ m'.consumer.setup.settings = b.settings := by
  have hstill : ∀ {members : List Member}, members.length = s.members.length → members[i]? ≠ some m' := by
    intro members hlength hsome
    rw [List.getElem?_eq_none_iff] at hnone
    obtain ⟨hi, -⟩ := List.getElem?_eq_some_iff.1 hsome
    omega
  cases e with
  | subscribed bus topic group head => exact settings_subscribe hnone hm'
  | forwarding bus caller => exact settings_startForwarder hnone hm'
  | turn t =>
    cases hstarts : t.starts with
    | false =>
      have hsetups := congrArg List.length (alike_turn s hstarts).2
      unfold setups at hsetups
      rw [List.length_map, List.length_map] at hsetups
      exact absurd hm' (hstill hsetups)
    | true =>
      cases t with
      | addBus => exact absurd hm' (hstill rfl)
      | subscribe bus topic group head =>
        change (ite _ _ _ : System).members[i]? = _ at hm'
        split at hm'
        · exact settings_subscribe hnone hm'
        · exact absurd hm' (hstill rfl)
      | startForwarder bus caller =>
        change (ite _ _ _ : System).members[i]? = _ at hm'
        split at hm'
        · exact settings_startForwarder hnone hm'
        · exact absurd hm' (hstill rfl)
      | _ => cases hstarts

/-- **Every event leaves buses and members with the settings that the configurations ask for.** -/
theorem Fitted.occur (h : Fitted s) (e : Event) : Fitted (s.occur e).1 where
  kits kit hkit := by
    rcases kits_occur s e with hsame | ⟨config, propagator, -, happended⟩
    · exact h.kits kit (hsame ▸ hkit)
    · rcases List.mem_append.1 (happended ▸ hkit) with hbefore | hnew
      · exact h.kits kit hbefore
      · rw [List.mem_singleton.1 hnew]
        exact ⟨propagator, rfl⟩
  members i m' hm' := by
    have hkept : ∀ {bus : Nat} {b : Bus}, s.buses[bus]? = some b →
        ∃ b', (s.occur e).1.buses[bus]? = some b' ∧ b'.settings = b.settings := by
      intro bus b hb
      obtain ⟨b', hb', hkit⟩ := kit_occur hb e
      exact ⟨b', hb', congrArg (·.2.1) hkit⟩
    cases hm : s.members[i]? with
    | none =>
      obtain ⟨b, hb, hsettings⟩ := settings_new hm hm'
      obtain ⟨b', hb', hsame⟩ := hkept hb
      exact ⟨b', hb', hsettings.trans hsame.symm⟩
    | some m =>
      obtain ⟨_, hsome, hsucceeds⟩ := (recasts_occur s e).old i m hm
      obtain rfl := Option.some.inj (hm'.symm.trans hsome)
      obtain ⟨b, hb, hsettings⟩ := h.members i m hm
      obtain ⟨b', hb', hsame⟩ := hkept hb
      refine ⟨b', by rw [hsucceeds.bus, hb'], ?_⟩
      rw [hsucceeds.setup, hsettings, hsame]

theorem fitted_outcome (events : List Event) : Fitted (outcome events) := by
  induction events using List.reverseRecOn with
  | nil => exact fitted_start
  | append_singleton events e ih =>
    rw [outcome_concat]
    exact ih.occur e

/-- Who asks for something, and on behalf of which bus. -/
inductive Demanded (s : System) : Nat × Demand → Prop
  | looks {i : Nat} {m : Member} {d : Demand} (member : s.members[i]? = some m)
      (asks : d ∈ m.consumer.demands s.now (s.isCancelled m)) : Demanded s (m.bus, d)
  | requests {i : Nat} {m : Member} {request : Store.Request} {d : Demand} (member : s.members[i]? = some m)
      (waits : m.consumer.request? = some request) (asks : d ∈ request.demands s.now) : Demanded s (m.bus, d)
  | subscribes {bus : Nat} {b : Bus} (known : s.buses[bus]? = some b) :
      Demanded s (bus, .channel (ErrorChannel.new b.config.errorChannelCapacity).capacity)
  | shuts {bus : Nat} {b : Bus} {d : Demand} (known : s.buses[bus]? = some b)
      (asks : d ∈ Demand.wait s.now s.now b.config.shutdownTimeout) : Demanded s (bus, d)

theorem demanded_of_mem {x : Nat × Demand} (hx : x ∈ s.demands e) : Demanded s x := by
  unfold demands at hx
  split at hx
  case h_1 i =>
    split at hx
    case h_1 m hm =>
      obtain ⟨d, hd, rfl⟩ := List.mem_map.1 hx
      exact .looks hm hd
    case h_2 => cases hx
  case h_2 i =>
    split at hx
    case h_1 m request hm hrequest =>
      obtain ⟨d, hd, rfl⟩ := List.mem_map.1 hx
      unfold requestAt at hrequest
      rw [hm] at hrequest
      exact .requests hm hrequest hd
    case h_2 => cases hx
  case h_3 bus _ _ _ | h_4 bus _ _ _ =>
    split at hx
    case h_1 b hb =>
      rw [List.mem_singleton.1 hx]
      exact .subscribes hb
    case h_2 => cases hx
  case h_5 bus =>
    split at hx
    case h_1 b hb =>
      obtain ⟨d, hd, rfl⟩ := List.mem_map.1 hx
      exact .shuts hb hd
    case h_2 => cases hx
  case h_6 => cases hx

/-- **What an event asks for on behalf of a bus can be had**, if the configuration of the bus is sensible. -/
theorem Fitted.demands_met (h : Fitted s) {x : Nat × Demand} (hx : x ∈ s.demands e) {b : Bus}
    (hb : s.buses[x.1]? = some b) (sensible : b.config.IsSensible s.now) : x.2.IsMet := by
  have hmember : ∀ {i : Nat} {m : Member}, s.members[i]? = some m → s.buses[m.bus]? = some b →
      ∃ propagator, m.consumer.setup.settings = .ofConfig b.config propagator := by
    intro i m hm hb
    obtain ⟨b', propagator, hb', hsettings⟩ := h.settings hm
    obtain rfl := Option.some.inj (hb.symm.trans hb')
    exact ⟨propagator, hsettings⟩
  cases demanded_of_mem hx with
  | looks member asks =>
    obtain ⟨propagator, hfitted⟩ := hmember member hb
    exact Consumer.demands_met sensible hfitted asks
  | requests member waits asks =>
    obtain ⟨propagator, hfitted⟩ := hmember member hb
    exact Store.Request.demands_met sensible hfitted waits asks
  | subscribes known =>
    obtain rfl := Option.some.inj (hb.symm.trans known)
    exact ⟨Nat.le_max_right _ _, Nat.max_le.2 ⟨sensible.capacity, by decide⟩⟩
  | shuts known asks =>
    obtain rfl := Option.some.inj (hb.symm.trans known)
    exact Demand.met_wait sensible.remote asks

theorem Fitted.demanding (h : Fitted s) {x : Nat × Demand} (hx : x ∈ s.demands e) : ∃ b, s.buses[x.1]? = some b := by
  cases demanded_of_mem hx with
  | looks member | requests member =>
    obtain ⟨b, hb, -⟩ := h.members _ _ member
    exact ⟨b, hb⟩
  | subscribes known | shuts known => exact ⟨_, known⟩

/-- **Whatever has been asked for on behalf of a bus could be had**, if its configuration is still sensible. -/
theorem demands_met_before {events : List Event} {bus : Nat} {b : Bus} (hb : (outcome events).buses[bus]? = some b)
    (sensible : b.config.IsSensible (outcome events).now) {x : System × Event} (hx : x ∈ course events)
    {y : Nat × Demand} (hy : y ∈ x.1.demands x.2) (behalf : y.1 = bus) : y.2.IsMet := by
  obtain ⟨before, after, rfl, hbefore⟩ := mem_course hx
  rw [hbefore] at hy
  have hfitted := fitted_outcome before
  obtain ⟨b₀, hb₀⟩ := hfitted.demanding hy
  obtain ⟨b', hb', hkit⟩ := kit_append hb₀ (x.2 :: after)
  rw [behalf, hb] at hb'
  obtain rfl := Option.some.inj hb'
  have hconfig : b.config = b₀.config := congrArg (·.1) hkit
  exact hfitted.demands_met hy hb₀ (hconfig ▸ sensible.earlier (now_append before (x.2 :: after)))

end System

end DurableBus
