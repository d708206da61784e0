import DurableBus.Config.Environment
import DurableBus.Proofs.FirstFailure
import DurableBus.Proofs.Text.Numeral

/-!
# What the environment says

The values that the keys of a configuration may have, and the configuration that they describe.

* `IsTruth`, `IsNumeral` : what a value says;
* `Describes` : what the keys together say, each about its own fields (`judged_load`);
* `Respells` : spellings of a value that make no difference (`Describes.respelled`);
* `load_accepts_grammar` : exactly what is well-formed is accepted.
-/

set_option autoImplicit false

namespace DurableBus

theorem Duration.toNanos_inj {d d' : Duration} (h : d.toNanos = d'.toNanos) : d = d' := by
  have hlt := d.nanos_lt
  have hlt' := d'.nanos_lt
  unfold toNanos at h
  have hsecs : d.secs = d'.secs := by omega
  have hnanos : d.nanos = d'.nanos := by omega
  cases d
  cases d'
  simp only at hsecs hnanos
  subst hsecs hnanos
  rfl

namespace Config

/-! ## Values -/

def IsTruth (v : String) (b : Bool) : Prop :=
  Pads (if b then ['t', 'r', 'u', 'e'] else ['f', 'a', 'l', 's', 'e']) v.toList

def IsNumeral (bound : Nat) (v : String) (n : Nat) : Prop :=
  ∃ core, Pads core v.toList ∧ Numeral.Spells core n ∧ n < bound

/-- A value is a span as a number of units, each of so many nanoseconds. -/
def IsSpan (unit : Nat) (v : String) (d : Duration) : Prop :=
  ∃ n, IsNumeral (2 ^ 64) v n ∧ d.toNanos = n * unit

/-- A value is a limit on attempts, of which there is always one. -/
def IsLimit (v : String) (limit : Nat) : Prop := ∃ n, IsNumeral (2 ^ 32) v n ∧ limit = max n 1

theorem truth_no_blank (b : Bool) :
    ∀ c ∈ (if b then ['t', 'r', 'u', 'e'] else ['f', 'a', 'l', 's', 'e']), isBlank c = false := by
  cases b <;> simp [isBlank]

theorem isTruth_iff (v : String) (b : Bool) : truthValue (trimBlanks v.toList) = .ok b ↔ IsTruth v b := by
  unfold IsTruth truthValue
  rw [← trimBlanks_eq_iff (truth_no_blank b)]
  cases b with
  | true =>
    simp only [if_true]
    split
    case isTrue htrue => exact ⟨fun _ => htrue, fun _ => rfl⟩
    case isFalse hnot =>
      refine ⟨fun h => ?_, fun h => absurd h hnot⟩
      split at h <;> cases h
  | false =>
    simp only [Bool.false_eq_true, if_false]
    split
    case isTrue htrue =>
      refine ⟨nofun, fun h => ?_⟩
      rw [htrue] at h
      simp at h
    case isFalse =>
      split
      case isTrue hfalse => exact ⟨fun _ => hfalse, fun _ => rfl⟩
      case isFalse hnot => exact ⟨nofun, fun h => absurd h hnot⟩

theorem isNumeral_iff (bound : Nat) (v : String) (n : Nat) :
    numeral bound (trimBlanks v.toList) = .ok n ↔ IsNumeral bound v n := by
  have hparse : numeral bound (trimBlanks v.toList) = .ok n ↔
      Numeral.parse bound (trimBlanks v.toList) = .ok n := by
    unfold numeral
    cases Numeral.parse bound (trimBlanks v.toList) <;> simp [Except.mapError]
  rw [hparse, Numeral.parse_eq_ok_iff]
  constructor
  · rintro ⟨hspells, hbound⟩
    exact ⟨_, pads_trimBlanks v.toList, hspells, hbound⟩
  · rintro ⟨core, hpads, hspells, hbound⟩
    rw [(trimBlanks_eq_iff hspells.no_blank).2 hpads]
    exact ⟨hspells, hbound⟩

theorem isNumeral32_iff (v : String) (n : Nat) :
    numeral bound32 (trimBlanks v.toList) = .ok n ↔ IsNumeral (2 ^ 32) v n := by
  rw [← show bound32 = 2 ^ 32 by decide]
  exact isNumeral_iff bound32 v n

theorem isNumeral64_iff (v : String) (n : Nat) :
    numeral bound64 (trimBlanks v.toList) = .ok n ↔ IsNumeral (2 ^ 64) v n := by
  rw [← show bound64 = 2 ^ 64 by decide]
  exact isNumeral_iff bound64 v n

theorem IsTruth.unique {v : String} {b b' : Bool} (h : IsTruth v b) (h' : IsTruth v b') : b = b' := by
  rw [← isTruth_iff] at h h'
  exact Except.ok.inj (h.symm.trans h')

theorem IsNumeral.unique {bound : Nat} {v : String} {n n' : Nat} (h : IsNumeral bound v n)
    (h' : IsNumeral bound v n') : n = n' := by
  rw [← isNumeral_iff] at h h'
  exact Except.ok.inj (h.symm.trans h')

theorem IsSpan.unique {unit : Nat} {v : String} {d d' : Duration} (h : IsSpan unit v d) (h' : IsSpan unit v d') :
    d = d' := by
  obtain ⟨n, hn, hd⟩ := h
  obtain ⟨n', hn', hd'⟩ := h'
  apply Duration.toNanos_inj
  rw [hd, hd', hn.unique hn']

theorem IsLimit.unique {v : String} {n n' : Nat} (h : IsLimit v n) (h' : IsLimit v n') : n = n' := by
  obtain ⟨m, hm, rfl⟩ := h
  obtain ⟨m', hm', rfl⟩ := h'
  rw [hm.unique hm']

theorem isSpan_ofMillis {v : String} {n : Nat} (h : IsNumeral (2 ^ 64) v n) : IsSpan 1_000_000 v (.ofMillis n) := by
  obtain ⟨-, -, -, hbound⟩ := id h
  exact ⟨n, h, Duration.toNanos_ofNanos (by omega)⟩

theorem isSpan_ofSecs {v : String} {n : Nat} (h : IsNumeral (2 ^ 64) v n) : IsSpan 1_000_000_000 v (.ofSecs n) := by
  obtain ⟨-, -, -, hbound⟩ := id h
  exact ⟨n, h, Duration.toNanos_ofNanos (by omega)⟩

theorem isLimit_max {v : String} {n : Nat} (h : IsNumeral (2 ^ 32) v n) : IsLimit v (max n 1) := ⟨n, h, rfl⟩

/-! ## Keys -/

/-- A key whose value is parsed, and the values that it may have. -/
structure Setting where
  key : String
  accepts : String → Prop

/-- A key whose value is read as something. -/
def Setting.reads {α : Type} (key : String) (reads : String → α → Prop) : Setting := ⟨key, fun v => ∃ a, reads v a⟩

/-- The keys whose values are parsed, in order. -/
def settings : List Setting :=
  [.reads "LETTERBOX_FORWARDER" IsTruth, .reads "LETTERBOX_MAX_CONNECTIONS" (IsNumeral (2 ^ 32)),
    .reads "LETTERBOX_POLL_INTERVAL_MS" (IsNumeral (2 ^ 64)), .reads "LETTERBOX_BATCH_SIZE" (IsNumeral (2 ^ 64)),
    .reads "LETTERBOX_CLAIM_LEASE_SECS" (IsNumeral (2 ^ 64)),
    .reads "LETTERBOX_REDELIVERY_DELAY_MS" (IsNumeral (2 ^ 64)), .reads "LETTERBOX_MAX_ATTEMPTS" (IsNumeral (2 ^ 32)),
    .reads "LETTERBOX_RETRY_BASE_DELAY_MS" (IsNumeral (2 ^ 64)),
    .reads "LETTERBOX_SHUTDOWN_TIMEOUT_SECS" (IsNumeral (2 ^ 64))]

/-- A key is not set, or has a value that it may have. -/
def IsFine (lookup : String → Option String) (k : Setting) : Prop := ∀ v, lookup k.key = some v → k.accepts v

/-- An error names a key and carries its value as it was found. -/
def Blames (lookup : String → Option String) (k : Setting) (e : ConfigError) : Prop :=
  e.key = k.key ∧ lookup k.key = some e.value

/-- A field has its preset unless its key is set. -/
inductive Sets {α : Type} (lookup : String → Option String) (key : String) (reads : String → α → Prop) (preset : α) :
    α → Prop
  | preset (unset : lookup key = none) : Sets lookup key reads preset preset
  | set {v a} (found : lookup key = some v) (read : reads v a) : Sets lookup key reads preset a

/-- The configuration that the keys describe. -/
structure Describes (lookup : String → Option String) (c : Config) : Prop where
  databaseUrl : ∃ general, Sets lookup "DATABASE_URL" Eq standard.databaseUrl general ∧
    Sets lookup "LETTERBOX_DATABASE_URL" Eq general c.databaseUrl
  maxConnections : Sets lookup "LETTERBOX_MAX_CONNECTIONS" (IsNumeral (2 ^ 32)) standard.maxConnections
    c.maxConnections
  consumerGroup : Sets lookup "SERVICE_NAME" (fun v group => group = some (v ++ "-consumer")) standard.consumerGroup
    c.consumerGroup
  forwarderEnabled : Sets lookup "LETTERBOX_FORWARDER" IsTruth standard.forwarderEnabled c.forwarderEnabled
  forwarderTopic : Sets lookup "LETTERBOX_FORWARDER_TOPIC" Eq standard.forwarderTopic c.forwarderTopic
  forwarderGroup : Sets lookup "LETTERBOX_FORWARDER_GROUP" Eq standard.forwarderGroup c.forwarderGroup
  pollInterval : Sets lookup "LETTERBOX_POLL_INTERVAL_MS" (IsSpan 1_000_000) standard.pollInterval c.pollInterval
  batchSize : Sets lookup "LETTERBOX_BATCH_SIZE" (IsNumeral (2 ^ 64)) standard.batchSize c.batchSize
  claimLease : Sets lookup "LETTERBOX_CLAIM_LEASE_SECS" (IsSpan 1_000_000_000) standard.claimLease c.claimLease
  redeliveryDelay : Sets lookup "LETTERBOX_REDELIVERY_DELAY_MS" (IsSpan 1_000_000) standard.redeliveryDelay
    c.redeliveryDelay
  maxAttempts : Sets lookup "LETTERBOX_MAX_ATTEMPTS" IsLimit standard.retry.maxAttempts c.retry.maxAttempts
  baseDelay : Sets lookup "LETTERBOX_RETRY_BASE_DELAY_MS" (IsSpan 1_000_000) standard.retry.baseDelay
    c.retry.baseDelay
  maxDelay : c.retry.maxDelay = standard.retry.maxDelay
  shutdownTimeout : Sets lookup "LETTERBOX_SHUTDOWN_TIMEOUT_SECS" (IsSpan 1_000_000_000) standard.shutdownTimeout
    c.shutdownTimeout
  errorChannelCapacity : c.errorChannelCapacity = standard.errorChannelCapacity

section

variable {α β : Type} {lookup : String → Option String} {key : String} {read : List Char → Except ConfigError.Reason α}
  {reads : String → α → Prop} (hread : ∀ v a, read (trimBlanks v.toList) = .ok a ↔ reads v a)
include hread

/-- To look a key up is a step, and its check is that the value is one that it may have. -/
theorem setting_or_fails :
    (∃ o, setting lookup key read = .ok o ∧ IsFine lookup (.reads key reads)) ∨
      ∃ e, setting lookup key read = .error e ∧ ¬ IsFine lookup (.reads key reads) ∧
        Blames lookup (.reads key reads) e := by
  unfold setting IsFine Blames Setting.reads
  cases hlookup : lookup key with
  | none => exact .inl ⟨none, rfl, nofun⟩
  | some v =>
    simp only [Option.some.injEq, ← hread]
    cases hvalue : read (trimBlanks v.toList) with
    | ok a =>
      refine .inl ⟨some a, rfl, ?_⟩
      rintro _ rfl
      exact ⟨a, hvalue⟩
    | error reason =>
      refine .inr ⟨⟨key, v, reason⟩, rfl, fun h => ?_, rfl, rfl⟩
      obtain ⟨a, ha⟩ := h v rfl
      rw [hvalue] at ha
      cases ha

theorem sets_map {o : Option α} (h : setting lookup key read = .ok o) {reads' : String → β → Prop} {g : α → β}
    (hg : ∀ v a, reads v a → reads' v (g a)) (preset : β) : Sets lookup key reads' preset ((o.map g).getD preset) := by
  unfold setting at h
  cases hlookup : lookup key with
  | none =>
    simp only [hlookup] at h
    cases h
    exact .preset hlookup
  | some v =>
    simp only [hlookup] at h
    cases hvalue : read (trimBlanks v.toList) with
    | ok a =>
      simp only [hvalue] at h
      cases h
      exact .set hlookup (hg v a ((hread v a).1 hvalue))
    | error reason =>
      simp only [hvalue] at h
      cases h

theorem sets_getD {o : Option α} (h : setting lookup key read = .ok o) (preset : α) :
    Sets lookup key reads preset (o.getD preset) := by
  have := sets_map hread h (g := id) (fun _ _ => id) preset
  rwa [Option.map_id] at this

end

theorem sets_lookup (lookup : String → Option String) (key preset : String) :
    Sets lookup key Eq preset ((lookup key).getD preset) := by
  cases hlookup : lookup key with
  | none => exact .preset hlookup
  | some v => exact .set hlookup rfl

theorem retry_chosen (p : RetryPolicy) (attempts : Option Nat) (base : Option Duration) :
    let limited := (attempts.map p.withMaxAttempts).getD p
    let chosen := (base.map limited.withBaseDelay).getD limited
    chosen.maxAttempts = (attempts.map (max · 1)).getD p.maxAttempts ∧ chosen.baseDelay = base.getD p.baseDelay ∧
      chosen.maxDelay = p.maxDelay := by
  cases attempts <;> cases base <;> exact ⟨rfl, rfl, rfl⟩

/-- **The keys are read in order**, and together they describe the configuration. -/
theorem judged_load (lookup : String → Option String) :
    Judged (IsFine lookup) (Blames lookup) settings (Describes lookup) (load lookup) := by
  unfold load
  refine .bind rfl (List.forall_mem_nil _) (setting_or_fails isTruth_iff) fun enabled henabled hall => ?_
  refine .bind rfl hall (setting_or_fails isNumeral32_iff) fun connections hconnections hall => ?_
  refine .bind rfl hall (setting_or_fails isNumeral64_iff) fun poll hpoll hall => ?_
  refine .bind rfl hall (setting_or_fails isNumeral64_iff) fun batch hbatch hall => ?_
  refine .bind rfl hall (setting_or_fails isNumeral64_iff) fun lease hlease hall => ?_
  refine .bind rfl hall (setting_or_fails isNumeral64_iff) fun redelivery hredelivery hall => ?_
  refine .bind rfl hall (setting_or_fails isNumeral32_iff) fun attempts hattempts hall => ?_
  refine .bind rfl hall (setting_or_fails isNumeral64_iff) fun base hbase hall => ?_
  refine .bind rfl hall (setting_or_fails isNumeral64_iff) fun shutdown hshutdown hall => ?_
  refine .inl ⟨_, rfl, hall, ?_⟩
  obtain ⟨hlimit, hdelay, hlongest⟩ := retry_chosen standard.retry attempts (base.map .ofMillis)
  simp only [Option.map_map, Function.comp_def] at hlimit hdelay hlongest
  exact {
    databaseUrl := ⟨_, sets_lookup lookup "DATABASE_URL" _, by
      rw [Option.getD_or]
      exact sets_lookup lookup "LETTERBOX_DATABASE_URL" _⟩
    maxConnections := sets_getD isNumeral32_iff hconnections _
    consumerGroup := by
      cases hservice : lookup "SERVICE_NAME" with
      | none => exact .preset hservice
      | some service => exact .set hservice rfl
    forwarderEnabled := sets_getD isTruth_iff henabled _
    forwarderTopic := sets_lookup lookup "LETTERBOX_FORWARDER_TOPIC" _
    forwarderGroup := sets_lookup lookup "LETTERBOX_FORWARDER_GROUP" _
    pollInterval := sets_map isNumeral64_iff hpoll (fun _ _ => isSpan_ofMillis) _
    batchSize := sets_getD isNumeral64_iff hbatch _
    claimLease := sets_map isNumeral64_iff hlease (fun _ _ => isSpan_ofSecs) _
    redeliveryDelay := sets_map isNumeral64_iff hredelivery (fun _ _ => isSpan_ofMillis) _
    maxAttempts := (congrArg (Sets _ _ _ _) hlimit).mpr
      (sets_map isNumeral32_iff hattempts (fun _ _ => isLimit_max) _)
    baseDelay := (congrArg (Sets _ _ _ _) hdelay).mpr
      (sets_map isNumeral64_iff hbase (fun _ _ => isSpan_ofMillis) _)
    maxDelay := hlongest
    shutdownTimeout := sets_map isNumeral64_iff hshutdown (fun _ _ => isSpan_ofSecs) _
    errorChannelCapacity := rfl }

/-! ## Fields -/

theorem Sets.unique {α : Type} {lookup lookup' : String → Option String} {key : String} {reads : String → α → Prop}
    {preset a a' : α} (h : Sets lookup key reads preset a) (h' : Sets lookup' key reads preset a')
    (same : lookup key = lookup' key) (hreads : ∀ {v a a'}, reads v a → reads v a' → a = a') : a = a' := by
  cases h with
  | preset unset =>
    cases h' with
    | preset unset' => rfl
    | set found' read' =>
      rw [← same, unset] at found'
      cases found'
  | set found read =>
    cases h' with
    | preset unset' =>
      rw [← same, found] at unset'
      cases unset'
    | set found' read' =>
      rw [← same, found] at found'
      cases found'
      exact hreads read read'

theorem Sets.fine {α β : Type} {lookup : String → Option String} {key : String} {reads : String → α → Prop}
    {reads' : String → β → Prop} {preset a : α} (h : Sets lookup key reads preset a)
    (hreads : ∀ {v a}, reads v a → ∃ b, reads' v b) : IsFine lookup (.reads key reads') := by
  intro v hv
  cases h with
  | preset unset =>
    rw [show lookup key = some v from hv] at unset
    cases unset
  | set found read =>
    rw [show lookup key = some v from hv] at found
    cases found
    exact hreads read

/-- Configurations from two environments agree on a field if the environments agree on its keys. -/
structure Agree (lookup lookup' : String → Option String) (c c' : Config) : Prop where
  databaseUrl : lookup "LETTERBOX_DATABASE_URL" = lookup' "LETTERBOX_DATABASE_URL" →
    lookup "DATABASE_URL" = lookup' "DATABASE_URL" → c.databaseUrl = c'.databaseUrl
  maxConnections : lookup "LETTERBOX_MAX_CONNECTIONS" = lookup' "LETTERBOX_MAX_CONNECTIONS" →
    c.maxConnections = c'.maxConnections
  consumerGroup : lookup "SERVICE_NAME" = lookup' "SERVICE_NAME" → c.consumerGroup = c'.consumerGroup
  forwarderEnabled : lookup "LETTERBOX_FORWARDER" = lookup' "LETTERBOX_FORWARDER" →
    c.forwarderEnabled = c'.forwarderEnabled
  forwarderTopic : lookup "LETTERBOX_FORWARDER_TOPIC" = lookup' "LETTERBOX_FORWARDER_TOPIC" →
    c.forwarderTopic = c'.forwarderTopic
  forwarderGroup : lookup "LETTERBOX_FORWARDER_GROUP" = lookup' "LETTERBOX_FORWARDER_GROUP" →
    c.forwarderGroup = c'.forwarderGroup
  pollInterval : lookup "LETTERBOX_POLL_INTERVAL_MS" = lookup' "LETTERBOX_POLL_INTERVAL_MS" →
    c.pollInterval = c'.pollInterval
  batchSize : lookup "LETTERBOX_BATCH_SIZE" = lookup' "LETTERBOX_BATCH_SIZE" → c.batchSize = c'.batchSize
  claimLease : lookup "LETTERBOX_CLAIM_LEASE_SECS" = lookup' "LETTERBOX_CLAIM_LEASE_SECS" →
    c.claimLease = c'.claimLease
  redeliveryDelay : lookup "LETTERBOX_REDELIVERY_DELAY_MS" = lookup' "LETTERBOX_REDELIVERY_DELAY_MS" →
    c.redeliveryDelay = c'.redeliveryDelay
  maxAttempts : lookup "LETTERBOX_MAX_ATTEMPTS" = lookup' "LETTERBOX_MAX_ATTEMPTS" →
    c.retry.maxAttempts = c'.retry.maxAttempts
  baseDelay : lookup "LETTERBOX_RETRY_BASE_DELAY_MS" = lookup' "LETTERBOX_RETRY_BASE_DELAY_MS" →
    c.retry.baseDelay = c'.retry.baseDelay
  maxDelay : c.retry.maxDelay = c'.retry.maxDelay
  shutdownTimeout : lookup "LETTERBOX_SHUTDOWN_TIMEOUT_SECS" = lookup' "LETTERBOX_SHUTDOWN_TIMEOUT_SECS" →
    c.shutdownTimeout = c'.shutdownTimeout
  errorChannelCapacity : c.errorChannelCapacity = c'.errorChannelCapacity

namespace Describes

variable {lookup lookup' : String → Option String} {c c' : Config}

/-- **Each field depends on its own keys only.** -/
theorem agree (h : Describes lookup c) (h' : Describes lookup' c') : Agree lookup lookup' c c' where
  databaseUrl hspecific hgeneral := by
    obtain ⟨general, hset, hurl⟩ := h.databaseUrl
    obtain ⟨general', hset', hurl'⟩ := h'.databaseUrl
    obtain rfl := hset.unique hset' hgeneral fun e e' => e.symm.trans e'
    exact hurl.unique hurl' hspecific fun e e' => e.symm.trans e'
  maxConnections same := h.maxConnections.unique h'.maxConnections same IsNumeral.unique
  consumerGroup same := h.consumerGroup.unique h'.consumerGroup same fun e e' => e.trans e'.symm
  forwarderEnabled same := h.forwarderEnabled.unique h'.forwarderEnabled same IsTruth.unique
  forwarderTopic same := h.forwarderTopic.unique h'.forwarderTopic same fun e e' => e.symm.trans e'
  forwarderGroup same := h.forwarderGroup.unique h'.forwarderGroup same fun e e' => e.symm.trans e'
  pollInterval same := h.pollInterval.unique h'.pollInterval same IsSpan.unique
  batchSize same := h.batchSize.unique h'.batchSize same IsNumeral.unique
  claimLease same := h.claimLease.unique h'.claimLease same IsSpan.unique
  redeliveryDelay same := h.redeliveryDelay.unique h'.redeliveryDelay same IsSpan.unique
  maxAttempts same := h.maxAttempts.unique h'.maxAttempts same IsLimit.unique
  baseDelay same := h.baseDelay.unique h'.baseDelay same IsSpan.unique
  maxDelay := h.maxDelay.trans h'.maxDelay.symm
  shutdownTimeout same := h.shutdownTimeout.unique h'.shutdownTimeout same IsSpan.unique
  errorChannelCapacity := h.errorChannelCapacity.trans h'.errorChannelCapacity.symm

/-- The keys describe one configuration. -/
theorem unique (h : Describes lookup c) (h' : Describes lookup c') : c = c' := by
  have same := h.agree h'
  have hretry : c.retry = c'.retry := by
    have hlimit := same.maxAttempts rfl
    have hdelay := same.baseDelay rfl
    have hlongest := same.maxDelay
    generalize c.retry = retry at hlimit hdelay hlongest ⊢
    generalize c'.retry = retry' at hlimit hdelay hlongest ⊢
    cases retry
    cases retry'
    simp only at hlimit hdelay hlongest
    subst hlimit hdelay hlongest
    rfl
  have hurl := same.databaseUrl rfl rfl
  have hconnections := same.maxConnections rfl
  have hgroup := same.consumerGroup rfl
  have henabled := same.forwarderEnabled rfl
  have htopic := same.forwarderTopic rfl
  have hforwarder := same.forwarderGroup rfl
  have hpoll := same.pollInterval rfl
  have hbatch := same.batchSize rfl
  have hlease := same.claimLease rfl
  have hredelivery := same.redeliveryDelay rfl
  have hshutdown := same.shutdownTimeout rfl
  have hcapacity := same.errorChannelCapacity
  cases c
  cases c'
  simp_all only

/-- Keys that describe a configuration have values that they may have. -/
theorem fine (h : Describes lookup c) : ∀ k ∈ settings, IsFine lookup k := by
  simp only [settings, List.forall_mem_cons]
  exact ⟨h.forwarderEnabled.fine fun hv => ⟨_, hv⟩, h.maxConnections.fine fun hv => ⟨_, hv⟩,
    h.pollInterval.fine fun ⟨n, hn, _⟩ => ⟨n, hn⟩, h.batchSize.fine fun hv => ⟨_, hv⟩,
    h.claimLease.fine fun ⟨n, hn, _⟩ => ⟨n, hn⟩, h.redeliveryDelay.fine fun ⟨n, hn, _⟩ => ⟨n, hn⟩,
    h.maxAttempts.fine fun ⟨n, hn, _⟩ => ⟨n, hn⟩, h.baseDelay.fine fun ⟨n, hn, _⟩ => ⟨n, hn⟩,
    h.shutdownTimeout.fine fun ⟨n, hn, _⟩ => ⟨n, hn⟩, List.forall_mem_nil _⟩

end Describes

/-- **What is loaded is what the keys describe.** -/
theorem load_eq_ok_iff (lookup : String → Option String) (c : Config) : load lookup = .ok c ↔ Describes lookup c := by
  refine ⟨(judged_load lookup).good_of_ok, fun h => ?_⟩
  obtain ⟨c', hc'⟩ := (judged_load lookup).ok_iff.2 h.fine
  rw [hc', h.unique ((judged_load lookup).good_of_ok hc')]

/-! ## Spellings -/

/-- Two values say the same. -/
structure Alike (v v' : String) : Prop where
  truth : ∀ b, IsTruth v b ↔ IsTruth v' b
  numeral : ∀ bound n, IsNumeral bound v n ↔ IsNumeral bound v' n

/-- Spellings of a value that make no difference: with blanks around it, with a plus sign in front of digits, and with
zeros in front of digits. -/
inductive Respells : String → String → Prop
  | padded {v v'} (pads : Pads v.toList v'.toList) : Respells v v'
  | signed {ds} (some_digit : ds ≠ []) :
      Respells (.ofList (ds.map Numeral.digitChar)) (.ofList ('+' :: ds.map Numeral.digitChar))
  | leading {ds} (some_digit : ds ≠ []) (zeros : Nat) :
      Respells (.ofList (ds.map Numeral.digitChar))
        (.ofList ((List.replicate zeros 0 ++ ds).map Numeral.digitChar))
  | symm {v v'} (h : Respells v v') : Respells v' v
  | trans {v v' v''} (h : Respells v v') (h' : Respells v' v'') : Respells v v''

theorem alike_of_trim {v v' : String} (h : trimBlanks v.toList = trimBlanks v'.toList) : Alike v v' where
  truth b := by rw [← isTruth_iff, ← isTruth_iff, h]
  numeral bound n := by rw [← isNumeral_iff, ← isNumeral_iff, h]

/-- A numeral says its value and nothing else. -/
theorem isTruth_spells {cs : List Char} {n : Nat} (h : Numeral.Spells cs n) (b : Bool) :
    ¬ IsTruth (.ofList cs) b := by
  intro htruth
  unfold IsTruth at htruth
  rw [String.toList_ofList, ← trimBlanks_eq_iff (truth_no_blank b), trimBlanks_of_forall h.no_blank]
    at htruth
  have hparse := (Numeral.parse_eq_ok_iff (n + 1) cs n).2 ⟨h, by omega⟩
  cases b <;> (rw [htruth] at hparse; cases hparse)

theorem isNumeral_spells {cs : List Char} {n : Nat} (h : Numeral.Spells cs n) (bound m : Nat) :
    IsNumeral bound (.ofList cs) m ↔ m = n ∧ n < bound := by
  unfold IsNumeral
  rw [String.toList_ofList]
  constructor
  · rintro ⟨core, hpads, hspells, hbound⟩
    rw [← trimBlanks_eq_iff hspells.no_blank, trimBlanks_of_forall h.no_blank] at hpads
    subst hpads
    obtain rfl := hspells.unique h
    exact ⟨rfl, hbound⟩
  · rintro ⟨rfl, hbound⟩
    exact ⟨cs, ⟨[], [], by simp⟩, h, hbound⟩

theorem alike_of_spells {cs cs' : List Char} {n : Nat} (h : Numeral.Spells cs n) (h' : Numeral.Spells cs' n) :
    Alike (.ofList cs) (.ofList cs') where
  truth b := iff_of_false (isTruth_spells h b) (isTruth_spells h' b)
  numeral bound m := by rw [isNumeral_spells h, isNumeral_spells h']

theorem Respells.alike {v v' : String} (h : Respells v v') : Alike v v' := by
  induction h with
  | padded pads => exact alike_of_trim (trimBlanks_pads pads).symm
  | signed some_digit => exact alike_of_spells (.plain some_digit) (.signed some_digit)
  | @leading ds some_digit zeros =>
    refine alike_of_spells (.plain some_digit) ?_
    rw [← Numeral.value_leading zeros ds]
    exact .plain (by simp [some_digit])
  | symm _ ih => exact ⟨fun b => (ih.truth b).symm, fun bound n => (ih.numeral bound n).symm⟩
  | trans _ _ ih ih' =>
    exact ⟨fun b => (ih.truth b).trans (ih'.truth b), fun bound n => (ih.numeral bound n).trans (ih'.numeral bound n)⟩

section

variable {lookup : String → Option String} {key : String} {v v' : String}

theorem Sets.respelled {α : Type} {key' : String} {reads : String → α → Prop} {preset a : α}
    (h : Sets (Function.update lookup key (some v)) key' reads preset a)
    (hreads : key' = key → reads v a → reads v' a) :
    Sets (Function.update lookup key (some v')) key' reads preset a := by
  by_cases hkey : key' = key
  · subst hkey
    cases h with
    | preset unset => simp at unset
    | set found read =>
      rw [Function.update_self] at found
      cases found
      exact .set (Function.update_self ..) (hreads rfl read)
  · cases h with
    | preset unset =>
      rw [Function.update_of_ne hkey] at unset
      exact .preset (by rw [Function.update_of_ne hkey, unset])
    | set found read =>
      rw [Function.update_of_ne hkey] at found
      exact .set (by rw [Function.update_of_ne hkey, found]) read

/-- A key whose value is parsed may as well have another value that says the same. -/
theorem Describes.respelled {c : Config} (hkey : key ∈ settings.map Setting.key) (alike : Alike v v')
    (h : Describes (Function.update lookup key (some v)) c) :
    Describes (Function.update lookup key (some v')) c := by
  have hspan : ∀ {unit d}, IsSpan unit v d → IsSpan unit v' d := fun ⟨n, hn, hd⟩ => ⟨n, (alike.numeral _ n).1 hn, hd⟩
  have hlimit : ∀ {n}, IsLimit v n → IsLimit v' n := fun ⟨n, hn, hmax⟩ => ⟨n, (alike.numeral _ n).1 hn, hmax⟩
  have hplain : ∀ key', key' ∉ settings.map Setting.key → key' ≠ key := by
    rintro key' hnot rfl
    exact hnot hkey
  exact {
    databaseUrl := by
      obtain ⟨general, hset, hurl⟩ := h.databaseUrl
      exact ⟨general, hset.respelled fun e => absurd e (hplain _ (by decide)),
        hurl.respelled fun e => absurd e (hplain _ (by decide))⟩
    maxConnections := h.maxConnections.respelled fun _ => (alike.numeral _ _).1
    consumerGroup := h.consumerGroup.respelled fun e => absurd e (hplain _ (by decide))
    forwarderEnabled := h.forwarderEnabled.respelled fun _ => (alike.truth _).1
    forwarderTopic := h.forwarderTopic.respelled fun e => absurd e (hplain _ (by decide))
    forwarderGroup := h.forwarderGroup.respelled fun e => absurd e (hplain _ (by decide))
    pollInterval := h.pollInterval.respelled fun _ => hspan
    batchSize := h.batchSize.respelled fun _ => (alike.numeral _ _).1
    claimLease := h.claimLease.respelled fun _ => hspan
    redeliveryDelay := h.redeliveryDelay.respelled fun _ => hspan
    maxAttempts := h.maxAttempts.respelled fun _ => hlimit
    baseDelay := h.baseDelay.respelled fun _ => hspan
    maxDelay := h.maxDelay
    shutdownTimeout := h.shutdownTimeout.respelled fun _ => hspan
    errorChannelCapacity := h.errorChannelCapacity }

end

/-- **Exactly what is well-formed is accepted**, key by key.

* Loading fails exactly if a key whose value is parsed has a value that it may not have, and then names the first such
  key in order and carries its value as it was found.
* Otherwise it gives the configuration that the keys describe, and nothing else.
* Each field depends on its own keys only.
* Blanks around a value, a plus sign and zeros in front of digits make no difference. -/
theorem load_accepts_grammar (lookup : String → Option String) :
    ((∃ e, load lookup = .error e) ↔ ∃ k ∈ settings, ∃ v, lookup k.key = some v ∧ ¬ k.accepts v) ∧
      (∀ e, load lookup = .error e →
        ∃ k, FirstFailing (IsFine lookup) settings k ∧ e.key = k.key ∧ lookup k.key = some e.value) ∧
      (∀ c, load lookup = .ok c ↔ Describes lookup c) ∧
      (∀ lookup' c c', load lookup = .ok c → load lookup' = .ok c' → Agree lookup lookup' c c') ∧
      ∀ k ∈ settings, ∀ v v', Respells v v' → ∀ c,
        load (Function.update lookup k.key (some v)) = .ok c ↔ load (Function.update lookup k.key (some v')) = .ok c := by
  refine ⟨?_, fun e => (judged_load lookup).error_blames, load_eq_ok_iff lookup, fun lookup' c c' h h' => ?_,
    fun k hk v v' hrespells c => ?_⟩
  · rw [(judged_load lookup).error_iff]
    simp only [IsFine, not_forall, exists_prop]
  · rw [load_eq_ok_iff] at h h'
    exact h.agree h'
  · rw [load_eq_ok_iff, load_eq_ok_iff]
    have hkey : k.key ∈ settings.map Setting.key := List.mem_map_of_mem hk
    exact ⟨.respelled hkey hrespells.alike, .respelled hkey hrespells.symm.alike⟩

def only (key value : String) : String → Option String := Function.update (fun _ => none) key (some value)

/-- An odd spelling of a quarter of a second. -/
theorem respells_quarter : Respells "250" " +0250\t" := by
  have hleading : Respells "250" "0250" :=
    .leading (show ([2, 5, 0] : List (Fin 10)) ≠ [] from List.cons_ne_nil _ _) 1
  have hsigned : Respells "0250" "+0250" :=
    .signed (show ([0, 2, 5, 0] : List (Fin 10)) ≠ [] from List.cons_ne_nil _ _)
  have hpadded : Respells "+0250" " +0250\t" := .padded ⟨[' '], ['\t'], rfl, by simp [isBlank], by simp [isBlank]⟩
  exact (hleading.trans hsigned).trans hpadded

/-- A value that is no truth value is shown with its blank, a poll interval is read from an odd spelling, and a batch
size leaves it alone. -/
theorem load_accepts_grammar_crooked :
    (∃ k, FirstFailing (IsFine (only "LETTERBOX_FORWARDER" " yes")) settings k ∧ "LETTERBOX_FORWARDER" = k.key ∧
        only "LETTERBOX_FORWARDER" " yes" k.key = some " yes") ∧
      Agree (only "LETTERBOX_FORWARDER" "true") (only "LETTERBOX_BATCH_SIZE" "7") standard.withForwarder
        (standard.withBatchSize 7) ∧
      (load (only "LETTERBOX_POLL_INTERVAL_MS" "250") = .ok (standard.withPollInterval (.ofMillis 250)) ↔
        load (only "LETTERBOX_POLL_INTERVAL_MS" " +0250\t") = .ok (standard.withPollInterval (.ofMillis 250))) := by
  obtain ⟨-, hblames, -⟩ := load_accepts_grammar (only "LETTERBOX_FORWARDER" " yes")
  obtain ⟨-, -, -, hagree, -⟩ := load_accepts_grammar (only "LETTERBOX_FORWARDER" "true")
  obtain ⟨-, -, -, -, hrespells⟩ := load_accepts_grammar fun _ => none
  exact ⟨hblames ⟨"LETTERBOX_FORWARDER", " yes", .truthValue⟩ rfl,
    hagree (only "LETTERBOX_BATCH_SIZE" "7") standard.withForwarder (standard.withBatchSize 7) rfl rfl,
    hrespells (.reads "LETTERBOX_POLL_INTERVAL_MS" (IsNumeral (2 ^ 64))) (by simp [settings]) "250" " +0250\t"
      respells_quarter (standard.withPollInterval (.ofMillis 250))⟩

end Config

end DurableBus
