import DurableBus.Proofs.System.Signals

/-!
# A call that starts the forwarder

A `Launch` is a call that starts the forwarder of a bus. It looks at the bus step by step, and between its steps
anything may happen.

* `uninterrupted` : a call between whose steps nothing happens does what `Bus.permitForwarder` says;
* `Steps`, `steps_next` : one inductive for all that a step of a call does;
* `left_next` : a call comes closer to its end by each step;
* `Advances`, `Steps.advances` : the system and the call after a step.
-/

set_option autoImplicit false

namespace DurableBus

/-- How far a call that starts the forwarder has come. -/
inductive Launch.Stage
  /-- It is about to see whether forwarding is configured. -/
  | called
  /-- It is about to see whether the bus has been told to shut down. -/
  | configured
  /-- It is about to see whether the forwarder has been started before. -/
  | admitted
  /-- It is about to start the forwarder. -/
  | chosen
  /-- It waits for the forwarder. -/
  | waiting (member : Nat)
  | refused (error : BusError Store.Error)
  | ended (member : Nat) (result : Except (BusError Store.Error) Unit)

/-- A call that starts the forwarder of a bus. -/
structure Launch where
  bus : Nat
  caller : String
  stage : Launch.Stage

namespace Launch

def result? (l : Launch) : Option (Except (BusError Store.Error) Unit) :=
  match l.stage with
  | .refused e => some (.error e)
  | .ended _ result => some result
  | _ => none

def member? (l : Launch) : Option Nat :=
  match l.stage with
  | .waiting i | .ended i _ => some i
  | _ => none

def isStarter (l : Launch) : Bool :=
  match l.stage with
  | .chosen | .waiting _ | .ended _ _ => true
  | _ => false

/-- Whether the call has found that the bus has not been told to shut down. -/
def isAdmitted (l : Launch) : Bool :=
  match l.stage with
  | .admitted => true
  | _ => l.isStarter

/-- Whether the call has found that forwarding is configured, and has not returned. -/
def isUnderWay (l : Launch) : Bool :=
  match l.stage with
  | .called | .refused _ | .ended _ _ => false
  | _ => true

/-- What a call comes to that waits for a forwarder. The caller's token comes first. -/
def await (s : System) (caller : String) (i : Nat) : Stage :=
  if s.fired.contains caller then .ended i (.error (.cancelled "start_forwarder"))
  else if s.members[i]?.any Member.announced then .ended i (.ok ())
  else if s.members[i]?.any (·.consumer.isOver) then .ended i (.error (.cancelled "start_forwarder"))
  else .waiting i

def next (s : System) (l : Launch) : System × Stage :=
  match s.buses[l.bus]? with
  | none => (s, l.stage)
  | some b =>
    match l.stage with
    | .called => (s, if b.config.forwarderEnabled then .configured else .refused .notConfiguredForForwarding)
    | .configured => (s, if b.isShutDown then .refused .closed else .admitted)
    | .admitted =>
      if b.forwarderStarted then (s, .refused .forwarderAlreadyStarted)
      else (s.modifyBus l.bus fun b => { b with forwarderStarted := true }, .chosen)
    | .chosen => (s.startForwarder l.bus l.caller, .waiting s.members.length)
    | .waiting i => (s, await s l.caller i)
    | stage => (s, stage)

def step (x : System × Launch) : System × Launch := ((x.2.next x.1).1, { x.2 with stage := (x.2.next x.1).2 })

/-- **A call that is not interrupted** starts the forwarder if the bus permits that, and is refused as the bus says
otherwise. -/
theorem uninterrupted {s : System} {bus : Nat} {b : Bus} (hb : s.buses[bus]? = some b) (caller : String) :
    step (step (step (step (s, ⟨bus, caller, .called⟩)))) = match b.permitForwarder with
      | .ok () => ((s.turn (.startForwarder bus caller)).1, ⟨bus, caller, .waiting s.members.length⟩)
      | .error e => ((s.turn (.startForwarder bus caller)).1, ⟨bus, caller, .refused e⟩) := by
  have hturn : (s.turn (.startForwarder bus caller)).1 =
      if b.permitForwarder.isOk then s.startForwarder bus caller else s := by
    show ite (s.buses[bus]?.any _ = true) _ _ = _
    rw [hb, Option.any_some]
  rw [hturn]
  unfold Bus.permitForwarder
  cases henabled : b.config.forwarderEnabled with
  | false => simp [step, next, hb, henabled, Except.isOk, Except.toBool]
  | true =>
    cases hshut : b.isShutDown with
    | true => simp [step, next, hb, henabled, hshut, Except.isOk, Except.toBool]
    | false =>
      cases hstarted : b.forwarderStarted with
      | true => simp [step, next, hb, henabled, hshut, hstarted, Except.isOk, Except.toBool]
      | false =>
        -- the bus is marked as started twice
        have htwice : (s.modifyBus bus fun b => { b with forwarderStarted := true }).startForwarder bus caller =
            s.startForwarder bus caller := by
          unfold System.startForwarder System.modifyBus
          simp only [List.getElem?_modify_eq, hb, List.modify_modify_eq]
          rfl
        have hmarked : (s.modifyBus bus fun b => { b with forwarderStarted := true }).buses[bus]? =
            some { b with forwarderStarted := true } := by
          unfold System.modifyBus
          simp [hb]
        simp only [step, next, hb, henabled, hshut, hstarted, hmarked, htwice, if_true, Bool.not_true,
          Bool.false_eq_true, if_false]
        rfl

variable {s : System} {l : Launch}

theorem of_stage {stage : Stage} (was : l.stage = stage) : l = { l with stage } := by
  subst was
  rfl

/-- What a step of a call is. -/
inductive Steps (s : System) (l : Launch) : System × Stage → Prop
  | stays : Steps s l (s, l.stage)
  | configured {b} (known : s.buses[l.bus]? = some b) (was : l.stage = .called)
      (enabled : b.config.forwarderEnabled = true) : Steps s l (s, .configured)
  | unconfigured {b} (known : s.buses[l.bus]? = some b) (was : l.stage = .called)
      (disabled : b.config.forwarderEnabled = false) : Steps s l (s, .refused .notConfiguredForForwarding)
  | admitted (was : l.stage = .configured) (running : s.isShutDown l.bus = false) : Steps s l (s, .admitted)
  | closed (was : l.stage = .configured) (shut : s.isShutDown l.bus = true) : Steps s l (s, .refused .closed)
  | chosen {b} (known : s.buses[l.bus]? = some b) (was : l.stage = .admitted) (free : b.forwarderStarted = false) :
      Steps s l (s.modifyBus l.bus fun b => { b with forwarderStarted := true }, .chosen)
  | taken {b} (known : s.buses[l.bus]? = some b) (was : l.stage = .admitted) (taken : b.forwarderStarted = true) :
      Steps s l (s, .refused .forwarderAlreadyStarted)
  | starts {b} (known : s.buses[l.bus]? = some b) (was : l.stage = .chosen) :
      Steps s l (s.startForwarder l.bus l.caller, .waiting s.members.length)
  | cancelled {i} (was : l.stage = .waiting i) (fired : l.caller ∈ s.fired) :
      Steps s l (s, .ended i (.error (.cancelled "start_forwarder")))
  | polls {i m} (was : l.stage = .waiting i) (waits : l.caller ∉ s.fired) (member : s.members[i]? = some m)
      (told : m.announced = true) : Steps s l (s, .ended i (.ok ()))
  | died {i m} (was : l.stage = .waiting i) (member : s.members[i]? = some m) (silent : m.announced = false)
      (gone : m.consumer.isOver = true) : Steps s l (s, .ended i (.error (.cancelled "start_forwarder")))

theorem steps_next (s : System) (l : Launch) : Steps s l (l.next s) := by
  unfold next
  split
  case h_1 => exact .stays
  case h_2 b hb =>
    have hshut : s.isShutDown l.bus = b.isShutDown := by
      unfold System.isShutDown
      rw [hb, Option.any_some]
    split
    case h_1 hwas =>
      split
      case isTrue henabled => exact .configured hb hwas henabled
      case isFalse hdisabled => exact .unconfigured hb hwas (Bool.eq_false_iff.2 hdisabled)
    case h_2 hwas =>
      split
      case isTrue hclosed => exact .closed hwas (hshut.trans hclosed)
      case isFalse hrunning => exact .admitted hwas (hshut.trans (Bool.eq_false_iff.2 hrunning))
    case h_3 hwas =>
      split
      case isTrue htaken => exact .taken hb hwas htaken
      case isFalse hfree => exact .chosen hb hwas (Bool.eq_false_iff.2 hfree)
    case h_4 hwas => exact .starts hb hwas
    case h_5 i hwas =>
      unfold await
      split
      case isTrue hfired => exact .cancelled hwas (List.contains_iff_mem.1 hfired)
      case isFalse hwaits =>
        rw [List.contains_iff_mem] at hwaits
        split
        case isTrue htold =>
          obtain ⟨m, hm, htold⟩ := (Option.any_eq_true _ _).1 htold
          exact .polls hwas hwaits hm htold
        case isFalse hsilent =>
          split
          case isTrue hgone =>
            obtain ⟨m, hm, hgone⟩ := (Option.any_eq_true _ _).1 hgone
            rw [hm, Option.any_some, Bool.not_eq_true] at hsilent
            exact .died hwas hm hsilent hgone
          case isFalse => exact hwas ▸ .stays
    case h_6 => exact .stays

/-! ## What a step leaves -/

/-- A call after a step of its own. -/
structure Continues (l l' : Launch) : Prop where
  bus : l'.bus = l.bus
  caller : l'.caller = l.caller
  starter : l.isStarter = true → l'.isStarter = true
  member : ∀ i, l.member? = some i → l'.member? = some i

theorem Continues.refl (l : Launch) : Continues l l := ⟨rfl, rfl, fun h => h, fun _ h => h⟩

theorem Continues.trans {l₁ l₂ l₃ : Launch} (h : Continues l₁ l₂) (h' : Continues l₂ l₃) : Continues l₁ l₃ :=
  ⟨h'.bus.trans h.bus, h'.caller.trans h.caller, h'.starter ∘ h.starter, fun i hi => h'.member i (h.member i hi)⟩

variable {r : System × Stage}

theorem Steps.continues (h : Steps s l r) : Continues l { l with stage := r.2 } := by
  refine ⟨rfl, rfl, fun hstarter => ?_, fun i hmember => ?_⟩
  · cases h with
    | stays => exact hstarter
    | configured _ was | unconfigured _ was | admitted was | closed was | taken _ was =>
      rw [of_stage was] at hstarter
      cases hstarter
    | chosen | starts | cancelled | polls | died => rfl
  · cases h with
    | stays => exact hmember
    | configured _ was | unconfigured _ was | admitted was | closed was | chosen _ was | taken _ was | starts _ was =>
      rw [of_stage was] at hmember
      cases hmember
    | cancelled was | polls was | died was =>
      rw [of_stage was] at hmember
      exact hmember

/-- How many steps are left at most, but for the wait. -/
def Stage.left : Stage → Nat
  | .called => 5
  | .configured => 4
  | .admitted => 3
  | .chosen => 2
  | .waiting _ => 1
  | .refused _ | .ended _ _ => 0

theorem Stage.left_le (stage : Stage) : stage.left ≤ 5 := by
  cases stage <;> simp [left]

/-- A call comes closer to its end by every step; a call that waits does if its token has fired. -/
theorem left_next {b : Bus} (known : s.buses[l.bus]? = some b) (goes : ∀ i, l.stage = .waiting i → l.caller ∈ s.fired) :
    (l.next s).2.left ≤ l.stage.left - 1 := by
  unfold next
  rw [known]
  cases hstage : l.stage with
  | called =>
    show Stage.left (ite _ _ _) ≤ 4
    split <;> decide
  | configured =>
    show Stage.left (ite _ _ _) ≤ 3
    split <;> decide
  | admitted =>
    show Stage.left (ite _ _ _ : System × Stage).2 ≤ 2
    split <;> simp [Stage.left]
  | chosen => exact Nat.le_refl 1
  | waiting i =>
    have hfired : s.fired.contains l.caller = true := List.contains_iff_mem.2 (goes i hstage)
    simp only [await, hfired, if_true]
    exact Nat.le_refl 0
  | refused | ended => exact Nat.le_refl 0

theorem result?_of_left (h : l.stage.left = 0) : ∃ result, l.result? = some result := by
  unfold result?
  cases hstage : l.stage with
  | refused e => exact ⟨_, rfl⟩
  | ended _ result => exact ⟨_, rfl⟩
  | _ =>
    rw [hstage] at h
    cases h

theorem Steps.underWay (h : Steps s l r) (goes : isUnderWay { l with stage := r.2 } = true) :
    l.isUnderWay = true ∨ ∃ b, s.buses[l.bus]? = some b ∧ b.config.forwarderEnabled = true := by
  cases h with
  | stays => exact Or.inl goes
  | configured known _ enabled => exact Or.inr ⟨_, known, enabled⟩
  | admitted was | chosen _ was | starts _ was => exact Or.inl ((congrArg isUnderWay (of_stage was)).trans goes)
  | unconfigured | closed | taken | cancelled | polls | died => cases goes

theorem Steps.polled (h : Steps s l r) (running : l.result? ≠ some (.ok ()))
    (ok : result? { l with stage := r.2 } = some (.ok ())) :
    ∃ i m, l.member? = some i ∧ l.caller ∉ s.fired ∧ s.members[i]? = some m ∧ m.announced = true := by
  cases h with
  | stays => exact absurd ok running
  | polls was waits member told => exact ⟨_, _, congrArg member? (of_stage was), waits, member, told⟩
  | configured | unconfigured | admitted | closed | chosen | taken | starts | cancelled | died => cases ok

theorem Steps.checked (h : Steps s l r) (pending : l.isAdmitted = false)
    (passes : isAdmitted { l with stage := r.2 } = true) : l.stage = .configured ∧ s.isShutDown l.bus = false := by
  cases h with
  | stays => exact absurd passes (Bool.eq_false_iff.1 pending)
  | admitted was running => exact ⟨was, running⟩
  | chosen _ was | starts _ was | cancelled was | polls was | died was =>
    rw [of_stage was] at pending
    cases pending
  | configured | unconfigured | closed | taken => cases passes

/-- A call starts a forwarder, linked to the caller's token. -/
structure Starts (s : System) (l : Launch) (s' : System) (l' : Launch) : Prop where
  starter : l.isStarter = true
  member : l'.member? = some s.members.length
  members : ∃ b : Bus, s'.members = s.members ++ [⟨l.bus, .new b.forwarder 1, false, false⟩]
  links : s'.links = s.links ++ [⟨s.members.length, l.caller, false⟩]

/-- The system and a call after a step of the call. -/
structure Advances (s : System) (l : Launch) (s' : System) (l' : Launch) : Prop where
  continues : Continues l l'
  fired : s'.fired = s.fired
  shut : ∀ bus, s'.isShutDown bus = s.isShutDown bus
  kits : s'.kits = s.kits
  flags : ∀ bus : Nat, s'.buses[bus]?.any Bus.forwarderStarted = true ↔
    s.buses[bus]?.any Bus.forwarderStarted = true ∨ bus = l.bus ∧ l'.isStarter = true
  free : l'.isStarter = true → l.isStarter = true ∨ s.buses[l.bus]?.any Bus.forwarderStarted = false
  tasks : (l'.member? = l.member? ∧ s'.members = s.members ∧ s'.links = s.links) ∨ Starts s l s' l'

theorem isShutDown_marked (s : System) (bus i : Nat) :
    (s.modifyBus bus fun b => { b with forwarderStarted := true }).isShutDown i = s.isShutDown i := by
  unfold System.isShutDown System.modifyBus
  rw [List.getElem?_modify]
  cases s.buses[i]? with
  | none => rfl
  | some b =>
    by_cases hi : bus = i
    · simp [hi, Bus.isShutDown]
    · simp [hi]

theorem kits_marked (s : System) (bus : Nat) :
    (s.modifyBus bus fun b => { b with forwarderStarted := true }).kits = s.kits :=
  System.map_modify_of_eq (f := Bus.kit) (g := fun b => { b with forwarderStarted := true }) (fun _ => rfl) s.buses bus

theorem started_marked (hb : ∃ b, s.buses[l.bus]? = some b) (bus : Nat) :
    (s.modifyBus l.bus fun b => { b with forwarderStarted := true }).buses[bus]?.any Bus.forwarderStarted = true ↔
      s.buses[bus]?.any Bus.forwarderStarted = true ∨ bus = l.bus := by
  obtain ⟨b, hb⟩ := hb
  unfold System.modifyBus
  rw [List.getElem?_modify]
  by_cases hi : l.bus = bus
  · subst hi
    simp [hb]
  · simp [hi, Ne.symm hi]

theorem Advances.alone {l' : Launch} (continues : Continues l l') (starter : l'.isStarter = l.isStarter)
    (member : l'.member? = l.member?)
    (started : l.isStarter = true → s.buses[l.bus]?.any Bus.forwarderStarted = true) : Advances s l s l' where
  continues := continues
  fired := rfl
  shut _ := rfl
  kits := rfl
  flags bus := by
    refine ⟨Or.inl, ?_⟩
    rintro (hstarted | ⟨rfl, hstarter⟩)
    · exact hstarted
    · exact started (starter ▸ hstarter)
  free hstarter := Or.inl (starter ▸ hstarter)
  tasks := Or.inl ⟨member, rfl, rfl⟩

theorem Steps.advances (h : Steps s l r)
    (started : l.isStarter = true → s.buses[l.bus]?.any Bus.forwarderStarted = true) :
    Advances s l r.1 { l with stage := r.2 } := by
  have hcontinues := h.continues
  cases h with
  | stays => exact .alone hcontinues rfl rfl started
  | configured _ was | unconfigured _ was | admitted was | closed was | taken _ was | cancelled was | polls was
  | died was =>
    exact .alone hcontinues (congrArg isStarter (of_stage was)).symm (congrArg member? (of_stage was)).symm started
  | chosen known was free =>
    refine ⟨hcontinues, rfl, isShutDown_marked s l.bus, kits_marked s l.bus, fun bus => ?_, fun _ => ?_,
      Or.inl ⟨?_, rfl, rfl⟩⟩
    · rw [started_marked ⟨_, known⟩]
      exact or_congr_right ⟨fun h => ⟨h, rfl⟩, And.left⟩
    · rw [known, Option.any_some]
      exact Or.inr free
    · exact (congrArg member? (of_stage was)).symm
  | starts known was =>
    have hstarter : l.isStarter = true := congrArg isStarter (of_stage was)
    have hbuses : (s.startForwarder l.bus l.caller).buses =
        (s.modifyBus l.bus fun b => { b with forwarderStarted := true }).buses := by
      unfold System.startForwarder
      rw [known]
      rfl
    have hrest : (s.startForwarder l.bus l.caller).fired = s.fired ∧
        Starts s l (s.startForwarder l.bus l.caller) { l with stage := .waiting s.members.length } := by
      unfold System.startForwarder
      rw [known]
      exact ⟨rfl, hstarter, rfl, ⟨_, rfl⟩, rfl⟩
    have hkits := System.kits_startForwarder s l.bus l.caller
    refine ⟨hcontinues, hrest.1, fun bus => ?_, hkits, fun bus => ?_, fun _ => Or.inl hstarter, Or.inr hrest.2⟩
    · rw [← isShutDown_marked s l.bus bus]
      unfold System.isShutDown
      rw [hbuses]
    · rw [hbuses, started_marked ⟨_, known⟩]
      exact or_congr_right ⟨fun h => ⟨h, rfl⟩, And.left⟩

namespace Advances

variable {s' : System} {l' : Launch}

/-- A member afterwards was there before, or is the forwarder that the call has started. -/
theorem member_before (h : Advances s l s' l') {i : Nat} {m : Member} (hm : s'.members[i]? = some m) :
    s.members[i]? = some m ∨
      Starts s l s' l' ∧ i = s.members.length ∧ ∃ b : Bus, m = ⟨l.bus, .new b.forwarder 1, false, false⟩ := by
  rcases h.tasks with ⟨-, hmembers, -⟩ | hstarts
  · exact Or.inl (hmembers ▸ hm)
  · obtain ⟨b, hmembers⟩ := hstarts.members
    rw [hmembers, List.getElem?_append] at hm
    split at hm
    · exact Or.inl hm
    case isFalse hi =>
      obtain ⟨hbound, -⟩ := List.getElem?_eq_some_iff.1 hm
      rw [List.length_singleton] at hbound
      exact Or.inr ⟨hstarts, by omega, b, List.mem_singleton.1 (List.mem_of_getElem? hm)⟩

theorem member_after (h : Advances s l s' l') {i : Nat} {m : Member} (hm : s.members[i]? = some m) :
    s'.members[i]? = some m := by
  rcases h.tasks with ⟨-, hmembers, -⟩ | hstarts
  · exact hmembers ▸ hm
  · obtain ⟨b, hmembers⟩ := hstarts.members
    rw [hmembers, List.getElem?_append_left (List.getElem?_eq_some_iff.1 hm).1, hm]

theorem link_after (h : Advances s l s' l') {k : Link} (hk : k ∈ s.links) : k ∈ s'.links := by
  rcases h.tasks with ⟨-, -, hlinks⟩ | hstarts
  · exact hlinks ▸ hk
  · exact hstarts.links ▸ List.mem_append_left _ hk

theorem abandoned (h : Advances s l s' l') {i : Nat} (abandoned : s.IsAbandoned i) : s'.IsAbandoned i := by
  obtain ⟨k, hk, hmember, hfired⟩ := abandoned
  exact ⟨k, h.link_after hk, hmember, h.fired.symm ▸ hfired⟩

theorem isCancelled (h : Advances s l s' l') (m : Member) : s'.isCancelled m = s.isCancelled m := by
  unfold System.isCancelled
  rw [h.shut]

theorem config (h : Advances s l s' l') {bus : Nat} {b : Bus} (hb : s.buses[bus]? = some b) :
    ∃ b', s'.buses[bus]? = some b' ∧ b'.config = b.config := by
  have hkits := congrArg (·[bus]?) h.kits
  unfold System.kits at hkits
  simp only [List.getElem?_map, hb] at hkits
  obtain ⟨b', hb', heq⟩ := Option.map_eq_some_iff.1 hkits
  exact ⟨b', hb', congrArg (·.1) heq⟩

end Advances

theorem getElem?_set_cases {ls : List Launch} {n k : Nat} {l' l₁ : Launch} (hl : ls[n]? = some l)
    (hl₁ : (ls.set n l')[k]? = some l₁) : (k = n ∧ l₁ = l') ∨ (k ≠ n ∧ ls[k]? = some l₁) := by
  rw [List.getElem?_set] at hl₁
  split at hl₁
  case isTrue hk =>
    rw [if_pos (List.getElem?_eq_some_iff.1 hl).1] at hl₁
    exact Or.inl ⟨hk.symm, (Option.some.inj hl₁).symm⟩
  case isFalse hk => exact Or.inr ⟨Ne.symm hk, hl₁⟩

theorem Continues.set {ls : List Launch} {n k : Nat} {l' l₀ : Launch} (h : Continues l l') (hl : ls[n]? = some l)
    (hl₀ : ls[k]? = some l₀) : ∃ l₁, (ls.set n l')[k]? = some l₁ ∧ Continues l₀ l₁ := by
  by_cases hk : k = n
  · subst hk
    obtain rfl := Option.some.inj (hl.symm.trans hl₀)
    exact ⟨l', List.getElem?_set_self (List.getElem?_eq_some_iff.1 hl).1, h⟩
  · exact ⟨l₀, by rw [List.getElem?_set_ne (Ne.symm hk), hl₀], .refl l₀⟩

end Launch

end DurableBus
