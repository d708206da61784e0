import DurableBus.Proofs.System.Launch
import Mathlib.Data.List.Infix

/-!
# Starting the forwarder

Several callers may start the forwarder of a bus at once, while the bus shuts down and tokens fire. `Launching` is a
system with its calls, and a run is any list of moves.

* `Sound`, `Sound.move` : who has started a forwarder, and which link stops it;
* `passed`, `announced_run` : the moments at which a call has passed a check, and at which a forwarder has told that it
  polls;
* `TooLate`, `late_run` : a call that comes too late is refused soon;
* `Polled`, `Overtaken`, `polled_of_ok` : a call that returns `Ok` has a forwarder that polls, or has been overtaken;
* `launches_told` : what calls that start the forwarder come to.
-/

set_option autoImplicit false

namespace DurableBus

/-- A system with the calls that start forwarders. -/
structure Launching where
  system : System
  launches : List Launch

namespace Launching

/-- What may happen: somebody calls a bus that there is, a call takes a step, or something else occurs. Forwarders are
started by calls only. -/
inductive Move
  | calls (bus : Nat) (caller : String)
  | proceeds (n : Nat)
  | occurs (e : System.Event)

def move (x : Launching) : Move → Launching
  | .calls bus caller =>
    if bus < x.system.buses.length then { x with launches := x.launches ++ [⟨bus, caller, .called⟩] } else x
  | .proceeds n =>
    match x.launches[n]? with
    | some l => ⟨(Launch.step (x.system, l)).1, x.launches.set n (Launch.step (x.system, l)).2⟩
    | none => x
  | .occurs e => if e.startsForwarder then x else { x with system := (x.system.occur e).1 }

def Move.isStepOf (n : Nat) : Move → Bool
  | .proceeds k => k == n
  | _ => false

def empty : Launching := ⟨.start, []⟩

/-- The system and its calls after a run. -/
def run (moves : List Move) : Launching := moves.foldl move empty

theorem run_concat (moves : List Move) (m : Move) : run (moves ++ [m]) = (run moves).move m := by
  unfold run
  rw [List.foldl_append]
  rfl

variable {x : Launching} {n : Nat} {l : Launch} {moves : List Move}

/-! ## What stays -/

theorem launch_move {m : Move} (hl : (x.move m).launches[n]? = some l) :
    (∃ l₀, x.launches[n]? = some l₀ ∧ (l = l₀ ∨ m = .proceeds n ∧ l = (Launch.step (x.system, l₀)).2)) ∨
      x.launches[n]? = none ∧ ∃ bus caller, m = .calls bus caller ∧ l = ⟨bus, caller, .called⟩ := by
  cases m with
  | calls bus caller =>
    unfold move at hl
    simp only at hl
    split at hl
    case isTrue =>
      simp only at hl
      rw [List.getElem?_append] at hl
      split at hl
      · exact Or.inl ⟨l, hl, Or.inl rfl⟩
      case isFalse hn =>
        exact Or.inr ⟨List.getElem?_eq_none (Nat.not_lt.1 hn), bus, caller, rfl,
          List.mem_singleton.1 (List.mem_of_getElem? hl)⟩
    case isFalse => exact Or.inl ⟨l, hl, Or.inl rfl⟩
  | proceeds n' =>
    unfold move at hl
    simp only at hl
    split at hl
    case h_1 l' hl' =>
      rw [List.getElem?_set] at hl
      split at hl
      case isTrue hn =>
        subst hn
        rw [if_pos (List.getElem?_eq_some_iff.1 hl').1] at hl
        exact Or.inl ⟨l', hl', Or.inr ⟨rfl, (Option.some.inj hl).symm⟩⟩
      case isFalse => exact Or.inl ⟨l, hl, Or.inl rfl⟩
    case h_2 => exact Or.inl ⟨l, hl, Or.inl rfl⟩
  | occurs e =>
    unfold move at hl
    simp only at hl
    split at hl <;> exact Or.inl ⟨l, hl, Or.inl rfl⟩

/-- **The moment at which a call has passed.** What holds of a call, and did not at some moment before, has come about
by a step of the call in between. -/
theorem passed {P : Launch → Prop} (calls : ∀ bus caller, ¬ P ⟨bus, caller, .called⟩) (before : List Move)
    {after : List Move} (not_yet : ∀ l₀, (run before).launches[n]? = some l₀ → ¬ P l₀)
    (hl : (run (before ++ after)).launches[n]? = some l) (now : P l) :
    ∃ between rest l₀, after = between ++ .proceeds n :: rest ∧
      (run (before ++ between)).launches[n]? = some l₀ ∧ l₀.bus = l.bus ∧ l₀.caller = l.caller ∧ ¬ P l₀ ∧
      P (Launch.step ((run (before ++ between)).system, l₀)).2 := by
  induction after using List.reverseRecOn generalizing l with
  | nil =>
    rw [List.append_nil] at hl
    exact absurd now (not_yet l hl)
  | append_singleton after m ih =>
    rw [← List.append_assoc, run_concat] at hl
    -- the call had passed before, and what was said of it then still stands
    have hearlier : ∀ l₀, (run (before ++ after)).launches[n]? = some l₀ → P l₀ → l₀.bus = l.bus →
        l₀.caller = l.caller → ∃ between rest l₁, after ++ [m] = between ++ .proceeds n :: rest ∧
          (run (before ++ between)).launches[n]? = some l₁ ∧ l₁.bus = l.bus ∧ l₁.caller = l.caller ∧ ¬ P l₁ ∧
          P (Launch.step ((run (before ++ between)).system, l₁)).2 := by
      intro l₀ hl₀ hnow hbus hcaller
      obtain ⟨between, rest, l₁, rfl, hl₁, hbus₁, hcaller₁, hpasses⟩ := ih hl₀ hnow
      exact ⟨between, rest ++ [m], l₁, by simp, hl₁, hbus₁.trans hbus, hcaller₁.trans hcaller, hpasses⟩
    rcases launch_move hl with ⟨l₀, hl₀, rfl | ⟨rfl, rfl⟩⟩ | ⟨-, bus, caller, -, rfl⟩
    · exact hearlier l hl₀ now rfl rfl
    · by_cases hnow : P l₀
      · exact hearlier l₀ hl₀ hnow rfl rfl
      · exact ⟨after, [], l₀, rfl, hl₀, rfl, rfl, hnow, now⟩
    · exact absurd now (calls bus caller)

/-! ## What always holds -/

/-- What holds whenever forwarders are started: each bus has one call at most that starts its forwarder, each forwarder
is that of such a call, and only the link to the caller's token stops it. -/
structure Sound (x : Launching) : Prop where
  known : ∀ (n : Nat) l, x.launches[n]? = some l →
    ∃ b, x.system.buses[l.bus]? = some b ∧ (l.isUnderWay = true → b.config.forwarderEnabled = true)
  single : ∀ (n n' : Nat) l l', x.launches[n]? = some l → x.launches[n']? = some l' → l.isStarter = true →
    l'.isStarter = true → l'.bus = l.bus → n' = n
  flags : ∀ bus : Nat, x.system.buses[bus]?.any Bus.forwarderStarted = true ↔
    ∃ (n : Nat) (l : Launch), x.launches[n]? = some l ∧ l.bus = bus ∧ l.isStarter = true
  owned : ∀ (i : Nat) m, x.system.members[i]? = some m → m.consumer.setup.role = .forwarder →
    ∃ (n : Nat) (l : Launch), x.launches[n]? = some l ∧ l.bus = m.bus ∧ l.member? = some i
  serves : ∀ (n : Nat) l i, x.launches[n]? = some l → l.member? = some i →
    ∃ m, x.system.members[i]? = some m ∧ m.bus = l.bus ∧ m.consumer.setup.role = .forwarder
  linked : ∀ k ∈ x.system.links,
    ∃ (n : Nat) (l : Launch), x.launches[n]? = some l ∧ l.member? = some k.member ∧ l.caller = k.caller
  stopped : ∀ (i : Nat) m, x.system.members[i]? = some m → m.stopped = true → x.system.IsAbandoned i
  loops : ∀ (i : Nat) m, x.system.members[i]? = some m → (x.system.loop m).Sound

theorem sound_empty : Sound empty where
  known n l hl := by cases hl
  single n n' l l' hl := by cases hl
  flags bus := by
    constructor
    · intro h
      cases h
    · rintro ⟨n, l, hl, -⟩
      cases hl
  owned i m hm := by cases hm
  serves n l i hl := by cases hl
  linked k hk := by cases hk
  stopped i m hm := by cases hm
  loops i m hm := by cases hm

theorem isStarter_of_member? {i : Nat} (h : l.member? = some i) : l.isStarter = true := by
  unfold Launch.member? at h
  unfold Launch.isStarter
  split at h
  · rename_i hstage
    rw [hstage]
  · rename_i hstage
    rw [hstage]
  · cases h

/-- Two calls do not share a forwarder. -/
theorem Sound.same (sound : Sound x) {n n' i : Nat} {l l' : Launch} (hl : x.launches[n]? = some l)
    (hl' : x.launches[n']? = some l') (member : l.member? = some i) (member' : l'.member? = some i) :
    n' = n ∧ l' = l := by
  obtain ⟨m, hm, hbus, -⟩ := sound.serves n l i hl member
  obtain ⟨m', hm', hbus', -⟩ := sound.serves n' l' i hl' member'
  obtain rfl := Option.some.inj (hm.symm.trans hm')
  have hn := sound.single n n' l l' hl hl' (isStarter_of_member? member) (isStarter_of_member? member')
    (hbus'.symm.trans hbus)
  subst hn
  exact ⟨rfl, Option.some.inj (hl'.symm.trans hl)⟩

theorem Sound.calls (sound : Sound x) {bus : Nat} (caller : String) (hbus : bus < x.system.buses.length) :
    Sound { x with launches := x.launches ++ [⟨bus, caller, .called⟩] } := by
  have hold : ∀ (n : Nat) l, (x.launches ++ [⟨bus, caller, .called⟩])[n]? = some l →
      x.launches[n]? = some l ∨ l = ⟨bus, caller, .called⟩ := by
    intro n l hl
    rw [List.getElem?_append] at hl
    split at hl
    · exact Or.inl hl
    · exact Or.inr (List.mem_singleton.1 (List.mem_of_getElem? hl))
  have hnew : ∀ (n : Nat) l, x.launches[n]? = some l → (x.launches ++ [⟨bus, caller, .called⟩])[n]? = some l :=
    fun n l hl => (List.getElem?_append_left (List.getElem?_eq_some_iff.1 hl).1).trans hl
  refine ⟨?known, ?single, ?flags, ?owned, ?serves, ?linked, sound.stopped, sound.loops⟩
  case known =>
    intro n l hl
    rcases hold n l hl with hl | rfl
    · exact sound.known n l hl
    · exact ⟨_, List.getElem?_eq_getElem hbus, fun h => by cases h⟩
  case single =>
    intro n n' l l' hl hl' hstarter hstarter'
    rcases hold n l hl with hl | rfl
    · rcases hold n' l' hl' with hl' | rfl
      · exact sound.single n n' l l' hl hl' hstarter hstarter'
      · cases hstarter'
    · cases hstarter
  case flags =>
    intro i
    refine (sound.flags i).trans ⟨?_, ?_⟩
    · rintro ⟨n, l, hl, h⟩
      exact ⟨n, l, hnew n l hl, h⟩
    · rintro ⟨n, l, hl, h⟩
      rcases hold n l hl with hl | rfl
      · exact ⟨n, l, hl, h⟩
      · cases h.2
  case owned =>
    intro i m hm hrole
    obtain ⟨n, l, hl, h⟩ := sound.owned i m hm hrole
    exact ⟨n, l, hnew n l hl, h⟩
  case serves =>
    intro n l i hl hmember
    rcases hold n l hl with hl | rfl
    · exact sound.serves n l i hl hmember
    · cases hmember
  case linked =>
    intro k hk
    obtain ⟨n, l, hl, h⟩ := sound.linked k hk
    exact ⟨n, l, hnew n l hl, h⟩

theorem Sound.occurs (sound : Sound x) {e : System.Event} (starts : e.startsForwarder = false) :
    Sound { x with system := (x.system.occur e).1 } := by
  have hsignals := System.signals_occur x.system starts
  have hnew : ∀ {setup : Consumer.Setup}, System.Joins x.system e setup → setup.role ≠ .forwarder := by
    intro setup hjoins
    cases hjoins with
    | named | broadcast => exact fun h => by cases h
    | forwarder permitted => rcases permitted with rfl | rfl <;> cases starts
  refine ⟨?known, sound.single, ?flags, ?owned, ?serves, ?linked, ?stopped, ?loops⟩
  case known =>
    intro n l hl
    obtain ⟨b, hb, henabled⟩ := sound.known n l hl
    obtain ⟨b', hb', hkit⟩ := System.kit_occur hb e
    exact ⟨b', hb', (congrArg (·.1) hkit : b'.config = b.config) ▸ henabled⟩
  case flags =>
    intro bus
    rw [hsignals.flags bus]
    exact sound.flags bus
  case owned =>
    intro i m' hm' hrole
    rcases System.old_or_new hm' with ⟨m, hm, hsucceeds⟩ | ⟨-, hjoins, -⟩
    · rw [hsucceeds.bus]
      exact sound.owned i m hm (hsucceeds.setup ▸ hrole)
    · exact absurd hrole (hnew hjoins)
  case serves =>
    intro n l i hl hmember
    obtain ⟨m, hm, hbus, hrole⟩ := sound.serves n l i hl hmember
    obtain ⟨m', hm', hsucceeds⟩ := (System.recasts_occur x.system e).old i m hm
    exact ⟨m', hm', hsucceeds.bus.trans hbus, hsucceeds.setup ▸ hrole⟩
  case linked =>
    intro k' hk'
    have hpair : (k'.member, k'.caller) ∈ x.system.links.map fun k => (k.member, k.caller) :=
      hsignals.links ▸ List.mem_map_of_mem (f := fun k : Link => (k.member, k.caller)) hk'
    obtain ⟨k, hk, heq⟩ := List.mem_map.1 hpair
    obtain ⟨hmember, hcaller⟩ := Prod.mk.inj heq
    obtain ⟨n, l, hl, hmember', hcaller'⟩ := sound.linked k hk
    exact ⟨n, l, hl, hmember ▸ hmember', hcaller'.trans hcaller⟩
  case stopped =>
    intro i m' hm' hstopped
    rcases hsignals.members i m' hm' with ⟨m, hm, hsigns⟩ | ⟨hrunning, -⟩
    · refine hsignals.abandoned ?_
      rcases hsigns.stopped hstopped with hwas | habandoned
      · exact sound.stopped i m hm hwas
      · exact habandoned
    · rw [hrunning] at hstopped
      cases hstopped
  case loops =>
    intro i m' hm'
    rcases System.old_or_new hm' with ⟨m, hm, hsucceeds⟩ | ⟨-, -, hstarts⟩
    · have hloop := sound.loops i m hm
      rcases hsucceeds.phase with hstays | ⟨b, hdrives, hmoves⟩
      · exact hloop.congr hsucceeds.setup hstays hsucceeds.cancelled
      · have hsetup := hsucceeds.setup.trans (Loop.setup_step (x.system.loop m) b).symm
        refine (hloop.step b).congr hsetup hmoves fun hfired => ?_
        exact hsucceeds.cancelled (hdrives.fired.symm.trans hfired)
    · exact Loop.sound_of_starting hstarts

theorem Sound.advances (sound : Sound x) (hl : x.launches[n]? = some l) :
    Launch.Advances x.system l (Launch.step (x.system, l)).1 (Launch.step (x.system, l)).2 :=
  (Launch.steps_next x.system l).advances fun hstarter => (sound.flags l.bus).2 ⟨n, l, hl, rfl, hstarter⟩

/-- A call takes a step. -/
theorem Sound.proceeds (sound : Sound x) (hl : x.launches[n]? = some l) :
    Sound ⟨(Launch.step (x.system, l)).1, x.launches.set n (Launch.step (x.system, l)).2⟩ := by
  have hadvances := sound.advances hl
  have hunderWay := (Launch.steps_next x.system l).underWay
  change (Launch.step (x.system, l)).2.isUnderWay = true → _ at hunderWay
  generalize (Launch.step (x.system, l)).1 = s' at hadvances ⊢
  generalize (Launch.step (x.system, l)).2 = l' at hadvances hunderWay ⊢
  have hself : (x.launches.set n l')[n]? = some l' := List.getElem?_set_self (List.getElem?_eq_some_iff.1 hl).1
  have hcontinues := hadvances.continues
  refine ⟨?known, ?single, ?flags, ?owned, ?serves, ?linked, ?stopped, ?loops⟩
  case known =>
    intro k l₁ hl₁
    rcases Launch.getElem?_set_cases hl hl₁ with ⟨rfl, rfl⟩ | ⟨-, hwas⟩
    · obtain ⟨b, hb, henabled⟩ := sound.known k l hl
      obtain ⟨b', hb', hconfig⟩ := hadvances.config hb
      refine ⟨b', hcontinues.bus ▸ hb', fun hgoing => ?_⟩
      rw [hconfig]
      rcases hunderWay hgoing with hwas | ⟨b₀, hb₀, henabled₀⟩
      · exact henabled hwas
      · exact Option.some.inj (hb₀.symm.trans hb) ▸ henabled₀
    · obtain ⟨b, hb, henabled⟩ := sound.known k l₁ hwas
      obtain ⟨b', hb', hconfig⟩ := hadvances.config hb
      exact ⟨b', hb', hconfig ▸ henabled⟩
  case single =>
    -- had another call started the forwarder of the bus, this one would not start it
    have hother : ∀ {k : Nat} {l₁ : Launch}, k ≠ n → x.launches[k]? = some l₁ → l₁.isStarter = true →
        l'.isStarter = true → l₁.bus ≠ l.bus := by
      intro k l₁ hk hl₁ hstarter hstarter' hbus
      rcases hadvances.free hstarter' with hwas | hfree
      · exact hk (sound.single n k l l₁ hl hl₁ hwas hstarter hbus)
      · rw [(sound.flags l.bus).2 ⟨k, l₁, hl₁, hbus, hstarter⟩] at hfree
        cases hfree
    intro k k' l₁ l₂ hl₁ hl₂ hstarter₁ hstarter₂ hbus
    rcases Launch.getElem?_set_cases hl hl₁ with ⟨rfl, rfl⟩ | ⟨hk, hwas₁⟩
    · rcases Launch.getElem?_set_cases hl hl₂ with ⟨rfl, -⟩ | ⟨hk', hwas₂⟩
      · rfl
      · exact absurd (hbus.trans hcontinues.bus) (hother hk' hwas₂ hstarter₂ hstarter₁)
    · rcases Launch.getElem?_set_cases hl hl₂ with ⟨rfl, rfl⟩ | ⟨-, hwas₂⟩
      · exact absurd (hbus.symm.trans hcontinues.bus) (hother hk hwas₁ hstarter₁ hstarter₂)
      · exact sound.single k k' l₁ l₂ hwas₁ hwas₂ hstarter₁ hstarter₂ hbus
  case flags =>
    intro bus
    rw [hadvances.flags bus, sound.flags bus]
    constructor
    · rintro (⟨k, l₀, hl₀, hbus, hstarter⟩ | ⟨rfl, hstarter⟩)
      · obtain ⟨l₁, hl₁, hgoes⟩ := hcontinues.set hl hl₀
        exact ⟨k, l₁, hl₁, hgoes.bus.trans hbus, hgoes.starter hstarter⟩
      · exact ⟨n, l', hself, hcontinues.bus, hstarter⟩
    · rintro ⟨k, l₁, hl₁, hbus, hstarter⟩
      rcases Launch.getElem?_set_cases hl hl₁ with ⟨rfl, rfl⟩ | ⟨-, hwas⟩
      · exact Or.inr ⟨hbus.symm.trans hcontinues.bus, hstarter⟩
      · exact Or.inl ⟨k, l₁, hwas, hbus, hstarter⟩
  case owned =>
    intro i m hm hrole
    rcases hadvances.member_before hm with hm | ⟨hstarts, rfl, b, rfl⟩
    · obtain ⟨k, l₀, hl₀, hbus, hmember⟩ := sound.owned i m hm hrole
      obtain ⟨l₁, hl₁, hgoes⟩ := hcontinues.set hl hl₀
      exact ⟨k, l₁, hl₁, hgoes.bus.trans hbus, hgoes.member i hmember⟩
    · exact ⟨n, l', hself, hcontinues.bus, hstarts.member⟩
  case serves =>
    intro k l₁ i hl₁ hmember
    have hserves : ∀ {l₀ : Launch}, x.launches[k]? = some l₀ → l₀.member? = some i →
        ∃ m, s'.members[i]? = some m ∧ m.bus = l₀.bus ∧ m.consumer.setup.role = .forwarder := by
      intro l₀ hl₀ hmember₀
      obtain ⟨m, hm, h⟩ := sound.serves k l₀ i hl₀ hmember₀
      exact ⟨m, hadvances.member_after hm, h⟩
    rcases Launch.getElem?_set_cases hl hl₁ with ⟨rfl, rfl⟩ | ⟨-, hwas⟩
    · rw [hcontinues.bus]
      rcases hadvances.tasks with ⟨hsame, -, -⟩ | hstarts
      · exact hserves hl (hsame ▸ hmember)
      · obtain ⟨b, hmembers⟩ := hstarts.members
        obtain rfl := Option.some.inj (hstarts.member.symm.trans hmember)
        exact ⟨_, by rw [hmembers, List.getElem?_concat_length], rfl, rfl⟩
    · exact hserves hwas hmember
  case linked =>
    have hlinked : ∀ k ∈ x.system.links, ∃ (j : Nat) (l₁ : Launch), (x.launches.set n l')[j]? = some l₁ ∧
        l₁.member? = some k.member ∧ l₁.caller = k.caller := by
      intro k hk
      obtain ⟨j, l₀, hl₀, hmember, hcaller⟩ := sound.linked k hk
      obtain ⟨l₁, hl₁, hgoes⟩ := hcontinues.set hl hl₀
      exact ⟨j, l₁, hl₁, hgoes.member _ hmember, hgoes.caller.trans hcaller⟩
    intro k hk
    rcases hadvances.tasks with ⟨-, -, hsame⟩ | hstarts
    · exact hlinked k (hsame ▸ hk)
    · rcases List.mem_append.1 (hstarts.links ▸ hk) with hk | hk
      · exact hlinked k hk
      · rw [List.mem_singleton.1 hk]
        exact ⟨n, l', hself, hstarts.member, hcontinues.caller⟩
  case stopped =>
    intro i m hm hstopped
    rcases hadvances.member_before hm with hm | ⟨-, -, b, rfl⟩
    · exact hadvances.abandoned (sound.stopped i m hm hstopped)
    · cases hstopped
  case loops =>
    intro i m hm
    rcases hadvances.member_before hm with hm | ⟨-, -, b, rfl⟩
    · exact (sound.loops i m hm).congr rfl rfl fun hfired => (hadvances.isCancelled m).trans hfired
    · exact Loop.sound_of_starting rfl

/-- **Every move keeps** what holds whenever forwarders are started. -/
theorem Sound.move (sound : Sound x) (m : Move) : Sound (x.move m) := by
  cases m with
  | calls bus caller =>
    show Sound (ite _ _ _)
    split
    case isTrue hbus => exact sound.calls caller hbus
    case isFalse => exact sound
  | proceeds n =>
    show Sound (match x.launches[n]? with | some l => _ | none => x)
    split
    case h_1 hl => exact sound.proceeds hl
    case h_2 => exact sound
  | occurs e =>
    show Sound (ite _ _ _)
    split
    case isTrue => exact sound
    case isFalse hstarts => exact sound.occurs (Bool.eq_false_iff.2 hstarts)

theorem sound_run (moves : List Move) : Sound (run moves) := by
  induction moves using List.reverseRecOn with
  | nil => exact sound_empty
  | append_singleton moves m ih =>
    rw [run_concat]
    exact ih.move m

/-! ## What stays -/

/-- What later moves leave. -/
structure Grows (x x' : Launching) : Prop where
  fired : x.system.fired ⊆ x'.system.fired
  shut : ∀ bus, x.system.isShutDown bus = true → x'.system.isShutDown bus = true
  abandoned : ∀ i, x.system.IsAbandoned i → x'.system.IsAbandoned i
  members : ∀ (i : Nat) m, x.system.members[i]? = some m →
    ∃ m', x'.system.members[i]? = some m' ∧ m'.bus = m.bus ∧ m'.consumer.setup = m.consumer.setup
  launches : ∀ (n : Nat) l, x.launches[n]? = some l → ∃ l', x'.launches[n]? = some l' ∧ Launch.Continues l l'

theorem Grows.refl (x : Launching) : Grows x x :=
  ⟨List.Subset.refl _, fun _ h => h, fun _ h => h, fun _ m hm => ⟨m, hm, rfl, rfl⟩, fun _ l hl => ⟨l, hl, .refl l⟩⟩

theorem Grows.trans {x₁ x₂ x₃ : Launching} (h : Grows x₁ x₂) (h' : Grows x₂ x₃) : Grows x₁ x₃ where
  fired := List.Subset.trans h.fired h'.fired
  shut bus hshut := h'.shut bus (h.shut bus hshut)
  abandoned i habandoned := h'.abandoned i (h.abandoned i habandoned)
  members i m hm := by
    obtain ⟨m₂, hm₂, hbus, hsetup⟩ := h.members i m hm
    obtain ⟨m₃, hm₃, hbus', hsetup'⟩ := h'.members i m₂ hm₂
    exact ⟨m₃, hm₃, hbus'.trans hbus, hsetup'.trans hsetup⟩
  launches n l hl := by
    obtain ⟨l₂, hl₂, hcontinues⟩ := h.launches n l hl
    obtain ⟨l₃, hl₃, hcontinues'⟩ := h'.launches n l₂ hl₂
    exact ⟨l₃, hl₃, hcontinues.trans hcontinues'⟩

theorem Sound.grows (sound : Sound x) (m : Move) : Grows x (x.move m) := by
  cases m with
  | calls bus caller =>
    show Grows x (ite _ _ _)
    split
    case isTrue =>
      refine { Grows.refl x with launches := fun n l hl => ⟨l, ?_, .refl l⟩ }
      exact (List.getElem?_append_left (List.getElem?_eq_some_iff.1 hl).1).trans hl
    case isFalse => exact .refl x
  | proceeds n =>
    show Grows x (match x.launches[n]? with | some l => _ | none => x)
    split
    case h_1 l hl =>
      have hadvances := sound.advances hl
      exact ⟨hadvances.fired ▸ List.Subset.refl _, fun bus hshut => (hadvances.shut bus).trans hshut,
        fun i => hadvances.abandoned, fun i m hm => ⟨m, hadvances.member_after hm, rfl, rfl⟩,
        fun k l₀ hl₀ => hadvances.continues.set hl hl₀⟩
    case h_2 => exact .refl x
  | occurs e =>
    show Grows x (ite _ _ _)
    split
    case isTrue => exact .refl x
    case isFalse hstarts =>
      have hsignals := System.signals_occur x.system (Bool.eq_false_iff.2 hstarts)
      refine ⟨hsignals.fired, fun bus hshut => System.isShutDown_occur hshut e, fun i => hsignals.abandoned,
        fun i m hm => ?_, fun n l hl => ⟨l, hl, .refl l⟩⟩
      obtain ⟨m', hm', hsucceeds⟩ := (System.recasts_occur x.system e).old i m hm
      exact ⟨m', hm', hsucceeds.bus, hsucceeds.setup⟩

theorem grows_run (before after : List Move) : Grows (run before) (run (before ++ after)) := by
  induction after using List.reverseRecOn with
  | nil =>
    rw [List.append_nil]
    exact .refl _
  | append_singleton after m ih =>
    rw [← List.append_assoc, run_concat]
    exact ih.trans ((sound_run _).grows m)

/-- **The moment at which a forwarder has told** that it polls. -/
theorem announced_run {moves : List Move} {i : Nat} {m : Member} (hm : (run moves).system.members[i]? = some m)
    (told : m.announced = true) : ∃ before after, moves = before ++ .occurs (.turn (.look i)) :: after ∧
      .ready ∈ ((run before).system.look i).2 := by
  induction moves using List.reverseRecOn generalizing m with
  | nil => cases hm
  | append_singleton moves step ih =>
    rw [run_concat] at hm
    -- it had told before
    have hearlier : ∀ m₀, (run moves).system.members[i]? = some m₀ → m₀.announced = true →
        ∃ before after, moves ++ [step] = before ++ .occurs (.turn (.look i)) :: after ∧
          .ready ∈ ((run before).system.look i).2 := by
      intro m₀ hm₀ htold
      obtain ⟨before, after, heq, hready⟩ := ih hm₀ htold
      exact ⟨before, after ++ [step], by rw [heq, List.append_assoc, List.cons_append], hready⟩
    cases step with
    | calls bus caller =>
      change (ite _ _ _ : Launching).system.members[i]? = some m at hm
      split at hm <;> exact hearlier m hm told
    | proceeds n =>
      change (match (run moves).launches[n]? with | some l => _ | none => _ : Launching).system.members[i]? = _ at hm
      split at hm
      case h_1 l hl =>
        rcases ((sound_run moves).advances hl).member_before hm with hm | ⟨-, -, b, rfl⟩
        · exact hearlier m hm told
        · cases told
      case h_2 => exact hearlier m hm told
    | occurs e =>
      change (ite _ _ _ : Launching).system.members[i]? = some m at hm
      split at hm
      case isTrue => exact hearlier m hm told
      case isFalse hstarts =>
        have hsignals := System.signals_occur (run moves).system (Bool.eq_false_iff.2 hstarts)
        rcases hsignals.members i m hm with ⟨m₀, hm₀, hsigns⟩ | ⟨-, hsilent⟩
        · rcases hsigns.announced told with htold | ⟨rfl, hready⟩
          · exact hearlier m₀ hm₀ htold
          · exact ⟨moves, [], rfl, hready⟩
        · rw [hsilent] at told
          cases told

/-! ## Too late -/

/-- It is too late for a call to come to `Ok`: its token has fired, or its bus has been told to shut down and it has not
seen that it was not. -/
def TooLate (x : Launching) (n : Nat) : Prop :=
  ∃ l, x.launches[n]? = some l ∧ l.result? ≠ some (.ok ()) ∧
    (l.caller ∈ x.system.fired ∨ l.isAdmitted = false ∧ x.system.isShutDown l.bus = true)

/-- A step of a call for which it is too late. -/
theorem late_step {s : System} {r : System × Launch.Stage} (h : Launch.Steps s l r)
    (running : l.result? ≠ some (.ok ()))
    (late : l.caller ∈ s.fired ∨ l.isAdmitted = false ∧ s.isShutDown l.bus = true) :
    Launch.result? { l with stage := r.2 } ≠ some (.ok ()) ∧
      (l.caller ∈ s.fired ∨ Launch.isAdmitted { l with stage := r.2 } = false ∧ s.isShutDown l.bus = true) := by
  cases h with
  | stays => exact ⟨running, late⟩
  | configured | unconfigured | closed | taken => exact ⟨nofun, late.imp_right fun h => ⟨rfl, h.2⟩⟩
  | admitted was bus_runs =>
    refine ⟨nofun, late.imp_right fun h => ?_⟩
    rw [bus_runs] at h
    cases h.2
  | chosen _ was | starts _ was | cancelled was | died was =>
    refine ⟨nofun, late.imp_right fun h => ?_⟩
    rw [Launch.of_stage was] at h
    cases h.1
  | polls was waits =>
    rcases late with hfired | ⟨hpending, -⟩
    · exact absurd hfired waits
    · rw [Launch.of_stage was] at hpending
      cases hpending

theorem TooLate.move (late : TooLate x n) (sound : Sound x) (m : Move) : TooLate (x.move m) n := by
  obtain ⟨l, hl, hresult, hlate⟩ := late
  have hgrows := sound.grows m
  obtain ⟨l', hl', hcontinues⟩ := hgrows.launches n l hl
  refine ⟨l', hl', ?_⟩
  rw [hcontinues.bus, hcontinues.caller]
  have hstays : ∀ {admitted : Bool}, l.caller ∈ x.system.fired ∨ admitted = false ∧ x.system.isShutDown l.bus = true →
      l.caller ∈ (x.move m).system.fired ∨ admitted = false ∧ (x.move m).system.isShutDown l.bus = true :=
    Or.imp (fun h => hgrows.fired h) (And.imp_right (hgrows.shut l.bus))
  rcases launch_move hl' with ⟨l₀, hl₀, rfl | ⟨-, rfl⟩⟩ | ⟨hnone, -⟩
  · obtain rfl := Option.some.inj (hl.symm.trans hl₀)
    exact ⟨hresult, hstays hlate⟩
  · obtain rfl := Option.some.inj (hl.symm.trans hl₀)
    have hstep := late_step (Launch.steps_next x.system l) hresult hlate
    exact ⟨hstep.1, hstays hstep.2⟩
  · rw [hl] at hnone
    cases hnone

/-- A call for which it is too late comes closer to its end by every step. -/
theorem TooLate.left {m : Move} (late : TooLate x n) (sound : Sound x) (hl : x.launches[n]? = some l) :
    ∃ l', (x.move m).launches[n]? = some l' ∧ l'.stage.left ≤ l.stage.left - (if m.isStepOf n then 1 else 0) := by
  obtain ⟨l₁, hl₁, -, hlate⟩ := late
  obtain rfl := Option.some.inj (hl.symm.trans hl₁)
  obtain ⟨l', hl', -⟩ := (sound.grows m).launches n l hl
  refine ⟨l', hl', ?_⟩
  cases hstep : m.isStepOf n with
  | false =>
    rcases launch_move hl' with ⟨l₀, hl₀, rfl | ⟨rfl, -⟩⟩ | ⟨hnone, -⟩
    · obtain rfl := Option.some.inj (hl.symm.trans hl₀)
      exact Nat.le_refl _
    · rw [Move.isStepOf, beq_self_eq_true] at hstep
      cases hstep
    · rw [hl] at hnone
      cases hnone
  | true =>
    obtain rfl : m = .proceeds n := by
      cases m with
      | proceeds k => rw [beq_iff_eq.1 hstep]
      | calls | occurs => cases hstep
    obtain ⟨b, hb, -⟩ := sound.known n l hl
    have hmove : (x.move (.proceeds n)).launches[n]? = some (Launch.step (x.system, l)).2 := by
      unfold Launching.move
      simp only [hl]
      exact List.getElem?_set_self (List.getElem?_eq_some_iff.1 hl).1
    obtain rfl := Option.some.inj (hmove.symm.trans hl')
    refine Launch.left_next hb fun i hwaits => hlate.resolve_right fun hpending => ?_
    have hadmitted : l.isAdmitted = true := congrArg Launch.isAdmitted (Launch.of_stage hwaits)
    rw [hadmitted] at hpending
    cases hpending.1

theorem late_run {before : List Move} (late : TooLate (run before) n) (after : List Move) :
    TooLate (run (before ++ after)) n ∧ ∃ l, (run (before ++ after)).launches[n]? = some l ∧
      l.stage.left ≤ 5 - after.countP (Move.isStepOf n) := by
  induction after using List.reverseRecOn with
  | nil =>
    rw [List.append_nil]
    obtain ⟨l, hl, -⟩ := id late
    exact ⟨late, l, hl, Launch.Stage.left_le _⟩
  | append_singleton after m ih =>
    obtain ⟨hlate, l, hl, hleft⟩ := ih
    have hsound := sound_run (before ++ after)
    obtain ⟨l', hl', hcloser⟩ := hlate.left (m := m) hsound hl
    rw [← List.append_assoc, run_concat]
    refine ⟨hlate.move hsound m, l', hl', ?_⟩
    rw [List.countP_append, List.countP_singleton]
    omega

/-! ## What calls come to -/

/-- Why a call is refused. -/
inductive Refuses (x : Launching) (n : Nat) (l : Launch) : BusError Store.Error → Prop
  | unconfigured {b} (known : x.system.buses[l.bus]? = some b) (disabled : b.config.forwarderEnabled = false) :
      Refuses x n l .notConfiguredForForwarding
  | closed {b} (known : x.system.buses[l.bus]? = some b) (enabled : b.config.forwarderEnabled = true)
      (shut : x.system.isShutDown l.bus = true) : Refuses x n l .closed
  | taken {b} (known : x.system.buses[l.bus]? = some b) (enabled : b.config.forwarderEnabled = true) {k l'}
      (other : k ≠ n) (starts : x.launches[k]? = some l') (same : l'.bus = l.bus) (starter : l'.isStarter = true) :
      Refuses x n l .forwarderAlreadyStarted
  | cancelled {b} (known : x.system.buses[l.bus]? = some b) (enabled : b.config.forwarderEnabled = true)
      (fired : l.caller ∈ x.system.fired) : Refuses x n l (.cancelled "start_forwarder")
  /-- The forwarder has ended without having polled. -/
  | died {b} (known : x.system.buses[l.bus]? = some b) (enabled : b.config.forwarderEnabled = true) {i m}
      (serves : l.member? = some i) (member : x.system.members[i]? = some m) (silent : m.announced = false)
      (gone : m.consumer.isOver = true) : Refuses x n l (.cancelled "start_forwarder")

theorem refuses_step (sound : Sound x) (hl : x.launches[n]? = some l) {r : System × Launch.Stage}
    (h : Launch.Steps x.system l r) {e : BusError Store.Error} (running : l.result? ≠ some (.error e))
    (refused : Launch.result? { l with stage := r.2 } = some (.error e)) : Refuses x n l e := by
  have henabled : l.isUnderWay = true →
      ∃ b, x.system.buses[l.bus]? = some b ∧ b.config.forwarderEnabled = true := by
    intro hgoing
    obtain ⟨b, hb, henabled⟩ := sound.known n l hl
    exact ⟨b, hb, henabled hgoing⟩
  cases h with
  | stays => exact absurd refused running
  | unconfigured known _ disabled =>
    cases refused
    exact .unconfigured known disabled
  | closed was shut =>
    cases refused
    obtain ⟨b, hb, henabled⟩ := henabled (congrArg Launch.isUnderWay (Launch.of_stage was))
    exact .closed hb henabled shut
  | taken known was taken =>
    cases refused
    obtain ⟨b, hb, henabled⟩ := henabled (congrArg Launch.isUnderWay (Launch.of_stage was))
    obtain ⟨k, l', hl', hbus, hstarter⟩ := (sound.flags l.bus).1 (by rw [known]; exact taken)
    refine .taken hb henabled ?_ hl' hbus hstarter
    rintro rfl
    obtain rfl := Option.some.inj (hl.symm.trans hl')
    rw [Launch.of_stage was] at hstarter
    cases hstarter
  | cancelled was fired =>
    cases refused
    obtain ⟨b, hb, henabled⟩ := henabled (congrArg Launch.isUnderWay (Launch.of_stage was))
    exact .cancelled hb henabled fired
  | died was member silent gone =>
    cases refused
    obtain ⟨b, hb, henabled⟩ := henabled (congrArg Launch.isUnderWay (Launch.of_stage was))
    exact .died hb henabled (congrArg Launch.member? (Launch.of_stage was)) member silent gone
  | configured | admitted | chosen | starts | polls => cases refused

/-- The next look at a forwarder of the bus makes it tell that it polls. -/
structure Tells (x : Launching) (bus i : Nat) (m : Member) : Prop where
  member : x.system.members[i]? = some m
  bus : m.bus = bus
  role : m.consumer.setup.role = .forwarder
  ready : .ready ∈ (x.system.look i).2

/-- The forwarder of a call that has returned told that it polls by the first pull of its loop, with its token not
fired. When the call returned the caller's token had not fired. -/
def Polled (moves : List Move) (n : Nat) (l : Launch) (i : Nat) : Prop :=
  ∃ earlier between after m, moves = earlier ++ .occurs (.turn (.look i)) :: between ++ .proceeds n :: after ∧
    Tells (run earlier) l.bus i m ∧ m.consumer.phase = .pulling .start ∧ (run earlier).system.isCancelled m = false ∧
    l.caller ∉ (run (earlier ++ .occurs (.turn (.look i)) :: between)).system.fired

/-- The bus of a call was told to shut down after the call had seen that it was not, and before the forwarder told that
it polls. -/
def Overtaken (moves : List Move) (n : Nat) (l : Launch) (i : Nat) : Prop :=
  ∃ checked meanwhile between after m,
    moves = (checked ++ .proceeds n :: meanwhile) ++ .occurs (.turn (.look i)) :: between ++ .proceeds n :: after ∧
    (run checked).launches[n]? = some ⟨l.bus, l.caller, .configured⟩ ∧
    (run checked).system.isShutDown l.bus = false ∧
    Tells (run (checked ++ .proceeds n :: meanwhile)) l.bus i m ∧
    (run (checked ++ .proceeds n :: meanwhile)).system.isShutDown l.bus = true ∧
    l.caller ∉ (run ((checked ++ .proceeds n :: meanwhile) ++ .occurs (.turn (.look i)) :: between)).system.fired

/-- A call that has started a forwarder had seen before that its bus was not told to shut down. -/
theorem checked_of_member? {moves : List Move} {i : Nat} (hl : (run moves).launches[n]? = some l)
    (serves : l.member? = some i) : ∃ checked meanwhile, moves = checked ++ .proceeds n :: meanwhile ∧
      (run checked).launches[n]? = some ⟨l.bus, l.caller, .configured⟩ ∧
      (run checked).system.isShutDown l.bus = false := by
  have hadmitted : l.isAdmitted = true := by
    have hstarter := isStarter_of_member? serves
    unfold Launch.isAdmitted
    split
    · rfl
    · exact hstarter
  obtain ⟨checked, meanwhile, l₀, rfl, hl₀, hbus, hcaller, hpending, hpasses⟩ :=
    passed (P := fun l => l.isAdmitted = true) (fun _ _ => nofun) [] (fun _ h => by cases h) hl hadmitted
  rw [List.nil_append] at hl₀ hpasses
  obtain ⟨hwas, hrunning⟩ := (Launch.steps_next _ l₀).checked (Bool.not_eq_true _ ▸ hpending) hpasses
  refine ⟨checked, meanwhile, rfl, ?_, hbus ▸ hrunning⟩
  rw [hl₀, Launch.of_stage hwas, hbus, hcaller]

/-- **A call that returns `Ok`** has a forwarder that polls, or has been overtaken by a shutdown. -/
theorem polled_of_ok {moves : List Move} (hl : (run moves).launches[n]? = some l) (ok : l.result? = some (.ok ())) :
    ∃ i, l.member? = some i ∧ (Polled moves n l i ∨ Overtaken moves n l i) := by
  -- the step at which the call returned
  obtain ⟨until_return, rest, l₀, rfl, hl₀, hbus, hcaller, hrunning, hreturned⟩ :=
    passed (P := fun l => l.result? = some (.ok ())) (fun _ _ => nofun) [] (fun _ h => by cases h) hl ok
  rw [List.nil_append] at hl₀ hreturned
  have hsound := sound_run until_return
  obtain ⟨i, m, hserves, hwaits, hm, htold⟩ := (Launch.steps_next _ l₀).polled hrunning hreturned
  obtain ⟨l', hl', hcontinues⟩ := (grows_run until_return (.proceeds n :: rest)).launches n l₀ hl₀
  obtain rfl := Option.some.inj (hl.symm.trans hl')
  refine ⟨i, hcontinues.member i hserves, ?_⟩
  -- the moment at which its forwarder told that it polls
  obtain ⟨earlier, between, rfl, hready⟩ := announced_run hm htold
  obtain ⟨m₀, hm₀, hrole, hphase⟩ := System.member_of_ready hready
  have hgrows := grows_run earlier (.occurs (.turn (.look i)) :: between)
  -- by then the forwarder was that of the call
  obtain ⟨n', l₁, hl₁, hbus₁, hserves₁⟩ := (sound_run earlier).owned i m₀ hm₀ hrole
  obtain ⟨l₂, hl₂, hcontinues₂⟩ := hgrows.launches n' l₁ hl₁
  obtain ⟨rfl, rfl⟩ := hsound.same hl₀ hl₂ hserves (hcontinues₂.member i hserves₁)
  have hbus₀ : m₀.bus = l.bus := (hbus₁.symm.trans hcontinues₂.bus.symm).trans hbus
  have htells : Tells (run earlier) l.bus i m₀ := ⟨hm₀, hbus₀, hrole, hready⟩
  have hstopped : m₀.stopped = false := by
    rw [← Bool.not_eq_true]
    intro hstopped
    obtain ⟨k, hk, rfl, hfired⟩ := hgrows.abandoned i ((sound_run earlier).stopped i m₀ hm₀ hstopped)
    obtain ⟨n', l', hl', hmember, hlink⟩ := hsound.linked k hk
    obtain ⟨-, rfl⟩ := hsound.same hl₀ hl' hserves hmember
    exact hwaits (hlink ▸ hfired)
  rw [hcaller] at hwaits
  cases hshut : (run earlier).system.isShutDown l.bus with
  | true =>
    right
    obtain ⟨checked, meanwhile, rfl, hchecked, hopen⟩ := checked_of_member? hl₁ hserves₁
    rw [← hcontinues₂.bus, ← hcontinues₂.caller, hbus, hcaller] at hchecked
    rw [← hcontinues₂.bus, hbus] at hopen
    exact ⟨checked, meanwhile, between, rest, m₀, rfl, hchecked, hopen, htells, hshut, hwaits⟩
  | false =>
    left
    have hrunning : (run earlier).system.isCancelled m₀ = false := by
      unfold System.isCancelled
      rw [hstopped, hbus₀, hshut]
      rfl
    refine ⟨earlier, between, rest, m₀, rfl, htells, hphase.resolve_right fun hdraining => ?_, hrunning, hwaits⟩
    have hfired : (run earlier).system.isCancelled m₀ = true :=
      ((sound_run earlier).loops i m₀ hm₀).draining _ hdraining
    rw [hrunning] at hfired
    cases hfired

/-- **A call that is refused** is refused for a reason. -/
theorem refuses_of_error {moves : List Move} {e : BusError Store.Error} (hl : (run moves).launches[n]? = some l)
    (error : l.result? = some (.error e)) :
    ∃ before after, moves = before ++ .proceeds n :: after ∧ ∃ l₀, (run before).launches[n]? = some l₀ ∧
      l₀.bus = l.bus ∧ l₀.caller = l.caller ∧ Refuses (run before) n l₀ e := by
  obtain ⟨before, after, l₀, rfl, hl₀, hbus, hcaller, hrunning, hreturned⟩ :=
    passed (P := fun l => l.result? = some (.error e)) (fun _ _ => nofun) [] (fun _ h => by cases h) hl error
  rw [List.nil_append] at hl₀ hreturned
  exact ⟨before, after, rfl, l₀, hl₀, hbus, hcaller,
    refuses_step (sound_run before) hl₀ (Launch.steps_next _ l₀) hrunning hreturned⟩

/-- **What calls that start the forwarder come to**, however they, the forwarders, the callers' tokens and the shutdown
interleave: a bus has one forwarder at most; a call that returns `Ok` has a forwarder that polls, or has been overtaken
by a shutdown; every other call is refused for a reason; and a call for which it is too late is refused, by its fifth
step at the latest. -/
theorem launches_told (moves : List Move) :
    (∀ (i j : Nat) m m', (run moves).system.members[i]? = some m → (run moves).system.members[j]? = some m' →
      m.consumer.setup.role = .forwarder → m'.consumer.setup.role = .forwarder → m'.bus = m.bus → j = i) ∧
    (∀ (n : Nat) l, (run moves).launches[n]? = some l → l.result? = some (.ok ()) →
      ∃ i, l.member? = some i ∧ (Polled moves n l i ∨ Overtaken moves n l i)) ∧
    (∀ (n : Nat) l e, (run moves).launches[n]? = some l → l.result? = some (.error e) →
      ∃ before after, moves = before ++ .proceeds n :: after ∧ ∃ l₀, (run before).launches[n]? = some l₀ ∧
        l₀.bus = l.bus ∧ l₀.caller = l.caller ∧ Refuses (run before) n l₀ e) ∧
    (∀ before after n, moves = before ++ after → TooLate (run before) n →
      ∃ l, (run moves).launches[n]? = some l ∧ l.result? ≠ some (.ok ()) ∧
        (5 ≤ after.countP (Move.isStepOf n) → ∃ e, l.result? = some (.error e))) := by
  have hsound := sound_run moves
  refine ⟨?single, fun n l hl => polled_of_ok hl, fun n l e hl => refuses_of_error hl, ?late⟩
  case single =>
    intro i j m m' hm hm' hrole hrole' hbus
    obtain ⟨n, l, hl, hlbus, hmember⟩ := hsound.owned i m hm hrole
    obtain ⟨n', l', hl', hlbus', hmember'⟩ := hsound.owned j m' hm' hrole'
    have hn : n' = n := hsound.single n n' l l' hl hl' (isStarter_of_member? hmember) (isStarter_of_member? hmember')
      ((hlbus'.trans hbus).trans hlbus.symm)
    subst hn
    obtain rfl := Option.some.inj (hl.symm.trans hl')
    exact Option.some.inj (hmember'.symm.trans hmember)
  case late =>
    rintro before after n rfl hlate
    obtain ⟨⟨l, hl, hresult, -⟩, l', hl', hleft⟩ := late_run hlate after
    obtain rfl := Option.some.inj (hl.symm.trans hl')
    refine ⟨l, hl, hresult, fun hsteps => ?_⟩
    obtain ⟨result, hresult'⟩ := Launch.result?_of_left (l := l) (by omega)
    cases result with
    | error e => exact ⟨e, hresult'⟩
    | ok => exact absurd hresult' hresult

def forwarding : List Move := [.occurs (.turn (.addBus Config.standard.withForwarder .silent))]

/-- Two callers start the forwarder of a bus at once. -/
def rivals : List Move :=
  forwarding ++ [.calls 0 "first", .calls 0 "second", .proceeds 0, .proceeds 1, .proceeds 1, .proceeds 0, .proceeds 0,
    .proceeds 1, .proceeds 0, .occurs (.turn (.look 0)), .occurs (.turn (.look 0)), .occurs (.turn (.look 0)),
    .proceeds 0]

/-- The first of the two has a forwarder that polls, and the second is told that there is one already. -/
theorem launches_told_rivals :
    (run rivals).launches = [⟨0, "first", .ended 0 (.ok ())⟩, ⟨0, "second", .refused .forwarderAlreadyStarted⟩] ∧
      Polled rivals 0 ⟨0, "first", .ended 0 (.ok ())⟩ 0 ∧
      ∃ before l, (run before).launches[1]? = some l ∧ Refuses (run before) 1 l .forwarderAlreadyStarted := by
  obtain ⟨-, hok, herror, -⟩ := launches_told rivals
  have hlaunches : (run rivals).launches =
      [⟨0, "first", .ended 0 (.ok ())⟩, ⟨0, "second", .refused .forwarderAlreadyStarted⟩] := by
    with_unfolding_all rfl
  have hopen : (run rivals).system.isShutDown 0 = false := by with_unfolding_all rfl
  obtain ⟨i, hmember, hpolled⟩ := hok 0 _ (by rw [hlaunches]; rfl) rfl
  obtain rfl : 0 = i := Option.some.inj hmember
  obtain ⟨before, -, -, l, hl, -, -, hrefuses⟩ := herror 1 _ _ (by rw [hlaunches]; rfl) rfl
  refine ⟨hlaunches, hpolled.resolve_right ?_, before, l, hl, hrefuses⟩
  rintro ⟨checked, meanwhile, between, after, m, hmoves, -, -, -, hshut, -⟩
  rw [List.append_assoc] at hmoves
  have hlater := (grows_run (checked ++ .proceeds 0 :: meanwhile)
    (.occurs (.turn (.look 0)) :: between ++ .proceeds 0 :: after)).shut 0 hshut
  rw [← hmoves, hopen] at hlater
  cases hlater

/-- A bus is told to shut down after a call has seen that it was not, and before the forwarder takes its first step. -/
def overtaken : List Move :=
  forwarding ++ [.calls 0 "first", .proceeds 0, .proceeds 0, .proceeds 0, .proceeds 0,
    .occurs (.turn (.beginShutdown 0)), .occurs (.turn (.look 0)), .occurs (.turn (.look 0)),
    .occurs (.turn (.look 0)), .proceeds 0, .occurs (.turn (.look 0))]

/-- **A shutdown may overtake a call.** The call returns `Ok`, although its forwarder does not pull before it drains its
stream, and so never polls. -/
theorem launch_overtaken :
    (run overtaken).launches = [⟨0, "first", .ended 0 (.ok ())⟩] ∧
      (overtaken.inits.map fun before => (run before).system.members.map fun m => m.consumer.phase) =
        [[], [], [], [], [], [], [.starting], [.starting], [.selecting .start], [.draining .start],
          [.draining (.pulling (.waiting 0))], [.draining (.pulling (.waiting 0))], [.ended]] ∧
      ∀ i, ¬ Polled overtaken 0 ⟨0, "first", .ended 0 (.ok ())⟩ i := by
  have hphases : (overtaken.inits.map fun before => (run before).system.members.map fun m => m.consumer.phase) =
      [[], [], [], [], [], [], [.starting], [.starting], [.selecting .start], [.draining .start],
        [.draining (.pulling (.waiting 0))], [.draining (.pulling (.waiting 0))], [.ended]] := by
    with_unfolding_all rfl
  have hidle : ∀ phases ∈ overtaken.inits.map fun before => (run before).system.members.map fun m => m.consumer.phase,
      Phase.pulling .start ∉ phases := by
    rw [hphases]
    simp
  refine ⟨by with_unfolding_all rfl, hphases, ?_⟩
  rintro i ⟨earlier, between, after, m, hmoves, htells, hpulling, -⟩
  have hearlier : earlier ∈ overtaken.inits := by
    rw [List.mem_inits, hmoves, List.append_assoc]
    exact List.prefix_append _ _
  apply hidle _ (List.mem_map_of_mem hearlier)
  rw [← hpulling]
  exact List.mem_map_of_mem (f := fun m : Member => m.consumer.phase) (List.mem_of_getElem? htells.member)

end Launching

end DurableBus
