import DurableBus.Proofs.System.Trail

/-!
# What buses and consumers are equipped with

Buses are made with a reserved topic and a propagator, and hand both on to their publishers and consumers.

* `System.kits`, `System.setups` : what the buses were made with and what the consumers were started with;
* `alike_turn` : turns that start nothing leave them as they are;
* `Equipped`, `Equipped.after` : when every bus reserves one topic and uses the W3C propagator, so does whatever is
  started on it, and the forwarders are those who serve the reserved topic.
-/

set_option autoImplicit false

namespace DurableBus

open Consumer (Setup)

namespace System

def kits (s : System) : List (Config × ConsumerSettings × String × Propagator) := s.buses.map Bus.kit

def setups (s : System) : List Setup := s.members.map (·.consumer.setup)

def Alike (s s' : System) : Prop := s'.kits = s.kits ∧ s'.setups = s.setups

namespace Alike

theorem refl (s : System) : Alike s s := ⟨rfl, rfl⟩

theorem trans {s s' s'' : System} (h : Alike s s') (h' : Alike s' s'') : Alike s s'' :=
  ⟨h'.1.trans h.1, h'.2.trans h.2⟩

theorem noteDrained (s : System) : Alike s s.noteDrained := by
  refine ⟨List.ext_getElem? fun i => ?_, rfl⟩
  show ((s.buses.mapIdx _).map _)[i]? = (s.buses.map _)[i]?
  rw [List.getElem?_map, List.getElem?_mapIdx, List.getElem?_map, Option.map_map]
  rfl

theorem modify (s : System) (i : Nat) {f : Member → Member} (hsetup : ∀ m, (f m).consumer.setup = m.consumer.setup) :
    Alike s (s.modify i f) := ⟨rfl, map_modify_of_eq hsetup s.members i⟩

theorem modifyBus (s : System) (i : Nat) {f : Bus → Bus} (hkit : ∀ b, (f b).kit = b.kit) :
    Alike s (s.modifyBus i f) := ⟨map_modify_of_eq hkit s.buses i, rfl⟩

theorem moved {s : System} {i : Nat} {m : Member} (hm : s.members[i]? = some m) {step : Consumer × List Effect}
    (same : step.1.setup = m.consumer.setup) : Alike s (s.moved i m step).1 := by
  have hset : ∀ m' : Member, m'.consumer.setup = m.consumer.setup →
      Alike s { s with members := s.members.set i m' } := fun m' hm' => ⟨rfl, map_set_of_eq hm hm'⟩
  exact (hset { m with consumer := step.1, announced := m.announced || step.2.any isReady } same).trans
    (noteDrained _)

theorem ask (s : System) (fate : Fate) (request : Store.Request) : Alike s (s.ask fate request).1 := by
  cases fate <;> exact refl s

theorem lookLink (s : System) (j : Nat) : Alike s (s.lookLink j) := by
  unfold System.lookLink
  split
  · split
    · exact refl s
    · split
      · refine trans ?_ (noteDrained _)
        exact modify { s with links := _ } _ fun _ => rfl
      · split
        · exact noteDrained { s with links := _ }
        · exact refl s
  · exact refl s

end Alike

def Turn.starts : Turn → Bool
  | .addBus _ _ | .subscribe _ _ _ _ | .startForwarder _ _ => true
  | _ => false

/-- A turn that starts nothing leaves everybody's equipment as it is. -/
theorem alike_turn (s : System) {t : Turn} (plain : t.starts = false) : Alike s (s.turn t).1 := by
  cases t with
  | addBus | subscribe | startForwarder => cases plain
  | look i =>
    show Alike s (s.look i).1
    unfold look
    split
    case h_1 m hm => exact .moved hm (Consumer.setup_look _ _)
    case h_2 => exact .refl s
  | answer i fate =>
    show Alike s (s.answer i fate).1
    unfold answer
    split
    case h_1 m hm =>
      split
      case h_1 request hrequest =>
        refine (Alike.ask s fate request).trans (.moved ?_ (Consumer.setup_answer _ _ _))
        cases fate <;> exact hm
      case h_2 => exact .refl s
    case h_2 => exact .refl s
  | finish i outcome =>
    show Alike s (s.finish i outcome).1
    unfold finish
    split
    case h_1 m hm => exact .moved hm (Consumer.setup_finish _ _)
    case h_2 => exact .refl s
  | receive i =>
    show Alike s (s.receive i).1
    unfold receive
    split
    · exact .modify s i fun _ => rfl
    · exact .refl s
  | abandon i => exact .modify s i fun _ => rfl
  | lookLink j => exact .lookLink s j
  | fire token =>
    show Alike s (s.fire token)
    unfold fire
    split <;> exact .refl s
  | wait | draw => exact .refl s
  | publish bus context topic messages fate =>
    show Alike s (s.publish bus context topic messages fate).1
    unfold publish
    split
    · exact .refl s
    · split
      · exact .ask { s with drawn := _ } fate _
      · exact .refl s
  | commit staged =>
    show Alike s (s.commit staged).1
    unfold commit
    split <;> exact .refl s
  | ask fate request => exact .ask s fate request
  | beginShutdown bus => exact (Alike.modifyBus s bus fun b => b.kit_beginShutdown s.now).trans (.noteDrained _)
  | lookShutdown bus =>
    show Alike s (s.lookShutdown bus).1
    unfold lookShutdown
    split
    case h_1 b hb => exact ⟨map_set_of_eq hb (b.kit_lookShutdown s.now), rfl⟩
    case h_2 => exact .refl s
  | answerShutdown bus fate => exact (Alike.ask s fate .close).trans (.modifyBus _ bus fun b => b.kit_answerShutdown _)

/-! ## One reserved topic and the W3C propagator -/

/-- Whether a bus was made to reserve a topic and to use the W3C propagator. -/
def TracesKit (reserved : String) (kit : Config × ConsumerSettings × String × Propagator) : Prop :=
  kit.1.forwarderTopic = reserved ∧ kit.2.1.propagator = .w3c ∧ kit.2.2.1 = reserved ∧ kit.2.2.2 = .w3c

/-- Whether a consumer reads trace contexts as the W3C propagator does, and serves the reserved topic if it is a
forwarder and only then. -/
def TracesSetup (reserved : String) (setup : Setup) : Prop :=
  setup.settings.propagator = .w3c ∧ (setup.role = .forwarder ↔ setup.topic = reserved)

/-- All buses reserve one topic and use the W3C propagator, and so do their consumers. -/
structure Equipped (reserved : String) (s : System) : Prop where
  kits : ∀ kit ∈ s.kits, TracesKit reserved kit
  setups : ∀ setup ∈ s.setups, TracesSetup reserved setup

/-- Whether a turn makes no bus that reserves another topic or uses another propagator. -/
def Turn.Traces (reserved : String) : Turn → Prop
  | .addBus config propagator => config.forwarderTopic = reserved ∧ propagator = .w3c
  | _ => True

instance (reserved : String) : (t : Turn) → Decidable (t.Traces reserved)
  | .addBus _ _ => inferInstanceAs (Decidable (_ ∧ _))
  | .look _ | .answer _ _ | .finish _ _ | .receive _ | .abandon _ | .lookLink _ | .fire _ | .wait _ | .draw
  | .subscribe _ _ _ _ | .startForwarder _ _ | .publish _ _ _ _ _ | .commit _ | .ask _ _ | .beginShutdown _
  | .lookShutdown _ | .answerShutdown _ _ => inferInstanceAs (Decidable True)

variable {reserved : String} {s s' : System}

theorem equipped_start (reserved : String) : Equipped reserved start where
  kits _ h := by cases h
  setups _ h := by cases h

theorem Equipped.alike (h : Equipped reserved s) (same : Alike s s') : Equipped reserved s' where
  kits := same.1 ▸ h.kits
  setups := same.2 ▸ h.setups

theorem Equipped.kit (h : Equipped reserved s) {i : Nat} {b : Bus} (hb : s.buses[i]? = some b) :
    TracesKit reserved b.kit := h.kits _ (List.mem_map_of_mem (List.mem_of_getElem? hb))

theorem Equipped.of_workAt (h : Equipped reserved s) {i : Nat} {setup : Setup} {job : Job}
    (busy : s.workAt i = some (setup, job)) : TracesSetup reserved setup := by
  obtain ⟨m, hm, hjob⟩ := Option.bind_eq_some_iff.1 busy
  obtain ⟨_, -, heq⟩ := Option.map_eq_some_iff.1 hjob
  obtain ⟨rfl, -⟩ := Prod.mk.inj heq
  exact h.setups _ (List.mem_map_of_mem (List.mem_of_getElem? hm))

theorem Equipped.spawn (h : Equipped reserved s) (bus : Nat) {setup : Setup} (traces : TracesSetup reserved setup)
    (capacity : Nat) : Equipped reserved (s.spawn bus setup capacity) where
  kits := h.kits
  setups setup' hsetup := by
    have happended : (s.spawn bus setup capacity).setups = s.setups ++ [setup] := List.map_append
    rw [happended] at hsetup
    rcases List.mem_append.1 hsetup with hbefore | hnew
    · exact h.setups _ hbefore
    · rwa [List.mem_singleton.1 hnew]

theorem Equipped.subscribe (h : Equipped reserved s) {bus : Nat} {topic : String} {b : Bus}
    (hb : s.buses[bus]? = some b) (permitted : (b.permit topic).isOk) (group : Group) (head : Int) :
    Equipped reserved (s.subscribe bus topic group head) := by
  obtain ⟨htopic, hreads, -⟩ := h.kit hb
  have hfree : topic ≠ reserved := htopic ▸ free_of_permit permitted
  unfold System.subscribe
  rw [hb]
  cases group with
  | named name => exact h.spawn bus ⟨hreads, by simp [Bus.subscriber, hfree]⟩ _
  | broadcast =>
    have hdrawn : Equipped reserved { s with drawn := s.drawn + 1 } := h.alike ⟨rfl, rfl⟩
    exact hdrawn.spawn bus ⟨hreads, by simp [Bus.subscriber, hfree]⟩ _

theorem Equipped.startForwarder (h : Equipped reserved s) (bus : Nat) (caller : String) :
    Equipped reserved (s.startForwarder bus caller) := by
  unfold System.startForwarder
  split
  · exact h
  case h_2 b hb =>
    obtain ⟨htopic, hreads, -⟩ := h.kit hb
    have hnoted : Alike s (s.modifyBus bus fun b => { b with forwarderStarted := true }) := .modifyBus s bus fun _ => rfl
    have hlinked : ∀ links, Equipped reserved
        { s.modifyBus bus fun b => { b with forwarderStarted := true } with links := links } :=
      fun links => (h.alike hnoted).alike ⟨rfl, rfl⟩
    have htraces : TracesSetup reserved b.forwarder := ⟨hreads, iff_of_true rfl htopic⟩
    exact (hlinked _).spawn bus htraces 1

/-- **Every turn keeps the equipment.** -/
theorem Equipped.turn (h : Equipped reserved s) {t : Turn} (traces : t.Traces reserved) :
    Equipped reserved (s.turn t).1 := by
  cases t with
  | addBus config propagator =>
    refine ⟨fun kit hkit => ?_, h.setups⟩
    have happended : (s.addBus config propagator).kits = s.kits ++ [(Bus.new config propagator).kit] := List.map_append
    rcases List.mem_append.1 (happended ▸ hkit) with hbefore | hnew
    · exact h.kits _ hbefore
    · rw [List.mem_singleton.1 hnew]
      exact ⟨traces.1, traces.2, traces.1, traces.2⟩
  | subscribe bus topic group head =>
    show Equipped reserved (ite _ (s.subscribe bus topic group head) s)
    split
    case isTrue hpermitted =>
      obtain ⟨b, hb, hpermit⟩ := (Option.any_eq_true _ _).1 hpermitted
      exact h.subscribe hb hpermit group head
    case isFalse => exact h
  | startForwarder bus caller =>
    show Equipped reserved (ite _ (s.startForwarder bus caller) s)
    split
    · exact h.startForwarder bus caller
    · exact h
  | _ => exact h.alike (alike_turn s rfl)

theorem Equipped.after (h : Equipped reserved s) {turns : List Turn} (traced : ∀ t ∈ turns, t.Traces reserved) :
    Equipped reserved (s.after turns) := by
  induction turns generalizing s with
  | nil => exact h
  | cons t rest ih =>
    exact ih (h.turn (traced t List.mem_cons_self)) fun t' ht' => traced t' (List.mem_cons_of_mem _ ht')

/-- Every system that a run passes through is equipped. -/
theorem equipped_of_mem_trail {turns : List Turn} (traced : ∀ t ∈ turns, t.Traces reserved) {t : Turn}
    (h : (s, t) ∈ trail turns) : Equipped reserved s := by
  obtain ⟨before, rest, rfl, rfl⟩ := mem_trailFrom h
  exact (equipped_start reserved).after fun t' ht' => traced t' (List.mem_append_left _ ht')

end System

end DurableBus
