import Mathlib.Data.List.Sort
import DurableBus.Envelope
import DurableBus.Proofs.Json.Reading
import DurableBus.Proofs.Text.Hex

/-!
# Envelopes read back

An envelope writes the metadata of its message in whatever order it is iterated; what is read back does not depend on
that order.

* `Metadata.get?_ext` : metadata is what its look-ups answer;
* `Metadata.ofList_perm` : entries in any order make up the metadata;
* `Message.reads_writeJson`, `Envelope.reads_writeJson` : messages and envelopes;
* `Envelope.unwrap_wrapInOrder` : an envelope is read back from the message that carries it;
* `Envelope.unwrapAll_wrapAll` : envelopes inside envelopes.
-/

set_option autoImplicit false

namespace DurableBus

open Json

/-! ## Metadata -/

namespace Metadata

theorem get?_eq_some_iff (m : Metadata) (key value : String) :
    m.get? key = some value ↔ (key, value) ∈ m.entries := by
  obtain ⟨entries, ascending⟩ := m
  unfold get?
  simp only
  induction entries with
  | nil => simp
  | cons e rest ih =>
    obtain ⟨head, tail⟩ := List.pairwise_cons.1 ascending
    rw [List.find?_cons]
    by_cases h : e.1 = key
    · subst h
      have hrest : (e.1, value) ∉ rest := fun hmem =>
        String.lt_irrefl e.1 (head (e.1, value) hmem)
      obtain ⟨key, value'⟩ := e
      simp only [decide_true, Option.map_some, Option.some.injEq, List.mem_cons, Prod.mk.injEq, true_and, hrest,
        or_false]
      exact eq_comm
    · have hne : (key, value) ≠ e := fun he => h (congrArg Prod.fst he).symm
      simp only [h, decide_false, ih tail, List.mem_cons, hne, false_or]

/-- **Metadata is what its look-ups answer.** -/
theorem get?_ext {m m' : Metadata} (h : ∀ key, m.get? key = m'.get? key) : m = m' := by
  have hmem : ∀ e, e ∈ m.entries ↔ e ∈ m'.entries := fun e => by
    rw [← get?_eq_some_iff, ← get?_eq_some_iff, h]
  have : Std.Irrefl fun e e' : String × String => e.1 < e'.1 := ⟨fun e => String.lt_irrefl e.1⟩
  have hentries := m.ascending.eq_of_mem_iff m'.ascending (fun e => hmem e)
  cases m
  cases m'
  simp only at hentries
  subst hentries
  rfl

theorem nodup_keys (m : Metadata) : (m.entries.map Prod.fst).Nodup :=
  (List.pairwise_map.2 m.ascending).imp String.ne_of_lt

theorem get?_foldl_put_of_not_mem (es : List (String × String)) (m : Metadata) {key : String}
    (h : key ∉ es.map Prod.fst) : (es.foldl (fun m e => m.put e.1 e.2) m).get? key = m.get? key := by
  induction es generalizing m with
  | nil => rfl
  | cons e rest ih =>
    rw [List.map_cons, List.mem_cons, not_or] at h
    rw [List.foldl_cons, ih _ h.2, get?_put, if_neg (Ne.symm h.1)]

theorem get?_foldl_put_of_mem {es : List (String × String)} (distinct : (es.map Prod.fst).Nodup) (m : Metadata)
    {key value : String} (h : (key, value) ∈ es) :
    (es.foldl (fun m e => m.put e.1 e.2) m).get? key = some value := by
  induction es generalizing m with
  | nil => cases h
  | cons e rest ih =>
    obtain ⟨hfirst, hrest⟩ := List.nodup_cons.1 distinct
    rw [List.foldl_cons]
    rcases List.mem_cons.1 h with rfl | h
    · rw [get?_foldl_put_of_not_mem rest _ hfirst, get?_put, if_pos rfl]
    · exact ih hrest _ h

/-- **Entries in any order make up the metadata.** -/
theorem ofList_perm {m : Metadata} {es : List (String × String)} (h : es.Perm m.entries) : ofList es = m := by
  have distinct : (es.map Prod.fst).Nodup := (h.map Prod.fst).nodup_iff.2 m.nodup_keys
  refine get?_ext fun key => ?_
  unfold ofList
  cases hget : m.get? key with
  | some value =>
    exact get?_foldl_put_of_mem distinct .empty (h.mem_iff.2 ((get?_eq_some_iff m key value).1 hget))
  | none =>
    refine get?_foldl_put_of_not_mem es .empty fun hmem => ?_
    obtain ⟨⟨key', value⟩, he, rfl⟩ := List.mem_map.1 hmem
    rw [(get?_eq_some_iff m key' value).2 (h.mem_iff.1 he)] at hget
    cases hget

theorem fills_writeEntries (es : List (String × String)) (m : Metadata) :
    Fills (fun m key input => do
        let (value, rest) ← valueOf text input
        return (Metadata.put m key value, rest)) m
      (es.map fun e => writeField e.1 (writeText e.2)) (es.foldl (fun m e => m.put e.1 e.2) m) := by
  induction es generalizing m with
  | nil => exact .nil
  | cons e rest ih =>
    refine .cons (fun input closes => ?_) (ih (m.put e.1 e.2))
    rw [valueOf_colon, (reads_text e.2).reads input closes]
    rfl

/-- Metadata is read back whatever order its entries are written in. -/
theorem reads_writeEntries {m : Metadata} {es : List (String × String)} (h : es.Perm m.entries) :
    Reads fromJson (writeEntries es) m := by
  have hread := reads_object (fills_writeEntries es .empty)
  rw [show es.foldl (fun m e => m.put e.1 e.2) empty = m from ofList_perm h] at hread
  exact hread

end Metadata

/-! ## Messages -/

theorem Uuid.reads_text (u : Uuid) : Reads Uuid.fromJson (writeText u.text) u :=
  (Json.reads_text u.text).bind fun rest => by
    simp only [Uuid.text, String.toList_ofList, Uuid.parse?_chars]
    rfl

theorem reads_writeBytes (bytes : Bytes) : Reads bytesFromJson (writeBytes bytes) bytes := by
  have hitems : Reads (array (integer 0 255)) (writeBytes bytes) (bytes.map fun b => (b.toNat : Int)) :=
    reads_array fun b _ => reads_digits (by have := b.toNat_lt; omega) (by have := b.toNat_lt; omega)
  refine hitems.bind fun rest => ?_
  have hback : (bytes.map fun b => (b.toNat : Int)).map (fun n => n.toNat.toUInt8) = bytes := by
    rw [List.map_map]
    refine (List.map_congr_left fun b _ => ?_).trans (List.map_id bytes)
    simp
  simp only [hback]
  rfl

namespace Message

variable {m : Message} {es : List (String × String)}

theorem fills_writeJson (h : es.Perm m.metadata.entries) :
    Fills field {} [writeField "uuid" (writeText m.id.text), writeField "metadata" (Metadata.writeEntries es),
      writeField "payload" (writeBytes m.payload)] ⟨some m.id, some m.metadata, some m.payload⟩ := by
  refine .cons (t := ⟨some m.id, none, none⟩) (fun rest closes => ?_) <|
    .cons (t := ⟨some m.id, some m.metadata, none⟩) (fun rest closes => ?_) <|
      .cons (t := ⟨some m.id, some m.metadata, some m.payload⟩) (fun rest closes => ?_) .nil
  · rw [field, if_pos rfl]
    exact (Uuid.reads_text m.id).once _ rest closes
  · rw [field, if_neg (by decide), if_pos rfl]
    exact (Metadata.reads_writeEntries h).once _ rest closes
  · rw [field, if_neg (by decide), if_neg (by decide), if_pos rfl]
    exact (reads_writeBytes m.payload).once _ rest closes

/-- **A message is read back whatever order its metadata is written in.** -/
theorem reads_writeJson (h : es.Perm m.metadata.entries) : Reads fromJson (m.writeJson es) m :=
  reads_record ((reads_object (fills_writeJson h)).bind fun _ => rfl)

end Message

/-! ## Envelopes -/

namespace Envelope

variable {e : Envelope} {es : List (String × String)}

theorem fills_writeJson (h : es.Perm e.message.metadata.entries) :
    Fills field {} [writeField "destination_topic" (writeText e.destination),
      writeField "message" (e.message.writeJson es)] ⟨some e.destination, some e.message⟩ := by
  refine .cons (t := ⟨some e.destination, none⟩) (fun rest closes => ?_) <|
    .cons (t := ⟨some e.destination, some e.message⟩) (fun rest closes => ?_) .nil
  · rw [field, if_pos rfl]
    exact (reads_text e.destination).once _ rest closes
  · rw [field, if_neg (by decide), if_pos rfl]
    exact (Message.reads_writeJson h).once _ rest closes

theorem reads_writeJson (h : es.Perm e.message.metadata.entries) : Reads fromJson (e.writeJson es) e :=
  reads_record ((reads_object (fills_writeJson h)).bind fun _ => rfl)

/-- **An envelope is read back from the message that carries it.** -/
theorem unwrap_wrapInOrder (id : Uuid) (h : es.Perm e.message.metadata.entries) :
    unwrap (e.wrapInOrder id es) = .ok e :=
  (reads_writeJson h).parse

theorem unwrap_wrap (e : Envelope) (id : Uuid) : unwrap (e.wrap id) = .ok e :=
  unwrap_wrapInOrder id (List.Perm.refl _)

/-! ## Envelopes inside envelopes -/

/-- What is chosen for one envelope around a message: where it is meant for, the identifier of the message that
carries it, and the order in which the metadata inside is iterated. -/
structure Layer where
  destination : String
  carrier : Uuid
  order : List (String × String)
deriving DecidableEq, Repr

/-- The message inside one envelope for each layer, the outermost first. -/
def wrapAll : List Layer → Message → Message
  | [], m => m
  | layer :: inner, m => (mk layer.destination (wrapAll inner m)).wrapInOrder layer.carrier layer.order

/-- Every layer iterates over the entries of the message right inside it. -/
def InOrder : List Layer → Message → Prop
  | [], _ => True
  | layer :: inner, m => layer.order.Perm (wrapAll inner m).metadata.entries ∧ InOrder inner m

def unwrapAll : Nat → Message → Except Problem (List Envelope)
  | 0, _ => .ok []
  | depth + 1, m => do
    let e ← unwrap m
    return e :: (← unwrapAll depth e.message)

/-- The envelopes that the layers put around a message, the outermost first. -/
def layered : List Layer → Message → List Envelope
  | [], _ => []
  | layer :: inner, m => mk layer.destination (wrapAll inner m) :: layered inner m

/-- **Envelopes inside one another are all read back**, whatever order the metadata of each was written in. -/
theorem unwrapAll_wrapAll (layers : List Layer) (m : Message) (h : InOrder layers m) :
    unwrapAll layers.length (wrapAll layers m) = .ok (layered layers m) := by
  induction layers with
  | nil => rfl
  | cons layer inner ih =>
    obtain ⟨horder, hinner⟩ := h
    have hunwrap := unwrap_wrapInOrder (e := mk layer.destination (wrapAll inner m)) layer.carrier horder
    rw [List.length_cons, unwrapAll, wrapAll, hunwrap]
    simp only [bind, Except.bind]
    rw [ih hinner]
    rfl

/-- **Wrapping loses nothing.** Any envelope is read back from the message that carries it, and so are envelopes whose
messages carry envelopes, to any depth, in whatever order each metadata was iterated when it was written. -/
theorem wrapping_loses_nothing (e : Envelope) (id : Uuid) (order : List (String × String))
    (horder : order.Perm e.message.metadata.entries) (layers : List Layer) (m : Message) (hlayers : InOrder layers m) :
    unwrap (e.wrapInOrder id order) = .ok e ∧
      unwrapAll layers.length (wrapAll layers m) = .ok (layered layers m) :=
  ⟨unwrap_wrapInOrder id horder, unwrapAll_wrapAll layers m hlayers⟩

/-- A message with quotes, backslashes, controls and characters of every length in its metadata. -/
def thorny : Message where
  id := .ofNat 0xFEDC_BA98
  metadata := .ofList [("quote\"d \\ key", "line\nbreak\x01"), ("ключ", "😀 €")]
  payload := [0, 10, 255]

/-- The two entries of `thorny` are written the other way round, inside two envelopes. -/
theorem wrapping_loses_nothing_thorny :
    unwrap ((mk "a/\x7b\"b\"\x7d" thorny).wrapInOrder (.drawn 0) thorny.metadata.entries.reverse) =
        .ok (mk "a/\x7b\"b\"\x7d" thorny) ∧
      unwrapAll 2 (wrapAll [⟨"outer", .drawn 2, [("content-type", "application/json")]⟩,
          ⟨"inner", .drawn 1, thorny.metadata.entries.reverse⟩] thorny) =
        .ok [mk "outer" ((mk "inner" thorny).wrapInOrder (.drawn 1) thorny.metadata.entries.reverse),
          mk "inner" thorny] :=
  wrapping_loses_nothing (mk "a/\x7b\"b\"\x7d" thorny) (.drawn 0) thorny.metadata.entries.reverse
    (List.reverse_perm _) [⟨"outer", .drawn 2, [("content-type", "application/json")]⟩,
      ⟨"inner", .drawn 1, thorny.metadata.entries.reverse⟩] thorny
    ⟨List.Perm.refl _, List.reverse_perm _, trivial⟩

end Envelope

end DurableBus
