import DurableBus.Postgres.Store
import DurableBus.Proofs.Json.Envelope

/-!
# Documents of metadata

Metadata is stored as a document: an object of strings. Whoever keeps the document may give it back with its fields in
another order and with white space behind the colons and commas.

* `Metadata.toJson_eq` : the document of metadata;
* `Metadata.ofJson?_toJson`, `Metadata.ofJson?_eq_none_iff` : metadata from a document;
* `Metadata.parse_spelled` : every spelling of a document is read as the document.
-/

set_option autoImplicit false

namespace DurableBus

open Json

/-! ## Values -/

def Metadata.field (e : String × String) : String × Value := (e.1, .text e.2)

/-- An object all of whose fields are strings. -/
def Json.Value.IsTexts (v : Value) : Prop := ∃ fields, v = .object fields ∧ ∀ f ∈ fields, ∃ s, f.2 = .text s

namespace Metadata

theorem putField_map_field (key value : String) (es : List (String × String)) :
    Value.putField key (.text value) (es.map field) = (putEntry key value es).map field := by
  induction es with
  | nil => rfl
  | cons e rest ih =>
    simp only [List.map_cons, Value.putField, putEntry, ih, show (field e).1 = e.1 from rfl]
    split
    · rfl
    · split <;> rfl

theorem foldl_putField_map_field (es : List (String × String)) (m : Metadata) :
    (es.map field).foldl (fun fs f => Value.putField f.1 f.2 fs) (m.entries.map field) =
      (es.foldl (fun m e => m.put e.1 e.2) m).entries.map field := by
  induction es generalizing m with
  | nil => rfl
  | cons e rest ih =>
    rw [List.map_cons, List.foldl_cons, List.foldl_cons, ← ih]
    congr 1
    exact putField_map_field e.1 e.2 m.entries

/-- **The document of metadata has a field for each entry.** -/
theorem toJson_eq (m : Metadata) : m.toJson = .object (m.entries.map field) := by
  have hfields := foldl_putField_map_field m.entries .empty
  rw [show m.entries.foldl (fun m e => m.put e.1 e.2) .empty = m from ofList_perm (List.Perm.refl _)] at hfields
  exact congrArg Value.object hfields

section

variable {take : Metadata → String × Value → Option Metadata}
  (takes : ∀ m key s, take m (key, .text s) = some (m.put key s))
include takes

theorem foldlM_map_field (es : List (String × String)) (held : Metadata) :
    (es.map field).foldlM take held = some (es.foldl (fun m e => m.put e.1 e.2) held) := by
  induction es generalizing held with
  | nil => rfl
  | cons e rest ih =>
    rw [List.map_cons, List.foldlM_cons, field, takes]
    exact ih (held.put e.1 e.2)

theorem foldlM_eq_none_iff (refuses : ∀ m key v, (¬ ∃ s, v = .text s) → take m (key, v) = none)
    (fields : List (String × Value)) (held : Metadata) :
    fields.foldlM take held = none ↔ ¬ ∀ f ∈ fields, ∃ s, f.2 = Value.text s := by
  induction fields generalizing held with
  | nil => simp
  | cons f rest ih =>
    obtain ⟨key, v⟩ := f
    rw [List.foldlM_cons, List.forall_mem_cons]
    by_cases hv : ∃ s, v = .text s
    · obtain ⟨s, rfl⟩ := hv
      rw [takes]
      simpa using ih (held.put key s)
    · rw [refuses held key v hv]
      simp [hv]

end

/-- **Metadata is what its document holds.** -/
theorem ofJson?_toJson (m : Metadata) : ofJson? m.toJson = some m := by
  rw [toJson_eq]
  refine (foldlM_map_field (fun _ _ _ => rfl) m.entries .empty).trans (congrArg some ?_)
  exact ofList_perm (List.Perm.refl _)

/-- Metadata is had from objects of strings only. -/
theorem ofJson?_eq_none_iff (v : Value) : ofJson? v = none ↔ ¬ v.IsTexts := by
  cases v with
  | object fields =>
    have hrefuses : ofJson? (.object fields) = none ↔ ¬ ∀ f ∈ fields, ∃ s, f.2 = Value.text s := by
      refine foldlM_eq_none_iff (fun _ _ _ => rfl) (fun m key v hv => ?_) fields .empty
      cases v with
      | text s => exact absurd ⟨s, rfl⟩ hv
      | _ => rfl
    refine hrefuses.trans (not_congr ⟨fun h => ⟨fields, rfl, h⟩, ?_⟩)
    rintro ⟨fields', hfields, h⟩
    cases hfields
    exact h
  | _ => exact ⟨fun _ => nofun, fun _ => rfl⟩

end Metadata

/-! ## Texts -/

namespace Json

variable {gap : List Char}

/-- White space in front of a value is passed over. -/
theorem value_gap (hgap : IsGap gap) (depth : Nat) (input : Bytes) :
    value depth (bytesOf gap ++ input) = value depth input := by
  unfold value
  rw [skipSpace_gap hgap]

theorem value_text (depth : Nat) (s : String) (rest : Bytes) :
    value depth (bytesOf (writeText s) ++ rest) = .ok (.text s, rest) := by
  rw [bytesOf_writeText]
  unfold value
  rw [skipSpace_cons (by decide)]
  simp only [show literalTail? 0x22 = none by decide, show isDigit 0x22 = false by decide]
  rw [if_neg (by decide), if_neg (by decide), if_pos trivial, readString_escaped]
  rfl

def anyField (depth : Nat) (fs : List (String × Value)) (key : String) : Reader (List (String × Value)) :=
  fun input => do
    let (v, rest) ← valueOf (value depth) input
    return (Value.putField key v fs, rest)

theorem value_object {depth : Nat} {pieces : List (List Char)} {fs : List (String × Value)}
    (h : Reads (object [] (anyField depth)) (spaced gap '\x7b' '\x7d' pieces) fs) :
    Reads (value (depth + 1)) (spaced gap '\x7b' '\x7d' pieces) (.object fs) where
  opens := h.opens
  reads rest closes := by
    have hread := h.reads rest closes
    rw [bytesOf_spaced (by decide) (by decide)] at hread ⊢
    unfold value
    rw [skipSpace_cons (by decide)]
    simp only [show literalTail? ('\x7b'.toNat.toUInt8) = none by decide,
      show isDigit ('\x7b'.toNat.toUInt8) = false by decide]
    rw [if_neg (by decide), if_neg (by decide), if_neg (by decide), if_neg (by decide), if_pos (by decide)]
    show (object [] (anyField depth) _ >>= fun x => pure (Value.object x.1, x.2)) = _
    rw [hread]
    rfl

end Json

namespace Metadata

/-- Entries as the text of a document, with white space behind the colons and commas. -/
def spelled (gap : List Char) (es : List (String × String)) : List Char :=
  spaced gap '\x7b' '\x7d' (es.map fun e => writeField e.1 (gap ++ writeText e.2))

variable {gap : List Char} {es : List (String × String)}

theorem fills_spelled (hgap : IsGap gap) (depth : Nat) (fs : List (String × Value)) :
    Fills (anyField depth) fs (es.map fun e => writeField e.1 (gap ++ writeText e.2))
      ((es.map field).foldl (fun fs f => Value.putField f.1 f.2 fs) fs) := by
  induction es generalizing fs with
  | nil => exact .nil
  | cons e rest ih =>
    refine .cons (fun input closes => ?_) (ih (Value.putField e.1 (.text e.2) fs))
    rw [anyField, valueOf_colon, bytesOf_append, List.append_assoc, value_gap hgap, value_text]
    rfl

/-- **Every spelling of a document is read as the document**, whatever order its fields have. -/
theorem parse_spelled {m : Metadata} (hgap : IsGap gap) (order : es.Perm m.entries) :
    parse (value maxDepth) (bytesOf (spelled gap es)) = .ok m.toJson := by
  have hfields := foldl_putField_map_field es .empty
  rw [show es.foldl (fun m e => m.put e.1 e.2) .empty = m from ofList_perm order] at hfields
  have hread := reads_spaced hgap (@fills_spelled gap es hgap 126 [])
  rw [show (es.map field).foldl (fun fs f => Value.putField f.1 f.2 fs) [] = m.entries.map field from hfields] at hread
  rw [toJson_eq]
  exact (value_object hread).parse

end Metadata

end DurableBus
