/-!
# Message metadata

A finite map from text to text. The entries are kept in ascending order of their keys, so two maps with the same
entries are equal values; `Metadata.get?_put` says what a later write does to a lookup.
-/

set_option autoImplicit false

namespace DurableBus

/-- Text entries under distinct keys. -/
structure Metadata where
  entries : List (String × String)
  ascending : entries.Pairwise (·.1 < ·.1)
deriving DecidableEq, Repr

namespace Metadata

def empty : Metadata := ⟨[], .nil⟩

instance : Inhabited Metadata := ⟨empty⟩

/-- Writes an entry into ascending entries, over an earlier one with the same key. -/
def putEntry (key value : String) : List (String × String) → List (String × String)
  | [] => [(key, value)]
  | e :: rest =>
    if key < e.1 then (key, value) :: e :: rest
    else if key = e.1 then (key, value) :: rest
    else e :: putEntry key value rest

theorem mem_putEntry {key value : String} {es : List (String × String)} {e : String × String}
    (h : e ∈ putEntry key value es) : e = (key, value) ∨ e ∈ es := by
  induction es with
  | nil => simpa [putEntry] using h
  | cons e' rest ih =>
    simp only [putEntry] at h
    split at h
    · simpa using h
    · split at h
      · simp only [List.mem_cons] at h ⊢
        exact h.imp_right .inr
      · simp only [List.mem_cons] at h ⊢
        rcases h with h | h
        · exact .inr (.inl h)
        · exact (ih h).imp_right .inr

theorem pairwise_putEntry (key value : String) {es : List (String × String)} (h : es.Pairwise (·.1 < ·.1)) :
    (putEntry key value es).Pairwise (·.1 < ·.1) := by
  induction es with
  | nil => simp [putEntry]
  | cons e rest ih =>
    obtain ⟨head, tail⟩ := List.pairwise_cons.1 h
    simp only [putEntry]
    split
    case isTrue lt =>
      refine List.pairwise_cons.2 ⟨fun e' he' => ?_, h⟩
      rcases List.mem_cons.1 he' with rfl | he'
      · exact lt
      · exact String.lt_trans lt (head e' he')
    case isFalse nlt =>
      split
      case isTrue eq => exact List.pairwise_cons.2 ⟨fun e' he' => eq ▸ head e' he', tail⟩
      case isFalse ne =>
        refine List.pairwise_cons.2 ⟨fun e' he' => ?_, ih tail⟩
        rcases mem_putEntry he' with rfl | he'
        · grind
        · exact head e' he'

def put (m : Metadata) (key value : String) : Metadata :=
  ⟨putEntry key value m.entries, pairwise_putEntry key value m.ascending⟩

/-- The map that entries written one after the other leave behind. -/
def ofList (es : List (String × String)) : Metadata :=
  es.foldl (fun m e => m.put e.1 e.2) empty

def get? (m : Metadata) (key : String) : Option String :=
  (m.entries.find? (·.1 = key)).map (·.2)

def contains (m : Metadata) (key : String) : Bool :=
  (m.get? key).isSome

def size (m : Metadata) : Nat := m.entries.length

/-- The keys in ascending order. -/
def keys (m : Metadata) : List String := m.entries.map (·.1)

theorem find?_putEntry (key value key' : String) (es : List (String × String)) :
    ((putEntry key value es).find? (·.1 = key')).map (·.2) =
      if key = key' then some value else (es.find? (·.1 = key')).map (·.2) := by
  induction es with
  | nil => by_cases h : key = key' <;> simp [putEntry, h]
  | cons e rest ih =>
    simp only [putEntry]
    split
    · by_cases h : key = key' <;> simp [h]
    · split
      case isTrue eq =>
        by_cases h : key = key'
        · simp [h]
        · have : ¬e.1 = key' := fun he => h (eq.trans he)
          simp [h, this]
      case isFalse ne =>
        by_cases h : e.1 = key'
        · have : ¬key = key' := fun hk => ne (hk.trans h.symm)
          simp [h, this]
        · simpa [h] using ih

theorem get?_put (m : Metadata) (key value key' : String) :
    (m.put key value).get? key' = if key = key' then some value else m.get? key' :=
  find?_putEntry key value key' m.entries

end Metadata

end DurableBus
