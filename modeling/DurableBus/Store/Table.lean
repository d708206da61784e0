/-!
# Tables

A finite map kept as a list of rows with distinct keys, in the order in which the keys were first written.
`get?_put`, `get?_erase` and `get?_retain` say what each operation does to a lookup.
-/

set_option autoImplicit false

namespace DurableBus

/-- Rows under distinct keys. -/
structure Table (κ α : Type) where
  rows : List (κ × α)
  distinct : rows.Pairwise (·.1 ≠ ·.1)

namespace Table

variable {κ α : Type} [DecidableEq κ]

def empty : Table κ α := ⟨[], .nil⟩

instance : Inhabited (Table κ α) := ⟨empty⟩

def get? (t : Table κ α) (key : κ) : Option α :=
  (t.rows.find? (·.1 = key)).map (·.2)

/-- Writes a row in the place of an earlier one with that key, or behind all others. -/
def putRow (key : κ) (value : α) : List (κ × α) → List (κ × α)
  | [] => [(key, value)]
  | r :: rest => if r.1 = key then (key, value) :: rest else r :: putRow key value rest

theorem mem_putRow {key : κ} {value : α} {rows : List (κ × α)} {r : κ × α} (h : r ∈ putRow key value rows) :
    r = (key, value) ∨ r ∈ rows := by
  induction rows with
  | nil => simpa [putRow] using h
  | cons r' rest ih =>
    simp only [putRow] at h
    split at h
    · simp only [List.mem_cons] at h ⊢
      exact h.imp_right .inr
    · simp only [List.mem_cons] at h ⊢
      rcases h with h | h
      · exact .inr (.inl h)
      · exact (ih h).imp_right .inr

theorem pairwise_putRow (key : κ) (value : α) {rows : List (κ × α)} (h : rows.Pairwise (·.1 ≠ ·.1)) :
    (putRow key value rows).Pairwise (·.1 ≠ ·.1) := by
  induction rows with
  | nil => simp [putRow]
  | cons r rest ih =>
    obtain ⟨head, tail⟩ := List.pairwise_cons.1 h
    simp only [putRow]
    split
    case isTrue eq => exact List.pairwise_cons.2 ⟨fun r' hr' => eq ▸ head r' hr', tail⟩
    case isFalse ne =>
      refine List.pairwise_cons.2 ⟨fun r' hr' => ?_, ih tail⟩
      rcases mem_putRow hr' with rfl | hr'
      · exact ne
      · exact head r' hr'

def put (t : Table κ α) (key : κ) (value : α) : Table κ α :=
  ⟨putRow key value t.rows, pairwise_putRow key value t.distinct⟩

/-- The table with only the rows that are to be kept. -/
def retain (t : Table κ α) (keep : κ → α → Bool) : Table κ α :=
  ⟨t.rows.filter fun r => keep r.1 r.2, t.distinct.filter _⟩

def erase (t : Table κ α) (key : κ) : Table κ α :=
  t.retain fun k _ => k ≠ key

theorem find?_putRow (key : κ) (value : α) (key' : κ) (rows : List (κ × α)) :
    ((putRow key value rows).find? (·.1 = key')).map (·.2) =
      if key = key' then some value else (rows.find? (·.1 = key')).map (·.2) := by
  induction rows with
  | nil => by_cases h : key = key' <;> simp [putRow, h]
  | cons r rest ih =>
    simp only [putRow]
    split
    case isTrue eq => by_cases h : key = key' <;> simp [eq, h]
    case isFalse ne =>
      by_cases h : r.1 = key'
      · have : ¬key = key' := fun hk => ne (h.trans hk.symm)
        simp [h, this]
      · simpa [h] using ih

theorem get?_put (t : Table κ α) (key : κ) (value : α) (key' : κ) :
    (t.put key value).get? key' = if key = key' then some value else t.get? key' :=
  find?_putRow key value key' t.rows

theorem get?_retain (t : Table κ α) (keep : κ → α → Bool) (key : κ) :
    (t.retain keep).get? key = (t.get? key).filter (keep key) := by
  obtain ⟨rows, distinct⟩ := t
  simp only [get?, retain]
  induction rows with
  | nil => rfl
  | cons r rest ih =>
    obtain ⟨head, tail⟩ := List.pairwise_cons.1 distinct
    by_cases h : r.1 = key
    · subst h
      have absent : rest.find? (fun r' => decide (r'.1 = r.1)) = none := by
        simp only [List.find?_eq_none, decide_eq_true_eq]
        exact fun r' hr' he => head r' hr' he.symm
      by_cases hk : keep r.1 r.2
      · simp [hk, Option.filter]
      · have gone : ∀ (a : κ) (b : α), (a, b) ∈ rest → keep a b = true → ¬ a = r.1 :=
          fun a b h _ e => head (a, b) h e.symm
        simpa [hk, Option.filter] using gone
    · by_cases hk : keep r.1 r.2
      · simpa [hk, h] using ih tail
      · simpa [hk, h] using ih tail

theorem get?_erase (t : Table κ α) (key key' : κ) :
    (t.erase key).get? key' = if key' = key then none else t.get? key' := by
  rw [erase, get?_retain]
  by_cases h : key' = key
  · subst h
    cases t.get? key' <;> simp [Option.filter]
  · cases t.get? key' <;> simp [Option.filter, h]

end Table

end DurableBus
