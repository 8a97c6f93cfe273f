/-!
# Ordered entries

A map that remembers the order in which its keys came is a list of entries with one entry for each
key. Objects of a text format and the subqueries of a query are such maps. The operations keep the
order: a key that is put again keeps its place. Keys are texts in most maps, but nothing is asked of
them except that two keys can be compared.

## Main definitions

* `find?` looks a key up, `put` binds a key to a value, `erase` removes a key.

## Main results

* `find?_put`, `find?_erase`: what a look-up sees after an operation.
-/

namespace QueryComposer

/-- Entries whose keys are texts. -/
abbrev Entries (α : Type) := List (String × α)

namespace Entries

variable {κ α : Type}

/-- The keys in their order. -/
def keys (es : List (κ × α)) : List κ := es.map Prod.fst

variable [DecidableEq κ]

/-- The value of the first entry with the key. -/
def find? (key : κ) : List (κ × α) → Option α
  | [] => none
  | (k, a) :: es => if k = key then some a else find? key es

/-- Replaces the value at its place, or adds the entry at the end. -/
def put (key : κ) (value : α) : List (κ × α) → List (κ × α)
  | [] => [(key, value)]
  | (k, a) :: es => if k = key then (key, value) :: es else (k, a) :: put key value es

/-- Removes all entries with the key. -/
def erase (key : κ) (es : List (κ × α)) : List (κ × α) := es.filter fun e => e.1 ≠ key

theorem find?_put (key other : κ) (value : α) (es : List (κ × α)) :
    find? other (put key value es) = if key = other then some value else find? other es := by
  induction es with
  | nil => simp [put, find?]
  | cons e es ih =>
    obtain ⟨k, a⟩ := e
    by_cases hk : k = key <;> by_cases ho : key = other <;> grind [put, find?]

theorem find?_erase (key other : κ) (es : List (κ × α)) :
    find? other (erase key es) = if key = other then none else find? other es := by
  induction es with
  | nil => simp [erase, find?]
  | cons e es ih =>
    obtain ⟨k, a⟩ := e
    by_cases hk : k = key <;> by_cases ho : key = other <;> grind [erase, find?]

theorem mem_keys_iff (key : κ) (es : List (κ × α)) :
    key ∈ keys es ↔ (find? key es).isSome := by
  induction es with
  | nil => simp [keys, find?]
  | cons e es ih =>
    obtain ⟨k, a⟩ := e
    by_cases hk : k = key <;> grind [keys, find?]

end Entries

end QueryComposer
