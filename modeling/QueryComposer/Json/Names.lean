import QueryComposer.Text.Units

/-!
# The names of keys

The keys of an object are told apart as they were written, lone halves included, while an object
holds names without such halves. A key without lone halves is its own name. Any other key goes by
the text that it is shown as, and by a longer one if that name is taken: so an object has as many
entries as it was written with different keys, and only the names of keys that are no texts are
made up.

## Main definitions

* `named` gives the entries of an object their names.
-/

namespace QueryComposer.Json

open Text

/-- The length of the longest of these names. -/
def longestName (names : List String) : Nat := (names.map String.length).foldr max 0

/-- The name, made longer than all that are taken if it is taken itself. -/
def freeName (taken : List String) (name : String) : String :=
  if name ∈ taken then
    name ++ String.ofList (List.replicate (longestName taken + 1) replacement)
  else name

/-- The name of a key, where these are taken. -/
def nameOf (taken : List String) (key : Wide) : String :=
  if key.isWhole then key.shown else freeName taken key.shown

/-- The entries with their names, given in turn. -/
def nameEntries {α : Type} (taken : List String) : List (Wide × α) → List (String × α)
  | [] => []
  | (key, a) :: es =>
    let name := nameOf taken key
    (name, a) :: nameEntries (name :: taken) es

/-- The names that are texts already. They are taken from the start. -/
def wholeNames {α : Type} (es : List (Wide × α)) : List String :=
  ((es.map Prod.fst).filter Wide.isWhole).map Wide.shown

/-- The entries of an object under the names of their keys. -/
def named {α : Type} (es : List (Wide × α)) : List (String × α) := nameEntries (wholeNames es) es

end QueryComposer.Json
