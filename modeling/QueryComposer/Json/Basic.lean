import QueryComposer.Json.Number

/-!
# Values of the interchange format

A value is null, a truth value, a number, a text, a list, or an object whose entries keep the order
in which their keys first came.

## Main definitions

* `Json` is the type of values.
* `Json.isFalsy` holds of the values that stand for "nothing given".
-/

namespace QueryComposer

/-- A value of the interchange format. -/
inductive Json where
  | null
  | bool (value : Bool)
  | number (value : Json.Number)
  | string (value : String)
  | array (items : List Json)
  | object (entries : List (String × Json))
deriving Repr, Inhabited

/-- Null, false, a number that reads as zero, and the empty text, list and object. -/
def Json.isFalsy : Json → Bool
  | .null => true
  | .bool b => !b
  | .number n => n.isZero
  | .string s => s = ""
  | .array items => items.isEmpty
  | .object entries => entries.isEmpty

end QueryComposer
