import QueryComposer.Edit.Error
import QueryComposer.Query.Intake

/-!
# Edits of the parts of a query

Pairs, conditions, joins and sort keys are edited in the same way: a part is named by its
identifier, and a change gives new values for some of its fields. Identifiers need not be unique in
a list, so an edit reaches every part with the identifier.

## Main definitions

* `Part` is the class of the four kinds of parts.
* `Part.update` changes the parts with an identifier, `Part.remove` takes them away.
-/

namespace QueryComposer

/-- What the edits of a list need to know about its parts. A change names a field by the second of
its two names. -/
class Part (α : Type) where
  entity : Entity
  model : Model
  id : α → String
  fields : List Field
  revise : α → List (String × Json) → Intake α

instance : Part Pair where
  entity := .pair
  model := .pair
  id := Pair.id
  fields := [.id, .column, .value]
  revise p := Pair.ofFields (.done p.id) p

instance : Part Condition where
  entity := .condition
  model := .condition
  id := Condition.id
  fields := [.id, .column, .operator, .value, .gate, .subqueryId]
  revise c := Condition.ofFields (.done c.id) c

instance : Part Join where
  entity := .join
  model := .join
  id := Join.id
  fields := [.id, .kind, .table, .left, .right]
  revise j := Join.ofFields (.done j.id) j

instance : Part SortKey where
  entity := .sortKey
  model := .sortKey
  id := SortKey.id
  fields := [.id, .column, .direction]
  revise s := SortKey.ofFields (.done s.id) s

/-- The value of what was read, or the edit fails with the issues. -/
def EditError.ofIntake {α : Type} (model : Model) (x : Intake α) : Except EditError α :=
  match x.value with
  | .ok a => .ok a
  | .error issues => .error (.invalid model issues)

/-- The names of a change that no field has. -/
def strangeNames (fields : List Field) (changes : List (String × Json)) : List String :=
  (Entries.keys changes).filter fun k => k ∉ fields.map Field.altKey

namespace Part

variable {α : Type} [Part α]

/-- The error that there is no part with the identifier. -/
def notFound (α : Type) [Part α] (id : String) : EditError := .notFound (entity α) id

/-- The part with new values for some of its fields. -/
def change (changes : List (String × Json)) (a : α) : Except EditError α :=
  match strangeNames (fields α) changes with
  | [] => EditError.ofIntake (model α) (revise a changes)
  | names => .error (.unknownFields (model α) names)

/-- Changes every part with the identifier, and keeps the others. -/
def update (id : String) (changes : List (String × Json)) (parts : List α) :
    Except EditError (List α) :=
  if (Entries.find? Field.id.altKey changes).isSome then .error (.idIsFixed (entity α))
  else if parts.any fun a => Part.id a = id then
    parts.mapM fun a => if Part.id a = id then change changes a else .ok a
  else .error (notFound α id)

/-- Removes every part with the identifier. -/
def remove (id : String) (parts : List α) : Except EditError (List α) :=
  if parts.any fun a => Part.id a = id then .ok (parts.filter fun a => Part.id a ≠ id)
  else .error (notFound α id)

/-- The first part with the identifier. -/
def find (id : String) (parts : List α) : Except EditError α :=
  match parts.find? fun a => Part.id a = id with
  | some a => .ok a
  | none => .error (notFound α id)

end Part

end QueryComposer
