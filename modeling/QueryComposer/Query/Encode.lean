import QueryComposer.Query.Basic
import QueryComposer.Query.Field

/-!
# Queries as objects

A query is written with all of its fields, under their first names and always in the same order. A
condition without a subquery leaves that field out.

## Main definitions

* `Query.toJson` writes a query, `Pair.toJson`, `Condition.toJson`, `Join.toJson` and
  `SortKey.toJson` its parts.
-/

namespace QueryComposer

/-- The entry of a field with a text. -/
def Field.text (f : Field) (s : String) : String × Json := (f.key, .string s)

/-- The entry of a field with a choice, which is written by its name. -/
def Field.choice {α : Type} [Choice α] (f : Field) (a : α) : String × Json :=
  (f.key, .string (Choice.name a))

/-- The object of a pair. -/
def Pair.toJson (p : Pair) : Json :=
  .object [Field.id.text p.id, Field.column.text p.column, Field.value.text p.value]

/-- The object of a condition, with a link only if there is one. -/
def Condition.toJson (c : Condition) : Json :=
  .object ([Field.id.text c.id, Field.column.text c.column, Field.operator.choice c.operator,
    Field.value.text c.value, Field.gate.choice c.gate] ++
      (c.subqueryId.map Field.subqueryId.text).toList)

/-- The object of a join. -/
def Join.toJson (j : Join) : Json :=
  .object [Field.id.text j.id, Field.kind.choice j.kind, Field.table.text j.table,
    Field.left.text j.left, Field.right.text j.right]

/-- The object of a sort key. -/
def SortKey.toJson (s : SortKey) : Json :=
  .object [Field.id.text s.id, Field.column.text s.column, Field.direction.choice s.direction]

namespace Query

mutual

/-- The object of a query. -/
def toJson : Query → Json
  | ⟨id, operation, table, columns, pairs, conditions, joins, sortKeys, limit, subqueries⟩ =>
    .object [Field.id.text id, Field.operation.choice operation, Field.table.text table,
      Field.columns.text columns, (Field.pairs.key, .array (pairs.map Pair.toJson)),
      (Field.conditions.key, .array (conditions.map Condition.toJson)),
      (Field.joins.key, .array (joins.map Join.toJson)),
      (Field.sortKeys.key, .array (sortKeys.map SortKey.toJson)), Field.limit.text limit,
      (Field.subqueries.key, .object (entriesToJson subqueries))]

/-- The objects of subqueries, under their keys. -/
def entriesToJson : List (String × Query) → List (String × Json)
  | [] => []
  | (k, q) :: es => (k, toJson q) :: entriesToJson es

end

theorem entriesToJson_eq (es : List (String × Query)) :
    entriesToJson es = es.map fun e => (e.1, e.2.toJson) := by
  induction es with
  | nil => rfl
  | cons e es ih => simp [entriesToJson, ih]

end Query

end QueryComposer
