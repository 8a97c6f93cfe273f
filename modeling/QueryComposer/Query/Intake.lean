import QueryComposer.Intake.Basic
import QueryComposer.Query.Basic

/-!
# Queries from data

A query is read from an object. Every field may be absent: an identifier is drawn then, and any
other field takes a value from a base. To read new data the base is a blank value; to read a change
of a value the base is the value itself, and the fields that are present replace its own. Entries
of other keys are ignored.

## Main definitions

* `Query.read` reads a query, `Pair.read`, `Condition.read`, `Join.read` and `SortKey.read` its
  parts.
* `Pair.ofFields` and its companions read over a base.
* `Query.start` gives a blank query.
-/

namespace QueryComposer

open Intake

/-- A pair over a base. -/
def Pair.ofFields (id : Intake String) (base : Pair) (es : List (String × Json)) : Intake Pair :=
  Pair.mk <$> field .id text id es
    <*> field .column text (done base.column) es
    <*> field .value text (done base.value) es

/-- A new pair. -/
def Pair.read : Json → Intake Pair := object .pair (Pair.ofFields fresh (Pair.blank ""))

/-- A condition over a base. A link may be null, for none. -/
def Condition.ofFields (id : Intake String) (base : Condition) (es : List (String × Json)) :
    Intake Condition :=
  Condition.mk <$> field .id text id es
    <*> field .column text (done base.column) es
    <*> field .operator (choice Operator) (done base.operator) es
    <*> field .value text (done base.value) es
    <*> field .gate (choice Gate) (done base.gate) es
    <*> field .subqueryId optionalText (done base.subqueryId) es

/-- A new condition. -/
def Condition.read : Json → Intake Condition :=
  object .condition (Condition.ofFields fresh (Condition.blank ""))

/-- A join over a base. -/
def Join.ofFields (id : Intake String) (base : Join) (es : List (String × Json)) : Intake Join :=
  Join.mk <$> field .id text id es
    <*> field .kind (choice JoinKind) (done base.kind) es
    <*> field .table text (done base.table) es
    <*> field .left text (done base.left) es
    <*> field .right text (done base.right) es

/-- A new join. -/
def Join.read : Json → Intake Join := object .join (Join.ofFields fresh (Join.blank ""))

/-- A sort key over a base. -/
def SortKey.ofFields (id : Intake String) (base : SortKey) (es : List (String × Json)) :
    Intake SortKey :=
  SortKey.mk <$> field .id text id es
    <*> field .column text (done base.column) es
    <*> field .direction (choice Direction) (done base.direction) es

/-- A new sort key. -/
def SortKey.read : Json → Intake SortKey :=
  object .sortKey (SortKey.ofFields fresh (SortKey.blank ""))

namespace Query

/-- All fields but the subqueries, which are read apart. -/
def ofFields (id : Intake String) (base : Query) (subqueries : Intake (List (String × Query)))
    (es : List (String × Json)) : Intake Query :=
  Query.mk <$> field .id text id es
    <*> field .operation (choice Operation) (done base.operation) es
    <*> field .table text (done base.table) es
    <*> field .columns text (done base.columns) es
    <*> field .pairs (items Pair.read) (done base.pairs) es
    <*> field .conditions (items Condition.read) (done base.conditions) es
    <*> field .joins (items Join.read) (done base.joins) es
    <*> field .sortKeys (items SortKey.read) (done base.sortKeys) es
    <*> field .limit text (done base.limit) es
    <*> subqueries

mutual

/-- A query with all that is below it. A selection is what a query is by default. -/
def read : Json → Intake Query
  | .object es =>
    ofFields fresh (bare "" .select)
      ((readUnder? Field.subqueries.key es <|> readUnder? Field.subqueries.altKey es).getD
        (done [])) es
  | _ => fail (.notModel .query)

/-- The subqueries under a key, if the key is there. -/
def readUnder? (key : String) : List (String × Json) → Option (Intake (List (String × Query)))
  | [] => none
  | (k, v) :: es => if k = key then some ((readMap v).under (.key key)) else readUnder? key es

/-- The subqueries of an object, under its keys. -/
def readMap : Json → Intake (List (String × Query))
  | .object es => readEntries es
  | _ => fail .notMap

/-- The subqueries of entries. Their keys are taken as they are, whatever identifiers the subqueries
have. -/
def readEntries : List (String × Json) → Intake (List (String × Query))
  | [] => done []
  | (k, v) :: es => (fun q qs => (k, q) :: qs) <$> (read v).under (.key k) <*> readEntries es

end

theorem readUnder?_eq (key : String) (es : List (String × Json)) :
    readUnder? key es = (Entries.find? key es).map fun v => (readMap v).under (.key key) := by
  induction es with
  | nil => rfl
  | cons e es ih =>
    obtain ⟨k, v⟩ := e
    by_cases h : k = key <;> simp [readUnder?, Entries.find?, h, ih]

/-- The subqueries are read as every other field is. -/
theorem read_object (es : List (String × Json)) :
    read (.object es) =
      ofFields fresh (bare "" .select) (field .subqueries readMap (done []) es) es := by
  rw [read, readUnder?_eq, readUnder?_eq, field, Field.find?]
  cases Entries.find? Field.subqueries.key es with
  | some v => rfl
  | none => cases Entries.find? Field.subqueries.altKey es <;> rfl

/-- A blank query of the operation that is named, a selection where none is. -/
def start (operation : Option Json) : Intake Query :=
  match operation with
  | some v => thenDraw ((choice Operation v).under (.key Field.operation.key)) blank
  | none => .ok (blank .select)

end Query

end QueryComposer
