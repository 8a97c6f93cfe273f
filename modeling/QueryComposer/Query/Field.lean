import QueryComposer.Entries
import QueryComposer.Json.Basic

/-!
# Fields

The values of this library are written as objects, one entry for each field. Some fields go by two
names: the key that is written, and a second one that is read as well. Where both stand in one
object the written one counts.

## Main definitions

* `Field.find?` looks a field up under either name.
* The fields of queries and of the documents that hold them.

## Main results

* `Field.find?_eq_some`, `Field.find?_eq_none_iff`: what a look-up says about the object.
-/

namespace QueryComposer

/-- The key under which a field is written, and the one that is read as well. -/
structure Field where
  key : String
  altKey : String
deriving DecidableEq, Repr

namespace Field

/-- The key under which a field stands in an object, and its value. -/
def find? (f : Field) (es : List (String × Json)) : Option (String × Json) :=
  match Entries.find? f.key es with
  | some v => some (f.key, v)
  | none => (Entries.find? f.altKey es).map fun v => (f.altKey, v)

/-- What is found stands under one of the two names. -/
theorem find?_eq_some {f : Field} {es : List (String × Json)} {k : String} {v : Json}
    (h : f.find? es = some (k, v)) :
    (k = f.key ∨ k = f.altKey) ∧ Entries.find? k es = some v := by
  rw [find?] at h
  cases hkey : Entries.find? f.key es with
  | some w =>
    rw [hkey] at h
    cases h
    exact ⟨.inl rfl, hkey⟩
  | none =>
    rw [hkey] at h
    obtain ⟨w, hw, heq⟩ := Option.map_eq_some_iff.mp h
    cases heq
    exact ⟨.inr rfl, hw⟩

theorem find?_eq_none_iff {f : Field} {es : List (String × Json)} :
    f.find? es = none ↔ Entries.find? f.key es = none ∧ Entries.find? f.altKey es = none := by
  rw [find?]
  cases Entries.find? f.key es <;> simp

/-- A field with one name. -/
def plain (key : String) : Field := ⟨key, key⟩

/-! ### Queries and their parts -/

/-- The identifier of a query or of a part. -/
def id : Field := plain "id"

/-- The column of a pair, a condition or a sort key. -/
def column : Field := plain "column"

/-- The value of a pair or a condition. -/
def value : Field := plain "value"

/-- The operator of a condition. -/
def operator : Field := plain "operator"

/-- The gate of a condition. -/
def gate : Field := plain "logic"

/-- The link of a condition. -/
def subqueryId : Field := ⟨"subQueryId", "sub_query_id"⟩

/-- The kind of a join. -/
def kind : Field := plain "type"

/-- The table of a query or a join. -/
def table : Field := plain "table"

/-- The left column of a join. -/
def left : Field := ⟨"onLeft", "on_left"⟩

/-- The right column of a join. -/
def right : Field := ⟨"onRight", "on_right"⟩

/-- The direction of a sort key. -/
def direction : Field := plain "direction"

/-- The operation of a query. -/
def operation : Field := plain "operation"

/-- The columns of a selection, in one text. -/
def columns : Field := ⟨"selectColumns", "select_columns"⟩

/-- The pairs of a query. -/
def pairs : Field := plain "pairs"

/-- The conditions of a query. -/
def conditions : Field := plain "conditions"

/-- The joins of a query. -/
def joins : Field := plain "joins"

/-- The sort keys of a query. -/
def sortKeys : Field := ⟨"orderBy", "order_by"⟩

/-- The number of rows, as a text. -/
def limit : Field := plain "limit"

/-- The subqueries of a query, an object with one entry for each. -/
def subqueries : Field := ⟨"subQueries", "sub_queries"⟩

/-! ### Documents -/

/-- The display name of a document. -/
def name : Field := plain "name"

/-- The time at which a document was made. -/
def createdAt : Field := ⟨"createdAt", "created_at"⟩

/-- The time at which a document was last changed. -/
def updatedAt : Field := ⟨"updatedAt", "updated_at"⟩

/-- The format of a document. -/
def schema : Field := ⟨"$schema", "schema_id"⟩

/-- The information of a document. -/
def info : Field := plain "meta"

/-- The query of a document. -/
def root : Field := plain "root"

end Field

end QueryComposer
