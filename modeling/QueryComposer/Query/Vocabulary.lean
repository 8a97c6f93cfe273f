/-!
# The vocabulary of queries

The words a query chooses from: the operation, the comparison of a condition, the gate between two
conditions, the kind of a join and the direction of a sort. Each is a finite type whose values have
names, listed in the order in which the choices are offered.

## Main definitions

* `Choice` is the class of such types, and `Choice.ofName?` finds a value by its name.
* `Operator.isNullTest`, `Operator.isExistence` and `Operator.takesQuery` sort the operators by the
  operand they have.
-/

namespace QueryComposer

/-- Finitely many values, each with a name of its own. -/
class Choice (α : Type) where
  all : List α
  name : α → String

/-- The value of that name, if there is one. -/
def Choice.ofName? {α : Type} [Choice α] (s : String) : Option α :=
  (Choice.all : List α).find? fun a => Choice.name a = s

theorem Choice.name_of_ofName? {α : Type} [Choice α] {s : String} {a : α}
    (h : Choice.ofName? s = some a) : Choice.name a = s := by
  simpa using List.find?_some h

/-- What a query does with its table. -/
inductive Operation where
  | select
  | insert
  | update
  | delete
deriving DecidableEq, Repr, Inhabited

instance : Choice Operation where
  all := [.select, .insert, .update, .delete]
  name
    | .select => "SELECT"
    | .insert => "INSERT"
    | .update => "UPDATE"
    | .delete => "DELETE"

/-- How a condition compares its column. -/
inductive Operator where
  | equal
  | notEqual
  | greater
  | less
  | atLeast
  | atMost
  | like
  | among
  | notAmong
  | isNull
  | isNotNull
  | existing
  | notExisting
deriving DecidableEq, Repr, Inhabited

instance : Choice Operator where
  all := [.equal, .notEqual, .greater, .less, .atLeast, .atMost, .like, .among, .notAmong, .isNull,
    .isNotNull, .existing, .notExisting]
  name
    | .equal => "="
    | .notEqual => "!="
    | .greater => ">"
    | .less => "<"
    | .atLeast => ">="
    | .atMost => "<="
    | .like => "LIKE"
    | .among => "IN"
    | .notAmong => "NOT IN"
    | .isNull => "IS NULL"
    | .isNotNull => "IS NOT NULL"
    | .existing => "EXISTS"
    | .notExisting => "NOT EXISTS"

namespace Operator

/-- The operator has no operand. -/
def isNullTest : Operator → Bool
  | .isNull | .isNotNull => true
  | _ => false

/-- The operator has no column. -/
def isExistence : Operator → Bool
  | .existing | .notExisting => true
  | _ => false

/-- The operand is usually a query. -/
def takesQuery : Operator → Bool
  | .among | .notAmong | .existing | .notExisting => true
  | _ => false

end Operator

/-- How a condition goes together with those before it. -/
inductive Gate where
  | and
  | or
deriving DecidableEq, Repr, Inhabited

instance : Choice Gate where
  all := [.and, .or]
  name
    | .and => "AND"
    | .or => "OR"

/-- Which rows a join keeps that have no partner. -/
inductive JoinKind where
  | inner
  | left
  | right
  | fullOuter
deriving DecidableEq, Repr, Inhabited

instance : Choice JoinKind where
  all := [.inner, .left, .right, .fullOuter]
  name
    | .inner => "INNER"
    | .left => "LEFT"
    | .right => "RIGHT"
    | .fullOuter => "FULL OUTER"

/-- The direction of a sort. -/
inductive Direction where
  | ascending
  | descending
deriving DecidableEq, Repr, Inhabited

instance : Choice Direction where
  all := [.ascending, .descending]
  name
    | .ascending => "ASC"
    | .descending => "DESC"

end QueryComposer
