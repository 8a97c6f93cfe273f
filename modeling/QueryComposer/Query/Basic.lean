import QueryComposer.Entries
import QueryComposer.Query.Vocabulary
import QueryComposer.Supply

/-!
# Queries

A query is an operation on a table with the parts that the operation may use. All texts are as
somebody typed them, empty where nothing was typed yet. The operand of a condition may be another
query: such subqueries are kept by identifier in the query that owns the condition, so queries form
a tree.

## Main definitions

* `Query` is the tree, with its parts `Pair`, `Condition`, `Join` and `SortKey`.
* `Query.blank` is the query to start from.
* `Query.count` is the number of queries below a query.

## Main results

* `Query.induct`: a property holds of every query if it passes from the subqueries to the query.
-/

namespace QueryComposer

/-- A column and the value it gets. -/
structure Pair where
  id : String
  column : String
  value : String
deriving DecidableEq, Repr, Inhabited

/-- One term of the filter. The column means nothing to an existence test, the gate nothing to the
first term, and the value nothing where `subqueryId` leads to a subquery. -/
structure Condition where
  id : String
  column : String
  operator : Operator
  value : String
  gate : Gate
  subqueryId : Option String
deriving DecidableEq, Repr, Inhabited

/-- A join on the equality of two columns. -/
structure Join where
  id : String
  kind : JoinKind
  table : String
  left : String
  right : String
deriving DecidableEq, Repr, Inhabited

/-- A column that the rows are sorted by, and the direction. -/
structure SortKey where
  id : String
  column : String
  direction : Direction
deriving DecidableEq, Repr, Inhabited

/-- A query. What its operation has no use for is kept all the same, and so are subqueries that no
condition leads to. -/
structure Query where
  id : String
  operation : Operation
  table : String
  columns : String
  pairs : List Pair
  conditions : List Condition
  joins : List Join
  sortKeys : List SortKey
  limit : String
  subqueries : List (String × Query)
deriving Repr, Inhabited

/-! ### Blank parts -/

/-- A pair with nothing filled in. -/
def Pair.blank (id : String) : Pair := ⟨id, "", ""⟩

/-- A condition with nothing filled in, which compares with an empty value. -/
def Condition.blank (id : String) : Condition := ⟨id, "", .equal, "", .and, none⟩

/-- A join with nothing filled in. -/
def Join.blank (id : String) : Join := ⟨id, .inner, "", "", ""⟩

/-- A sort key with nothing filled in. -/
def SortKey.blank (id : String) : SortKey := ⟨id, "", .ascending⟩

/-- A query with nothing filled in and no parts. -/
def Query.bare (id : String) (operation : Operation) : Query :=
  ⟨id, operation, "", "*", [], [], [], [], "", []⟩

/-- A query with nothing filled in and one blank pair, whose identifier is drawn first. -/
def Query.blank (operation : Operation) : Draw Query := do
  let pairId ← Draw.fresh
  let id ← Draw.fresh
  pure { Query.bare id operation with pairs := [Pair.blank pairId] }

/-! ### Links -/

/-- The identifier of the subquery that the condition asks for. An empty one asks for none. -/
def Condition.link? (c : Condition) : Option String := c.subqueryId.filter (· ≠ "")

namespace Query

/-- The subquery that a condition leads to. -/
def operand? (q : Query) (c : Condition) : Option Query :=
  c.link?.bind fun key => Entries.find? key q.subqueries

/-- The query reached by following identifiers of subqueries. -/
def at? (q : Query) : List String → Option Query
  | [] => some q
  | key :: path => (Entries.find? key q.subqueries).bind fun child => child.at? path

/-! ### Counting -/

mutual

/-- The number of queries below this one. -/
def count : Query → Nat
  | ⟨_, _, _, _, _, _, _, _, _, subqueries⟩ => countAll subqueries

/-- The number of queries among these and below them. -/
def countAll : List (String × Query) → Nat
  | [] => 0
  | (_, q) :: es => 1 + count q + countAll es

end

theorem count_eq (q : Query) :
    q.count = q.subqueries.foldr (fun e n => 1 + e.2.count + n) 0 := by
  have all : ∀ es : List (String × Query),
      countAll es = es.foldr (fun e n => 1 + e.2.count + n) 0 := by
    intro es
    induction es with
    | nil => rfl
    | cons e es ih => simp [countAll, ih]
  cases q
  exact all _

/-! ### Induction -/

theorem sizeOf_lt_of_mem {q : Query} {e : String × Query} (h : e ∈ q.subqueries) :
    sizeOf e.2 < sizeOf q := by
  obtain ⟨k, child⟩ := e
  cases q
  have := List.sizeOf_lt_of_mem h
  simp only [Query.mk.sizeOf_spec, Prod.mk.sizeOf_spec] at this ⊢
  omega

/-- A property that passes from the subqueries of a query to the query holds everywhere. -/
theorem induct {motive : Query → Prop}
    (step : ∀ q, (∀ e ∈ q.subqueries, motive e.2) → motive q) (q : Query) : motive q :=
  step q fun e _ => induct step e.2
termination_by sizeOf q
decreasing_by exact sizeOf_lt_of_mem ‹_›

/-! ### Decidable equality -/

mutual

/-- Equality of queries is decided field by field, and by recursion for subqueries. -/
def decEq : (a b : Query) → Decidable (a = b)
  | ⟨i, o, t, c, ps, cs, js, ss, l, qs⟩, ⟨i', o', t', c', ps', cs', js', ss', l', qs'⟩ =>
    match decEqEntries qs qs' with
    | .isFalse h => .isFalse fun e => h (Query.mk.inj e).2.2.2.2.2.2.2.2.2
    | .isTrue h =>
      if h' : i = i' ∧ o = o' ∧ t = t' ∧ c = c' ∧ ps = ps' ∧ cs = cs' ∧ js = js' ∧ ss = ss' ∧ l = l'
      then .isTrue (by simp [h, h'])
      else .isFalse fun e => h' (by simp_all)

/-- Equality of lists of subqueries. -/
def decEqEntries : (as bs : List (String × Query)) → Decidable (as = bs)
  | [], [] => .isTrue rfl
  | [], _ :: _ => .isFalse nofun
  | _ :: _, [] => .isFalse nofun
  | (k, a) :: as, (l, b) :: bs =>
    match decEq a b, decEqEntries as bs with
    | .isTrue h, .isTrue h' =>
      if hk : k = l then .isTrue (by rw [h, h', hk]) else .isFalse fun e => hk (by simp_all)
    | .isFalse h, _ => .isFalse fun e => h (by simp_all)
    | _, .isFalse h => .isFalse fun e => h (by simp_all)

end

instance : DecidableEq Query := decEq

end Query

end QueryComposer
