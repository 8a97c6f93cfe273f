import QueryComposer.Query.Basic
import QueryComposer.Text.Blank

/-!
# The statement of a query

A query is laid out as one statement, clause by clause, each clause on a line of its own. A query
that lacks its table or all of its columns has no statement yet and shows a placeholder instead, a
comment that says what to fill in. Parts that are not filled in yet are left out.

Values stand between single quotes exactly as they were typed.

## Main definitions

* `Query.placeholder?` says what a query shows in place of a statement.
* `Query.body` is the statement without its semicolon, or the placeholder.
* `Query.sql` is the whole text at a level of nesting.

## Implementation notes

Levels are integers, and a level below zero has no indent. A subquery is laid out two levels further
in than the condition it belongs to, and its parentheses one level. Its first line gets the indent
from the parentheses, so the first line of a body never has one of its own.

The bodies of subqueries come in through a function from identifiers, which keeps the layout of one
statement apart from the recursion over the tree (`Query.body_eq`).
-/

namespace QueryComposer

/-! ### Pieces -/

/-- Two spaces for each level above zero. -/
def indent (level : Int) : List Char := List.replicate (2 * level.toNat) ' '

/-- A line end, and the indent of the next line. -/
def newLine (level : Int) : List Char := '\n' :: indent level

/-- A value between single quotes, which are not doubled inside. -/
def literal (value : String) : List Char := '\x27' :: value.toList ++ ['\x27']

/-- The name of a choice. -/
def named {α : Type} [Choice α] (a : α) : List Char := (Choice.name a).toList

/-- A pair is filled in as soon as it has a column. Its value may be empty. -/
def Pair.isFilled (p : Pair) : Bool := p.column ≠ ""

/-- A join is filled in with its table and both of its columns. -/
def Join.isFilled (j : Join) : Bool := j.table ≠ "" && j.left ≠ "" && j.right ≠ ""

/-- A sort key is filled in with its column. -/
def SortKey.isFilled (s : SortKey) : Bool := s.column ≠ ""

/-! ### Clauses -/

/-- The pair as an assignment. -/
def Pair.assignment (p : Pair) : List Char := p.column.toList ++ " = ".toList ++ literal p.value

/-- The join on a line of its own. -/
def Join.clause (level : Int) (j : Join) : List Char :=
  newLine level ++ named j.kind ++ " JOIN ".toList ++ j.table.toList ++ " ON ".toList ++
    j.left.toList ++ " = ".toList ++ j.right.toList

/-- The column and the direction. -/
def SortKey.term (s : SortKey) : List Char := s.column.toList ++ ' ' :: named s.direction

/-- A subquery in parentheses, below a condition at this level. -/
def parenthesized (level : Int) (body : List Char) : List Char :=
  '(' :: newLine (level + 2) ++ body ++ newLine (level + 1) ++ [')']

/-- The subquery that the condition leads to, or else its value. -/
def Condition.operandText (level : Int) (body? : String → Option (List Char)) (c : Condition) :
    List Char :=
  match c.link?.bind body? with
  | some body => parenthesized level body
  | none => literal c.value

/-- The column of the condition, or a word in its place. -/
def Condition.columnText (c : Condition) : List Char :=
  if c.column = "" then "column".toList else c.column.toList

/-- The condition without its gate: a column, an operator and an operand, of which an existence test
has no column and a null test no operand. -/
def Condition.term (level : Int) (body? : String → Option (List Char)) (c : Condition) :
    List Char :=
  if c.operator.isExistence then named c.operator ++ ' ' :: c.operandText level body?
  else if c.operator.isNullTest then c.columnText ++ ' ' :: named c.operator
  else c.columnText ++ ' ' :: named c.operator ++ ' ' :: c.operandText level body?

/-- The conditions in a chain, each but the first on a line of its own behind its gate. -/
def whereClause (level : Int) (body? : String → Option (List Char)) : List Condition → List Char
  | [] => []
  | c :: cs =>
    newLine level ++ "WHERE ".toList ++ c.term level body? ++
      cs.flatMap fun c => newLine (level + 1) ++ named c.gate ++ ' ' :: c.term level body?

/-- The parts with commas between them. -/
def commaList (parts : List (List Char)) : List Char := List.intercalate ", ".toList parts

/-- The order of the rows, if any column is given for it. -/
def orderClause (level : Int) (sortKeys : List SortKey) : List Char :=
  match sortKeys.filter SortKey.isFilled with
  | [] => []
  | keys => newLine level ++ "ORDER BY ".toList ++ commaList (keys.map SortKey.term)

/-- The number of rows, if one is given. -/
def limitClause (level : Int) (limit : String) : List Char :=
  if limit = "" then [] else newLine level ++ "LIMIT ".toList ++ limit.toList

namespace Query

/-! ### Statements -/

/-- The pairs that are laid out. -/
def filledPairs (q : Query) : List Pair := q.pairs.filter Pair.isFilled

/-- The columns of a selection, all of them where none are given. -/
def selection (q : Query) : List Char :=
  match Text.trim q.columns.toList with
  | [] => ['*']
  | cs => cs

/-- What the query shows while it has no statement. -/
def placeholder? (q : Query) : Option String :=
  if q.table = "" then some "-- Please fill in the table name"
  else if q.filledPairs = [] then
    match q.operation with
    | .insert => some "-- Add at least one column"
    | .update => some "-- Add at least one SET column"
    | _ => none
  else none

/-- A selection, with all the clauses that it may have. -/
def selectText (q : Query) (level : Int) (body? : String → Option (List Char)) : List Char :=
  "SELECT ".toList ++ q.selection ++ newLine level ++ "FROM ".toList ++ q.table.toList ++
    (q.joins.filter Join.isFilled).flatMap (Join.clause level) ++
    whereClause level body? q.conditions ++ orderClause level q.sortKeys ++
    limitClause level q.limit

/-- An insertion is never nested, so it takes no indent. -/
def insertText (q : Query) : List Char :=
  "INSERT INTO ".toList ++ q.table.toList ++ " (".toList ++
    commaList (q.filledPairs.map fun p => p.column.toList) ++ ")\nVALUES (".toList ++
    commaList (q.filledPairs.map fun p => literal p.value) ++ [')']

/-- A change of rows, with one assignment on each line. -/
def updateText (q : Query) (level : Int) (body? : String → Option (List Char)) : List Char :=
  "UPDATE ".toList ++ q.table.toList ++ newLine level ++ "SET".toList ++
    List.intercalate [','] (q.filledPairs.map fun p => newLine (level + 1) ++ p.assignment) ++
    whereClause level body? q.conditions

/-- A deletion of rows. -/
def deleteText (q : Query) (level : Int) (body? : String → Option (List Char)) : List Char :=
  "DELETE FROM ".toList ++ q.table.toList ++ whereClause level body? q.conditions

/-- The statement without its semicolon, or the placeholder, given the bodies of subqueries. -/
def statement (q : Query) (level : Int) (body? : String → Option (List Char)) : List Char :=
  match q.placeholder? with
  | some p => p.toList
  | none =>
    match q.operation with
    | .select => q.selectText level body?
    | .insert => q.insertText
    | .update => q.updateText level body?
    | .delete => q.deleteText level body?

mutual

/-- The statement without its semicolon, or the placeholder. The bodies of its subqueries lie two
levels further in. -/
def body : Query → Int → List Char
  | q@⟨_, _, _, _, _, _, _, _, _, subqueries⟩, level =>
    statement q level fun key => bodyUnder? key subqueries (level + 2)

/-- The body of the subquery under a key. -/
def bodyUnder? (key : String) : List (String × Query) → Int → Option (List Char)
  | [], _ => none
  | (k, q) :: es, level => if k = key then some (body q level) else bodyUnder? key es level

end

theorem bodyUnder?_eq (key : String) (es : List (String × Query)) (level : Int) :
    bodyUnder? key es level = (Entries.find? key es).map fun q => q.body level := by
  induction es with
  | nil => rfl
  | cons e es ih =>
    obtain ⟨k, q⟩ := e
    by_cases h : k = key <;> simp [bodyUnder?, Entries.find?, h, ih]

theorem body_eq (q : Query) (level : Int) :
    q.body level = q.statement level fun key =>
      (Entries.find? key q.subqueries).map fun child => child.body (level + 2) := by
  cases q
  simp only [body, bodyUnder?_eq]

/-- Placeholders are indented, those of insertions excepted. A statement starts without indent and
ends with a semicolon. -/
def sql (q : Query) (level : Int) : List Char :=
  match q.placeholder? with
  | some _ => (if q.operation = .insert then [] else indent level) ++ q.body level
  | none => q.body level ++ [';']

end Query

end QueryComposer
