import QueryComposer.Sql.Render

/-!
# Levels with room

`Query.sql` lays out a query at any level, which is what can be reasoned about. A text has only so
much room, though, and the indent of a level has to fit in. Whoever takes a level from outside asks
`Query.render`, which refuses a level whose indent has no room.

The level alone decides. A query that would show no indent, such as an insertion, is refused as
well.

## Main definitions

* `LevelError` says why there is no room, `levelError?` which levels have none.
* `Query.render` is the statement at a level that has room.
-/

namespace QueryComposer

/-- Levels and lengths of texts are signed words of sixty-four bits, below this bound. -/
def wordBound : Int := 0x8000000000000000

/-- The characters that there is memory for. -/
def memoryBound : Int := 0x1000000000

/-- Why an indent has no room: its level is no word, its length is none, or there is no memory for
it. -/
inductive LevelError where
  | noWord
  | noLength
  | noMemory
deriving DecidableEq, Repr

/-- Want of memory is refused without a word. -/
def LevelError.message : LevelError → String
  | .noWord => "cannot fit 'int' into an index-sized integer"
  | .noLength => "repeated string is too long"
  | .noMemory => ""

/-- Why there is no room for the indent of a level, which has two characters for each level. -/
def levelError? (level : Int) : Option LevelError :=
  if level < -wordBound || wordBound ≤ level then some .noWord
  else if wordBound ≤ 2 * level then some .noLength
  else if memoryBound ≤ 2 * level then some .noMemory
  else none

/-- The text of a query at a level. -/
def Query.render (q : Query) (level : Int) : Except LevelError (List Char) :=
  match levelError? level with
  | none => .ok (q.sql level)
  | some e => .error e

end QueryComposer
