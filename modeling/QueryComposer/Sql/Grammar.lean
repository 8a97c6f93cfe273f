import QueryComposer.Sql.Token

/-!
# The grammar of statements

A recogniser for scripts of statements. It keeps a stack of goals, the parts of the text that are
still to come, and each token is taken by the uppermost goal that has a use for it: the goals above
it must all be ones that may be left out. Each goal decides by the token alone, so there is never a
choice to go back to.

## Main definitions

* `Goal` lists the parts of a script, and `Goal.take?` says what remains of a part after its first
  token.
* `accepts` holds of the tokens of a script with at least one statement.

## Implementation notes

A script is a sequence of statements and empty statements with semicolons between them. The grammar
of statements is

* selection: `SELECT` items `FROM` table joins, then `WHERE`, `ORDER BY` and `LIMIT`, each optional;
* insertion: `INSERT INTO` name, columns in parentheses, `VALUES`, literals in parentheses;
* change: `UPDATE` name `SET` assignments, then `WHERE`, optional;
* deletion: `DELETE FROM` name, then `WHERE`, optional.
-/

namespace QueryComposer.Sql

/-- The parts of a script that are still to come. Those without a word of their own are named as in
the grammar above. -/
inductive Goal where
  /-- A script in which no statement has come yet. -/
  | script
  /-- The rest of a script after a statement. -/
  | next
  /-- The rest of a script after a semicolon, where a statement has come before. -/
  | more
  | word (k : Keyword)
  | mark (m : Mark)
  | identifier
  | number
  | literal
  /-- Identifiers with points between them, and the rest of them after the first. -/
  | name
  | nameRest
  /-- Another name for the item or the table before it. -/
  | alias
  | selection
  | item
  /-- The rest of an item after its first identifier. -/
  | itemRest
  /-- What may follow a point in an item, and what may follow an identifier there. -/
  | itemPart
  | itemPartRest
  /-- What stands in the parentheses of an item. -/
  | argument
  | moreItems
  | joins
  | filter
  | condition
  | moreConditions
  /-- The rest of a condition after its column. -/
  | comparison
  | nullTest
  | operand
  | subquery
  | order
  | direction
  | moreSortKeys
  | limit
  | moreColumns
  | moreLiterals
  | assignment
  | moreAssignments
deriving DecidableEq, Repr

namespace Goal

/-- The goal may be left out. -/
def isOptional : Goal → Bool
  | .next | .more | .nameRest | .alias | .itemRest | .itemPartRest | .moreItems | .joins | .filter
  | .moreConditions | .order | .direction | .moreSortKeys | .limit | .moreColumns | .moreLiterals
  | .moreAssignments => true
  | _ => false

/-! ### The first token of a part, and what remains of it -/

/-- What follows `SELECT`. -/
def select? : Token → Option (List Goal)
  | .keyword .select =>
    some [.item, .moreItems, .word .from, .name, .alias, .joins, .filter, .order, .limit]
  | _ => none

/-- What follows the first word of a statement. -/
def statement? : Token → Option (List Goal)
  | .keyword .insert =>
    some [.word .into, .name, .mark .opening, .identifier, .moreColumns, .mark .closing,
      .word .values, .mark .opening, .literal, .moreLiterals, .mark .closing]
  | .keyword .update => some [.name, .word .set, .assignment, .moreAssignments, .filter]
  | .keyword .delete => some [.word .from, .name, .filter]
  | t => select? t

/-- What follows the first word of another name, which may be the name itself. -/
def alias? : Token → Option (List Goal)
  | .keyword .as => some [.identifier]
  | .identifier _ => some []
  | _ => none

/-- The goals of a join after its kind. -/
def joined : List Goal :=
  [.word .join, .name, .alias, .word .on, .name, .mark .equal, .name, .joins]

/-- What remains of the goal when it takes the token. -/
def take? : Goal → Token → Option (List Goal)
  | .script, .mark .semicolon => some [.script]
  | .script, t => (statement? t).map (· ++ [.next])
  | .next, .mark .semicolon => some [.more]
  | .more, .mark .semicolon => some [.more]
  | .more, t => (statement? t).map (· ++ [.next])
  | .word k, .keyword k' => if k = k' then some [] else none
  | .mark m, .mark m' => if m = m' then some [] else none
  | .identifier, .identifier _ => some []
  | .number, .number _ => some []
  | .literal, .literal _ => some []
  | .name, .identifier _ => some [.nameRest]
  | .nameRest, .mark .dot => some [.identifier, .nameRest]
  | .alias, t => alias? t
  | .selection, t => select? t
  | .item, .mark .star => some []
  | .item, .number _ => some [.alias]
  | .item, .identifier _ => some [.itemRest]
  | .itemRest, .mark .opening => some [.argument, .mark .closing, .alias]
  | .itemRest, .mark .dot => some [.itemPart]
  | .itemRest, t => alias? t
  | .itemPart, .mark .star => some []
  | .itemPart, .identifier _ => some [.itemPartRest]
  | .itemPartRest, .mark .dot => some [.itemPart]
  | .itemPartRest, t => alias? t
  | .argument, .mark .star => some []
  | .argument, .identifier _ => some [.nameRest]
  | .moreItems, .mark .comma => some [.item, .moreItems]
  | .joins, .keyword .inner => some joined
  | .joins, .keyword .left => some joined
  | .joins, .keyword .right => some joined
  | .joins, .keyword .full => some (.word .outer :: joined)
  | .filter, .keyword .where => some [.condition, .moreConditions]
  | .moreConditions, .keyword .and => some [.condition, .moreConditions]
  | .moreConditions, .keyword .or => some [.condition, .moreConditions]
  | .condition, .keyword .not => some [.word .exists, .subquery]
  | .condition, .keyword .exists => some [.subquery]
  | .condition, .identifier _ => some [.nameRest, .comparison]
  | .comparison, .keyword .is => some [.nullTest]
  | .comparison, .keyword .not => some [.word .in, .operand]
  | .comparison, .keyword .in => some [.operand]
  | .comparison, .keyword .like => some [.operand]
  | .comparison, .mark .equal => some [.operand]
  | .comparison, .mark .notEqual => some [.operand]
  | .comparison, .mark .less => some [.operand]
  | .comparison, .mark .greater => some [.operand]
  | .comparison, .mark .atMost => some [.operand]
  | .comparison, .mark .atLeast => some [.operand]
  | .nullTest, .keyword .not => some [.word .null]
  | .nullTest, .keyword .null => some []
  | .operand, .literal _ => some []
  | .operand, .mark .opening => some [.selection, .mark .closing]
  | .subquery, .mark .opening => some [.selection, .mark .closing]
  | .order, .keyword .order => some [.word .by, .name, .direction, .moreSortKeys]
  | .direction, .keyword .asc => some []
  | .direction, .keyword .desc => some []
  | .moreSortKeys, .mark .comma => some [.name, .direction, .moreSortKeys]
  | .limit, .keyword .limit => some [.number]
  | .moreColumns, .mark .comma => some [.identifier, .moreColumns]
  | .moreLiterals, .mark .comma => some [.literal, .moreLiterals]
  | .assignment, .identifier _ => some [.nameRest, .mark .equal, .literal]
  | .moreAssignments, .mark .comma => some [.assignment, .moreAssignments]
  | _, _ => none

end Goal

/-- The goals after a token. The goals above the one that takes it are left out. -/
def advance : List Goal → Token → Option (List Goal)
  | [], _ => none
  | g :: gs, t =>
    match g.take? t with
    | some rest => some (rest ++ gs)
    | none => if g.isOptional then advance gs t else none

/-- The goals after a text of tokens. -/
def reach (gs : List Goal) (ts : List Token) : Option (List Goal) := ts.foldlM advance gs

/-- Every goal that is left at the end of the tokens may be left out. -/
def accepts (ts : List Token) : Bool :=
  match reach [.script] ts with
  | some gs => gs.all Goal.isOptional
  | none => false

theorem reach_append (gs : List Goal) (xs ys : List Token) :
    reach gs (xs ++ ys) = (reach gs xs).bind fun gs' => reach gs' ys := by
  simp [reach, List.foldlM_append]

end QueryComposer.Sql
