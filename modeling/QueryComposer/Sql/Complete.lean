import QueryComposer.Sql.Grammar

/-!
# Complete texts

A text is complete when it is ready to run: it holds at least one statement, all of it is
statements, and no line of it is a comment. A placeholder is a comment line, so a text that shows
one anywhere is not complete.

What a statement is, is up to a parser, and the parser is not part of this library. It comes in as a
function that says of a text whether it takes it and finds a statement in it. The grammar of this
library describes how such a parser judges the texts that queries give. Two assumptions about
parsers are named here: a parser may keep to the grammar on all texts, or only on those that are
made of the tokens of the grammar and take other texts as it likes.

## Main definitions

* `hasCommentLine` looks for a line that starts, after blanks, with two hyphens.
* `isComplete` is the verdict on a text, given a parser.
* `isScript` is the verdict of the grammar. A parser may agree with it everywhere (`FollowsGrammar`)
  or where the grammar has tokens for the text (`ExtendsGrammar`).

## Implementation notes

Lines are looked at before tokens, so a line inside a literal counts as well.
-/

namespace QueryComposer.Sql

/-- The line starts, after blanks, with two hyphens. -/
def isCommentLine (line : List Char) : Bool :=
  "--".toList.isPrefixOf (line.dropWhile Text.isBlank)

/-- Some line of the text is a comment. -/
def hasCommentLine (text : List Char) : Bool := (Text.lines text).any isCommentLine

/-- The text without the blanks around it is not empty, has no comment line and is taken by the
parser, which finds a statement in it. -/
def isComplete (parses : List Char → Bool) (text : List Char) : Bool :=
  let text := Text.trim text
  text ≠ [] && !hasCommentLine text && parses text

/-! ### The grammar as a parser -/

/-- The text is cut into tokens, and they are a script with at least one statement. -/
def isScript (text : List Char) : Bool :=
  match Token.scanner.tokens text with
  | some ts => accepts ts
  | none => false

/-- The parser judges every text as the grammar does. -/
def FollowsGrammar (parses : List Char → Bool) : Prop := ∀ text, parses text = isScript text

/-- The parser judges a text as the grammar does if it is made of the tokens of the grammar. -/
def ExtendsGrammar (parses : List Char → Bool) : Prop :=
  ∀ text ts, Token.scanner.tokens text = some ts → parses text = accepts ts

theorem FollowsGrammar.extendsGrammar {parses : List Char → Bool} (h : FollowsGrammar parses) :
    ExtendsGrammar parses := by
  intro text ts hts
  rw [h text, isScript, hts]

theorem followsGrammar_isScript : FollowsGrammar isScript := fun _ => rfl

end QueryComposer.Sql
