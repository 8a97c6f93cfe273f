import QueryComposer.Query.Vocabulary
import QueryComposer.Text.Blank
import QueryComposer.Text.Scanner

/-!
# Tokens of statements

Statements are made of keywords, identifiers, numbers, literals and marks. Keywords are in capitals;
a word in any other spelling is an identifier. A literal stands between single quotes, where a
quote is written twice and every other character stands for itself, line ends included.

## Main definitions

* `Keyword`, `Mark` and `Token` are the kinds of tokens.
* `Token.scanner` cuts a text into tokens. It refuses a text with any other character, and one that
  ends inside a literal.
-/

namespace QueryComposer.Sql

/-- The words of the grammar. -/
inductive Keyword where
  | select
  | from
  | inner
  | left
  | right
  | full
  | outer
  | join
  | on
  | where
  | order
  | by
  | asc
  | desc
  | limit
  | as
  | insert
  | into
  | values
  | update
  | set
  | delete
  | and
  | or
  | not
  | exists
  | is
  | null
  | like
  | in
deriving DecidableEq, Repr

instance : Choice Keyword where
  all := [.select, .from, .inner, .left, .right, .full, .outer, .join, .on, .where, .order, .by,
    .asc, .desc, .limit, .as, .insert, .into, .values, .update, .set, .delete, .and, .or, .not,
    .exists, .is, .null, .like, .in]
  name
    | .select => "SELECT"
    | .from => "FROM"
    | .inner => "INNER"
    | .left => "LEFT"
    | .right => "RIGHT"
    | .full => "FULL"
    | .outer => "OUTER"
    | .join => "JOIN"
    | .on => "ON"
    | .where => "WHERE"
    | .order => "ORDER"
    | .by => "BY"
    | .asc => "ASC"
    | .desc => "DESC"
    | .limit => "LIMIT"
    | .as => "AS"
    | .insert => "INSERT"
    | .into => "INTO"
    | .values => "VALUES"
    | .update => "UPDATE"
    | .set => "SET"
    | .delete => "DELETE"
    | .and => "AND"
    | .or => "OR"
    | .not => "NOT"
    | .exists => "EXISTS"
    | .is => "IS"
    | .null => "NULL"
    | .like => "LIKE"
    | .in => "IN"

/-- The marks of the grammar. -/
inductive Mark where
  | star
  | comma
  | dot
  | opening
  | closing
  | semicolon
  | equal
  | notEqual
  | less
  | greater
  | atMost
  | atLeast
deriving DecidableEq, Repr

/-- A piece of a statement. Identifiers, numbers and literals keep their characters. -/
inductive Token where
  | keyword (word : Keyword)
  | identifier (name : List Char)
  | number (digits : List Char)
  | literal (content : List Char)
  | mark (mark : Mark)
deriving DecidableEq, Repr

namespace Token

/-- Between tokens, in a word or a number, in a literal, after a quote in a literal, or after the
first character of a mark that may have two. What was read stands last first. -/
inductive Mode where
  | between
  | word (reversed : List Char)
  | number (reversed : List Char)
  | literal (reversed : List Char)
  | quote (reversed : List Char)
  | bang
  | less
  | greater
deriving DecidableEq, Repr

/-- Words begin with a letter or an underscore. -/
def isWordStart (c : Char) : Bool := c.isAlpha || c = '_'

/-- Words go on with letters, underscores and digits. -/
def isWordChar (c : Char) : Bool := isWordStart c || c.isDigit

/-- A keyword, if the word spells one, and an identifier otherwise. -/
def ofWord (word : List Char) : Token :=
  match (Choice.ofName? (String.ofList word) : Option Keyword) with
  | some k => .keyword k
  | none => .identifier word

/-- The marks that are complete with one character. -/
def mark? : Char → Option Mark
  | '*' => some .star
  | ',' => some .comma
  | '.' => some .dot
  | '(' => some .opening
  | ')' => some .closing
  | ';' => some .semicolon
  | '=' => some .equal
  | _ => none

/-- A character between tokens. -/
def begin? (c : Char) : Option (List Token × Mode) :=
  if Text.isBlank c then some ([], .between)
  else if isWordStart c then some ([], .word [c])
  else if c.isDigit then some ([], .number [c])
  else if c = '\x27' then some ([], .literal [])
  else if c = '!' then some ([], .bang)
  else if c = '<' then some ([], .less)
  else if c = '>' then some ([], .greater)
  else (mark? c).map fun m => ([.mark m], .between)

/-- The token ends before the character `c`. -/
def endBefore (t : Token) (c : Char) : Option (List Token × Mode) :=
  (begin? c).map fun r => (t :: r.1, r.2)

/-- One character. It may end the token before it, and a mark may be complete with it. -/
def step : Mode → Char → Option (List Token × Mode)
  | .between, c => begin? c
  | .word w, c =>
    if isWordChar c then some ([], .word (c :: w)) else endBefore (ofWord w.reverse) c
  | .number w, c =>
    if c.isDigit then some ([], .number (c :: w)) else endBefore (.number w.reverse) c
  | .literal w, c => if c = '\x27' then some ([], .quote w) else some ([], .literal (c :: w))
  | .quote w, c =>
    if c = '\x27' then some ([], .literal (c :: w)) else endBefore (.literal w.reverse) c
  | .bang, c => if c = '=' then some ([.mark .notEqual], .between) else none
  | .less, c => if c = '=' then some ([.mark .atMost], .between) else endBefore (.mark .less) c
  | .greater, c =>
    if c = '=' then some ([.mark .atLeast], .between) else endBefore (.mark .greater) c

/-- The tokens still owed at the end, where no literal may be open. -/
def finish : Mode → Option (List Token)
  | .between => some []
  | .word w => some [ofWord w.reverse]
  | .number w => some [.number w.reverse]
  | .literal _ => none
  | .quote w => some [.literal w.reverse]
  | .bang => none
  | .less => some [.mark .less]
  | .greater => some [.mark .greater]

/-- The scanner of the grammar. -/
def scanner : Text.Scanner Mode Token := ⟨.between, step, finish⟩

end Token

end QueryComposer.Sql
