import QueryComposer.Json.Basic
import QueryComposer.Text.Scanner
import QueryComposer.Text.Units

/-!
# Tokens of the interchange format

The tokens are the six marks of punctuation, texts, and atoms: the values that are written as one
word. A word is a longest run of letters, digits, signs and points; what such a run spells is
decided where it ends.

## Main definitions

* `scanner` cuts a text into tokens.
* `atom?` gives the value that a word spells.

## Implementation notes

Space, tab, line feed and carriage return separate tokens, and no other character does. Inside
quotes every character from `U+0020` on stands for itself, except the quote and the backslash.
-/

namespace QueryComposer.Json

/-- A mark of punctuation, a text, or a value that is written as one word. -/
inductive Token where
  | openBrace
  | closeBrace
  | openBracket
  | closeBracket
  | colon
  | comma
  | text (value : Text.Wide)
  | atom (value : Json)
deriving Repr

namespace Token

/-- Between tokens, in a word, inside quotes, after a backslash, or among the four digits of a code
unit, of which `seen` were read and have the given value. -/
inductive Mode where
  | between
  | word (reversed : List Char)
  | quoted (done : Text.Assembly)
  | escaped (done : Text.Assembly)
  | unit (done : Text.Assembly) (seen : Nat) (value : Nat)
deriving DecidableEq, Repr

/-- The characters that may stand between tokens. -/
def isSeparator (c : Char) : Bool := c = ' ' || c = '\t' || c = '\n' || c = '\r'

/-- The characters of words. -/
def isWordChar (c : Char) : Bool := c.isAlphanum || c = '+' || c = '-' || c = '.'

/-- The mark that a character is. -/
def punctuation? : Char → Option Token
  | '\x7b' => some .openBrace
  | '\x7d' => some .closeBrace
  | '[' => some .openBracket
  | ']' => some .closeBracket
  | ':' => some .colon
  | ',' => some .comma
  | _ => none

/-- The value that a word spells. -/
def atom? (word : List Char) : Option Json :=
  if word = "null".toList then some .null
  else if word = "true".toList then some (.bool true)
  else if word = "false".toList then some (.bool false)
  else (Number.read? word).map .number

/-- The value of a hexadecimal digit. -/
def hexValue? (c : Char) : Option Nat :=
  if '0' ≤ c ∧ c ≤ '9' then some (c.toNat - 0x30)
  else if 'a' ≤ c ∧ c ≤ 'f' then some (c.toNat - 0x61 + 10)
  else if 'A' ≤ c ∧ c ≤ 'F' then some (c.toNat - 0x41 + 10)
  else none

/-- The character that a backslash before `c` stands for. -/
def escape? : Char → Option Char
  | '"' => some '"'
  | '\\' => some '\\'
  | '/' => some '/'
  | 'b' => some '\x08'
  | 'f' => some '\x0c'
  | 'n' => some '\n'
  | 'r' => some '\r'
  | 't' => some '\t'
  | _ => none

/-- A character outside words and quotes. -/
def begin? (c : Char) : Option (List Token × Mode) :=
  if isSeparator c then some ([], .between)
  else if isWordChar c then some ([], .word [c])
  else if c = '"' then some ([], .quoted .empty)
  else (punctuation? c).map fun t => ([t], .between)

/-- One character. A word ends where the next character is none of its own, and that character may
be a token by itself. -/
def step : Mode → Char → Option (List Token × Mode)
  | .between, c => begin? c
  | .word w, c =>
    if isWordChar c then some ([], .word (c :: w))
    else do
      let v ← atom? w.reverse
      let (ts, m) ← begin? c
      pure (.atom v :: ts, m)
  | .quoted a, c =>
    if c = '"' then some ([.text a.finish], .between)
    else if c = '\\' then some ([], .escaped a)
    else if c.toNat < 0x20 then none
    else some ([], .quoted (a.push c))
  | .escaped a, c =>
    if c = 'u' then some ([], .unit a 0 0)
    else (escape? c).map fun c' => ([], .quoted (a.push c'))
  | .unit a seen value, c => do
    let d ← hexValue? c
    if seen < 3 then pure ([], .unit a (seen + 1) (16 * value + d))
    else pure ([], .quoted (a.pushUnit (16 * value + d)))

/-- The tokens still owed at the end, where no text may be open. -/
def finish : Mode → Option (List Token)
  | .between => some []
  | .word w => (atom? w.reverse).map fun v => [.atom v]
  | _ => none

/-- The scanner of the interchange format. -/
def scanner : Text.Scanner Mode Token := ⟨.between, step, finish⟩

end Token

end QueryComposer.Json
