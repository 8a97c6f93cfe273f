import QueryComposer.Json.Basic
import QueryComposer.Text.Digits
import QueryComposer.Text.Units

/-!
# Writing values

A list or an object that holds something is written with one item on each line, two spaces further
in than the list itself. The text holds printable characters of ASCII only: every other character
is written by its code units, save the few that have an escape of their own.

## Main definitions

* `escape` writes one character inside quotes, `quote` a whole text.
* `write` writes a value whose first line is already indented; `Json.print` writes a whole text.
-/

namespace QueryComposer.Json

/-- Four hexadecimal digits, in small letters. -/
def escapeUnit (u : Nat) : List Char := '\\' :: 'u' :: Text.digits 16 4 u

/-- One character inside quotes. -/
def escape (c : Char) : List Char :=
  if c = '"' then ['\\', '"']
  else if c = '\\' then ['\\', '\\']
  else if c = '\n' then ['\\', 'n']
  else if c = '\r' then ['\\', 'r']
  else if c = '\t' then ['\\', 't']
  else if c = '\x08' then ['\\', 'b']
  else if c = '\x0c' then ['\\', 'f']
  else if 0x20 ≤ c.toNat ∧ c.toNat < 0x7F then [c]
  else (Text.units c).flatMap escapeUnit

/-- A text between quotes. -/
def quote (s : String) : List Char := '"' :: s.toList.flatMap escape ++ ['"']

/-- A line end, and the indent of the next line. -/
def newLine (level : Nat) : List Char := '\n' :: List.replicate (2 * level) ' '

mutual

/-- A value whose first line is already indented, in a list or object at this level. -/
def write (level : Nat) : Json → List Char
  | .null => "null".toList
  | .bool b => if b then "true".toList else "false".toList
  | .number n => n.write
  | .string s => quote s
  | .array [] => "[]".toList
  | .array (v :: vs) =>
    '[' :: newLine (level + 1) ++ write (level + 1) v ++ writeItems (level + 1) vs ++
      newLine level ++ [']']
  | .object [] => ['\x7b', '\x7d']
  | .object ((k, v) :: es) =>
    '\x7b' :: newLine (level + 1) ++ quote k ++ ": ".toList ++ write (level + 1) v ++
      writeEntries (level + 1) es ++ newLine level ++ ['\x7d']

/-- The items of a list after its first, each with the comma before it. -/
def writeItems (level : Nat) : List Json → List Char
  | [] => []
  | v :: vs => ',' :: newLine level ++ write level v ++ writeItems level vs

/-- The entries of an object after its first, each with the comma before it. -/
def writeEntries (level : Nat) : List (String × Json) → List Char
  | [] => []
  | (k, v) :: es =>
    ',' :: newLine level ++ quote k ++ ": ".toList ++ write level v ++ writeEntries level es

end

/-- The text of a value. -/
def print (v : Json) : String := String.ofList (write 0 v)

end QueryComposer.Json
