import QueryComposer.Sql.Complete

/-!
# A parser with quoted identifiers

The dialect in which statements are run knows more than the grammar. This parser adds what is needed
to see that: any text between double quotes is an identifier. Between double quotes a double quote
is written twice, and every other character stands for itself, single quotes included. The rest is
left to the tokens of the grammar, so a double quote in a literal is part of the literal.

## Main definitions

* `Dialect.scanner` cuts a text into tokens.
* `Dialect.parses` is the parser.
-/

namespace QueryComposer.Sql.Dialect

/-- Outside double quotes, between double quotes, or after a double quote that ends an identifier
unless another follows. What was read of the identifier stands last first. -/
inductive Mode where
  | plain (mode : Token.Mode)
  | name (reversed : List Char)
  | quote (reversed : List Char)
deriving DecidableEq, Repr

/-- The double quote is part of a literal. -/
def isLiteral : Token.Mode → Bool
  | .literal _ => true
  | _ => false

/-- A step of the tokens of the grammar, outside double quotes. -/
def ofPlain (r : List Token × Token.Mode) : List Token × Mode := (r.1, .plain r.2)

/-- One character. A double quote outside literals ends the token before it and begins a name. -/
def step : Mode → Char → Option (List Token × Mode)
  | .plain m, c =>
    if c = '"' && !isLiteral m then (Token.finish m).map fun ts => (ts, .name [])
    else (Token.step m c).map ofPlain
  | .name w, c => if c = '"' then some ([], .quote w) else some ([], .name (c :: w))
  | .quote w, c =>
    if c = '"' then some ([], .name (c :: w))
    else (Token.endBefore (.identifier w.reverse) c).map ofPlain

/-- The tokens still owed at the end, where no name may be open. -/
def finish : Mode → Option (List Token)
  | .plain m => Token.finish m
  | .name _ => none
  | .quote w => some [.identifier w.reverse]

/-- The scanner of this dialect. -/
def scanner : Text.Scanner Mode Token := ⟨.plain .between, step, finish⟩

/-- The text is cut into tokens, and the grammar takes them as a script with a statement. -/
def parses (text : List Char) : Bool :=
  match scanner.tokens text with
  | some ts => accepts ts
  | none => false

end QueryComposer.Sql.Dialect
