import QueryComposer.Intake.Basic
import QueryComposer.Text.Blank

/-!
# Lenient integers

A level of nesting may be given as anything that says a natural number: an integer, a number without
a fraction, a text of either, or a truth value.

A text may have spaces around it, a sign, idle zeros in front, single underscores between its digits
and a fraction of zeros. It is read once all of these are taken away, and what is left is an integer
as the interchange format writes it. A minus sign may also stand behind the idle zeros. A text is
held to a number of digits and a number with a point or an exponent to the words of sixty-four bits.
A plain integer has no bound.

## Main definitions

* `Intake.natural` reads a natural number leniently.
* `Json.integer?` reads an integer from a value, `Service.Integer.read` from a text.
-/

namespace QueryComposer

/-! ### Texts -/

namespace Service.Integer

/-- The text begins with too many digits, whatever follows them. A minus sign and idle zeros do not
count. -/
def isOverlong : List Char → Bool
  | '-' :: cs | cs =>
    cs.head? ≠ some '0' && Json.Number.longest < (cs.takeWhile Char.isDigit).length

/-- The integer of a text as the interchange format writes it. -/
def readPlain? (cs : List Char) : Option Int :=
  if isOverlong cs then none
  else match Json.Number.read? cs with
    | some (.integer n) => some n
    | _ => none

/-- What stands after zeros and underscores, given the last of them. That one stays where there are
no further digits before the end or a point. -/
def afterZeros? (last : Char) : List Char → Option (List Char)
  | [] => some [last]
  | c :: cs =>
    if c = '0' || c = '_' then afterZeros? c cs
    else if c = '.' then some (last :: c :: cs)
    else if c = '-' || c.isDigit then some (c :: cs)
    else none

/-- The text, which begins with a digit, without idle zeros. -/
def withoutZeros? : List Char → Option (List Char)
  | [] => none
  | c :: cs => if c = '0' then afterZeros? c cs else if c.isDigit then some (c :: cs) else none

/-- The text without its fraction, which consists of one or more zeros. -/
def withoutFraction? (cs : List Char) : Option (List Char) :=
  match cs.dropWhile (· ≠ '.') with
  | [] => some cs
  | _ :: zeros =>
    if zeros ≠ [] && zeros.all (· = '0') then some (cs.takeWhile (· ≠ '.')) else none

/-- The text of groups between underscores, none of which is empty. -/
def withoutUnderscores? (cs : List Char) : Option (List Char) :=
  let groups := Text.splitAt (· = '_') cs
  if [] ∈ groups then none else some groups.flatten

/-- The digits of a text without a sign, rid of idle zeros, of a fraction of zeros and of
underscores. -/
def unsigned? (cs : List Char) : Option (List Char) := do
  let cs ← withoutZeros? cs
  let cs ← withoutFraction? cs
  withoutUnderscores? cs

/-- The text without all that the interchange format does not write in an integer. -/
def plain? (cs : List Char) : Option (List Char) :=
  match Text.stripWhere Text.isSpace cs with
  | '-' :: cs => (unsigned? cs).map ('-' :: ·)
  | '+' :: cs => unsigned? cs
  | cs => unsigned? cs

/-- The integer of a text. Too many digits are told from other faults only where the text begins
with them. -/
def read (cs : List Char) : Except Problem Int :=
  if isOverlong cs then .error .tooLarge
  else match (plain? cs).bind readPlain? with
    | some n => .ok n
    | none => .error .unreadable

end Service.Integer

/-! ### Values -/

/-- The integers that a number with a point or an exponent may stand for, the least word not among
them. -/
def isWord (n : Int) : Bool := -0x8000000000000000 < n && n < 0x8000000000000000

/-- The integer that a value says, rounded where it is a number with an exponent or a fraction. -/
def Json.integer? : Json → Except Problem Int
  | .bool b => .ok (if b then 1 else 0)
  | .number (.integer n) => .ok n
  | .number n =>
    match n.rounded with
    | .whole n => if isWord n then .ok n else .error .tooLarge
    | .broken => .error .fractional
    | .notFinite => .error .notFinite
  | .string s => Service.Integer.read s.toList
  | _ => .error .notInteger

/-- An integer from zero on. -/
def Intake.natural (v : Json) : Intake Int :=
  match v.integer? with
  | .ok n => if n < 0 then fail .negative else done n
  | .error p => fail p

end QueryComposer
