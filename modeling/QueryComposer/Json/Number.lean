/-!
# Numbers of the interchange format

A number keeps what its text says, without rounding: an integer, or digits with a decimal exponent.
Where a number is put to use it is first rounded to the nearest number of binary64 format, ties to
the even neighbour. Three questions are asked of the rounded value: whether it is zero, whether it
is whole, and which integer it is.

Numbers may have any size, but a text is not read as an integer if it has too many digits. That is a
matter of the reader alone: with a fraction or an exponent there is no such limit.

## Main definitions

* `Number.read?` reads the text of a number.
* `Number.overlong?` finds an integer with too many digits at the front of a text.
* `Number.isZero` and `Number.whole?` answer for the rounded value.

## Implementation notes

Exponents are as large as a text cares to write them, so no power of ten is formed before the
magnitude of the number is known to lie near the range of the format.
-/

namespace QueryComposer.Json

/-- A decimal is `± digits · 10 ^ exponent`. -/
inductive Number where
  | integer (value : Int)
  | decimal (negative : Bool) (digits : Nat) (exponent : Int)
  | notANumber
  | infinite (negative : Bool)
deriving DecidableEq, Repr

namespace Number

/-! ### Text -/

/-- The value of a decimal digit. -/
def digitValue (c : Char) : Nat := c.toNat - 0x30

/-- The value of a text of decimal digits. -/
def ofDigits (cs : List Char) : Nat := cs.foldl (fun n c => 10 * n + digitValue c) 0

/-- One or more digits at the front, and the rest. -/
def digits? (cs : List Char) : Option (List Char × List Char) :=
  match cs.takeWhile Char.isDigit with
  | [] => none
  | ds => some (ds, cs.dropWhile Char.isDigit)

/-- Digits that do not begin with an idle zero. -/
def whole (cs : List Char) : Option (List Char × List Char) :=
  match digits? cs with
  | some ('0' :: _ :: _, _) => none
  | r => r

/-- The digits after a point, if there is one. -/
def fraction (cs : List Char) : Option (Option (List Char) × List Char) :=
  match cs with
  | '.' :: r => (digits? r).map fun r => (some r.1, r.2)
  | r => some (none, r)

/-- The value after an `e`, if there is one. -/
def power (cs : List Char) : Option (Option Int × List Char) :=
  match cs with
  | 'e' :: r | 'E' :: r =>
    match r with
    | '-' :: r => (digits? r).map fun r => (some (-Int.ofNat (ofDigits r.1)), r.2)
    | '+' :: r => (digits? r).map fun r => (some (Int.ofNat (ofDigits r.1)), r.2)
    | r => (digits? r).map fun r => (some (Int.ofNat (ofDigits r.1)), r.2)
  | r => some (none, r)

/-- An integer that is read has no more digits than this. -/
def longest : Nat := 4300

/-- A number without its sign, and all of the text. -/
def unsigned? (negative : Bool) (cs : List Char) : Option Number := do
  let (ds, cs) ← whole cs
  let (fs, cs) ← fraction cs
  let (ex, cs) ← power cs
  if cs ≠ [] then none
  else match fs, ex with
    | none, none =>
      if ds.length ≤ longest then
        some (.integer (if negative then -Int.ofNat (ofDigits ds) else Int.ofNat (ofDigits ds)))
      else none
    | _, _ =>
      let fs := fs.getD []
      some (.decimal negative (ofDigits (ds ++ fs)) (ex.getD 0 - fs.length))

/-- The number that a text spells, if it spells one. -/
def read? (cs : List Char) : Option Number :=
  match cs with
  | '-' :: r => if r = "Infinity".toList then some (.infinite true) else unsigned? true r
  | r =>
    if r = "NaN".toList then some .notANumber
    else if r = "Infinity".toList then some (.infinite false)
    else unsigned? false r

/-- A fraction or a power begins here, so the digits before are no integer. -/
def goesOn (cs : List Char) : Bool :=
  ((fraction cs).bind Prod.fst).isSome || ((power cs).bind Prod.fst).isSome

/-- The digits of the integer at the front, without a sign, if they are too many. -/
def overlongUnsigned? (cs : List Char) : Option Nat :=
  match whole cs with
  | some (ds, r) => if longest < ds.length && !goesOn r then some ds.length else none
  | none => none

/-- How many digits the integer at the front has, if they are too many. -/
def overlong? (cs : List Char) : Option Nat :=
  match cs with
  | '-' :: r => overlongUnsigned? r
  | r => overlongUnsigned? r

/-- What the reader says where it breaks off at an integer. -/
def overlongMessage (digits : Nat) : String :=
  "Exceeds the limit (" ++ toString longest ++
    " digits) for integer string conversion: value has " ++ toString digits ++
    " digits; use sys.set_int_max_str_digits() to increase the limit"

/-- A text that reads back as the same number. -/
def write : Number → List Char
  | .integer n => (toString n).toList
  | .decimal negative digits exponent =>
    (if negative then ['-'] else []) ++ (toString digits).toList ++
      'e' :: (toString exponent).toList
  | .notANumber => "NaN".toList
  | .infinite negative => (if negative then ['-'] else []) ++ "Infinity".toList

/-! ### Rounding -/

/-- The quotient rounded to the nearest integer, a tie to the even one. -/
def roundDiv (num den : Nat) : Nat :=
  let q := num / den
  let twice := 2 * (num % den)
  if twice < den then q else if den < twice then q + 1 else if q % 2 = 0 then q else q + 1

/-- A decimal is of the order of ten to this power: it lies below that power, and not below the
power before. -/
def magnitude (digits : Nat) (exponent : Int) : Int := (toString digits).length + exponent

/-- The least number of the format is `2 ^ (-1074)`; half of it still rounds to zero. -/
def isZero : Number → Bool
  | .integer n => n = 0
  | .decimal _ digits exponent =>
    digits = 0 || magnitude digits exponent < -400 ||
      (magnitude digits exponent < -300 && digits * Nat.pow 2 1075 ≤ Nat.pow 10 exponent.natAbs)
  | _ => false

/-- What the rounded value of a number is, as far as integers are concerned. -/
inductive Rounded where
  | whole (value : Int)
  | broken
  | notFinite
deriving DecidableEq, Repr

/-- The rounded value of `num / den`, which lies near the range of the format. The spacing of the
format at a value in `[2 ^ k, 2 ^ (k + 1))` is `2 ^ (k - 52)`. -/
def roundQuotient (num den : Nat) : Rounded :=
  let q := num / den
  if Nat.pow 2 53 ≤ q then
    let spacing := Nat.pow 2 (q.log2 - 52)
    let value := roundDiv num (den * spacing) * spacing
    if Nat.pow 2 1024 ≤ value then .notFinite else .whole value
  else
    let scale := Nat.pow 2 (if q = 0 then 53 else 52 - q.log2)
    let scaled := roundDiv (num * scale) den
    if scaled % scale = 0 ∧ (scaled ≠ 0 ∨ num = 0) then .whole (scaled / scale)
    else .broken

/-- The rounded value of a decimal without its sign. The powers of ten are formed near the range of
the format only. -/
def roundDecimal (digits : Nat) (exponent : Int) : Rounded :=
  if digits = 0 then .whole 0
  else if 400 < magnitude digits exponent then .notFinite
  else if magnitude digits exponent < -20 then
    if isZero (.decimal false digits exponent) then .whole 0 else .broken
  else if 0 ≤ exponent then roundQuotient (digits * Nat.pow 10 exponent.natAbs) 1
  else roundQuotient digits (Nat.pow 10 exponent.natAbs)

/-- What the number is once it is rounded. An integer is what it is. -/
def rounded : Number → Rounded
  | .integer n => .whole n
  | .decimal negative digits exponent =>
    match roundDecimal digits exponent with
    | .whole n => .whole (if negative then -n else n)
    | r => r
  | .notANumber => .notFinite
  | .infinite _ => .notFinite

end Number

end QueryComposer.Json
