/-!
# Digits of a fixed number

Numbers that are written with a fixed number of digits, in any base up to thirty-six.

## Main definitions

* `digits` writes the last digits of a number, idle zeros included.
* `fields` writes numbers in a row, each with its own number of digits.
-/

namespace QueryComposer.Text

/-- The digit of a value below thirty-six: the ten digits, then the small letters. -/
def digit (n : Nat) : Char :=
  if n < 10 then Char.ofNat (0x30 + n) else Char.ofNat (0x61 + (n - 10))

/-- The last `width` digits of `n`. -/
def digits (base width n : Nat) : List Char :=
  match width with
  | 0 => []
  | width + 1 => digits base width (n / base) ++ [digit (n % base)]

@[simp] theorem length_digits (base width n : Nat) : (digits base width n).length = width := by
  induction width generalizing n with
  | zero => rfl
  | succ width ih => simp [digits, ih]

/-- Decimal numbers in a row, each with its number of digits and the mark that stands behind it. -/
def fields : List (Nat × Char) → List Nat → List Char
  | (width, mark) :: layout, n :: ns => digits 10 width n ++ mark :: fields layout ns
  | _, _ => []

end QueryComposer.Text
