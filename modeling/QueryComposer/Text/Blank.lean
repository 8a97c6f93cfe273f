/-!
# Blank characters

Three classes of characters decide how texts are trimmed and cut into lines. `isSpace` is the
Unicode property `White_Space`. `isBlank` adds the four information separators `U+001C` to
`U+001F`, and is the class meant wherever this library trims, looks at the start of a line or
forms a file name. `isLineBreak` holds the characters that end a line; each of them is blank.

## Main definitions

* `trim` removes the blanks at both ends of a text.
* `splitAt` cuts a text at every character of a class, and `lines` at every line break.

## Implementation notes

A carriage return before a line feed ends two lines here, the second of them empty. Nothing that
is asked of lines can see the empty one.
-/

namespace QueryComposer.Text

/-- The code points of the Unicode property `White_Space`, as closed ranges. -/
def spaceRanges : List (Nat × Nat) :=
  [(0x09, 0x0D), (0x20, 0x20), (0x85, 0x85), (0xA0, 0xA0), (0x1680, 0x1680), (0x2000, 0x200A),
    (0x2028, 0x2029), (0x202F, 0x202F), (0x205F, 0x205F), (0x3000, 0x3000)]

/-- The code point of `c` lies in one of the closed ranges. -/
def inRanges (ranges : List (Nat × Nat)) (c : Char) : Bool :=
  ranges.any fun range => range.1 ≤ c.toNat && c.toNat ≤ range.2

/-- The character has the Unicode property `White_Space`. -/
def isSpace (c : Char) : Bool := inRanges spaceRanges c

/-- The character is white space or one of the four information separators. -/
def isBlank (c : Char) : Bool := isSpace c || inRanges [(0x1C, 0x1F)] c

/-- The character ends a line. -/
def isLineBreak (c : Char) : Bool :=
  inRanges [(0x0A, 0x0D), (0x1C, 0x1E), (0x85, 0x85), (0x2028, 0x2029)] c

/-! ### Trimming -/

/-- The text without the characters of a class at its two ends. -/
def stripWhere (p : Char → Bool) (cs : List Char) : List Char :=
  ((cs.dropWhile p).reverse.dropWhile p).reverse

/-- The text without the blanks at its two ends. -/
def trim (cs : List Char) : List Char := stripWhere isBlank cs

/-! ### Lines -/

/-- The pieces between the characters of a class, one more than there are such characters. -/
def splitAt (p : Char → Bool) (cs : List Char) : List (List Char) :=
  cs.foldr
    (fun c pieces => if p c then [] :: pieces else (c :: pieces.headD []) :: pieces.tail) [[]]

/-- The lines of a text, without the characters that end them. -/
def lines (cs : List Char) : List (List Char) := splitAt isLineBreak cs

@[simp] theorem splitAt_nil (p : Char → Bool) : splitAt p [] = [[]] := rfl

theorem splitAt_cons (p : Char → Bool) (c : Char) (cs : List Char) :
    splitAt p (c :: cs) =
      if p c then [] :: splitAt p cs
      else (c :: (splitAt p cs).headD []) :: (splitAt p cs).tail := rfl

theorem splitAt_ne_nil (p : Char → Bool) (cs : List Char) : splitAt p cs ≠ [] := by
  cases cs with
  | nil => simp
  | cons c cs => rw [splitAt_cons]; split <;> simp

/-- A line break is blank, so cutting at line breaks and looking past leading blanks agree on
where a line starts. -/
theorem isBlank_of_isLineBreak {c : Char} (h : isLineBreak c = true) : isBlank c = true := by
  simp only [isLineBreak, isBlank, isSpace, inRanges, spaceRanges, List.any_cons, List.any_nil,
    Bool.or_false, Bool.or_eq_true, Bool.and_eq_true, decide_eq_true_eq] at h ⊢
  omega

end QueryComposer.Text
