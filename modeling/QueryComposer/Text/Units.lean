/-!
# Code units of sixteen bits

A character above `U+FFFF` is written as two code units, a high half and a low half. This module
gives the units of a character, for writers, and puts units back together, for readers.

Nothing keeps a writer from leaving one half alone. Such a half is no character, and a text with one
is not a text of this library; but what was read has to be told apart by it, so it is kept as it
came until the text is shown. There it stands as the replacement character.

## Main definitions

* `units` lists the code units of a character.
* `Wide` is the type of texts in which halves may stand alone, and `Wide.shown` shows one.
* `Assembly` is a text under construction to which characters and units are added in turn. A high
  half waits there for its low half.
-/

namespace QueryComposer.Text

/-- The code units that a character is written by. -/
def units (c : Char) : List Nat :=
  if c.toNat < 0x10000 then [c.toNat]
  else [0xD800 + (c.toNat - 0x10000) / 0x400, 0xDC00 + (c.toNat - 0x10000) % 0x400]

/-- The unit is the first half of a character. -/
def isHighHalf (u : Nat) : Bool := 0xD800 ≤ u && u < 0xDC00

/-- The unit is the second half of a character. -/
def isLowHalf (u : Nat) : Bool := 0xDC00 ≤ u && u < 0xE000

/-- The character of two halves. -/
def joinHalves (high low : Nat) : Char :=
  Char.ofNat (0x10000 + (high - 0xD800) * 0x400 + (low - 0xDC00))

/-- What is shown in the place of a half that stands alone. -/
def replacement : Char := Char.ofNat 0xFFFD

/-! ### Texts with lone halves -/

/-- A place in a text: a character, or a half that stands alone. -/
inductive Place where
  | char (c : Char)
  | half (unit : Nat)
deriving DecidableEq, Repr

/-- The character that is shown at the place. -/
def Place.shown : Place → Char
  | .char c => c
  | .half _ => replacement

/-- No half stands here. -/
def Place.isChar : Place → Bool
  | .char _ => true
  | .half _ => false

/-- A unit that has no partner. -/
def Place.ofUnit (u : Nat) : Place :=
  if isHighHalf u || isLowHalf u then .half u else .char (Char.ofNat u)

/-- A text in which halves may stand alone. -/
abbrev Wide := List Place

namespace Wide

/-- A text without lone halves. -/
def ofString (s : String) : Wide := s.toList.map .char

/-- The text as it is shown, with replacement characters for the halves that stand alone. -/
def shown (w : Wide) : String := String.ofList (w.map Place.shown)

/-- No half stands alone. -/
def isWhole (w : Wide) : Bool := w.all Place.isChar

@[simp] theorem shown_ofString (s : String) : (ofString s).shown = s := by
  have hshown : Place.shown ∘ Place.char = id := rfl
  rw [shown, ofString, List.map_map, hshown, List.map_id, String.ofList_toList]

@[simp] theorem isWhole_ofString (s : String) : (ofString s).isWhole = true := by
  simp [isWhole, ofString, Place.isChar]

/-- A text without lone halves is what it is shown as. -/
theorem ofString_shown {w : Wide} (h : w.isWhole = true) : ofString w.shown = w := by
  rw [ofString, shown, String.toList_ofList]
  induction w with
  | nil => rfl
  | cons p w ih =>
    obtain ⟨hp, hw⟩ := Bool.and_eq_true_iff.mp h
    cases p with
    | char c => exact congrArg (.char c :: ·) (ih hw)
    | half u => cases hp

end Wide

/-! ### Texts under construction -/

/-- What was read so far, last first, and the high half read just before, if any. -/
structure Assembly where
  reversed : Wide
  high : Option Nat
deriving DecidableEq, Repr

namespace Assembly

/-- Nothing was read so far. -/
def empty : Assembly := ⟨[], none⟩

/-- Gives up waiting for a low half. -/
def settle (a : Assembly) : Assembly :=
  match a.high with
  | none => a
  | some h => ⟨.half h :: a.reversed, none⟩

/-- Adds a place that is no high half. -/
def put (a : Assembly) (p : Place) : Assembly := ⟨p :: a.settle.reversed, none⟩

/-- Adds a character. -/
def push (a : Assembly) (c : Char) : Assembly := a.put (.char c)

/-- Adds a code unit, which joins the high half before it if it is a low half. -/
def pushUnit (a : Assembly) (u : Nat) : Assembly :=
  match a.high with
  | some h =>
    if isLowHalf u then ⟨.char (joinHalves h u) :: a.reversed, none⟩
    else if isHighHalf u then ⟨a.settle.reversed, some u⟩
    else a.put (.ofUnit u)
  | none => if isHighHalf u then ⟨a.reversed, some u⟩ else a.put (.ofUnit u)

/-- The text that was read. -/
def finish (a : Assembly) : Wide := a.settle.reversed.reverse

end Assembly

theorem joinHalves_units {c : Char} (h : 0x10000 ≤ c.toNat) :
    joinHalves (0xD800 + (c.toNat - 0x10000) / 0x400) (0xDC00 + (c.toNat - 0x10000) % 0x400) =
      c := by
  have : 0x10000 + (0xD800 + (c.toNat - 0x10000) / 0x400 - 0xD800) * 0x400 +
      (0xDC00 + (c.toNat - 0x10000) % 0x400 - 0xDC00) = c.toNat := by omega
  rw [joinHalves, this, Char.ofNat_toNat]

end QueryComposer.Text
