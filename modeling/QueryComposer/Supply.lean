import QueryComposer.Text.Digits

/-!
# Fresh identifiers

Identifiers come from outside: a supply is any sequence of them together with how many were drawn.
A computation that may need fresh ones is a `Draw`. `numbered` is the sequence of the numbers in
base thirty-six.

## Main definitions

* `Supply.next` gives the first identifier not drawn yet.
* `Draw` is a value that draws from a supply.
* `numbered` writes a number with at least seven digits.
-/

namespace QueryComposer

/-- A sequence of identifiers, and how many of them were drawn. -/
structure Supply where
  source : Nat → String
  drawn : Nat

namespace Supply

/-- The supply of a sequence from which nothing was drawn yet. -/
def ofSource (source : Nat → String) : Supply := ⟨source, 0⟩

/-- The first identifier that was not drawn yet, and the supply without it. -/
def next (s : Supply) : String × Supply := (s.source s.drawn, ⟨s.source, s.drawn + 1⟩)

end Supply

/-- A value that may draw identifiers, each of them once and in turn. -/
abbrev Draw (α : Type) := StateM Supply α

/-- One fresh identifier. -/
def Draw.fresh : Draw String := Supply.next

@[simp] theorem Draw.run_fresh (s : Supply) :
    Draw.fresh.run s = (s.source s.drawn, ⟨s.source, s.drawn + 1⟩) := rfl

/-! ### Numbers as identifiers -/

/-- The width grows with the number of digits of `n`, so no two numbers share an identifier. -/
def numbered (n : Nat) : String :=
  String.ofList (Text.digits 36 (max 7 (Nat.log2 n / 5 + 1)) n)

end QueryComposer
