/-!
# Scanners

A scanner reads a text one character at a time and never looks ahead: each character takes it from
one mode to the next and releases the tokens that are complete. Scanning a concatenation is then
scanning the two parts one after the other (`run_append`), which is how the tokens of a text put
together from pieces are computed from the pieces.

## Main definitions

* `Scanner.run` gives the tokens that a text releases and the mode it ends in.
* `Scanner.tokens` gives all tokens of a whole text.

## Main results

* `Scanner.run_append`: a run over two parts is a run over the first, then over the second.
* `Scanner.tokens_eq`: the tokens of a text are those of its run and those owed at the end.
-/

namespace QueryComposer.Text

/-- What a scanner does: `step` gives the tokens that a character completes and the mode after it,
`finish` the tokens still owed where the text ends. Both refuse with `none`. -/
structure Scanner (Mode Token : Type) where
  start : Mode
  step : Mode → Char → Option (List Token × Mode)
  finish : Mode → Option (List Token)

namespace Scanner

variable {Mode Token : Type}

/-- The tokens that a text releases, and the mode that it ends in. -/
def run (s : Scanner Mode Token) : Mode → List Char → Option (List Token × Mode)
  | m, [] => some ([], m)
  | m, c :: cs =>
    match s.step m c with
    | none => none
    | some (ts, m') => (run s m' cs).map fun r => (ts ++ r.1, r.2)

/-- The tokens of a text read from mode `m`, put behind those of `seen`, which stand last first. -/
def collect (s : Scanner Mode Token) : List Token → Mode → List Char → Option (List Token)
  | seen, m, [] => (s.finish m).map fun ts => seen.reverse ++ ts
  | seen, m, c :: cs =>
    match s.step m c with
    | none => none
    | some (ts, m') => collect s (ts.reverse ++ seen) m' cs

/-- All tokens of a whole text. -/
def tokens (s : Scanner Mode Token) (cs : List Char) : Option (List Token) :=
  s.collect [] s.start cs

theorem run_cons (s : Scanner Mode Token) (m : Mode) (c : Char) (cs : List Char) :
    s.run m (c :: cs) =
      (s.step m c).bind fun r => (s.run r.2 cs).map fun r' => (r.1 ++ r'.1, r'.2) := by
  rw [run]
  cases s.step m c <;> rfl

theorem run_append (s : Scanner Mode Token) (m : Mode) (xs ys : List Char) :
    s.run m (xs ++ ys) =
      (s.run m xs).bind fun r => (s.run r.2 ys).map fun r' => (r.1 ++ r'.1, r'.2) := by
  induction xs generalizing m with
  | nil => simp [run]
  | cons c xs ih =>
    simp only [List.cons_append, run]
    cases s.step m c with
    | none => rfl
    | some r =>
      simp only [ih]
      cases s.run r.2 xs with
      | none => rfl
      | some r' => simp [Function.comp_def]

theorem collect_eq (s : Scanner Mode Token) (seen : List Token) (m : Mode) (cs : List Char) :
    s.collect seen m cs =
      (s.run m cs).bind fun r => (s.finish r.2).map fun ts => seen.reverse ++ r.1 ++ ts := by
  induction cs generalizing seen m with
  | nil => simp [collect, run]
  | cons c cs ih =>
    simp only [collect, run]
    cases s.step m c with
    | none => rfl
    | some r =>
      simp only [ih]
      cases s.run r.2 cs with
      | none => rfl
      | some r' => simp

theorem tokens_eq (s : Scanner Mode Token) (cs : List Char) :
    s.tokens cs = (s.run s.start cs).bind fun r => (s.finish r.2).map fun ts => r.1 ++ ts := by
  simp [tokens, collect_eq]

end Scanner

end QueryComposer.Text
