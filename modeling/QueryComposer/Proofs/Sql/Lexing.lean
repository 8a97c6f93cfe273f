import QueryComposer.Sql.Render
import QueryComposer.Sql.Token

/-!
# Reading a text piece by piece

The layout of a query is a concatenation of pieces, and this module says when the tokens of the
whole are the tokens of the pieces. A piece must not run on into the next one: a word would grow, a
literal would swallow a quote, and `<` would become `<=`. It cannot run on over a boundary, a
character that none of these goes on with, and the layout puts one behind every piece that could.

`Reads` carries that condition. It says what a text contributes to any text that begins with it, as
long as a boundary follows, so that it composes without looking at the scanner again.

## Main definitions

* `Token.isBoundary` holds of the characters that end every token before them.
* `Token.Reads` says that a text reads as some tokens wherever a boundary follows.

## Main results

* `Token.Reads.of_tokens`: a text reads as its tokens.
* `Token.Reads.append`: pieces read one after the other.
-/

namespace QueryComposer.Sql.Token

/-- The tokens of a text. -/
def tokens (cs : List Char) : Option (List Token) := scanner.tokens cs

@[simp] theorem scanner_step (m : Mode) (c : Char) : scanner.step m c = step m c := rfl

/-- No token goes on with this character. -/
def isBoundary (c : Char) : Bool := !isWordChar c && c ≠ '\x27' && c ≠ '='

/-- The text is empty or begins with a boundary. -/
def AtBoundary (cs : List Char) : Prop := ∀ c ∈ cs.head?, isBoundary c = true

theorem atBoundary_nil : AtBoundary [] := by simp [AtBoundary]

theorem atBoundary_cons {c : Char} (h : isBoundary c = true) (cs : List Char) :
    AtBoundary (c :: cs) := by
  simpa [AtBoundary] using h

theorem AtBoundary.append {xs ys : List Char} (hx : AtBoundary xs) (hy : AtBoundary ys) :
    AtBoundary (xs ++ ys) := by
  cases xs with
  | nil => exact hy
  | cons c xs => exact hx

theorem AtBoundary.intercalate {α : Type} {f : α → List Char} {sep : List Char} {l : List α}
    (hsep : AtBoundary sep) (h : ∀ a ∈ l, AtBoundary (f a)) :
    AtBoundary (List.intercalate sep (l.map f)) := by
  induction l with
  | nil => exact atBoundary_nil
  | cons a l ih =>
    have ha : AtBoundary (f a) := h a List.mem_cons_self
    cases l with
    | nil => simpa using ha
    | cons b l =>
      rw [List.map_cons, List.map_cons, List.intercalate_cons_cons, List.append_assoc]
      exact ha.append (hsep.append (ih fun c hc => h c (List.mem_cons_of_mem _ hc)))

/-! ### The scanner at a boundary -/

/-- At a boundary the scanner releases what it owes and begins anew. -/
theorem step_of_isBoundary {m : Mode} {owed : List Token} (hm : finish m = some owed) {c : Char}
    (hc : isBoundary c = true) :
    step m c = (begin? c).map fun r => (owed ++ r.1, r.2) := by
  obtain ⟨⟨hword, hquote⟩, hequal⟩ : (isWordChar c = false ∧ c ≠ '\x27') ∧ c ≠ '=' := by
    simpa [isBoundary] using hc
  have hdigit : c.isDigit = false := by
    simp only [isWordChar, Bool.or_eq_false_iff] at hword
    exact hword.2
  cases m with
  | between =>
    cases hm
    simp [step]
  | word w =>
    cases hm
    simp [step, hword, endBefore]
  | number w =>
    cases hm
    simp [step, hdigit, endBefore]
  | literal w => cases hm
  | quote w =>
    cases hm
    simp [step, hquote, endBefore]
  | bang => cases hm
  | less =>
    cases hm
    simp [step, hequal, endBefore]
  | greater =>
    cases hm
    simp [step, hequal, endBefore]

/-- The tokens of a text from a mode in the middle of it. -/
def tokensFrom (m : Mode) (cs : List Char) : Option (List Token) :=
  (scanner.run m cs).bind fun r => (finish r.2).map fun ts => r.1 ++ ts

theorem tokens_eq_tokensFrom (cs : List Char) : tokens cs = tokensFrom .between cs :=
  scanner.tokens_eq cs

theorem tokensFrom_append (m : Mode) (xs ys : List Char) :
    tokensFrom m (xs ++ ys) =
      (scanner.run m xs).bind fun r => (tokensFrom r.2 ys).map fun ts => r.1 ++ ts := by
  rw [tokensFrom, Text.Scanner.run_append]
  cases scanner.run m xs with
  | none => rfl
  | some r =>
    rw [Option.bind_some, Option.bind_some, tokensFrom]
    cases scanner.run r.2 ys with
    | none => rfl
    | some r' =>
      rw [Option.map_some, Option.bind_some, Option.bind_some]
      cases finish r'.2 <;> simp

theorem tokensFrom_cons (m : Mode) (c : Char) (cs : List Char) :
    tokensFrom m (c :: cs) =
      (step m c).bind fun r => (tokensFrom r.2 cs).map fun ts => r.1 ++ ts := by
  rw [tokensFrom, Text.Scanner.run_cons, scanner_step]
  cases step m c with
  | none => rfl
  | some r =>
    rw [Option.bind_some, Option.bind_some, tokensFrom]
    cases scanner.run r.2 cs with
    | none => rfl
    | some r' =>
      rw [Option.map_some, Option.bind_some, Option.bind_some]
      cases finish r'.2 <;> simp

/-- A mode that could end the text here may as well go on behind a boundary. -/
theorem tokensFrom_of_atBoundary {m : Mode} {owed : List Token} (hm : finish m = some owed)
    {cs : List Char} (hcs : AtBoundary cs) :
    tokensFrom m cs = (tokens cs).map fun ts => owed ++ ts := by
  rw [tokens_eq_tokensFrom]
  cases cs with
  | nil =>
    rw [tokensFrom, Text.Scanner.run, Option.bind_some, hm]
    simp [tokensFrom, Text.Scanner.run, finish]
  | cons c cs =>
    rw [tokensFrom_cons, tokensFrom_cons, step_of_isBoundary hm (hcs c rfl), step]
    cases begin? c with
    | none => rfl
    | some r => cases h : tokensFrom r.2 cs <;> simp [h]

/-! ### Pieces -/

/-- Wherever a boundary follows, the text reads as these tokens. -/
def Reads (xs : List Char) (ts : List Token) : Prop :=
  ∀ ys, AtBoundary ys → tokens (xs ++ ys) = (tokens ys).map fun us => ts ++ us

namespace Reads

variable {xs ys : List Char} {ts us : List Token}

/-- A whole text reads as its own tokens. -/
theorem of_tokens (h : tokens xs = some ts) : Reads xs ts := by
  intro ys hys
  rw [tokens_eq_tokensFrom, tokensFrom] at h
  rw [tokens_eq_tokensFrom, tokensFrom_append]
  cases hr : scanner.run .between xs with
  | none => simp [hr] at h
  | some r =>
    obtain ⟨owed, howed, rfl⟩ : ∃ owed, finish r.2 = some owed ∧ r.1 ++ owed = ts := by
      simpa [hr] using h
    rw [Option.bind_some, tokensFrom_of_atBoundary howed hys, Option.map_map]
    simp [Function.comp_def]

theorem tokens_eq (h : Reads xs ts) : tokens xs = some ts := by
  have := h [] atBoundary_nil
  simpa [show tokens [] = some [] from rfl] using this

theorem nil : Reads [] [] := of_tokens rfl

theorem append (hx : Reads xs ts) (hy : Reads ys us) (hb : AtBoundary ys) :
    Reads (xs ++ ys) (ts ++ us) := by
  intro zs hzs
  rw [List.append_assoc, hx _ (hb.append hzs), hy zs hzs, Option.map_map]
  simp [Function.comp_def]

/-- A piece behind which the scanner stands between tokens needs no boundary. -/
theorem closed_append (hx : scanner.run .between xs = some (ts, .between)) (hy : Reads ys us) :
    Reads (xs ++ ys) (ts ++ us) := by
  intro zs hzs
  rw [List.append_assoc, tokens_eq_tokensFrom, tokensFrom_append, hx, Option.bind_some,
    ← tokens_eq_tokensFrom, hy zs hzs, Option.map_map]
  simp [Function.comp_def]

theorem blank_cons {c : Char} (hc : Text.isBlank c = true) (h : Reads xs ts) :
    Reads (c :: xs) ts := by
  have hrun : scanner.run .between [c] = some ([], .between) := by
    rw [Text.Scanner.run_cons, scanner_step, step, begin?, if_pos hc]
    rfl
  exact closed_append hrun h

/-- The space behind a piece is the boundary that it needs. -/
theorem space_append (hx : Reads xs ts) (hy : Reads ys us) : Reads (xs ++ ' ' :: ys) (ts ++ us) :=
  hx.append (hy.blank_cons (by decide)) (atBoundary_cons (by decide) _)

theorem newLine_append (level : Int) (h : Reads xs ts) : Reads (newLine level ++ xs) ts := by
  have hindent : ∀ n, Reads (List.replicate n ' ' ++ xs) ts := by
    intro n
    induction n with
    | zero => exact h
    | succ n ih => exact ih.blank_cons (by decide)
  exact (hindent _).blank_cons (by decide)

/-- Pieces with separators between them, where a separator starts with a boundary. -/
theorem intercalate {α : Type} {f : α → List Char} {g : α → List Token} {sep : List Char}
    {mark : List Token} (hsep : scanner.run .between sep = some (mark, .between))
    (hboundary : sep ≠ [] ∧ AtBoundary sep) {l : List α} (h : ∀ a ∈ l, Reads (f a) (g a)) :
    Reads (List.intercalate sep (l.map f)) (List.intercalate mark (l.map g)) := by
  induction l with
  | nil => exact .nil
  | cons a l ih =>
    have ha : Reads (f a) (g a) := h a List.mem_cons_self
    cases l with
    | nil => simpa using ha
    | cons b l =>
      have hrest := ih fun c hc => h c (List.mem_cons_of_mem _ hc)
      have hcons := ha.append (closed_append hsep hrest) ?_
      · simpa [List.intercalate_cons_cons] using hcons
      · obtain ⟨c, cs, rfl⟩ := List.exists_cons_of_ne_nil hboundary.1
        exact hboundary.2

theorem flatMap {α : Type} {f : α → List Char} {g : α → List Token} {l : List α}
    (h : ∀ a ∈ l, Reads (f a) (g a)) (hboundary : ∀ a ∈ l, AtBoundary (f a)) :
    Reads (l.flatMap f) (l.flatMap g) ∧ AtBoundary (l.flatMap f) := by
  induction l with
  | nil => exact ⟨.nil, atBoundary_nil⟩
  | cons a l ih =>
    obtain ⟨hreads, hat⟩ := ih (fun b hb => h b (List.mem_cons_of_mem _ hb))
      fun b hb => hboundary b (List.mem_cons_of_mem _ hb)
    rw [List.flatMap_cons, List.flatMap_cons]
    exact ⟨(h a List.mem_cons_self).append hreads hat,
      (hboundary a List.mem_cons_self).append hat⟩

end Reads

theorem atBoundary_newLine_append (level : Int) (xs : List Char) :
    AtBoundary (newLine level ++ xs) :=
  atBoundary_cons (by decide) _

end QueryComposer.Sql.Token
