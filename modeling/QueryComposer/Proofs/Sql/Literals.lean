import Mathlib.Algebra.Ring.Parity
import QueryComposer.Proofs.Sql.Lexing
import QueryComposer.Sql.Dialect

/-!
# Literals that are closed

Whatever else a text holds, each single quote takes a scanner into a literal or out of it, and a
quote written twice does so twice. A text with an odd number of quotes therefore ends inside a
literal. This is so as long as nothing but literals has quotes in it: in an identifier between
double quotes or in a comment a single quote is a character like any other.

What is known of a parser is known on those terms (`TellsLiterals`): where every quote begins or
ends a literal, a text that it takes has all its literals closed. The parser with quoted identifiers
is such a parser, and it judges a text as the grammar does if it is made of the tokens of the
grammar.

## Main definitions

* `quotes` is the number of single quotes in a text.
* `IsClosed` holds of the texts in which every literal is closed.
* `quotesPlainly` holds of the texts in which only literals have single quotes.
* `TellsLiterals` is what is assumed of a parser.

## Main results

* `isClosed_iff`: all literals are closed exactly if the quotes are even in number.
* `Token.isInside_of_run`: a scanner is in a literal after an odd number of quotes.
* `Dialect.extendsGrammar_parses`, `Dialect.tellsLiterals_parses`: what the parser with quoted
  identifiers does.
-/

namespace QueryComposer.Sql

/-! ### Quotes -/

/-- The number of single quotes in a text. -/
def quotes (cs : List Char) : Nat := cs.count '\x27'

theorem quotes_append (xs ys : List Char) : quotes (xs ++ ys) = quotes xs + quotes ys :=
  List.count_append

theorem quotes_eq_zero {cs : List Char} (h : '\x27' ∉ cs) : quotes cs = 0 :=
  List.count_eq_zero_of_not_mem h

theorem quotes_cons_quote (cs : List Char) : quotes ('\x27' :: cs) = quotes cs + 1 :=
  List.count_cons_self

theorem quotes_cons_of_ne {c : Char} (h : c ≠ '\x27') (cs : List Char) :
    quotes (c :: cs) = quotes cs :=
  List.count_cons_of_ne h

/-! ### Closed literals -/

/-- The text is made of literals and of characters outside them. A literal in which a quote is
written twice counts as two that touch. -/
inductive IsClosed : List Char → Prop where
  | nil : IsClosed []
  | char {c : Char} {cs : List Char} : c ≠ '\x27' → IsClosed cs → IsClosed (c :: cs)
  | literal {content cs : List Char} : '\x27' ∉ content → IsClosed cs →
      IsClosed ('\x27' :: (content ++ '\x27' :: cs))

theorem IsClosed.even_quotes {cs : List Char} (h : IsClosed cs) : Even (quotes cs) := by
  induction h with
  | nil => exact .zero
  | char hc _ ih => rwa [quotes_cons_of_ne hc]
  | literal hcontent _ ih =>
    rw [quotes_cons_quote, quotes_append, quotes_eq_zero hcontent, quotes_cons_quote, Nat.zero_add]
    exact ih.add (by decide : Even 2)

/-- **All literals are closed exactly if the quotes are even in number.** With an odd number the
text begins inside a literal. -/
theorem isClosed_iff {cs : List Char} : IsClosed cs ↔ Even (quotes cs) := by
  refine ⟨IsClosed.even_quotes, fun h => ?_⟩
  suffices hboth : (Even (quotes cs) → IsClosed cs) ∧ (Odd (quotes cs) → ∃ content rest,
      cs = content ++ '\x27' :: rest ∧ '\x27' ∉ content ∧ IsClosed rest) from hboth.1 h
  clear h
  induction cs with
  | nil => exact ⟨fun _ => .nil, fun hodd => absurd hodd (by decide)⟩
  | cons c cs ih =>
    obtain ⟨heven, hodd⟩ := ih
    by_cases hquote : c = '\x27'
    · subst hquote
      rw [quotes_cons_quote, Nat.even_add_one, Nat.odd_add_one, Nat.not_even_iff_odd,
        Nat.not_odd_iff_even]
      refine ⟨fun h => ?_, fun h => ⟨[], cs, rfl, List.not_mem_nil, heven h⟩⟩
      obtain ⟨content, rest, rfl, hcontent, hrest⟩ := hodd h
      exact .literal hcontent hrest
    · rw [quotes_cons_of_ne hquote]
      refine ⟨fun h => .char hquote (heven h), fun h => ?_⟩
      obtain ⟨content, rest, rfl, hcontent, hrest⟩ := hodd h
      exact ⟨c :: content, rest, rfl, List.not_mem_cons_of_ne_of_not_mem (Ne.symm hquote) hcontent,
        hrest⟩

/-! ### Literals in a scanner -/

namespace Token

/-- The scanner is inside a literal. A quote has just ended one, unless another follows it. -/
def Mode.isInside : Mode → Bool
  | .literal _ => true
  | _ => false

theorem isInside_of_begin? {c : Char} {ts : List Token} {m : Mode}
    (h : begin? c = some (ts, m)) : m.isInside = decide (c = '\x27') := by
  by_cases hquote : c = '\x27'
  · subst hquote
    cases h
    rfl
  · cases hm : mark? c <;> grind [begin?, Mode.isInside]

/-- **A quote leads into a literal or out of it**, and no other character does. -/
theorem isInside_of_step {m m' : Mode} {c : Char} {ts : List Token}
    (h : step m c = some (ts, m')) : m'.isInside = (m.isInside ^^ decide (c = '\x27')) := by
  by_cases hquote : c = '\x27'
  · subst hquote
    cases m <;> cases h <;> rfl
  · have hend : ∀ t, endBefore t c = some (ts, m') → m'.isInside = false := by
      intro t ht
      obtain ⟨r, hr, heq⟩ := Option.map_eq_some_iff.mp ht
      cases heq
      rw [isInside_of_begin? hr, decide_eq_false hquote]
    have hkept : m'.isInside = m.isInside := by
      cases m with
      | between => rw [isInside_of_begin? h, decide_eq_false hquote]; rfl
      | _ => grind [step, Mode.isInside]
    rw [hkept, decide_eq_false hquote, Bool.xor_false]

/-- The scanner is inside a literal or outside as it was before exactly if the quotes that it has
read are even in number. -/
theorem isInside_of_run {m m' : Mode} {cs : List Char} {ts : List Token}
    (h : scanner.run m cs = some (ts, m')) : m'.isInside = m.isInside ↔ Even (quotes cs) := by
  induction cs generalizing m ts with
  | nil =>
    cases h
    simp [quotes]
  | cons c cs ih =>
    rw [Text.Scanner.run_cons] at h
    obtain ⟨⟨us, m''⟩, hstep, h⟩ := Option.bind_eq_some_iff.mp h
    obtain ⟨⟨vs, m'''⟩, hrun, heq⟩ := Option.map_eq_some_iff.mp h
    cases heq
    have hrest := ih hrun
    have hfirst := isInside_of_step hstep
    by_cases hquote : c = '\x27'
    · subst hquote
      rw [quotes_cons_quote, Nat.even_add_one, ← hrest, hfirst, decide_eq_true rfl]
      cases m.isInside <;> simp
    · rw [quotes_cons_of_ne hquote, ← hrest, hfirst, decide_eq_false hquote, Bool.xor_false]

theorem even_quotes_of_tokens {cs : List Char} {ts : List Token} (h : tokens cs = some ts) :
    Even (quotes cs) := by
  rw [tokens_eq_tokensFrom] at h
  obtain ⟨⟨us, m⟩, hrun, hfinish⟩ := Option.bind_eq_some_iff.mp h
  rw [← isInside_of_run hrun]
  cases m with
  | literal w => cases hfinish
  | _ => rfl

end Token

/-- **A script has an even number of quotes.** -/
theorem even_quotes_of_isScript {text : List Char} (h : isScript text = true) :
    Even (quotes text) := by
  unfold isScript at h
  split at h
  · next ts hts => exact Token.even_quotes_of_tokens hts
  · cases h

/-! ### What parsers are assumed to do -/

/-- A word is under way: the letters and digits that were read last begin with no digit. What was
read stands last first. -/
def inWord (reversed : List Char) : Bool :=
  (reversed.takeWhile Token.isWordChar).getLast?.any Token.isWordStart

/-- Something begins in which quotes are told apart in another way: a literal between dollar signs,
a comment in one of three forms, or a literal with escapes, whose letter must not be the end of a
word. -/
def opensOther (reversed : List Char) : List Char → Bool
  | '$' :: _ => true
  | '-' :: '-' :: _ => true
  | '/' :: '*' :: _ => true
  | '\x7b' :: '#' :: _ => true
  | 'e' :: '\x27' :: _ => !inWord reversed
  | 'E' :: '\x27' :: _ => !inWord reversed
  | _ => false

/-- What a text may be in the middle of: nothing, a literal, or an identifier between double
quotes. -/
inductive Region where
  | outside
  | literal
  | name
deriving DecidableEq, Repr

/-- The region after a character. A quote written twice leads out of its region and back. -/
def Region.after : Region → Char → Region
  | .outside, c => if c = '\x27' then .literal else if c = '"' then .name else .outside
  | .literal, c => if c = '\x27' then .outside else .literal
  | .name, c => if c = '"' then .outside else .name

/-- Where the rest begins, there is no single quote in an identifier, and nothing else begins in
which quotes are told apart in another way. -/
def Region.isPlain (region : Region) (reversed rest : List Char) : Bool :=
  match region with
  | .outside => !opensOther reversed rest
  | .literal => true
  | .name => rest.head? ≠ some '\x27'

/-- This is so all along the rest of a text, of which so much was read. -/
def plainFrom (region : Region) (reversed : List Char) : List Char → Bool
  | [] => true
  | c :: cs =>
    region.isPlain reversed (c :: cs) && plainFrom (region.after c) (c :: reversed) cs

/-- Every single quote of the text begins or ends a literal, as far as that can be told without a
parser: there is none in an identifier, and nothing else begins that could have one. -/
def quotesPlainly (text : List Char) : Bool := plainFrom .outside [] text

/-- The parser refuses a text that ends inside a literal, if nothing but literals has quotes in it.
Every literal of a text that it takes is closed. -/
def TellsLiterals (parses : List Char → Bool) : Prop :=
  ∀ text, quotesPlainly text = true → parses text = true → IsClosed text

/-! ### The parser with quoted identifiers -/

namespace Dialect

variable {m m' : Token.Mode} {c : Char} {cs : List Char} {ts : List Token}

/-- The grammar has no use for a double quote outside literals. -/
theorem isLiteral_of_step {r : List Token × Token.Mode} (h : Token.step m '"' = some r) :
    isLiteral m = true := by
  cases m with
  | literal w => rfl
  | _ => cases h

theorem step_plain {r : List Token × Token.Mode} (h : Token.step m c = some r) :
    step (.plain m) c = some (ofPlain r) := by
  rw [step, if_neg, h, Option.map_some]
  intro hc
  obtain ⟨hquote, hliteral⟩ := Bool.and_eq_true_iff.mp hc
  obtain rfl := of_decide_eq_true hquote
  rw [isLiteral_of_step h] at hliteral
  cases hliteral

/-- What the grammar makes of a text, this parser makes of it as well. -/
theorem run_plain (h : Token.scanner.run m cs = some (ts, m')) :
    scanner.run (.plain m) cs = some (ts, .plain m') := by
  induction cs generalizing m ts with
  | nil =>
    cases h
    rfl
  | cons c cs ih =>
    rw [Text.Scanner.run_cons] at h
    obtain ⟨⟨us, m''⟩, hstep, h⟩ := Option.bind_eq_some_iff.mp h
    obtain ⟨⟨vs, m'''⟩, hrun, heq⟩ := Option.map_eq_some_iff.mp h
    cases heq
    have hstep' : scanner.step (.plain m) c = some (us, .plain m'') := step_plain hstep
    rw [Text.Scanner.run_cons, hstep', Option.bind_some, ih hrun, Option.map_some]

theorem tokens_eq_of_plain (h : Token.scanner.tokens cs = some ts) :
    scanner.tokens cs = some ts := by
  rw [Text.Scanner.tokens_eq] at h ⊢
  obtain ⟨⟨us, m⟩, hrun, hfinish⟩ := Option.bind_eq_some_iff.mp h
  have hrun' : scanner.run scanner.start cs = some (us, .plain m) := run_plain hrun
  rw [hrun', Option.bind_some]
  exact hfinish

/-- **The parser judges texts of the grammar as the grammar does.** -/
theorem extendsGrammar_parses : ExtendsGrammar parses := by
  intro text ts hts
  rw [parses, tokens_eq_of_plain hts]

/-- The region that a mode is in. -/
def Mode.region : Mode → Region
  | .plain m => if m.isInside then .literal else .outside
  | .name _ => .name
  | .quote _ => .outside

theorem region_of_step {d d' : Mode} (h : step d c = some (ts, d')) :
    d'.region = d.region.after c := by
  cases d with
  | plain m =>
    rw [step] at h
    split at h
    · next hname =>
      obtain ⟨hquote, hliteral⟩ := Bool.and_eq_true_iff.mp hname
      obtain rfl := of_decide_eq_true hquote
      obtain ⟨us, -, heq⟩ := Option.map_eq_some_iff.mp h
      cases heq
      cases m <;> first | rfl | cases hliteral
    · next hplain =>
      obtain ⟨⟨us, m'⟩, hm', heq⟩ := Option.map_eq_some_iff.mp h
      cases heq
      have hinside := Token.isInside_of_step hm'
      have hname : m.isInside = false → c ≠ '"' := by
        rintro hm rfl
        cases m <;> first | exact hplain rfl | cases hm
      cases hm : m.isInside <;> by_cases hquote : c = '\x27' <;>
        simp_all [ofPlain, Mode.region, Region.after]
  | name w =>
    rw [step] at h
    split at h <;> cases h <;> simp_all [Mode.region, Region.after]
  | quote w =>
    rw [step] at h
    split at h
    · next hquote =>
      cases h
      subst hquote
      rfl
    · next hquote =>
      obtain ⟨⟨us, m'⟩, hm', heq⟩ := Option.map_eq_some_iff.mp h
      obtain ⟨⟨vs, m''⟩, hbegin, heq'⟩ := Option.map_eq_some_iff.mp hm'
      cases heq'
      cases heq
      have hinside := Token.isInside_of_begin? hbegin
      by_cases hc : c = '\x27' <;> simp_all [ofPlain, Mode.region, Region.after]

/-- The parser is in a literal or not as it was before exactly if the quotes that it has read are
even in number, where identifiers have none. -/
theorem region_of_run {d d' : Mode} {reversed : List Char}
    (hcs : plainFrom d.region reversed cs = true) (h : scanner.run d cs = some (ts, d')) :
    (d'.region = .literal ↔ d.region = .literal) ↔ Even (quotes cs) := by
  induction cs generalizing d ts reversed with
  | nil =>
    cases h
    simp [quotes]
  | cons c cs ih =>
    rw [plainFrom, Bool.and_eq_true] at hcs
    obtain ⟨hfirst, hrest⟩ := hcs
    rw [Text.Scanner.run_cons] at h
    obtain ⟨⟨us, d₁⟩, hstep, hmap⟩ := Option.bind_eq_some_iff.mp h
    obtain ⟨⟨vs, d₂⟩, hrun, heq⟩ := Option.map_eq_some_iff.mp hmap
    cases heq
    have hafter := region_of_step hstep
    rw [← hafter] at hrest
    have heven := ih hrest hrun
    by_cases hquote : c = '\x27'
    · subst hquote
      rw [quotes_cons_quote, Nat.even_add_one, ← heven, hafter]
      cases hregion : d.region with
      | outside | literal => simp [Region.after]
      | name =>
        rw [hregion] at hfirst
        cases hfirst
    · rw [quotes_cons_of_ne hquote, ← heven, hafter]
      have hsame : d.region.after c = .literal ↔ d.region = .literal := by
        cases d.region <;> grind [Region.after]
      rw [hsame]

/-- The parser does not end in a literal. -/
theorem region_of_finish {d : Mode} (h : finish d = some ts) : d.region ≠ .literal := by
  intro hliteral
  cases d with
  | plain m =>
    cases m with
    | literal w => cases h
    | _ => cases hliteral
  | _ => cases hliteral

/-- **The parser closes the literals of a text** in which only literals have quotes. -/
theorem tellsLiterals_parses : TellsLiterals parses := by
  intro text hplainly h
  unfold parses at h
  split at h
  · next ts hts =>
    rw [Text.Scanner.tokens_eq] at hts
    obtain ⟨⟨us, d⟩, hrun, hend⟩ := Option.bind_eq_some_iff.mp hts
    obtain ⟨vs, hvs, -⟩ := Option.map_eq_some_iff.mp hend
    have hstart : scanner.run (.plain .between) text = some (us, d) := hrun
    have hplain : plainFrom (Mode.plain .between).region [] text = true := hplainly
    have hfinish : finish d = some vs := hvs
    have heven := (region_of_run hplain hstart).mp (iff_of_false (region_of_finish hfinish) nofun)
    exact isClosed_iff.mpr heven
  · cases h

end Dialect

end QueryComposer.Sql
