import QueryComposer.Proofs.Query.Tree
import QueryComposer.Proofs.Sql.Language
import QueryComposer.Proofs.Sql.Lexing

/-!
# Texts that are words of the grammar

What people type into a query may be any text. This module says when it is what the grammar expects
in that place: names of tables and columns, the items of a selection, digits, and values whose
single quotes come in pairs. Such texts read as the phrases of `Language`.

## Main definitions

* `IsIdentifier`, `IsName`, `IsTable` and `IsItemList` are the forms of the texts.
* `HasPairedQuotes` says that a value has quotes only in pairs.
* `Query.HasGrammarTexts` and `Query.HasPairedQuotes` ask it of all texts of one query, and
  `Query.IsClean` of all texts of the tree.

## Main results

* `IsName.reads`, `IsTable.reads` and `HasPairedQuotes.reads`: what the texts read as.
-/

namespace QueryComposer

namespace Sql

open Token

/-! ### Names -/

/-- A word that is no keyword. -/
structure IsIdentifier (cs : List Char) : Prop where
  start : ∃ c ∈ cs.head?, isWordStart c = true
  chars : ∀ c ∈ cs, isWordChar c = true
  notKeyword : ∀ k : Keyword, named k ≠ cs

theorem isIdentifier_iff (cs : List Char) :
    IsIdentifier cs ↔ cs.head?.any isWordStart = true ∧ cs.all isWordChar = true ∧
      ∀ k ∈ (Choice.all : List Keyword), named k ≠ cs := by
  rw [Option.any_eq_true, List.all_eq_true]
  constructor
  · rintro ⟨hstart, hchars, hkeyword⟩
    exact ⟨hstart, hchars, fun k _ => hkeyword k⟩
  · rintro ⟨hstart, hchars, hkeyword⟩
    exact ⟨hstart, hchars, fun k => hkeyword k (by cases k <;> decide)⟩

instance (cs : List Char) : Decidable (IsIdentifier cs) :=
  decidable_of_iff _ (isIdentifier_iff cs).symm

theorem IsIdentifier.exists_eq_cons {cs : List Char} (h : IsIdentifier cs) :
    ∃ c rest, isWordStart c = true ∧ cs = c :: rest := by
  obtain ⟨c, hc, hstart⟩ := h.start
  cases cs with
  | nil => cases hc
  | cons d rest =>
    cases hc
    exact ⟨c, rest, hstart, rfl⟩

/-- The identifiers with a point before each but the first. -/
def dotted (x : List Char) (xs : List (List Char)) : List Char := x ++ xs.flatMap ('.' :: ·)

/-- Identifiers with points between them. -/
def IsName (cs : List Char) : Prop :=
  ∃ x xs, (∀ y ∈ x :: xs, IsIdentifier y) ∧ cs = dotted x xs

/-- A name that may have another name behind it, after one space. -/
def IsTable (cs : List Char) : Prop :=
  ∃ name, IsName name ∧
    (cs = name ∨ ∃ y, IsIdentifier y ∧ (cs = name ++ ' ' :: y ∨ cs = name ++ " AS ".toList ++ y))

/-- The items of a selection in one line. -/
def IsItemList (cs : List Char) : Prop :=
  (∀ c ∈ cs, Text.isLineBreak c = false) ∧ ∃ ts, tokens cs = some ts ∧ IsItems ts

/-! ### Values -/

/-- The text with every quote written twice. -/
def doubled (cs : List Char) : List Char :=
  cs.flatMap fun c => if c = '\x27' then ['\x27', '\x27'] else [c]

theorem doubled_cons (c : Char) (cs : List Char) :
    doubled (c :: cs) = (if c = '\x27' then ['\x27', '\x27'] else [c]) ++ doubled cs := rfl

/-- The value is a text in which every quote was written twice. -/
def HasPairedQuotes (value : String) : Prop := ∃ cs, value.toList = doubled cs

end Sql

/-! ### Queries -/

namespace Query

open Sql

/-- Every text but the values is empty or what the grammar expects in its place. -/
structure HasGrammarTexts (q : Query) : Prop where
  table : q.table ≠ "" →
    if q.operation = .select then IsTable q.table.toList else IsName q.table.toList
  columns : Text.trim q.columns.toList ≠ [] → IsItemList (Text.trim q.columns.toList)
  pairs : ∀ p ∈ q.pairs, p.column ≠ "" → IsIdentifier p.column.toList
  conditions : ∀ c ∈ q.conditions, c.column ≠ "" → IsName c.column.toList
  joinTables : ∀ j ∈ q.joins, j.table ≠ "" → IsTable j.table.toList
  joinLefts : ∀ j ∈ q.joins, j.left ≠ "" → IsName j.left.toList
  joinRights : ∀ j ∈ q.joins, j.right ≠ "" → IsName j.right.toList
  sortKeys : ∀ s ∈ q.sortKeys, s.column ≠ "" → IsName s.column.toList
  limit : ∀ c ∈ q.limit.toList, c.isDigit = true

/-- In the values of the query, quotes come in pairs. -/
structure HasPairedQuotes (q : Query) : Prop where
  pairs : ∀ p ∈ q.pairs, Sql.HasPairedQuotes p.value
  conditions : ∀ c ∈ q.conditions, Sql.HasPairedQuotes c.value

/-! Only the parts that are filled in are laid out. -/

theorem HasGrammarTexts.filledPairs {q : Query} (h : q.HasGrammarTexts) :
    ∀ p ∈ q.filledPairs, IsIdentifier p.column.toList := by
  intro p hp
  obtain ⟨hmem, hfilled⟩ := List.mem_filter.mp hp
  exact h.pairs p hmem (by simpa [Pair.isFilled] using hfilled)

theorem HasPairedQuotes.filledPairs {q : Query} (h : q.HasPairedQuotes) :
    ∀ p ∈ q.filledPairs, Sql.HasPairedQuotes p.value :=
  fun p hp => h.pairs p (List.mem_filter.mp hp).1

theorem HasGrammarTexts.filledJoins {q : Query} (h : q.HasGrammarTexts) :
    ∀ j ∈ q.joins.filter Join.isFilled,
      IsTable j.table.toList ∧ IsName j.left.toList ∧ IsName j.right.toList := by
  intro j hj
  obtain ⟨hmem, hfilled⟩ := List.mem_filter.mp hj
  obtain ⟨⟨ht, hl⟩, hr⟩ : (j.table ≠ "" ∧ j.left ≠ "") ∧ j.right ≠ "" := by
    simpa [Join.isFilled] using hfilled
  exact ⟨h.joinTables j hmem ht, h.joinLefts j hmem hl, h.joinRights j hmem hr⟩

theorem HasGrammarTexts.filledSortKeys {q : Query} (h : q.HasGrammarTexts) :
    ∀ s ∈ q.sortKeys.filter SortKey.isFilled, IsName s.column.toList := by
  intro s hs
  obtain ⟨hmem, hfilled⟩ := List.mem_filter.mp hs
  exact h.sortKeys s hmem (by simpa [SortKey.isFilled] using hfilled)

/-- All texts of the query, and of all queries below it, are in order. -/
def IsClean (q : Query) : Prop := q.Every fun q => q.HasGrammarTexts ∧ q.HasPairedQuotes

end Query

/-! ### What the texts read as -/

namespace Sql

open Token

variable {cs : List Char}

theorem isWordStart_iff (c : Char) :
    isWordStart c = true ↔
      (65 ≤ c.toNat ∧ c.toNat ≤ 90 ∨ 97 ≤ c.toNat ∧ c.toNat ≤ 122) ∨ c = '_' := by
  have halpha : c.isAlpha = (decide (c.val ≥ 'A'.val ∧ c.val ≤ 'Z'.val) ||
      c.val ≥ 'a'.val && c.val ≤ 'z'.val) := rfl
  simp [isWordStart, halpha, UInt32.le_iff_toNat_le, ← Char.toNat_val]

theorem isDigit_iff (c : Char) : c.isDigit = true ↔ 48 ≤ c.toNat ∧ c.toNat ≤ 57 := by
  simp [Char.isDigit, UInt32.le_iff_toNat_le, ← Char.toNat_val]

/-- The printable characters of ASCII are not blank, the space excepted. -/
theorem isBlank_of_printable {c : Char} (h : 0x21 ≤ c.toNat) (h' : c.toNat < 0x7F) :
    Text.isBlank c = false := by
  rw [← Bool.not_eq_true]
  simp only [Text.isBlank, Text.isSpace, Text.inRanges, Text.spaceRanges, List.any_cons,
    List.any_nil, Bool.or_false, Bool.or_eq_true, Bool.and_eq_true, decide_eq_true_eq]
  omega

theorem isBlank_of_isWordStart {c : Char} (h : isWordStart c = true) : Text.isBlank c = false := by
  rcases (isWordStart_iff c).mp h with h | rfl
  · exact isBlank_of_printable (by omega) (by omega)
  · decide

theorem begin?_of_isWordStart {c : Char} (h : isWordStart c = true) :
    begin? c = some ([], .word [c]) := by
  rw [begin?, isBlank_of_isWordStart h, h]
  rfl

theorem begin?_of_isDigit {c : Char} (h : c.isDigit = true) :
    begin? c = some ([], .number [c]) := by
  have hrange := (isDigit_iff c).mp h
  have hword : isWordStart c = false := by
    rw [← Bool.not_eq_true, isWordStart_iff]
    rintro (h | rfl)
    · omega
    · simp at hrange
  rw [begin?, isBlank_of_printable (by omega) (by omega), hword, h]
  rfl

theorem run_word {cs : List Char} (h : ∀ c ∈ cs, isWordChar c = true) (w : List Char) :
    scanner.run (.word w) cs = some ([], .word (cs.reverse ++ w)) := by
  induction cs generalizing w with
  | nil => rfl
  | cons c cs ih =>
    have hstep : scanner.step (.word w) c = some ([], .word (c :: w)) := by
      rw [scanner_step, step, if_pos (h c List.mem_cons_self)]
    rw [Text.Scanner.run_cons, hstep, Option.bind_some,
      ih (fun d hd => h d (List.mem_cons_of_mem _ hd))]
    simp

theorem run_number {cs : List Char} (h : ∀ c ∈ cs, c.isDigit = true) (w : List Char) :
    scanner.run (.number w) cs = some ([], .number (cs.reverse ++ w)) := by
  induction cs generalizing w with
  | nil => rfl
  | cons c cs ih =>
    have hstep : scanner.step (.number w) c = some ([], .number (c :: w)) := by
      rw [scanner_step, step, if_pos (h c List.mem_cons_self)]
    rw [Text.Scanner.run_cons, hstep, Option.bind_some,
      ih (fun d hd => h d (List.mem_cons_of_mem _ hd))]
    simp

/-- A pair of quotes in a literal is one quote of its content. -/
theorem run_doubled (cs w : List Char) :
    scanner.run (.literal w) (doubled cs) = some ([], .literal (cs.reverse ++ w)) := by
  induction cs generalizing w with
  | nil => rfl
  | cons c cs ih =>
    have hrun : scanner.run (.literal w) (if c = '\x27' then ['\x27', '\x27'] else [c]) =
        some ([], .literal (c :: w)) := by
      by_cases hc : c = '\x27'
      · subst hc
        rfl
      · rw [if_neg hc, Text.Scanner.run_cons, scanner_step, step, if_neg hc]
        rfl
    rw [doubled, List.flatMap_cons, Text.Scanner.run_append, hrun, Option.bind_some]
    change ((scanner.run (.literal (c :: w)) (doubled cs)).map _) = _
    rw [ih]
    simp

theorem ofWord_of_notKeyword {cs : List Char} (h : ∀ k : Keyword, named k ≠ cs) :
    ofWord cs = .identifier cs := by
  have hnone : (Choice.ofName? (String.ofList cs) : Option Keyword) = none := by
    cases hk : (Choice.ofName? (String.ofList cs) : Option Keyword) with
    | none => rfl
    | some k =>
      refine absurd ?_ (h k)
      rw [named, Choice.name_of_ofName? hk, String.toList_ofList]
  rw [ofWord, hnone]

/-- An identifier is one token. -/
theorem IsIdentifier.tokens_eq (h : IsIdentifier cs) : tokens cs = some [.identifier cs] := by
  obtain ⟨c, rest, hstart, rfl⟩ := h.exists_eq_cons
  have hrest : ∀ d ∈ rest, isWordChar d = true := fun d hd => h.chars d (List.mem_cons_of_mem _ hd)
  rw [tokens_eq_tokensFrom, tokensFrom_cons, step, begin?_of_isWordStart hstart, Option.bind_some,
    tokensFrom, run_word hrest, Option.bind_some, finish]
  simp [ofWord_of_notKeyword h.notKeyword]

theorem tokens_digits (h : ∀ c ∈ cs, c.isDigit = true) (hne : cs ≠ []) :
    tokens cs = some [.number cs] := by
  obtain ⟨c, rest, rfl⟩ := List.exists_cons_of_ne_nil hne
  have hrest : ∀ d ∈ rest, d.isDigit = true := fun d hd => h d (List.mem_cons_of_mem _ hd)
  rw [tokens_eq_tokensFrom, tokensFrom_cons, step, begin?_of_isDigit (h c List.mem_cons_self),
    Option.bind_some, tokensFrom, run_number hrest, Option.bind_some, finish]
  simp

/-- A value with paired quotes is one literal, whatever else it holds. -/
theorem HasPairedQuotes.exists_tokens {value : String} (h : HasPairedQuotes value) :
    ∃ content, tokens (literal value) = some [.literal content] := by
  obtain ⟨content, hvalue⟩ := h
  refine ⟨content, ?_⟩
  have hrun : scanner.run (.literal []) (doubled content ++ ['\x27']) =
      some ([], .quote content.reverse) := by
    rw [Text.Scanner.run_append, run_doubled, Option.bind_some]
    simp [Text.Scanner.run, step]
  rw [literal, hvalue, tokens_eq_tokensFrom, List.cons_append, tokensFrom_cons]
  change ((tokensFrom (.literal []) _).map _) = _
  rw [tokensFrom, hrun, Option.bind_some, finish]
  simp

theorem reads_dotted (xs : List (List Char)) (h : ∀ y ∈ xs, IsIdentifier y) :
    Reads (xs.flatMap ('.' :: ·)) (dottedTokens xs) ∧ AtBoundary (xs.flatMap ('.' :: ·)) := by
  refine Reads.flatMap (fun x hx => ?_) fun x _ => atBoundary_cons (by decide) _
  have hdot : scanner.run .between ['.'] = some ([.mark .dot], .between) := rfl
  exact Reads.closed_append hdot (.of_tokens (h x hx).tokens_eq)

theorem IsName.exists_tokens (h : IsName cs) : ∃ x xs, tokens cs = some (nameTokens x xs) := by
  obtain ⟨x, xs, hall, rfl⟩ := h
  obtain ⟨hreads, hboundary⟩ := reads_dotted xs fun y hy => hall y (List.mem_cons_of_mem _ hy)
  have hx : Reads x [.identifier x] := .of_tokens (hall x List.mem_cons_self).tokens_eq
  exact ⟨x, xs, (hx.append hreads hboundary).tokens_eq⟩

theorem IsTable.exists_tokens (h : IsTable cs) :
    ∃ x xs as, IsAlias as ∧ tokens cs = some (nameTokens x xs ++ as) := by
  obtain ⟨name, hname, hcs⟩ := h
  obtain ⟨x, xs, hx⟩ := hname.exists_tokens
  rcases hcs with rfl | ⟨y, hy, rfl | rfl⟩
  · exact ⟨x, xs, [], .none, by rw [hx, List.append_nil]⟩
  · have hyreads : Reads (' ' :: y) [.identifier y] :=
      .blank_cons (by decide) (.of_tokens hy.tokens_eq)
    refine ⟨x, xs, _, .bare y, Reads.tokens_eq ?_⟩
    exact (Reads.of_tokens hx).append hyreads (atBoundary_cons (by decide) _)
  · have has : scanner.run .between " AS ".toList = some ([.keyword .as], .between) := rfl
    have hyreads : Reads (" AS ".toList ++ y) [.keyword .as, .identifier y] :=
      Reads.closed_append has (.of_tokens hy.tokens_eq)
    refine ⟨x, xs, _, .named y, Reads.tokens_eq ?_⟩
    rw [List.append_assoc]
    exact (Reads.of_tokens hx).append hyreads (atBoundary_cons (by decide) _)

end Sql

end QueryComposer
