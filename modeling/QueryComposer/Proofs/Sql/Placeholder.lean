import QueryComposer.Proofs.Sql.CommentLine
import Mathlib.Tactic.Push

/-!
# Placeholders are seen from outside

A query that lacks its table or its columns shows a placeholder, and so does every query around it
that renders it as an operand. The texts that were typed in may hold anything: quotes that stay
open, semicolons, line ends, comment marks. The placeholder stands on a line of its own all the
same, because the layout puts a line end and an indent before the body of every subquery, and that
is enough for the text not to be complete (`hasCommentLine_of_isInfix`).

## Main definitions

* `Query.ShowsPlaceholder` says which queries show a placeholder, by what they lack.

## Main results

* `Query.newLine_body_infix_body`: the body of a rendered subquery stands on lines of its own in
  the body of the query.
* `Query.isComplete_sql_eq`: the verdict on a query is up to comment lines and the parser.
* `Query.isComplete_sql_of_showsPlaceholder`: a query that shows a placeholder is not complete.
-/

namespace QueryComposer

/-! ### Where an operand stands -/

theorem Operator.isNullTest_of_isExistence {o : Operator} (h : o.isExistence = true) :
    o.isNullTest = false := by
  cases o <;> first | rfl | cases h

theorem newLine_append_infix_parenthesized (level : Int) (body : List Char) :
    newLine (level + 2) ++ body <:+: parenthesized level body :=
  ⟨['('], newLine (level + 1) ++ [')'], by simp [parenthesized]⟩

theorem Condition.operandText_infix_term {c : Condition} (h : c.operator.isNullTest = false)
    (level : Int) (body? : String → Option (List Char)) :
    c.operandText level body? <:+: c.term level body? := by
  rw [Condition.term, h]
  split
  · exact ((List.suffix_cons _ _).trans (List.suffix_append _ _)).isInfix
  · exact ((List.suffix_cons _ _).trans (List.suffix_append _ _)).isInfix

theorem term_infix_whereClause {c : Condition} {conditions : List Condition}
    (h : c ∈ conditions) (level : Int) (body? : String → Option (List Char)) :
    c.term level body? <:+: whereClause level body? conditions := by
  cases conditions with
  | nil => cases h
  | cons first others =>
    rw [whereClause]
    rcases List.mem_cons.mp h with rfl | h
    · exact (List.suffix_append _ _).isInfix.trans (List.prefix_append _ _).isInfix
    · obtain ⟨before, after, rfl⟩ := List.append_of_mem h
      rw [List.flatMap_append, List.flatMap_cons]
      refine List.IsInfix.trans ?_ (List.suffix_append _ _).isInfix
      refine List.IsInfix.trans ?_ (List.suffix_append _ _).isInfix
      refine List.IsInfix.trans ?_ (List.prefix_append _ _).isInfix
      exact ((List.suffix_cons _ _).trans (List.suffix_append _ _)).isInfix

namespace Query

theorem whereClause_infix_selectText (q : Query) (level : Int)
    (body? : String → Option (List Char)) :
    whereClause level body? q.conditions <:+: q.selectText level body? := by
  unfold selectText
  exact (List.infix_append _ _ _).trans (List.prefix_append _ _).isInfix

theorem whereClause_infix_statement {q : Query} (hp : q.placeholder? = none)
    (ho : q.operation ≠ .insert) (level : Int) (body? : String → Option (List Char)) :
    whereClause level body? q.conditions <:+: q.statement level body? := by
  rw [statement, hp]
  cases h : q.operation with
  | select => exact whereClause_infix_selectText q level body?
  | insert => exact absurd h ho
  | update => exact (List.suffix_append _ _).isInfix
  | delete => exact (List.suffix_append _ _).isInfix

/-- The operand of a condition, with the body of its subquery laid out two levels further in. -/
theorem operandText_body (q : Query) (c : Condition) (level : Int) :
    (c.operandText level fun key =>
        (Entries.find? key q.subqueries).map fun child => child.body (level + 2)) =
      match q.operand? c with
      | some child => parenthesized level (child.body (level + 2))
      | none => literal c.value := by
  rw [Condition.operandText, operand?]
  cases c.link? with
  | none => rfl
  | some key => cases hf : Entries.find? key q.subqueries <;> simp [hf]

/-- **A rendered subquery stands on lines of its own.** -/
theorem newLine_body_infix_body {q child : Query} {c : Condition} (hp : q.placeholder? = none)
    (ho : q.operation ≠ .insert) (hc : c ∈ q.conditions) (hn : c.operator.isNullTest = false)
    (hchild : q.operand? c = some child) (level : Int) :
    newLine (level + 2) ++ child.body (level + 2) <:+: q.body level := by
  have hoperand := operandText_body q c level
  simp only [hchild] at hoperand
  refine (newLine_append_infix_parenthesized level _).trans ?_
  rw [← hoperand, body_eq q]
  refine (Condition.operandText_infix_term hn level _).trans ?_
  exact (term_infix_whereClause hc level _).trans (whereClause_infix_statement hp ho level _)

/-! ### Queries that show a placeholder -/

/-- The query lacks its table, or all of its columns where it needs some, or renders a subquery that
shows a placeholder. -/
inductive ShowsPlaceholder : Query → Prop where
  | noTable {q : Query} : q.table = "" → ShowsPlaceholder q
  | noColumn {q : Query} : q.operation = .insert ∨ q.operation = .update →
      (∀ p ∈ q.pairs, p.column = "") → ShowsPlaceholder q
  | operand {q child : Query} {c : Condition} : q.operation ≠ .insert → c ∈ q.conditions →
      c.operator.isNullTest = false → q.operand? c = some child → ShowsPlaceholder child →
      ShowsPlaceholder q

theorem filledPairs_eq_nil_iff (q : Query) : q.filledPairs = [] ↔ ∀ p ∈ q.pairs, p.column = "" := by
  simp [filledPairs, Pair.isFilled]

/-- What a query shows of its own, apart from its subqueries. -/
theorem placeholder?_eq_none_iff (q : Query) :
    q.placeholder? = none ↔ q.table ≠ "" ∧
      (q.operation = .insert ∨ q.operation = .update → ∃ p ∈ q.pairs, p.column ≠ "") := by
  have hfilled : q.filledPairs ≠ [] ↔ ∃ p ∈ q.pairs, p.column ≠ "" := by
    rw [Ne, filledPairs_eq_nil_iff]
    push Not
    exact Iff.rfl
  rw [← hfilled, placeholder?]
  by_cases ht : q.table = ""
  · simp [ht]
  · by_cases hf : q.filledPairs = []
    · cases ho : q.operation <;> simp [ht, hf]
    · simp [ht, hf]

theorem filledPairs_ne_nil {q : Query} (h : q.placeholder? = none)
    (ho : q.operation = .insert ∨ q.operation = .update) : q.filledPairs ≠ [] := by
  intro hnil
  obtain ⟨p, hmem, hcolumn⟩ := ((placeholder?_eq_none_iff q).mp h).2 ho
  exact hcolumn ((filledPairs_eq_nil_iff q).mp hnil p hmem)

theorem ShowsPlaceholder.of_placeholder?_ne_none {q : Query} (h : q.placeholder? ≠ none) :
    q.ShowsPlaceholder := by
  rw [Ne, placeholder?_eq_none_iff] at h
  by_cases ht : q.table = ""
  · exact .noTable ht
  · push Not at h
    obtain ⟨ho, hf⟩ := h ht
    exact .noColumn ho hf

theorem placeholder?_eq_none_of_not {q : Query} (h : ¬q.ShowsPlaceholder) :
    q.placeholder? = none :=
  not_ne_iff.mp fun hne => h (.of_placeholder?_ne_none hne)

/-- The texts that stand in the place of a statement. -/
def placeholders : List String :=
  ["-- Please fill in the table name", "-- Add at least one column",
    "-- Add at least one SET column"]

theorem mem_placeholders {q : Query} {p : String} (h : q.placeholder? = some p) :
    p ∈ placeholders := by
  unfold placeholder? at h
  split at h
  · cases h
    decide
  · split at h
    · split at h
      · cases h
        decide
      · cases h
        decide
      · cases h
    · cases h

/-- A placeholder is a comment. -/
theorem hyphens_prefix_of_placeholder? {q : Query} {p : String} (h : q.placeholder? = some p) :
    "--".toList <+: p.toList := by
  have hall : ∀ p ∈ placeholders, "--".toList <+: p.toList := by decide
  exact hall p (mem_placeholders h)

theorem hasCommentLine_body_of_placeholder? {q : Query} (h : q.placeholder? ≠ none) (level : Int) :
    Sql.hasCommentLine (q.body level) = true := by
  obtain ⟨p, hp⟩ := Option.ne_none_iff_exists'.mp h
  rw [body_eq, statement, hp]
  exact Sql.hasCommentLine_of_hyphens (hyphens_prefix_of_placeholder? hp)

theorem ShowsPlaceholder.hasCommentLine_body {q : Query} (h : q.ShowsPlaceholder) (level : Int) :
    Sql.hasCommentLine (q.body level) = true := by
  induction h generalizing level with
  | noTable ht =>
    refine hasCommentLine_body_of_placeholder? (fun hp => ?_) level
    exact ((placeholder?_eq_none_iff _).mp hp).1 ht
  | noColumn ho hcolumns =>
    refine hasCommentLine_body_of_placeholder? (fun hp => ?_) level
    obtain ⟨p, hmem, hcolumn⟩ := ((placeholder?_eq_none_iff _).mp hp).2 ho
    exact hcolumn (hcolumns p hmem)
  | @operand q child c ho hc hn hchild _ ih =>
    -- A query with a placeholder of its own does not render its operands at all.
    by_cases hp : q.placeholder? = none
    · exact Sql.hasCommentLine_of_isInfix (ih (level + 2))
        (newLine_body_infix_body hp ho hc hn hchild level)
    · exact hasCommentLine_body_of_placeholder? hp level

theorem ShowsPlaceholder.hasCommentLine_sql {q : Query} (h : q.ShowsPlaceholder) (level : Int) :
    Sql.hasCommentLine (q.sql level) = true := by
  have hbody := h.hasCommentLine_body level
  unfold sql
  split
  · split
    · exact hbody
    · rw [Sql.hasCommentLine_indent_append]
      exact hbody
  · exact Sql.hasCommentLine_append_of_left hbody _

/-! ### The verdict -/

/-- A body begins with a letter, or with a hyphen if it is a placeholder. -/
theorem exists_body_eq_cons (q : Query) (level : Int) :
    ∃ c cs, q.body level = c :: cs ∧ Text.isBlank c = false := by
  rw [body_eq, statement]
  cases hp : q.placeholder? with
  | some p =>
    obtain ⟨rest, hrest⟩ := hyphens_prefix_of_placeholder? hp
    exact ⟨'-', '-' :: rest, hrest.symm, by decide⟩
  | none =>
    cases q.operation with
    | select => exact ⟨'S', _, rfl, by decide⟩
    | insert => exact ⟨'I', _, rfl, by decide⟩
    | update => exact ⟨'U', _, rfl, by decide⟩
    | delete => exact ⟨'D', _, rfl, by decide⟩

/-- There are no blanks around a statement. -/
theorem trim_sql {q : Query} (h : q.placeholder? = none) (level : Int) :
    Text.trim (q.sql level) = q.sql level := by
  obtain ⟨c, cs, hbody, hc⟩ := q.exists_body_eq_cons level
  have hsql : q.sql level = c :: cs ++ [';'] := by rw [sql, h, hbody]
  rw [hsql]
  refine Text.stripWhere_eq_self ?_ ?_
  · intro d hd
    cases hd
    exact hc
  · intro d hd
    rw [List.getLast?_concat] at hd
    cases hd
    decide

/-- Comment lines settle the verdict on a query, or else it is up to the parser. -/
theorem isComplete_sql_eq (parses : List Char → Bool) (q : Query) (level : Int) :
    Sql.isComplete parses (q.sql level) =
      (!Sql.hasCommentLine (q.sql level) && parses (q.sql level)) := by
  by_cases hp : q.placeholder? = none
  · obtain ⟨c, cs, hbody, -⟩ := q.exists_body_eq_cons level
    have hne : q.sql level ≠ [] := by
      rw [sql, hp, hbody]
      exact nofun
    rw [Sql.isComplete, trim_sql hp level, decide_eq_true hne, Bool.true_and]
  · have hcomment := (ShowsPlaceholder.of_placeholder?_ne_none hp).hasCommentLine_sql level
    simp [Sql.isComplete, Sql.hasCommentLine_trim, hcomment]

/-- **An unfinished query is never complete**, whatever the parser takes. No text that was typed in
anywhere hides the placeholder. -/
theorem isComplete_sql_of_showsPlaceholder {q : Query} (h : q.ShowsPlaceholder)
    (parses : List Char → Bool) (level : Int) :
    Sql.isComplete parses (q.sql level) = false := by
  rw [isComplete_sql_eq, h.hasCommentLine_sql level]
  rfl

/-- A deletion whose table leaves a quote open, with a change behind its condition that has no
columns. -/
def openQuote : Query :=
  { bare "root" .delete with
    table := "users; -- \x27\n"
    conditions := [⟨"c1", "id", .among, "", .and, some "s1"⟩]
    subqueries := [("s1", { bare "s1" .update with table := "\x27" })] }

theorem showsPlaceholder_openQuote : openQuote.ShowsPlaceholder :=
  .operand nofun List.mem_cons_self rfl rfl (.noColumn (.inr rfl) nofun)

theorem isComplete_sql_openQuote :
    openQuote.ShowsPlaceholder ∧ Sql.isComplete (fun _ => true) (openQuote.sql 2) = false :=
  ⟨showsPlaceholder_openQuote,
    isComplete_sql_of_showsPlaceholder showsPlaceholder_openQuote (fun _ => true) 2⟩

end Query

end QueryComposer
