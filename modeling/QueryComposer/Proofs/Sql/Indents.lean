import QueryComposer.Proofs.Query.Tree
import QueryComposer.Proofs.Sql.Nesting

/-!
# A level moves nothing but indents

The same query can be laid out at any level, and the texts differ only in the indents of their
lines. Behind a line end the layout puts an indent, and nowhere else does the level show. The texts
that were typed in are the same on both sides, line ends included: a line end that was typed in has
no indent behind it that could change.

`Reindented` says this of two texts by going along both of them at once. It composes over
concatenation, so it is shown of a layout piece by piece. Whoever wants to know what a level cannot
change looks at the three cases of the relation and not at the layout again.

## Main definitions

* `Reindented` relates texts that differ in indents only.
* `bareLines` lists the lines of a text without the blanks that they begin with.

## Main results

* `Query.reindented_body`: the bodies of a query at two levels differ in indents only.
* `Query.bareLines_sql`: so do its statements, line by line.
-/

namespace QueryComposer

/-- The texts differ in nothing but the indents behind their line ends. -/
inductive Reindented : List Char → List Char → Prop where
  | nil : Reindented [] []
  | cons (c : Char) {xs ys : List Char} : Reindented xs ys → Reindented (c :: xs) (c :: ys)
  | newLine (d e : Int) {xs ys : List Char} : Reindented xs ys →
      Reindented (newLine d ++ xs) (newLine e ++ ys)

namespace Reindented

variable {d e : Int} {xs xs' ys ys' : List Char}

theorem refl (xs : List Char) : Reindented xs xs := by
  induction xs with
  | nil => exact .nil
  | cons c xs ih => exact ih.cons c

theorem append (hx : Reindented xs xs') (hy : Reindented ys ys') :
    Reindented (xs ++ ys) (xs' ++ ys') := by
  induction hx with
  | nil => exact hy
  | cons c _ ih => exact ih.cons c
  | newLine d e _ ih =>
    rw [List.append_assoc, List.append_assoc]
    exact ih.newLine d e

theorem flatMap {α : Type} {f g : α → List Char} {l : List α}
    (h : ∀ a ∈ l, Reindented (f a) (g a)) : Reindented (l.flatMap f) (l.flatMap g) := by
  induction l with
  | nil => exact .nil
  | cons a l ih =>
    rw [List.flatMap_cons, List.flatMap_cons]
    exact (h a List.mem_cons_self).append (ih fun b hb => h b (List.mem_cons_of_mem _ hb))

theorem intercalate {α : Type} {f g : α → List Char} (sep : List Char) {l : List α}
    (h : ∀ a ∈ l, Reindented (f a) (g a)) :
    Reindented (List.intercalate sep (l.map f)) (List.intercalate sep (l.map g)) := by
  induction l with
  | nil => exact .nil
  | cons a l ih =>
    have ha : Reindented (f a) (g a) := h a List.mem_cons_self
    cases l with
    | nil => simpa using ha
    | cons b l =>
      have hrest := ih fun c hc => h c (List.mem_cons_of_mem _ hc)
      simp only [List.map_cons, List.intercalate_cons_cons, List.append_assoc] at hrest ⊢
      exact ha.append ((refl sep).append hrest)

/-- Behind a text that is the same on both sides. -/
theorem append_left (zs : List Char) (h : Reindented xs ys) : Reindented (zs ++ xs) (zs ++ ys) :=
  (refl zs).append h

/-- Before a text that is the same on both sides. -/
theorem append_right (h : Reindented xs ys) (zs : List Char) : Reindented (xs ++ zs) (ys ++ zs) :=
  h.append (refl zs)

end Reindented

/-! ### Clauses -/

theorem Join.reindented_clause (j : Join) (d e : Int) : Reindented (j.clause d) (j.clause e) := by
  unfold Join.clause
  simp only [List.append_assoc]
  exact (Reindented.refl _).newLine d e

theorem reindented_orderClause (sortKeys : List SortKey) (d e : Int) :
    Reindented (orderClause d sortKeys) (orderClause e sortKeys) := by
  unfold orderClause
  split
  · exact .nil
  · simp only [List.append_assoc]
    exact (Reindented.refl _).newLine d e

theorem reindented_limitClause (limit : String) (d e : Int) :
    Reindented (limitClause d limit) (limitClause e limit) := by
  unfold limitClause
  split
  · exact .nil
  · simp only [List.append_assoc]
    exact (Reindented.refl _).newLine d e

section Conditions

variable {d e : Int} {body? body?' : String → Option (List Char)}

theorem reindented_parenthesized {xs ys : List Char} (h : Reindented xs ys) (d e : Int) :
    Reindented (parenthesized d xs) (parenthesized e ys) := by
  have hend := (Reindented.refl [')']).newLine (d + 1) (e + 1)
  unfold parenthesized
  simp only [List.cons_append, List.append_assoc]
  exact ((h.append hend).newLine _ _).cons '('

theorem Condition.reindented_term {c : Condition}
    (h : c.operator.isNullTest = false →
      Reindented (c.operandText d body?) (c.operandText e body?')) :
    Reindented (c.term d body?) (c.term e body?') := by
  unfold Condition.term
  split
  · next he =>
    have hn := Operator.isNullTest_of_isExistence he
    exact .append_left _ ((h hn).cons ' ')
  · split
    · exact .refl _
    · next hn => exact .append_left _ ((h (by simpa using hn)).cons ' ')

theorem reindented_whereClause {conditions : List Condition}
    (h : ∀ c ∈ conditions, Reindented (c.term d body?) (c.term e body?')) :
    Reindented (whereClause d body? conditions) (whereClause e body?' conditions) := by
  cases conditions with
  | nil => exact .nil
  | cons first others =>
    have hothers := Reindented.flatMap fun c (hc : c ∈ others) =>
      (((h c (List.mem_cons_of_mem _ hc)).cons ' ').append_left (named c.gate)).newLine
        (d + 1) (e + 1)
    have hfirst := (h first List.mem_cons_self).append hothers
    unfold whereClause
    simp only [List.append_assoc]
    exact (hfirst.append_left _).newLine d e

end Conditions

/-! ### Statements -/

namespace Query

variable {d e : Int} {body? body?' : String → Option (List Char)}

theorem reindented_statement (q : Query)
    (h : ∀ c ∈ q.conditions, Reindented (c.term d body?) (c.term e body?')) :
    Reindented (q.statement d body?) (q.statement e body?') := by
  have hwhere := reindented_whereClause h
  unfold statement
  split
  · exact .refl _
  · split
    · have htail := (reindented_orderClause q.sortKeys d e).append
        (reindented_limitClause q.limit d e)
      have hjoins := Reindented.flatMap fun j (_ : j ∈ q.joins.filter Join.isFilled) =>
        j.reindented_clause d e
      have hfrom := ((hjoins.append (hwhere.append htail)).append_left q.table.toList).append_left
        "FROM ".toList
      unfold selectText
      simp only [List.append_assoc]
      exact .append_left _ (.append_left _ (hfrom.newLine d e))
    · exact .refl _
    · have hassignments := Reindented.intercalate [','] fun p (_ : p ∈ q.filledPairs) =>
        (Reindented.refl p.assignment).newLine (d + 1) (e + 1)
      have hset := (hassignments.append hwhere).append_left "SET".toList
      unfold updateText
      simp only [List.append_assoc]
      exact .append_left _ (.append_left _ (hset.newLine d e))
    · exact .append_left _ hwhere

/-- **A level moves nothing but indents**, however deep the query is nested. -/
theorem reindented_body (q : Query) (d e : Int) : Reindented (q.body d) (q.body e) := by
  induction q using Query.induct generalizing d e with
  | step q ih =>
    rw [body_eq, body_eq]
    refine q.reindented_statement fun c hc => ?_
    refine Condition.reindented_term fun _ => ?_
    rw [operandText_body, operandText_body]
    cases hchild : q.operand? c with
    | none => exact .refl _
    | some child =>
      obtain ⟨key, -, hmem⟩ := exists_mem_of_operand? hchild
      exact reindented_parenthesized (ih _ hmem (d + 2) (e + 2)) d e

end Query

/-! ### Lines -/

/-- The lines of a text without the blanks that they begin with. -/
def bareLines (cs : List Char) : List (List Char) :=
  (cs.splitOn '\n').map fun line => line.dropWhile Text.isBlank

theorem newLine_notMem_indent (level : Int) : '\n' ∉ indent level :=
  fun hmem => by cases List.eq_of_mem_replicate hmem

theorem bareLines_indent_append (level : Int) (cs : List Char) :
    bareLines (indent level ++ cs) = bareLines cs := by
  obtain ⟨line, lines, hsplit⟩ := List.exists_cons_of_ne_nil (List.splitOn_ne_nil '\n' cs)
  rw [bareLines, bareLines, splitOn_append (newLine_notMem_indent level) hsplit, hsplit,
    List.map_cons, List.map_cons, dropWhile_indent]

theorem splitOn_newLine_append (level : Int) {cs line : List Char} {lines : List (List Char)}
    (h : cs.splitOn '\n' = line :: lines) :
    (newLine level ++ cs).splitOn '\n' = [] :: (indent level ++ line) :: lines := by
  rw [newLine, List.cons_append, List.splitOn_cons_eq_if_modifyHead,
    splitOn_append (newLine_notMem_indent level) h]
  simp

/-- The first lines are the same, since no indent stands there. What is said of them is more than of
the others, because another text may come before the first line. -/
theorem Reindented.exists_lines {xs ys : List Char} (h : Reindented xs ys) :
    ∃ line lines lines', xs.splitOn '\n' = line :: lines ∧ ys.splitOn '\n' = line :: lines' ∧
      (lines.map fun l => l.dropWhile Text.isBlank) =
        lines'.map fun l => l.dropWhile Text.isBlank := by
  induction h with
  | nil => exact ⟨[], [], [], rfl, rfl, rfl⟩
  | @cons c xs ys _ ih =>
    obtain ⟨line, lines, lines', hx, hy, hlines⟩ := ih
    by_cases hc : c = '\n'
    · subst hc
      refine ⟨[], line :: lines, line :: lines', ?_, ?_, by simp [hlines]⟩
      · simp [List.splitOn_cons_eq_if_modifyHead, hx]
      · simp [List.splitOn_cons_eq_if_modifyHead, hy]
    · have hc' : '\n' ∉ [c] := by simpa using Ne.symm hc
      exact ⟨c :: line, lines, lines', splitOn_append hc' hx, splitOn_append hc' hy, hlines⟩
  | @newLine d e xs ys _ ih =>
    obtain ⟨line, lines, lines', hx, hy, hlines⟩ := ih
    refine ⟨[], _, _, splitOn_newLine_append d hx, splitOn_newLine_append e hy, ?_⟩
    rw [List.map_cons, List.map_cons, dropWhile_indent, dropWhile_indent, hlines]

theorem Reindented.bareLines_eq {xs ys : List Char} (h : Reindented xs ys) :
    bareLines xs = bareLines ys := by
  obtain ⟨line, lines, lines', hx, hy, hlines⟩ := h.exists_lines
  rw [bareLines, bareLines, hx, hy, List.map_cons, List.map_cons, hlines]

/-- **Two levels, the same lines**, apart from the blanks that they begin with. -/
theorem Query.bareLines_sql (q : Query) (d e : Int) :
    bareLines (q.sql d) = bareLines (q.sql e) := by
  have hbody := q.reindented_body d e
  unfold Query.sql
  split
  · split
    · exact hbody.bareLines_eq
    · rw [bareLines_indent_append, bareLines_indent_append, hbody.bareLines_eq]
  · exact (hbody.append_right [';']).bareLines_eq

end QueryComposer
