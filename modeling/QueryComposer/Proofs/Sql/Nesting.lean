import QueryComposer.Proofs.Sql.Placeholder

/-!
# A subquery is a statement in parentheses

The layout of a query takes the bodies of its subqueries, not their statements: what would be taken
off again, the semicolon and the indent of a placeholder, is never put on. Here a subquery is laid
out the long way round. The statement that it has by itself, two levels further in, loses its
semicolon, its first line is indented like the others, and parentheses come around it. Both ways
lead to the same text.

## Main definitions

* `nestedText` brings a statement into the place of an operand.

## Main results

* `Query.operandText_nestedText`: the operand of a condition is the statement of its subquery,
  brought into that place.
-/

namespace QueryComposer

/-- A statement in the place of an operand, below a condition at this level. -/
def nestedText (level : Int) (sql : List Char) : List Char :=
  let text := if sql.getLast? = some ';' then sql.dropLast else sql
  let lines := (text.splitOn '\n').modifyHead fun line =>
    indent (level + 2) ++ line.dropWhile Text.isBlank
  '(' :: '\n' :: List.intercalate ['\n'] lines ++ newLine (level + 1) ++ [')']

/-! ### The first line -/

theorem splitOn_append {xs cs : List Char} {line : List Char} {lines : List (List Char)}
    (hxs : '\n' ∉ xs) (h : cs.splitOn '\n' = line :: lines) :
    (xs ++ cs).splitOn '\n' = (xs ++ line) :: lines := by
  induction xs with
  | nil => exact h
  | cons x xs ih =>
    obtain ⟨hx, hxs⟩ := not_or.mp (mt List.mem_cons.mpr hxs)
    rw [List.cons_append, List.splitOn_cons_eq_if_modifyHead, if_neg (by simpa using Ne.symm hx),
      ih hxs]
    rfl

theorem intercalate_append_head (sep xs line : List Char) (lines : List (List Char)) :
    List.intercalate sep ((xs ++ line) :: lines) = xs ++ List.intercalate sep (line :: lines) := by
  cases lines with
  | nil => simp
  | cons next lines => simp [List.intercalate_cons_cons]

theorem dropWhile_indent (level : Int) (cs : List Char) :
    (indent level ++ cs).dropWhile Text.isBlank = cs.dropWhile Text.isBlank := by
  refine List.dropWhile_append_of_pos fun c hc => ?_
  rw [List.eq_of_mem_replicate hc]
  rfl

theorem dropWhile_indent_append (level : Int) {c : Char} (hc : Text.isBlank c = false)
    (cs : List Char) : (indent level ++ c :: cs).dropWhile Text.isBlank = c :: cs := by
  rw [dropWhile_indent, List.dropWhile_cons_of_neg (by simp [hc])]

/-- The first line gets its indent in the place of the one that it had. -/
theorem intercalate_modifyHead_splitOn {c : Char} (hc : Text.isBlank c = false)
    (level level' : Int) (cs : List Char) :
    List.intercalate ['\n'] (((indent level' ++ c :: cs).splitOn '\n').modifyHead fun line =>
      indent level ++ line.dropWhile Text.isBlank) = indent level ++ c :: cs := by
  obtain ⟨line, lines, hsplit⟩ := List.exists_cons_of_ne_nil (List.splitOn_ne_nil '\n' cs)
  have hindent : ∀ l, '\n' ∉ indent l := fun l hmem => by cases List.eq_of_mem_replicate hmem
  have hc' : '\n' ∉ [c] := by
    rintro hmem
    cases List.mem_singleton.mp hmem
    cases hc
  have hlines : (indent level' ++ c :: cs).splitOn '\n' = (indent level' ++ c :: line) :: lines :=
    splitOn_append (hindent level') (splitOn_append hc' hsplit)
  have hrest := intercalate_append_head ['\n'] [c] line lines
  rw [← hsplit, List.intercalate_splitOn, List.singleton_append, List.singleton_append] at hrest
  rw [hlines, List.modifyHead_cons, dropWhile_indent_append level' hc, intercalate_append_head,
    hrest]

/-! ### Statements -/

namespace Query

/-- A placeholder ends with a letter. -/
theorem getLast?_of_placeholder? {q : Query} {p : String} (h : q.placeholder? = some p) :
    p.toList.getLast? = some 'e' ∨ p.toList.getLast? = some 'n' := by
  have hall : ∀ p ∈ placeholders,
      p.toList.getLast? = some 'e' ∨ p.toList.getLast? = some 'n' := by decide
  exact hall p (mem_placeholders h)

/-- The statement is the body, with a semicolon behind it or, if it is a placeholder, perhaps with
an indent before it. -/
theorem dropSemicolon_sql (q : Query) (level : Int) :
    (if (q.sql level).getLast? = some ';' then (q.sql level).dropLast else q.sql level) =
      indent (if q.placeholder? = none ∨ q.operation = .insert then 0 else level) ++
        q.body level := by
  rw [sql]
  cases hp : q.placeholder? with
  | none =>
    simp only [List.getLast?_concat, if_true, List.dropLast_concat, true_or]
    rfl
  | some p =>
    have hbody : q.body level = p.toList := by rw [body_eq, statement, hp]
    have hlast : ∀ xs : List Char, (xs ++ q.body level).getLast? ≠ some ';' := by
      intro xs
      rw [hbody, List.getLast?_append]
      rcases getLast?_of_placeholder? hp with hlast | hlast <;> rw [hlast, Option.some_or]
      · decide
      · decide
    simp only [if_neg (hlast _), reduceCtorEq, false_or]
    split
    · rfl
    · rfl

/-- **Both ways lead to the same text.** -/
theorem nestedText_sql (q : Query) (level : Int) :
    nestedText level (q.sql (level + 2)) = parenthesized level (q.body (level + 2)) := by
  obtain ⟨c, cs, hbody, hc⟩ := q.exists_body_eq_cons (level + 2)
  unfold nestedText
  rw [dropSemicolon_sql, hbody]
  dsimp only
  rw [intercalate_modifyHead_splitOn hc, parenthesized, newLine, newLine]
  simp only [List.cons_append, List.append_assoc]

/-- The operand of a condition is the statement of its subquery, brought into that place. -/
theorem operandText_nestedText (q : Query) (c : Condition) (level : Int) :
    (c.operandText level fun key =>
        (Entries.find? key q.subqueries).map fun child => child.body (level + 2)) =
      match q.operand? c with
      | some child => nestedText level (child.sql (level + 2))
      | none => literal c.value := by
  rw [operandText_body]
  cases q.operand? c with
  | none => rfl
  | some child => exact (nestedText_sql child level).symm

end Query

end QueryComposer
