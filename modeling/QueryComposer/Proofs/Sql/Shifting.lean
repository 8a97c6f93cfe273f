import QueryComposer.Proofs.Sql.Indents

/-!
# A level is a shift

A nested statement looks like the same statement by itself, moved to the right as a whole. Nothing
in the layout says so: levels are handed down to the clauses, and each clause writes its own
indents. `Indents` shows that the indents are all that a level changes, for any texts. Here it is
shown how they change, which needs more. A line end that was typed in has no indent behind it, so
there must be none, and an insertion takes no indent at all, so there must be none of those among
the statements that are shown.

The shift is a function on texts, `shifted`, that goes through a text once. It commutes with the
ways in which a layout is put together, so every piece of a layout at the deeper level is the
shifted piece of the other level.

## Main definitions

* `shifted` puts more indent behind every line end of a text.
* `Query.HasOneLineTexts` says that no text of a query has a line end.
* `Query.ShowsOperand` and `Query.Renders` say which subqueries a statement shows.
* `alignedText` brings a statement that stands alone into the place of an operand, line by line.

## Main results

* `Query.shifts_body`: the body at a deeper level is the shifted body.
* `Query.lines_sql_add`: so are the lines of a statement, and an operand has the lines of the
  statement that its subquery is by itself.
-/

namespace QueryComposer

/-- The text with `k` levels more of indent behind each of its line ends. -/
def shifted (k : Nat) (cs : List Char) : List Char :=
  cs.flatMap fun c => if c = '\n' then newLine k else [c]

/-- The second text is the first one, shifted. -/
def Shifts (k : Nat) (xs ys : List Char) : Prop := ys = shifted k xs

theorem indent_add {d : Int} (hd : 0 ≤ d) (k : Nat) : indent (d + k) = indent k ++ indent d := by
  rw [indent, indent, indent, List.replicate_append_replicate]
  congr 1
  omega

namespace Shifts

variable {k : Nat} {xs xs' ys ys' : List Char}

theorem nil : Shifts k [] [] := rfl

theorem append (hx : Shifts k xs xs') (hy : Shifts k ys ys') :
    Shifts k (xs ++ ys) (xs' ++ ys') := by
  rw [Shifts, shifted, List.flatMap_append, hx, hy, shifted, shifted]

theorem cons {c : Char} (hc : c ≠ '\n') (h : Shifts k xs ys) : Shifts k (c :: xs) (c :: ys) := by
  rw [Shifts, shifted, List.flatMap_cons, if_neg hc, h, List.singleton_append, shifted]

/-- A text without line ends stays where it is. -/
theorem of_notMem (h : '\n' ∉ xs) : Shifts k xs xs := by
  induction xs with
  | nil => exact nil
  | cons c xs ih =>
    obtain ⟨hc, hxs⟩ := not_or.mp (mt List.mem_cons.mpr h)
    exact (ih hxs).cons (Ne.symm hc)

theorem newLine {d : Int} (hd : 0 ≤ d) (k : Nat) : Shifts k (newLine d) (newLine (d + k)) := by
  have hindent : indent d = shifted k (indent d) := of_notMem (newLine_notMem_indent d)
  rw [Shifts, QueryComposer.newLine, QueryComposer.newLine, shifted, List.flatMap_cons, if_pos rfl,
    ← shifted, ← hindent, indent_add hd, QueryComposer.newLine, List.cons_append]

theorem flatMap {α : Type} {f g : α → List Char} {l : List α} (h : ∀ a ∈ l, Shifts k (f a) (g a)) :
    Shifts k (l.flatMap f) (l.flatMap g) := by
  induction l with
  | nil => exact nil
  | cons a l ih =>
    rw [List.flatMap_cons, List.flatMap_cons]
    exact (h a List.mem_cons_self).append (ih fun b hb => h b (List.mem_cons_of_mem _ hb))

theorem intercalate {α : Type} {sep : List Char} (hsep : '\n' ∉ sep) {f g : α → List Char}
    {l : List α} (h : ∀ a ∈ l, Shifts k (f a) (g a)) :
    Shifts k (List.intercalate sep (l.map f)) (List.intercalate sep (l.map g)) := by
  induction l with
  | nil => exact nil
  | cons a l ih =>
    have ha : Shifts k (f a) (g a) := h a List.mem_cons_self
    cases l with
    | nil => simpa using ha
    | cons b l =>
      have hrest := ih fun c hc => h c (List.mem_cons_of_mem _ hc)
      simp only [List.map_cons, List.intercalate_cons_cons] at hrest ⊢
      exact (ha.append (of_notMem hsep)).append hrest

/-- Behind a text without line ends. -/
theorem append_left {zs : List Char} (hzs : '\n' ∉ zs) (h : Shifts k xs ys) :
    Shifts k (zs ++ xs) (zs ++ ys) :=
  (of_notMem hzs).append h

end Shifts

/-! ### Clauses -/

section Clauses

variable {d : Int} {k : Nat}

theorem newLine_notMem_literal {value : String} (h : '\n' ∉ value.toList) :
    '\n' ∉ literal value := by
  simp [literal, h]

theorem newLine_notMem_operator (o : Operator) : '\n' ∉ named o := by
  cases o <;> decide

theorem newLine_notMem_gate (g : Gate) : '\n' ∉ named g := by
  cases g <;> decide

theorem Join.shifts_clause (hd : 0 ≤ d) {j : Join} (ht : '\n' ∉ j.table.toList)
    (hl : '\n' ∉ j.left.toList) (hr : '\n' ∉ j.right.toList) :
    Shifts k (j.clause d) (j.clause (d + k)) := by
  have hkind : '\n' ∉ named j.kind := by
    cases j.kind <;> decide
  have htext : '\n' ∉ named j.kind ++ " JOIN ".toList ++ j.table.toList ++ " ON ".toList ++
      j.left.toList ++ " = ".toList ++ j.right.toList := by
    simp [hkind, ht, hl, hr]
  have hclause := (Shifts.newLine hd k).append (.of_notMem htext)
  simpa only [Join.clause, List.append_assoc] using hclause

theorem shifts_orderClause (hd : 0 ≤ d) {sortKeys : List SortKey}
    (h : ∀ s ∈ sortKeys, '\n' ∉ s.column.toList) :
    Shifts k (orderClause d sortKeys) (orderClause (d + k) sortKeys) := by
  have hdirection : ∀ e : Direction, '\n' ∉ named e := by
    intro e
    cases e <;> decide
  unfold orderClause
  split
  · exact .nil
  · refine ((Shifts.newLine hd k).append (.of_notMem (by decide))).append ?_
    refine .intercalate (by decide) fun s hs => .of_notMem ?_
    simp [SortKey.term, h s (List.mem_filter.mp hs).1, hdirection]

theorem shifts_limitClause (hd : 0 ≤ d) {limit : String} (h : '\n' ∉ limit.toList) :
    Shifts k (limitClause d limit) (limitClause (d + k) limit) := by
  unfold limitClause
  split
  · exact .nil
  · exact ((Shifts.newLine hd k).append (.of_notMem (by decide))).append (.of_notMem h)

variable {body? body?' : String → Option (List Char)}

theorem shifts_parenthesized (hd : 0 ≤ d) {xs ys : List Char} (h : Shifts k xs ys) :
    Shifts k (parenthesized d xs) (parenthesized (d + k) ys) := by
  have hbody := (Shifts.newLine (d := d + 2) (by omega) k).append h
  have hclosing : '\n' ∉ [')'] := by decide
  have hend := (Shifts.newLine (d := d + 1) (by omega) k).append (.of_notMem hclosing)
  have htext := (hbody.append hend).cons (c := '(') (by decide)
  simpa only [parenthesized, Int.add_right_comm d, List.append_assoc, List.cons_append] using htext

theorem Condition.shifts_term {c : Condition} (hcolumn : '\n' ∉ c.column.toList)
    (h : c.operator.isNullTest = false →
      Shifts k (c.operandText d body?) (c.operandText (d + k) body?')) :
    Shifts k (c.term d body?) (c.term (d + k) body?') := by
  have hoperator := newLine_notMem_operator c.operator
  have htext : '\n' ∉ c.columnText := by
    rw [Condition.columnText]
    split
    · decide
    · exact hcolumn
  have hspace : ' ' ≠ '\n' := by decide
  unfold Condition.term
  split
  · next he =>
    have hn := Operator.isNullTest_of_isExistence he
    exact ((h hn).cons hspace).append_left hoperator
  · split
    · exact .of_notMem (by simp [htext, hoperator])
    · next hn =>
      have hright := ((h (by simpa using hn)).cons hspace).append_left hoperator
      simpa only [List.append_assoc, List.cons_append] using (hright.cons hspace).append_left htext

theorem shifts_whereClause (hd : 0 ≤ d) {conditions : List Condition}
    (h : ∀ c ∈ conditions, Shifts k (c.term d body?) (c.term (d + k) body?')) :
    Shifts k (whereClause d body? conditions) (whereClause (d + k) body?' conditions) := by
  cases conditions with
  | nil => exact .nil
  | cons first others =>
    have hothers := Shifts.flatMap fun c (hc : c ∈ others) =>
      (Shifts.newLine (d := d + 1) (by omega) k).append <|
        ((h c (List.mem_cons_of_mem _ hc)).cons (c := ' ') (by decide)).append_left
          (newLine_notMem_gate c.gate)
    have hfirst := (h first List.mem_cons_self).append hothers
    have hwhere : '\n' ∉ "WHERE ".toList := by decide
    simpa only [whereClause, Int.add_right_comm d, List.append_assoc] using
      (Shifts.newLine hd k).append (hfirst.append_left hwhere)

end Clauses

/-! ### Statements -/

namespace Query

variable {q r child : Query} {c : Condition} {n k : Nat} {d : Int}
  {body? body?' : String → Option (List Char)}

/-- No text of the query has a line end. Nothing is asked of identifiers, which are not shown. -/
structure HasOneLineTexts (q : Query) : Prop where
  table : '\n' ∉ q.table.toList
  columns : '\n' ∉ q.columns.toList
  pairColumns : ∀ p ∈ q.pairs, '\n' ∉ p.column.toList
  pairValues : ∀ p ∈ q.pairs, '\n' ∉ p.value.toList
  conditionColumns : ∀ c ∈ q.conditions, '\n' ∉ c.column.toList
  conditionValues : ∀ c ∈ q.conditions, '\n' ∉ c.value.toList
  joinTables : ∀ j ∈ q.joins, '\n' ∉ j.table.toList
  joinLefts : ∀ j ∈ q.joins, '\n' ∉ j.left.toList
  joinRights : ∀ j ∈ q.joins, '\n' ∉ j.right.toList
  sortKeys : ∀ s ∈ q.sortKeys, '\n' ∉ s.column.toList
  limit : '\n' ∉ q.limit.toList

/-- The statement of the query shows the subquery as the operand of the condition. -/
structure ShowsOperand (q : Query) (c : Condition) (child : Query) : Prop where
  placeholder : q.placeholder? = none
  operation : q.operation ≠ .insert
  mem : c ∈ q.conditions
  operator : c.operator.isNullTest = false
  operand : q.operand? c = some child

/-- The statement of `q` shows the query `r`, inside `n` pairs of parentheses. -/
inductive Renders : Query → Nat → Query → Prop where
  | root (q : Query) : Renders q 0 q
  | nested {q child r : Query} {c : Condition} {n : Nat} : q.ShowsOperand c child →
      Renders child n r → Renders q (n + 1) r

theorem newLine_notMem_of_placeholder? {p : String} (h : q.placeholder? = some p) :
    '\n' ∉ p.toList := by
  have hall : ∀ p ∈ placeholders, '\n' ∉ p.toList := by decide
  exact hall p (mem_placeholders h)

theorem HasOneLineTexts.selection (h : q.HasOneLineTexts) : '\n' ∉ q.selection := by
  rw [Query.selection]
  split
  · decide
  · intro hmem
    have hdropped := (List.dropWhile_suffix _).subset (List.mem_reverse.mp hmem)
    exact h.columns ((List.dropWhile_suffix _).subset (List.mem_reverse.mp hdropped))

theorem shifts_statement (hd : 0 ≤ d) (h : q.HasOneLineTexts) (hinsert : q.operation ≠ .insert)
    (hterms : q.placeholder? = none → ∀ c ∈ q.conditions,
      Shifts k (c.term d body?) (c.term (d + k) body?')) :
    Shifts k (q.statement d body?) (q.statement (d + k) body?') := by
  unfold statement
  cases hp : q.placeholder? with
  | some p => exact .of_notMem (newLine_notMem_of_placeholder? hp)
  | none =>
    have hwhere := shifts_whereClause hd (hterms hp)
    have hline := Shifts.newLine hd k
    cases ho : q.operation with
    | insert => exact absurd ho hinsert
    | select =>
      have hselect : '\n' ∉ "SELECT ".toList := by decide
      have hfrom : '\n' ∉ "FROM ".toList := by decide
      have hjoins : Shifts k ((q.joins.filter Join.isFilled).flatMap (Join.clause d))
          ((q.joins.filter Join.isFilled).flatMap (Join.clause (d + k))) := by
        refine .flatMap fun j hj => ?_
        have hmem := (List.mem_filter.mp hj).1
        exact Join.shifts_clause hd (h.joinTables j hmem) (h.joinLefts j hmem) (h.joinRights j hmem)
      have hcolumns := (Shifts.of_notMem (k := k) hselect).append (.of_notMem h.selection)
      have htable := ((hcolumns.append hline).append (.of_notMem hfrom)).append (.of_notMem h.table)
      have horder := shifts_orderClause (k := k) hd h.sortKeys
      exact (((htable.append hjoins).append hwhere).append horder).append
        (shifts_limitClause hd h.limit)
    | update =>
      have hupdate : '\n' ∉ "UPDATE ".toList := by decide
      have hset : '\n' ∉ "SET".toList := by decide
      have hcomma : '\n' ∉ [','] := by decide
      have hassignments : Shifts k
          (List.intercalate [','] (q.filledPairs.map fun p => newLine (d + 1) ++ p.assignment))
          (List.intercalate [','] (q.filledPairs.map fun p =>
            newLine (d + k + 1) ++ p.assignment)) := by
        refine .intercalate hcomma fun p hp => ?_
        have hmem := (List.mem_filter.mp hp).1
        have htext : '\n' ∉ p.assignment := by
          simp [Pair.assignment, h.pairColumns p hmem, newLine_notMem_literal (h.pairValues p hmem)]
        rw [Int.add_right_comm d]
        exact (Shifts.newLine (by omega) k).append (.of_notMem htext)
      have htable := (Shifts.of_notMem (k := k) hupdate).append (.of_notMem h.table)
      exact (((htable.append hline).append (.of_notMem hset)).append hassignments).append hwhere
    | delete =>
      have hdelete : '\n' ∉ "DELETE FROM ".toList := by decide
      exact ((Shifts.of_notMem hdelete).append (.of_notMem h.table)).append hwhere

/-- **The body at a deeper level is the shifted body.** The levels in between do not matter, since
those of a subquery are as far apart as those of the query. -/
theorem shifts_body (h : q.Every HasOneLineTexts)
    (hinsert : ∀ n r, q.Renders n r → r.operation ≠ .insert) (hd : 0 ≤ d) (k : Nat) :
    Shifts k (q.body d) (q.body (d + k)) := by
  induction q using Query.induct generalizing d with
  | step q ih =>
    have hq := hinsert 0 q (.root q)
    rw [body_eq, body_eq]
    refine shifts_statement hd h.root hq fun hp c hc => ?_
    refine Condition.shifts_term (h.root.conditionColumns c hc) fun hn => ?_
    rw [operandText_body, operandText_body]
    cases hchild : q.operand? c with
    | none => exact .of_notMem (newLine_notMem_literal (h.root.conditionValues c hc))
    | some child =>
      obtain ⟨key, -, hmem⟩ := exists_mem_of_operand? hchild
      have hbelow : ∀ n r, child.Renders n r → r.operation ≠ .insert :=
        fun n r hr => hinsert (n + 1) r (.nested ⟨hp, hq, hc, hn, hchild⟩ hr)
      have hbody := ih _ hmem (h.subqueries _ hmem) hbelow (d := d + 2) (by omega)
      rw [Int.add_right_comm d] at hbody
      exact shifts_parenthesized hd hbody

end Query

/-! ### Lines -/

/-- Every line but the first, further in. -/
def indentOthers (k : Nat) : List (List Char) → List (List Char)
  | [] => []
  | line :: lines => line :: lines.map (indent k ++ ·)

/-- A statement that stands alone, brought into the place of an operand below a condition at this
level. It loses its semicolon, and all of its lines are indented alike. -/
def alignedText (level : Int) (sql : List Char) : List Char :=
  let text := if sql.getLast? = some ';' then sql.dropLast else sql
  let lines := (text.splitOn '\n').map (indent (level + 2) ++ ·)
  '(' :: '\n' :: List.intercalate ['\n'] lines ++ newLine (level + 1) ++ [')']

/-- The shift goes through the lines: the first one stays, the others move. -/
theorem splitOn_shifted (k : Nat) (cs : List Char) :
    (shifted k cs).splitOn '\n' = indentOthers k (cs.splitOn '\n') := by
  induction cs with
  | nil => rfl
  | cons c cs ih =>
    obtain ⟨line, lines, hsplit⟩ := List.exists_cons_of_ne_nil (List.splitOn_ne_nil '\n' cs)
    rw [hsplit, indentOthers] at ih
    by_cases hc : c = '\n'
    · subst hc
      have hleft : shifted k ('\n' :: cs) = newLine k ++ shifted k cs := rfl
      have hright := splitOn_newLine_append 0 hsplit
      rw [hleft, splitOn_newLine_append k ih]
      change ('\n' :: cs).splitOn '\n' = _ at hright
      rw [hright]
      rfl
    · have hc' : '\n' ∉ [c] := by simpa using Ne.symm hc
      have hleft : shifted k (c :: cs) = [c] ++ shifted k cs := by
        rw [shifted, List.flatMap_cons, if_neg hc]
        rfl
      have hright : (c :: cs).splitOn '\n' = ([c] ++ line) :: lines := splitOn_append hc' hsplit
      rw [hleft, splitOn_append hc' ih, hright]
      rfl

/-- With indent in front, all lines move alike. -/
theorem indent_append_shifted (k : Nat) (cs : List Char) :
    indent k ++ shifted k cs =
      List.intercalate ['\n'] ((cs.splitOn '\n').map (indent k ++ ·)) := by
  obtain ⟨line, lines, hsplit⟩ := List.exists_cons_of_ne_nil (List.splitOn_ne_nil '\n' cs)
  have hshifted := splitOn_shifted k cs
  rw [hsplit, indentOthers] at hshifted
  rw [hsplit, List.map_cons, intercalate_append_head, ← hshifted, List.intercalate_splitOn]

namespace Query

variable {q r s child : Query} {c : Condition} {m n : Nat} {P : Query → Prop}

/-! ### Queries that are shown -/

theorem Renders.trans (h : q.Renders n r) (hs : r.Renders m s) : q.Renders (n + m) s := by
  induction h with
  | root q =>
    rw [Nat.zero_add]
    exact hs
  | nested hshows _ ih =>
    rw [Nat.add_right_comm]
    exact .nested hshows (ih hs)

theorem ShowsOperand.renders (h : q.ShowsOperand c child) : q.Renders 1 child :=
  .nested h (.root child)

theorem Renders.every (h : q.Renders n r) (hq : q.Every P) : r.Every P := by
  induction h with
  | root q => exact hq
  | nested hshows _ ih => exact ih (hq.operand hshows.operand)

/-- What is shown is part of the text, at the level that its parentheses give it. -/
theorem Renders.body_infix (h : q.Renders n r) (level : Int) :
    r.body (level + 2 * n) <:+: q.body level := by
  induction h generalizing level with
  | root q => simp
  | @nested q child r c n hshows _ ih =>
    have hlevel : level + 2 * ((n + 1 : Nat) : Int) = level + 2 + 2 * n := by
      rw [Int.natCast_succ]
      omega
    have hchild := newLine_body_infix_body hshows.placeholder hshows.operation hshows.mem
      hshows.operator hshows.operand level
    rw [hlevel]
    exact (ih (level + 2)).trans ((List.suffix_append _ _).isInfix.trans hchild)

theorem body_infix_sql (q : Query) (level : Int) : q.body level <:+: q.sql level := by
  unfold sql
  split
  · exact (List.suffix_append _ _).isInfix
  · exact (List.prefix_append _ _).isInfix

/-- The operand of a condition as it stands in the statement of the query. -/
def shownOperand (q : Query) (level : Int) (c : Condition) : List Char :=
  c.operandText level fun key =>
    (Entries.find? key q.subqueries).map fun child => child.body (level + 2)

theorem ShowsOperand.shownOperand_infix_body (h : q.ShowsOperand c child) (level : Int) :
    q.shownOperand level c <:+: q.body level := by
  rw [body_eq q]
  refine (Condition.operandText_infix_term h.operator level _).trans ?_
  exact (term_infix_whereClause h.mem level _).trans
    (whereClause_infix_statement h.placeholder h.operation level _)

/-! ### Statements and operands, line by line -/

/-- An operand has the lines of the statement that its subquery is by itself. -/
theorem shownOperand_eq_alignedText (hchild : q.operand? c = some child)
    (h : child.Every HasOneLineTexts) (hinsert : ∀ n r, child.Renders n r → r.operation ≠ .insert)
    (d : Nat) : q.shownOperand d c = alignedText d (child.sql 0) := by
  have hbody : child.body (d + 2) = shifted (d + 2) (child.body 0) := by
    have hshifts := shifts_body h hinsert (Int.le_refl 0) (d + 2)
    rwa [Int.zero_add] at hshifts
  have hlines := indent_append_shifted (d + 2) (child.body 0)
  rw [← hbody] at hlines
  rw [shownOperand, operandText_body, hchild, alignedText, dropSemicolon_sql, ite_self]
  change parenthesized d (child.body (d + 2)) = '(' :: '\n' :: List.intercalate ['\n']
    (((child.body 0).splitOn '\n').map (indent (d + 2 : Nat) ++ ·)) ++ newLine (d + 1) ++ [')']
  rw [← hlines, parenthesized, newLine]
  simp only [List.cons_append, List.append_assoc]
  rfl

/-- A placeholder has one line, which moves with its indent. -/
theorem lines_sql_of_placeholder? {p : String} (hp : q.placeholder? = some p)
    (hinsert : q.operation ≠ .insert) (d k : Nat) :
    (q.sql (d + k)).splitOn '\n' = ((q.sql d).splitOn '\n').map (indent k ++ ·) := by
  have hsql : ∀ level, q.sql level = indent level ++ p.toList := by
    intro level
    rw [sql, hp, body_eq, statement, hp]
    exact congrArg (· ++ p.toList) (if_neg hinsert)
  have hline : '\n' ∉ q.sql d := by
    rw [hsql, List.mem_append, not_or]
    exact ⟨newLine_notMem_indent d, newLine_notMem_of_placeholder? hp⟩
  have hsplit : (q.sql d).splitOn '\n' = [q.sql d] := by
    simpa using splitOn_append hline (List.splitOn_nil '\n')
  have hadd : q.sql (d + k) = indent k ++ q.sql d := by
    rw [hsql, hsql, indent_add (Int.natCast_nonneg d), List.append_assoc]
  rw [hadd, splitOn_append (newLine_notMem_indent k) hsplit, hsplit]
  rfl

/-- **A nested statement is the same statement, further in.** With `k` levels more, all lines but
the first move by their indent, and the first line as well if the query shows a placeholder. So the
operand of a condition, however deep it is nested, has the lines of the statement that its subquery
is by itself, without the semicolon, each with the indent of the parentheses and one level more. -/
theorem lines_sql_add (h : q.Every HasOneLineTexts)
    (hinsert : ∀ n r, q.Renders n r → r.operation ≠ .insert) (d : Nat) :
    (∀ k : Nat, (q.sql (d + k : Nat)).splitOn '\n' =
      if q.table = "" ∨ q.operation = .update ∧ ∀ p ∈ q.pairs, p.column = "" then
        ((q.sql d).splitOn '\n').map (indent k ++ ·)
      else indentOthers k ((q.sql d).splitOn '\n')) ∧
    ∀ n r c child, q.Renders n r → r.ShowsOperand c child →
      r.shownOperand (d + 2 * n : Nat) c = alignedText (d + 2 * n : Nat) (child.sql 0) ∧
        alignedText (d + 2 * n : Nat) (child.sql 0) <:+: q.sql d := by
  have hq := hinsert 0 q (.root q)
  have hshown : q.placeholder? = none ↔
      ¬(q.table = "" ∨ q.operation = .update ∧ ∀ p ∈ q.pairs, p.column = "") := by
    rw [placeholder?_eq_none_iff, or_iff_right hq]
    push Not
    exact Iff.rfl
  constructor
  · intro k
    rw [Int.natCast_add]
    cases hp : q.placeholder? with
    | some p =>
      rw [hp] at hshown
      rw [if_pos (not_not.mp fun hn => Option.some_ne_none p (hshown.mpr hn))]
      exact lines_sql_of_placeholder? hp hq d k
    | none =>
      have hbody := shifts_body h hinsert (Int.natCast_nonneg d) k
      have hsemicolon : '\n' ∉ [';'] := by decide
      have hsql : q.sql (d + k) = shifted k (q.sql d) := by
        rw [sql, sql, hp]
        exact hbody.append (.of_notMem hsemicolon)
      rw [if_neg (hshown.mp hp), hsql, splitOn_shifted]
  · intro n r c child hr hshows
    have hrenders := hr.trans hshows.renders
    have halign := shownOperand_eq_alignedText hshows.operand (hrenders.every h)
      (fun m s hs => hinsert _ s (hrenders.trans hs)) (d + 2 * n)
    refine ⟨halign, ?_⟩
    rw [← halign]
    refine (hshows.shownOperand_infix_body _).trans (List.IsInfix.trans ?_ (q.body_infix_sql d))
    simpa using hr.body_infix d

/-- A deletion with a subquery in sight, and an insertion that no statement shows. -/
def sessions : Query :=
  { bare "root" .delete with
    table := "sessions"
    conditions := [⟨"c1", "user_id", .among, "", .and, some "s1"⟩,
      ⟨"c2", "closed_at", .isNull, "", .and, some "s2"⟩]
    subqueries := [("s1", { bare "s1" .select with table := "users", columns := "id" }),
      ("s2", { bare "s2" .insert with table := "log" })] }

theorem every_sessions : sessions.Every HasOneLineTexts := by
  have hleaf : ∀ id operation table columns, '\n' ∉ table.toList → '\n' ∉ columns.toList →
      Every HasOneLineTexts { bare id operation with table, columns } :=
    fun id operation table columns ht hc =>
      .intro ⟨ht, hc, nofun, nofun, nofun, nofun, nofun, nofun, nofun, nofun, by simp [bare]⟩ nofun
  refine .intro ⟨by decide, by decide, nofun, nofun, ?_, ?_, nofun, nofun, nofun, nofun,
    by decide⟩ ?_
  · simp only [sessions, List.forall_mem_cons]
    exact ⟨by decide, by decide, nofun⟩
  · simp only [sessions, List.forall_mem_cons]
    exact ⟨by decide, by decide, nofun⟩
  · simp only [sessions, List.forall_mem_cons]
    exact ⟨hleaf _ _ _ _ (by decide) (by decide), hleaf _ _ _ _ (by decide) (by decide), nofun⟩

theorem operation_of_renders_sessions {n : Nat} {r : Query} (h : sessions.Renders n r) :
    r.operation ≠ .insert := by
  cases h with
  | root => decide
  | nested hshows hr =>
    have hmem := hshows.mem
    simp only [sessions, List.mem_cons, List.not_mem_nil, or_false] at hmem
    rcases hmem with rfl | rfl
    · cases hshows.operand
      cases hr with
      | root => decide
      | nested hshows _ => cases hshows.mem
    · cases hshows.operator

theorem lines_sql_add_sessions :
    sessions.Every HasOneLineTexts ∧ (∀ n r, sessions.Renders n r → r.operation ≠ .insert) ∧
      (sessions.sql 3).splitOn '\n' = indentOthers 2 ((sessions.sql 1).splitOn '\n') ∧
      alignedText 1 (sql { bare "s1" .select with table := "users", columns := "id" } 0) <:+:
        sessions.sql 1 := by
  have hinsert : ∀ n r, sessions.Renders n r → r.operation ≠ .insert :=
    fun _ _ h => operation_of_renders_sessions h
  obtain ⟨hlines, hoperands⟩ := lines_sql_add every_sessions hinsert 1
  refine ⟨every_sessions, hinsert, (hlines 2).trans (if_neg (by decide)), ?_⟩
  exact (hoperands 0 sessions _ _ (.root sessions)
    ⟨rfl, by decide, List.mem_cons_self, rfl, rfl⟩).2

end Query

end QueryComposer
