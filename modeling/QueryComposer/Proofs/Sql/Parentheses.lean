import Mathlib.Algebra.Order.BigOperators.Group.List
import Mathlib.Algebra.Order.Group.Nat
import QueryComposer.Proofs.Query.Count
import QueryComposer.Proofs.Query.Tree
import QueryComposer.Proofs.Sql.Placeholder

/-!
# Subqueries and parentheses

Where no typed text has a parenthesis, and no insertion lists its columns in one, each opening
parenthesis of a statement belongs to a subquery that is shown. So the parentheses tell how many
subqueries are shown, and the number of subqueries that there are bounds them, as long as no
subquery is shown twice.

The two numbers are taken along different ways. The statement goes through the conditions and looks
their subqueries up; the other number goes through the subqueries as they are kept. They meet in
`Entries.sum_weightUnder_le` and `Entries.sum_weightUnder_eq`.

## Main definitions

* `Sql.openings` counts opening parentheses.
* `Query.HasNoParentheses` says that no text that is shown has one.
* `Query.ShowsOnce` says that no subquery is shown twice, `Query.ShowsAll` that each is shown.

## Main results

* `Query.openings_body`: the parentheses of a query are those around and in its operands.
* `Query.openings_sql`: their number against the number of subqueries.
-/

namespace QueryComposer

namespace Sql

/-- The number of opening parentheses in a text. -/
def openings (cs : List Char) : Nat := cs.count '('

theorem openings_append (xs ys : List Char) : openings (xs ++ ys) = openings xs + openings ys :=
  List.count_append

/-- What has no parentheses may stand before a text, or behind it. -/
theorem openings_append_of_left {xs ys : List Char} (hx : openings xs = 0) :
    openings (xs ++ ys) = openings ys := by
  rw [openings_append, hx, Nat.zero_add]

theorem openings_append_of_right {xs ys : List Char} (hy : openings ys = 0) :
    openings (xs ++ ys) = openings xs := by
  rw [openings_append, hy, Nat.add_zero]

theorem openings_append_eq_zero {xs ys : List Char} (hx : openings xs = 0)
    (hy : openings ys = 0) : openings (xs ++ ys) = 0 :=
  (openings_append_of_left hx).trans hy

theorem openings_cons {c : Char} (hc : c ≠ '(') (cs : List Char) :
    openings (c :: cs) = openings cs :=
  List.count_cons_of_ne hc

theorem openings_eq_zero {cs : List Char} (h : '(' ∉ cs) : openings cs = 0 :=
  List.count_eq_zero_of_not_mem h

theorem openings_flatMap {α : Type} (f : α → List Char) (l : List α) :
    openings (l.flatMap f) = (l.map fun a => openings (f a)).sum :=
  List.count_flatMap

theorem openings_flatMap_eq_zero {α : Type} {f : α → List Char} {l : List α}
    (h : ∀ a ∈ l, openings (f a) = 0) : openings (l.flatMap f) = 0 := by
  rw [openings_flatMap]
  exact List.sum_eq_zero (List.forall_mem_map.mpr h)

theorem openings_intercalate_eq_zero {α : Type} {sep : List Char} (hsep : openings sep = 0)
    {f : α → List Char} {l : List α} (h : ∀ a ∈ l, openings (f a) = 0) :
    openings (List.intercalate sep (l.map f)) = 0 := by
  induction l with
  | nil => rfl
  | cons a l ih =>
    have ha := h a List.mem_cons_self
    cases l with
    | nil => simpa using ha
    | cons b l =>
      rw [List.map_cons, List.map_cons, List.intercalate_cons_cons, openings_append,
        openings_append, ha, hsep, Nat.add_zero, Nat.zero_add]
      exact ih fun c hc => h c (List.mem_cons_of_mem _ hc)

/-! ### Clauses -/

theorem openings_indent (level : Int) : openings (indent level) = 0 :=
  openings_eq_zero fun hmem => by cases List.eq_of_mem_replicate hmem

theorem openings_newLine (level : Int) : openings (newLine level) = 0 :=
  openings_indent level

theorem openings_operator (o : Operator) : openings (named o) = 0 := by
  cases o <;> decide

theorem openings_gate (g : Gate) : openings (named g) = 0 := by
  cases g <;> decide

theorem openings_kind (k : JoinKind) : openings (named k) = 0 := by
  cases k <;> decide

theorem openings_direction (d : Direction) : openings (named d) = 0 := by
  cases d <;> decide

theorem openings_literal {value : String} (h : '(' ∉ value.toList) :
    openings (literal value) = 0 :=
  openings_eq_zero (by simp [literal, h])

theorem openings_parenthesized (level : Int) (body : List Char) :
    openings (parenthesized level body) = 1 + openings body := by
  have hclosing : openings [')'] = 0 := by decide
  have hbody : openings (newLine (level + 2) ++ body ++ newLine (level + 1) ++ [')']) =
      openings body := by
    simp only [openings_append, openings_newLine, hclosing, Nat.zero_add, Nat.add_zero]
  rw [parenthesized, List.cons_append, List.cons_append, List.cons_append, openings,
    List.count_cons_self, Nat.add_comm]
  exact congrArg (1 + ·) hbody

theorem openings_joinClause {j : Join} (htable : '(' ∉ j.table.toList)
    (hleft : '(' ∉ j.left.toList) (hright : '(' ∉ j.right.toList) (level : Int) :
    openings (j.clause level) = 0 := by
  have hjoin : openings " JOIN ".toList = 0 := by decide
  have hon : openings " ON ".toList = 0 := by decide
  have hequal : openings " = ".toList = 0 := by decide
  simp only [Join.clause, openings_append, openings_newLine, openings_kind, hjoin, hon, hequal,
    openings_eq_zero htable, openings_eq_zero hleft, openings_eq_zero hright]

theorem openings_orderClause {sortKeys : List SortKey}
    (h : ∀ s ∈ sortKeys, '(' ∉ s.column.toList) (level : Int) :
    openings (orderClause level sortKeys) = 0 := by
  rw [orderClause]
  split
  · rfl
  · have horder : openings "ORDER BY ".toList = 0 := by decide
    have hterms :
        openings (commaList ((sortKeys.filter SortKey.isFilled).map SortKey.term)) = 0 := by
      refine openings_intercalate_eq_zero (by decide) fun s hs => ?_
      rw [SortKey.term, openings_append, openings_eq_zero (h s (List.mem_filter.mp hs).1),
        openings_cons (by decide), openings_direction]
    rw [openings_append, openings_append, openings_newLine, horder, hterms]

theorem openings_limitClause {limit : String} (h : '(' ∉ limit.toList) (level : Int) :
    openings (limitClause level limit) = 0 := by
  rw [limitClause]
  split
  · rfl
  · have hlimit : openings "LIMIT ".toList = 0 := by decide
    rw [openings_append, openings_append, openings_newLine, hlimit, openings_eq_zero h]

section Conditions

variable {c : Condition} {level : Int} {body? : String → Option (List Char)}

/-- The parentheses around a subquery and those in it. -/
def around (body : List Char) : Nat := 1 + openings body

theorem openings_columnText (h : '(' ∉ c.column.toList) : openings c.columnText = 0 := by
  rw [Condition.columnText]
  split
  · decide
  · exact openings_eq_zero h

theorem openings_operandText (h : '(' ∉ c.value.toList) :
    openings (c.operandText level body?) = ((c.link?.bind body?).map around).getD 0 := by
  rw [Condition.operandText]
  cases c.link?.bind body? with
  | none => exact openings_literal h
  | some body => exact openings_parenthesized level body

theorem openings_term (hcolumn : '(' ∉ c.column.toList) (hvalue : '(' ∉ c.value.toList) :
    openings (c.term level body?) =
      if c.operator.isNullTest then 0 else ((c.link?.bind body?).map around).getD 0 := by
  have hspace : ∀ cs, openings (' ' :: cs) = openings cs := openings_cons (by decide)
  rw [Condition.term]
  split
  · next he =>
    rw [openings_append, openings_operator, hspace, openings_operandText hvalue,
      Operator.isNullTest_of_isExistence he, Nat.zero_add, if_neg Bool.false_ne_true]
  · split
    · rw [openings_append, hspace, openings_columnText hcolumn, openings_operator]
    · simp only [openings_append, hspace, openings_columnText hcolumn,
        openings_operator, openings_operandText hvalue, Nat.zero_add]

theorem openings_whereClause (conditions : List Condition) :
    openings (whereClause level body? conditions) =
      (conditions.map fun c => openings (c.term level body?)).sum := by
  cases conditions with
  | nil => rfl
  | cons c cs =>
    have hwhere : openings "WHERE ".toList = 0 := by decide
    have hspace : ∀ xs, openings (' ' :: xs) = openings xs := openings_cons (by decide)
    simp only [whereClause, openings_append, openings_newLine, hwhere, openings_flatMap,
      openings_gate, hspace, List.map_cons, List.sum_cons, Nat.zero_add]

end Conditions

end Sql

/-! ### Statements -/

namespace Query

open Sql

variable {q : Query} {level : Int} {body? : String → Option (List Char)}

/-- No text of the query has an opening parenthesis. Nothing is asked of identifiers, which are not
shown. -/
structure HasNoParentheses (q : Query) : Prop where
  table : '(' ∉ q.table.toList
  columns : '(' ∉ q.columns.toList
  pairs : ∀ p ∈ q.pairs, '(' ∉ p.column.toList ∧ '(' ∉ p.value.toList
  conditions : ∀ c ∈ q.conditions, '(' ∉ c.column.toList ∧ '(' ∉ c.value.toList
  joins : ∀ j ∈ q.joins, '(' ∉ j.table.toList ∧ '(' ∉ j.left.toList ∧ '(' ∉ j.right.toList
  sortKeys : ∀ s ∈ q.sortKeys, '(' ∉ s.column.toList
  limit : '(' ∉ q.limit.toList

theorem openings_selection (h : q.HasNoParentheses) : openings q.selection = 0 := by
  rw [selection]
  split
  · decide
  · refine openings_eq_zero fun hmem => h.columns ?_
    have hdropped := (List.dropWhile_suffix _).subset (List.mem_reverse.mp hmem)
    exact (List.dropWhile_suffix _).subset (List.mem_reverse.mp hdropped)

theorem openings_of_placeholder? {p : String} (h : q.placeholder? = some p) :
    openings p.toList = 0 := by
  have hall : ∀ p ∈ placeholders, openings p.toList = 0 := by decide
  exact hall p (mem_placeholders h)

theorem openings_selectText (h : q.HasNoParentheses) :
    openings (q.selectText level body?) = openings (whereClause level body? q.conditions) := by
  have hselect : openings "SELECT ".toList = 0 := by decide
  have hfrom : openings "FROM ".toList = 0 := by decide
  have hjoins : openings ((q.joins.filter Join.isFilled).flatMap (Join.clause level)) = 0 := by
    refine openings_flatMap_eq_zero fun j hj => ?_
    obtain ⟨htable, hleft, hright⟩ := h.joins j (List.mem_filter.mp hj).1
    exact openings_joinClause htable hleft hright level
  have hcolumns := openings_append_eq_zero
    (openings_append_eq_zero hselect (openings_selection h)) (openings_newLine level)
  have htable := openings_append_eq_zero (openings_append_eq_zero hcolumns hfrom)
    (openings_eq_zero h.table)
  have hfront := openings_append_eq_zero htable hjoins
  unfold selectText
  rw [openings_append_of_right (openings_limitClause h.limit level),
    openings_append_of_right (openings_orderClause h.sortKeys level)]
  exact openings_append_of_left hfront

theorem openings_updateText (h : q.HasNoParentheses) :
    openings (q.updateText level body?) = openings (whereClause level body? q.conditions) := by
  have hupdate : openings "UPDATE ".toList = 0 := by decide
  have hset : openings "SET".toList = 0 := by decide
  have hequal : openings " = ".toList = 0 := by decide
  have hassignments : openings (List.intercalate [',']
      (q.filledPairs.map fun p => newLine (level + 1) ++ p.assignment)) = 0 := by
    refine openings_intercalate_eq_zero (by decide) fun p hp => ?_
    obtain ⟨hcolumn, hvalue⟩ := h.pairs p (List.mem_filter.mp hp).1
    have hleft := openings_append_eq_zero (openings_eq_zero hcolumn) hequal
    exact openings_append_eq_zero (openings_newLine (level + 1))
      (openings_append_eq_zero hleft (openings_literal hvalue))
  have htable := openings_append_eq_zero
    (openings_append_eq_zero hupdate (openings_eq_zero h.table)) (openings_newLine level)
  unfold updateText
  exact openings_append_of_left
    (openings_append_eq_zero (openings_append_eq_zero htable hset) hassignments)

theorem openings_deleteText (h : q.HasNoParentheses) :
    openings (q.deleteText level body?) = openings (whereClause level body? q.conditions) := by
  have hdelete : openings "DELETE FROM ".toList = 0 := by decide
  unfold deleteText
  exact openings_append_of_left (openings_append_eq_zero hdelete (openings_eq_zero h.table))

theorem openings_statement (h : q.HasNoParentheses) (ho : q.operation ≠ .insert) :
    openings (q.statement level body?) =
      if q.placeholder? = none then openings (whereClause level body? q.conditions) else 0 := by
  rw [statement]
  cases hp : q.placeholder? with
  | some p => exact openings_of_placeholder? hp
  | none =>
    rw [if_pos rfl]
    cases hq : q.operation with
    | select => exact openings_selectText h
    | insert => exact absurd hq ho
    | update => exact openings_updateText h
    | delete => exact openings_deleteText h

/-! ### Operands -/

/-- The links to the subqueries that are shown if the query is, as often as they are. -/
def shownLinks (conditions : List Condition) : List String :=
  (conditions.filter fun c => !c.operator.isNullTest).filterMap Condition.link?

/-- The conditions show what their links lead to. -/
theorem sum_openings_term {conditions : List Condition}
    (h : ∀ c ∈ conditions, '(' ∉ c.column.toList ∧ '(' ∉ c.value.toList) (q : Query)
    (level : Int) :
    (conditions.map fun c => openings (c.term level fun key =>
        (Entries.find? key q.subqueries).map fun child => child.body (level + 2))).sum =
      ((shownLinks conditions).map
        (Entries.weightUnder (fun child => around (child.body (level + 2))) q.subqueries)).sum := by
  induction conditions with
  | nil => rfl
  | cons c cs ih =>
    obtain ⟨⟨hcolumn, hvalue⟩, hcs⟩ := List.forall_mem_cons.mp h
    rw [List.map_cons, List.sum_cons, ih hcs, openings_term hcolumn hvalue, shownLinks, shownLinks]
    cases hn : c.operator.isNullTest with
    | true => rw [if_pos rfl, Nat.zero_add, List.filter_cons_of_neg (by simp [hn])]
    | false =>
      rw [if_neg Bool.false_ne_true, List.filter_cons_of_pos (by simp [hn])]
      cases hlink : c.link? with
      | none => rw [List.filterMap_cons_none hlink, Option.bind_none, Option.map_none,
          Option.getD_none, Nat.zero_add]
      | some key =>
        rw [List.filterMap_cons_some hlink, List.map_cons, List.sum_cons, Entries.weightUnder,
          Option.bind_some, Option.map_map]
        rfl

/-- **The parentheses of a query are those around and in its operands.** -/
theorem openings_body (h : q.HasNoParentheses) (ho : q.operation ≠ .insert) (level : Int) :
    openings (q.body level) =
      if q.placeholder? = none then
        ((shownLinks q.conditions).map (Entries.weightUnder
          (fun child => around (child.body (level + 2))) q.subqueries)).sum
      else 0 := by
  rw [body_eq, openings_statement h ho, openings_whereClause, sum_openings_term h.conditions]

/-! ### The number of subqueries -/

/-- No two conditions lead to the same subquery. -/
def ShowsOnce (q : Query) : Prop :=
  ∀ key ∈ Entries.keys q.subqueries, (q.conditions.countP fun c => c.link? = some key) ≤ 1

instance (q : Query) : Decidable q.ShowsOnce :=
  inferInstanceAs (Decidable (∀ key ∈ Entries.keys q.subqueries,
    (q.conditions.countP fun c => c.link? = some key) ≤ 1))

/-- The query has a statement, and each of its subqueries belongs to a condition that shows it. No
link is empty. -/
structure ShowsAll (q : Query) : Prop where
  table : q.table ≠ ""
  pairs : q.operation = .update → ∃ p ∈ q.pairs, p.column ≠ ""
  keys : (Entries.keys q.subqueries).Nodup
  links : ∀ key ∈ Entries.keys q.subqueries,
    ∃ c ∈ q.conditions, c.link? = some key ∧ c.operator.isNullTest = false

theorem ShowsOnce.count_shownLinks_le (h : q.ShowsOnce) {key : String}
    (hkey : key ∈ Entries.keys q.subqueries) : (shownLinks q.conditions).count key ≤ 1 := by
  have hsub : (shownLinks q.conditions).Sublist (q.conditions.filterMap Condition.link?) :=
    List.filter_sublist.filterMap _
  have hcount : (q.conditions.filterMap Condition.link?).count key =
      q.conditions.countP fun c => c.link? = some key := by
    rw [List.count_filterMap]
    exact List.countP_congr fun c _ => by simp
  exact Nat.le_trans (hsub.count_le key) (hcount ▸ h key hkey)

theorem ShowsAll.count_shownLinks (h : q.ShowsAll) (honce : q.ShowsOnce) {key : String}
    (hkey : key ∈ Entries.keys q.subqueries) : (shownLinks q.conditions).count key = 1 := by
  obtain ⟨c, hc, hlink, hn⟩ := h.links key hkey
  have hmem : key ∈ shownLinks q.conditions :=
    List.mem_filterMap.mpr ⟨c, List.mem_filter.mpr ⟨hc, by simp [hn]⟩, hlink⟩
  exact Nat.le_antisymm (honce.count_shownLinks_le hkey) (List.count_pos_iff.mpr hmem)

theorem ShowsAll.placeholder?_eq_none (h : q.ShowsAll) (ho : q.operation ≠ .insert) :
    q.placeholder? = none :=
  (placeholder?_eq_none_iff q).mpr ⟨h.table, fun hop => h.pairs (hop.resolve_left ho)⟩

theorem openings_body_le
    (h : q.Every fun q => q.operation ≠ .insert ∧ q.HasNoParentheses ∧ q.ShowsOnce)
    (level : Int) : openings (q.body level) ≤ q.count := by
  induction q using Query.induct generalizing level with
  | step q ih =>
    obtain ⟨ho, htexts, honce⟩ := h.root
    rw [openings_body htexts ho, count_eq_countAll, countAll_eq_sum]
    split
    · refine Nat.le_trans (Entries.sum_weightUnder_le _ fun key => honce.count_shownLinks_le) ?_
      refine List.sum_le_sum fun e he => ?_
      exact Nat.add_le_add_left (ih e he (h.subqueries e he) (level + 2)) 1
    · exact Nat.zero_le _

theorem openings_body_eq
    (h : q.Every fun q => q.operation ≠ .insert ∧ q.HasNoParentheses ∧ q.ShowsOnce)
    (hall : q.Every ShowsAll) (level : Int) : openings (q.body level) = q.count := by
  induction q using Query.induct generalizing level with
  | step q ih =>
    obtain ⟨ho, htexts, honce⟩ := h.root
    rw [openings_body htexts ho, if_pos (hall.root.placeholder?_eq_none ho), count_eq_countAll,
      countAll_eq_sum, Entries.sum_weightUnder_eq _ hall.root.keys fun key =>
        hall.root.count_shownLinks honce]
    refine congrArg List.sum (List.map_congr_left fun e he => ?_)
    rw [around, ih e he (h.subqueries e he) (hall.subqueries e he)]

theorem openings_sql_eq_body (q : Query) (level : Int) :
    openings (q.sql level) = openings (q.body level) := by
  rw [sql]
  split
  · refine openings_append_of_left ?_
    split
    · rfl
    · exact openings_indent level
  · exact openings_append_of_right (by decide)

/-- **The subqueries that are shown are among those that there are.** A statement has at most as
many opening parentheses as the query has subqueries, if no insertion is among the queries of the
tree, no text has a parenthesis and no subquery is shown twice by one query. It has as many if
every query of the tree has a statement and shows all of its subqueries. -/
theorem openings_sql
    (h : q.Every fun q => q.operation ≠ .insert ∧ q.HasNoParentheses ∧ q.ShowsOnce)
    (level : Int) :
    (q.sql level).count '(' ≤ q.count ∧
      (q.Every ShowsAll → (q.sql level).count '(' = q.count) := by
  have hbody := openings_sql_eq_body q level
  rw [openings] at hbody
  rw [hbody]
  exact ⟨openings_body_le h level, fun hall => openings_body_eq h hall level⟩

/-- The suppliers of what some orders still lack. -/
def suppliers : Query :=
  { bare "s1" .select with
    table := "suppliers"
    columns := "id"
    conditions := [{ Condition.blank "c2" with operator := .existing, subqueryId := some "s2" }]
    subqueries := [("s2", { bare "s2" .select with table := "orders" })] }

/-- Another price for the suppliers. A null test has a subquery as well, which it does not show, and
one more belongs to no condition. -/
def repricing : Query :=
  { bare "root" .update with
    table := "prices"
    pairs := [⟨"p1", "price", ")"⟩]
    conditions := [⟨"c1", "supplier_id", .among, "", .and, some "s1"⟩,
      ⟨"c3", "note", .isNull, "", .or, some "s3"⟩]
    subqueries := [("s1", suppliers), ("s3", bare "s3" .select), ("s4", bare "s4" .delete)] }

theorem every_repricing :
    repricing.Every fun q => q.operation ≠ .insert ∧ q.HasNoParentheses ∧ q.ShowsOnce := by
  have hempty : '(' ∉ "".toList := by decide
  have hstar : '(' ∉ "*".toList := by decide
  have hbare : ∀ id operation, operation ≠ .insert → (bare id operation).Every fun q =>
      q.operation ≠ .insert ∧ q.HasNoParentheses ∧ q.ShowsOnce := fun id operation ho =>
    .intro ⟨ho, ⟨hempty, hstar, nofun, nofun, nofun, nofun, hempty⟩, nofun⟩ nofun
  refine .intro ⟨by decide, by constructor <;> decide, by decide⟩ ?_
  refine List.forall_mem_cons.mpr ⟨?_, List.forall_mem_cons.mpr ⟨hbare _ _ (by decide),
    List.forall_mem_singleton.mpr (hbare _ _ (by decide))⟩⟩
  refine .intro ⟨by decide, by constructor <;> decide, by decide⟩ ?_
  exact List.forall_mem_singleton.mpr
    (.intro ⟨by decide, by constructor <;> decide, nofun⟩ nofun)

theorem every_showsAll_suppliers : suppliers.Every ShowsAll := by
  refine .intro ⟨by decide, nofun, by decide, by decide⟩ ?_
  exact List.forall_mem_singleton.mpr (.intro ⟨by decide, nofun, List.nodup_nil, nofun⟩ nofun)

/-- Two of the four subqueries are shown, and of those of the suppliers all. -/
theorem openings_sql_repricing :
    (repricing.Every fun q => q.operation ≠ .insert ∧ q.HasNoParentheses ∧ q.ShowsOnce) ∧
      ((repricing.sql 1).count '(' = 2 ∧ (repricing.sql 1).count '(' ≤ repricing.count ∧
        repricing.count = 4) ∧
      suppliers.Every ShowsAll ∧ (suppliers.sql 1).count '(' = suppliers.count := by
  have hsuppliers := every_repricing.subqueries ("s1", suppliers) List.mem_cons_self
  exact ⟨every_repricing, ⟨by decide, (openings_sql every_repricing 1).1, rfl⟩,
    every_showsAll_suppliers, (openings_sql hsuppliers 1).2 every_showsAll_suppliers⟩

end Query

end QueryComposer
