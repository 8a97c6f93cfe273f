import Mathlib.Data.List.Forall2
import QueryComposer.Proofs.Sql.Placeholder

/-!
# Queries that look alike

A query holds more than its statement shows: identifiers, parts that are not filled in, texts that
its operation has no use for, and subqueries that no condition leads to. `Query.Alike` relates two
queries that agree in what is shown, and in nothing else. It is said of the fields of the queries
and not of their texts, so that it can be held against the layout from both sides: here, queries
that look alike have the same statement.

## Main definitions

* `Query.shownColumns`, `Query.shownJoins`, `Query.shownSortKeys` and `Query.shownPairs` are the
  parts of a query that are shown.
* `Query.SameStatement` compares all that two queries show, given a relation for their subqueries.
* `Query.Alike` compares the subqueries in the same way.

## Main results

* `Query.Alike.sql_eq`: queries that look alike have the same statement at every level.

## Implementation notes

The two trees need not have the same shape, and a subquery may be reached from several conditions.
So the recursion is not over either tree: `Query.Alike` is the least relation that is closed under
`Query.SameStatement`, whose relation for subqueries is any that looks alike already.
-/

namespace QueryComposer

/-! ### The two forms of an order -/

theorem orderClause_of_nil {level : Int} {sortKeys : List SortKey}
    (h : sortKeys.filter SortKey.isFilled = []) :
    orderClause level sortKeys = [] := by
  simp only [orderClause, h]

theorem orderClause_of_ne_nil {level : Int} {sortKeys : List SortKey}
    (h : sortKeys.filter SortKey.isFilled ≠ []) :
    orderClause level sortKeys = newLine level ++ ("ORDER BY ".toList ++
      commaList ((sortKeys.filter SortKey.isFilled).map SortKey.term)) := by
  obtain ⟨s, keys, hkeys⟩ := List.exists_cons_of_ne_nil h
  simp only [orderClause, hkeys, List.append_assoc]

/-! ### What is shown -/

/-- The column that a condition shows. -/
def Condition.shownColumn (c : Condition) : String := if c.column = "" then "column" else c.column

theorem Condition.columnText_eq (c : Condition) : c.columnText = c.shownColumn.toList := by
  rw [columnText, shownColumn]
  split <;> rfl

namespace Query

/-- The columns that a selection shows. -/
def shownColumns (q : Query) : List Char :=
  if Text.trim q.columns.toList = [] then ['*'] else Text.trim q.columns.toList

/-- The complete joins. -/
def shownJoins (q : Query) : List (JoinKind × String × String × String) :=
  (q.joins.filter fun j => j.table ≠ "" ∧ j.left ≠ "" ∧ j.right ≠ "").map fun j =>
    (j.kind, j.table, j.left, j.right)

/-- The sort keys with a column. -/
def shownSortKeys (q : Query) : List (String × Direction) :=
  (q.sortKeys.filter fun s => s.column ≠ "").map fun s => (s.column, s.direction)

/-- The pairs with a column. -/
def shownPairs (q : Query) : List (String × String) :=
  (q.pairs.filter fun p => p.column ≠ "").map fun p => (p.column, p.value)

section

variable (R : Query → Query → Prop)

/-- The conditions lead to related subqueries, or neither leads to one and the values are equal. -/
def SameOperand (a b : Query) (c c' : Condition) : Prop :=
  match a.operand? c, b.operand? c' with
  | some child, some child' => R child child'
  | none, none => c.value = c'.value
  | _, _ => False

/-- The conditions show the same, apart from their gates. An existence test shows no column, and a
null test no operand. -/
structure SameTerm (a b : Query) (c c' : Condition) : Prop where
  operator : c.operator = c'.operator
  column : c.operator.isExistence = false → c.shownColumn = c'.shownColumn
  operand : c.operator.isNullTest = false → SameOperand R a b c c'

/-- The conditions show the same one by one. The first gate is not shown. -/
inductive SameTerms (a b : Query) : List Condition → List Condition → Prop where
  | nil : SameTerms a b [] []
  | cons {c c' : Condition} {cs cs' : List Condition} : SameTerm R a b c c' →
      List.Forall₂ (fun c c' => c.gate = c'.gate ∧ SameTerm R a b c c') cs cs' →
      SameTerms a b (c :: cs) (c' :: cs')

/-- The queries have the same operation and table and agree in all that the operation shows. -/
structure SameStatement (a b : Query) : Prop where
  operation : a.operation = b.operation
  table : a.table = b.table
  columns : a.operation = .select → a.shownColumns = b.shownColumns
  joins : a.operation = .select → a.shownJoins = b.shownJoins
  sortKeys : a.operation = .select → a.shownSortKeys = b.shownSortKeys
  limit : a.operation = .select → a.limit = b.limit
  pairs : a.operation = .insert ∨ a.operation = .update → a.shownPairs = b.shownPairs
  conditions : a.operation ≠ .insert → (a.operation = .update → a.shownPairs ≠ []) →
    SameTerms R a b a.conditions b.conditions

end

/-- The queries look alike: neither has a table and the placeholders stand alike, or both have and
all that they show is the same, their subqueries looking alike. -/
inductive Alike : Query → Query → Prop where
  | noTable {a b : Query} : a.table = "" → b.table = "" →
      (a.operation = .insert ↔ b.operation = .insert) → Alike a b
  | statement {a b : Query} {R : Query → Query → Prop} : a.table ≠ "" → SameStatement R a b →
      (∀ x y, R x y → Alike x y) → Alike a b

/-! ### Other relations for the subqueries -/

variable {R S : Query → Query → Prop} {a b : Query} {c c' : Condition}

theorem SameOperand.mono (h : SameOperand R a b c c') (hRS : ∀ x y, R x y → S x y) :
    SameOperand S a b c c' := by
  unfold SameOperand at h ⊢
  split at h
  · exact hRS _ _ h
  · exact h
  · exact h

theorem SameTerm.mono (h : SameTerm R a b c c') (hRS : ∀ x y, R x y → S x y) :
    SameTerm S a b c c' :=
  ⟨h.operator, h.column, fun hn => (h.operand hn).mono hRS⟩

theorem SameTerms.mono {cs cs' : List Condition} (h : SameTerms R a b cs cs')
    (hRS : ∀ x y, R x y → S x y) : SameTerms S a b cs cs' := by
  cases h with
  | nil => exact .nil
  | cons hfirst hothers =>
    exact .cons (hfirst.mono hRS) (hothers.imp fun _ _ h => ⟨h.1, h.2.mono hRS⟩)

theorem SameStatement.mono (h : SameStatement R a b) (hRS : ∀ x y, R x y → S x y) :
    SameStatement S a b :=
  { h with conditions := fun ho hp => (h.conditions ho hp).mono hRS }

/-- Alikeness goes from the subqueries to the query and back. -/
theorem alike_iff : a.Alike b ↔
    (a.table = "" ∧ b.table = "" ∧ (a.operation = .insert ↔ b.operation = .insert)) ∨
      (a.table ≠ "" ∧ SameStatement Alike a b) := by
  constructor
  · rintro (⟨ha, hb, ho⟩ | ⟨ha, h, hR⟩)
    · exact .inl ⟨ha, hb, ho⟩
    · exact .inr ⟨ha, h.mono hR⟩
  · rintro (⟨ha, hb, ho⟩ | ⟨ha, h⟩)
    · exact .noTable ha hb ho
    · exact .statement ha h fun _ _ h => h

/-! ### The layout of what is shown

Each clause is laid out from the parts that are shown, so it is the same where they are. -/

theorem selection_eq (q : Query) : q.selection = q.shownColumns := by
  rw [selection, shownColumns]
  cases Text.trim q.columns.toList <;> rfl

theorem shownJoins_eq (q : Query) : q.shownJoins =
    (q.joins.filter Join.isFilled).map fun j => (j.kind, j.table, j.left, j.right) := by
  rw [shownJoins]
  congr 1
  refine List.filter_congr fun j _ => ?_
  simp [Join.isFilled, Bool.and_assoc]

theorem joinClauses_eq_of_shownJoins (h : a.shownJoins = b.shownJoins) (level : Int) :
    (a.joins.filter Join.isFilled).flatMap (Join.clause level) =
      (b.joins.filter Join.isFilled).flatMap (Join.clause level) := by
  have hclauses : ∀ q : Query, (q.joins.filter Join.isFilled).flatMap (Join.clause level) =
      q.shownJoins.flatMap fun j => Join.clause level ⟨"", j.1, j.2.1, j.2.2.1, j.2.2.2⟩ := by
    intro q
    rw [shownJoins_eq, List.flatMap_map]
    rfl
  rw [hclauses, hclauses, h]

theorem orderClause_eq_of_shownSortKeys (h : a.shownSortKeys = b.shownSortKeys) (level : Int) :
    orderClause level a.sortKeys = orderClause level b.sortKeys := by
  have hterms : ∀ q : Query, (q.sortKeys.filter SortKey.isFilled).map SortKey.term =
      q.shownSortKeys.map fun s => s.1.toList ++ ' ' :: named s.2 := by
    intro q
    rw [shownSortKeys, List.map_map]
    rfl
  have hnil : ∀ q : Query, q.sortKeys.filter SortKey.isFilled = [] ↔ q.shownSortKeys = [] := by
    intro q
    rw [← List.map_eq_nil_iff (f := SortKey.term), hterms, List.map_eq_nil_iff]
  by_cases ha : a.sortKeys.filter SortKey.isFilled = []
  · have hb := (hnil b).mpr (h ▸ (hnil a).mp ha)
    rw [orderClause_of_nil ha, orderClause_of_nil hb]
  · have hb := mt (hnil b).mp (h ▸ mt (hnil a).mpr ha)
    rw [orderClause_of_ne_nil ha, orderClause_of_ne_nil hb, hterms, hterms, h]

theorem map_filledPairs_eq_of_shownPairs (h : a.shownPairs = b.shownPairs) {α : Type}
    (f : String → String → α) :
    (a.filledPairs.map fun p => f p.column p.value) =
      b.filledPairs.map fun p => f p.column p.value := by
  have hmap : ∀ q : Query, (q.filledPairs.map fun p => f p.column p.value) =
      q.shownPairs.map fun p => f p.1 p.2 := by
    intro q
    rw [shownPairs, List.map_map]
    rfl
  rw [hmap, hmap, h]

theorem filledPairs_eq_nil_iff_shownPairs (q : Query) : q.filledPairs = [] ↔ q.shownPairs = [] := by
  rw [shownPairs, List.map_eq_nil_iff]
  rfl

/-- The queries have the same body at every level. -/
def SameBody (a b : Query) : Prop := ∀ level, a.body level = b.body level

theorem SameOperand.operandText_eq (h : SameOperand SameBody a b c c') (level : Int) :
    (c.operandText level fun key =>
        (Entries.find? key a.subqueries).map fun child => child.body (level + 2)) =
      c'.operandText level fun key =>
        (Entries.find? key b.subqueries).map fun child => child.body (level + 2) := by
  rw [operandText_body, operandText_body]
  unfold SameOperand at h
  split at h
  · next ha hb => simp only [ha, hb, h (level + 2)]
  · next ha hb => simp only [ha, hb, h]
  · exact h.elim

theorem SameTerm.term_eq (h : SameTerm SameBody a b c c') (level : Int) :
    (c.term level fun key =>
        (Entries.find? key a.subqueries).map fun child => child.body (level + 2)) =
      c'.term level fun key =>
        (Entries.find? key b.subqueries).map fun child => child.body (level + 2) := by
  rw [Condition.term, Condition.term, ← h.operator]
  split
  · next he =>
    have hn := Operator.isNullTest_of_isExistence he
    rw [(h.operand hn).operandText_eq]
  · next he =>
    rw [c.columnText_eq, c'.columnText_eq, h.column (by simpa using he)]
    split
    · rfl
    · next hn => rw [(h.operand (by simpa using hn)).operandText_eq]

theorem SameTerms.whereClause_eq {cs cs' : List Condition} (h : SameTerms SameBody a b cs cs')
    (level : Int) :
    (whereClause level (fun key =>
        (Entries.find? key a.subqueries).map fun child => child.body (level + 2)) cs) =
      whereClause level (fun key =>
        (Entries.find? key b.subqueries).map fun child => child.body (level + 2)) cs' := by
  cases h with
  | nil => rfl
  | @cons c c' cs cs' hfirst hothers =>
    rw [whereClause, whereClause, hfirst.term_eq]
    congr 1
    induction hothers with
    | nil => rfl
    | cons hother _ ih =>
      rw [List.flatMap_cons, List.flatMap_cons, hother.1, hother.2.term_eq, ih]

/-! ### Statements -/

theorem SameStatement.placeholder?_eq (h : SameStatement R a b) :
    a.placeholder? = b.placeholder? := by
  by_cases ho : a.operation = .insert ∨ a.operation = .update
  · have hpairs : a.filledPairs = [] ↔ b.filledPairs = [] := by
      rw [filledPairs_eq_nil_iff_shownPairs, filledPairs_eq_nil_iff_shownPairs, h.pairs ho]
    simp only [placeholder?, h.table, h.operation, hpairs]
  · obtain ⟨hi, hu⟩ := not_or.mp ho
    have hnone : ∀ q : Query, q.operation = a.operation →
        q.placeholder? =
          if q.table = "" then some "-- Please fill in the table name" else none := by
      intro q hq
      rw [placeholder?, hq]
      cases hop : a.operation <;> simp_all
    rw [hnone a rfl, hnone b h.operation.symm, h.table]

theorem SameStatement.sameBody (h : SameStatement SameBody a b) : SameBody a b := by
  intro level
  rw [Query.body_eq, Query.body_eq, statement, statement, ← h.placeholder?_eq, ← h.operation]
  cases hp : a.placeholder? with
  | some p => rfl
  | none =>
    cases ho : a.operation with
    | select =>
      have hwhere := (h.conditions (by simp [ho]) (by simp [ho])).whereClause_eq level
      change selectText _ _ _ = selectText _ _ _
      unfold selectText
      rw [selection_eq, selection_eq, h.columns ho, h.table,
        joinClauses_eq_of_shownJoins (h.joins ho), hwhere,
        orderClause_eq_of_shownSortKeys (h.sortKeys ho), h.limit ho]
    | insert =>
      have hpairs := h.pairs (.inl ho)
      change insertText _ = insertText _
      unfold insertText
      rw [h.table, map_filledPairs_eq_of_shownPairs hpairs fun column _ => column.toList,
        map_filledPairs_eq_of_shownPairs hpairs fun _ value => literal value]
    | update =>
      have hne : a.shownPairs ≠ [] :=
        mt (filledPairs_eq_nil_iff_shownPairs a).mpr (filledPairs_ne_nil hp (.inr ho))
      have hwhere := (h.conditions (by simp [ho]) fun _ => hne).whereClause_eq level
      have hassignments := map_filledPairs_eq_of_shownPairs (h.pairs (.inr ho))
        fun column value => newLine (level + 1) ++ (column.toList ++ " = ".toList ++ literal value)
      change updateText _ _ _ = updateText _ _ _
      unfold updateText Pair.assignment
      rw [h.table, hwhere, hassignments]
    | delete =>
      have hwhere := (h.conditions (by simp [ho]) (by simp [ho])).whereClause_eq level
      change deleteText _ _ _ = deleteText _ _ _
      unfold deleteText
      rw [h.table, hwhere]

/-- Queries that show the same have the same statement. -/
theorem SameStatement.sql_congr (h : SameStatement SameBody a b) (level : Int) :
    a.sql level = b.sql level := by
  simp only [sql, h.placeholder?_eq, h.operation, h.sameBody level]

theorem placeholder?_of_noTable {q : Query} (h : q.table = "") :
    q.placeholder? = some "-- Please fill in the table name" := by
  rw [placeholder?, if_pos h]

theorem Alike.sameBody (h : a.Alike b) : SameBody a b := by
  induction h with
  | noTable ha hb _ =>
    intro level
    rw [body_eq, body_eq, Query.statement, Query.statement, placeholder?_of_noTable ha,
      placeholder?_of_noTable hb]
  | statement _ h _ ih => exact (h.mono ih).sameBody

/-- **What is not shown does not matter.** Queries that look alike have the same statement, at every
level. -/
theorem Alike.sql_eq (h : a.Alike b) (level : Int) : a.sql level = b.sql level := by
  have hbody := h.sameBody level
  rcases alike_iff.mp h with ⟨ha, hb, ho⟩ | ⟨-, h⟩
  · simp only [sql, placeholder?_of_noTable ha, placeholder?_of_noTable hb, hbody, ho]
  · simp only [sql, h.placeholder?_eq, h.operation, hbody]

/-! ### Two queries that look alike -/

/-- A subquery that selects one column of a table. -/
def buyers : Query := { bare "s1" .select with table := "orders", columns := " id " }

/-- The users that have an order, with some parts that are not filled in. -/
def regulars : Query :=
  { bare "root" .select with
    table := "users"
    columns := "\t*"
    conditions := [⟨"c1", "spare", .existing, "spare", .or, some "s1"⟩,
      ⟨"c2", "", .isNull, "spare", .and, none⟩]
    joins := [⟨"j1", .left, "orders", "", "id"⟩]
    sortKeys := [SortKey.blank "k1"]
    subqueries := [("s1", buyers)] }

/-- The same users, from a query that shares no part with the other one. -/
def visitors : Query :=
  { bare "other" .select with
    table := "users"
    columns := ""
    pairs := [⟨"p1", "name", "spare"⟩]
    conditions := [⟨"d1", "", .existing, "", .and, some "t1"⟩,
      ⟨"d2", "column", .isNull, "", .and, some "lost"⟩]
    subqueries := [("t2", bare "t2" .insert),
      ("t1", { buyers with id := "t1", columns := "id", limit := "" })] }

theorem alike_regulars : regulars.Alike visitors := by
  have hbuyers : buyers.Alike { buyers with id := "t1", columns := "id", limit := "" } :=
    .statement (R := fun _ _ => False) (by decide)
      ⟨rfl, rfl, fun _ => rfl, fun _ => rfl, fun _ => rfl, fun _ => rfl, fun _ => rfl,
        fun _ _ => .nil⟩ nofun
  refine .statement (R := Alike) (by decide) ⟨rfl, rfl, fun _ => rfl, fun _ => rfl, fun _ => rfl,
    fun _ => rfl, nofun, fun _ _ => ?_⟩ fun _ _ h => h
  refine .cons ⟨rfl, nofun, fun _ => hbuyers⟩ (.cons ⟨rfl, rfl, fun _ => rfl, nofun⟩ .nil)

theorem sql_regulars :
    regulars ≠ visitors ∧ regulars.Alike visitors ∧ regulars.sql 3 = visitors.sql 3 :=
  ⟨by decide, alike_regulars, alike_regulars.sql_eq 3⟩

end Query

end QueryComposer
