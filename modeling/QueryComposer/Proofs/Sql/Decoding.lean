import QueryComposer.Proofs.Query.Tree
import QueryComposer.Proofs.Sql.Clauses
import QueryComposer.Proofs.Sql.Completeness

/-!
# A statement tells its query

Two clean and finished queries with the same statement look alike: all that the layout of a query
was given can be read off the text again.

## Main results

* `Query.IsClean.tells_body`: the bodies of clean and finished queries tell what is shown.
* `Query.IsClean.sameStatement_of_sql_eq`: queries with the same statement look alike.
-/

namespace QueryComposer

open Sql Token

namespace Query

variable {a b : Query} {level : Int} {body? body?' : String → Option (List Char)}
  {R : Query → Query → Prop} {P : Prop}

/-! ### Statements -/

theorem tells_selection (ha : a.HasGrammarTexts) (hb : b.HasGrammarTexts) :
    Tells (StopsAt (· ≠ '\n')) a.selection b.selection (a.shownColumns = b.shownColumns) := by
  have hline : ∀ {q : Query}, q.HasGrammarTexts →
      ∀ c ∈ q.shownColumns, decide (c ≠ '\n') = true := by
    intro q hq c hc
    rw [shownColumns] at hc
    split at hc
    · rw [List.mem_singleton.mp hc]
      decide
    · next hne =>
      have hbreak := (hq.columns hne).1 c hc
      rw [decide_eq_true_eq]
      rintro rfl
      revert hbreak
      decide
  rw [selection_eq, selection_eq]
  exact .span (hline ha) (hline hb)

theorem tells_table (ha : IsTable a.table.toList) (hb : IsTable b.table.toList) :
    Tells (StopsAt isInLine) a.table.toList b.table.toList (a.table = b.table) :=
  (ha.tells hb).imp String.toList_inj.mp

theorem tells_selectText (ha : a.HasGrammarTexts) (hb : b.HasGrammarTexts)
    (hta : IsTable a.table.toList) (htb : IsTable b.table.toList)
    (hwhere : Tells (Follows orderWords) (whereClause level body? a.conditions)
      (whereClause level body?' b.conditions) P) :
    Tells (Follows endWords) (a.selectText level body?) (b.selectText level body?')
      (((((a.shownColumns = b.shownColumns ∧ a.table = b.table) ∧ a.shownJoins = b.shownJoins) ∧
        P) ∧ a.shownSortKeys = b.shownSortKeys) ∧ a.limit = b.limit) := by
  have hcolumns := ((tells_selection ha hb).append_left "SELECT ".toList).append_right
    (newLine level) fun r => stopsAt_cons (by decide) _
  have hupToTable := hcolumns.between "FROM ".toList (fun _ => trivial) (tells_table hta htb)
  have hupToJoins := hupToTable.append (fun _ => stopsAt_lines Join.isLine_clause)
    (fun _ => stopsAt_lines Join.isLine_clause) fun _ => tells_joins level ha hb
  have hupToWhere := hupToJoins.append (fun _ => (opens_whereClause _).follows)
    (fun _ => (opens_whereClause _).follows) fun _ => hwhere
  have hupToOrder := hupToWhere.append (fun _ => (opens_orderClause _).follows)
    (fun _ => (opens_orderClause _).follows) fun _ =>
      tells_orderClause level ha.filledSortKeys hb.filledSortKeys
  exact hupToOrder.append (fun _ => (opens_limitClause _).follows)
    (fun _ => (opens_limitClause _).follows) fun _ => tells_limitClause level ha.limit hb.limit

theorem tells_insertText (ha : a.HasGrammarTexts ∧ a.HasPairedQuotes)
    (hb : b.HasGrammarTexts ∧ b.HasPairedQuotes) (hta : IsName a.table.toList)
    (htb : IsName b.table.toList) (hna : a.filledPairs ≠ []) (hnb : b.filledPairs ≠ []) :
    Tells (fun _ => True) a.insertText b.insertText
      (a.table = b.table ∧ a.shownPairs = b.shownPairs) := by
  have hcolumns := (Tells.commaList (by decide) hna hnb fun p hp p' hp' =>
    ((ha.1.filledPairs p hp).tells (hb.1.filledPairs p' hp')).imp String.toList_inj.mp).imp
      map_eq_of_forall₂
  have hvalues := (Tells.commaList (by decide) hna hnb fun p hp p' hp' =>
    (ha.2.filledPairs p hp).tells_literal (hb.2.filledPairs p' hp')).imp map_eq_of_forall₂
  have htable := ((hta.tells htb).imp String.toList_inj.mp).append_left "INSERT INTO ".toList
  have hupToColumns := htable.between " (".toList (fun r => stopsAt_cons (by decide) _) hcolumns
  have hupToValues := hupToColumns.between ")\nVALUES (".toList
    (fun r => stopsAt_cons (by decide) _) hvalues
  refine (hupToValues.append_right [')'] fun r => stopsAt_cons (by decide) _).imp ?_
  rintro ⟨⟨htable, hcolumns⟩, hvalues⟩
  refine ⟨htable, ?_⟩
  -- All columns stand before all values, so the pairs are put together again.
  change a.filledPairs.map (fun p => (p.column, p.value)) = b.filledPairs.map _
  rw [← List.zip_map', ← List.zip_map', hcolumns, hvalues]

theorem tells_assignment {p p' : Pair} (hc : IsIdentifier p.column.toList)
    (hc' : IsIdentifier p'.column.toList) (hv : Sql.HasPairedQuotes p.value)
    (hv' : Sql.HasPairedQuotes p'.value) :
    Tells (StopsAt (· = '\x27')) p.assignment p'.assignment
      ((p.column, p.value) = (p'.column, p'.value)) := by
  refine (((hc.tells hc').imp String.toList_inj.mp).between " = ".toList
    (fun r => stopsAt_cons (by decide) _) (hv.tells_literal hv')).imp ?_
  rintro ⟨hcolumn, hvalue⟩
  rw [hcolumn, hvalue]

theorem tells_updateText (ha : a.HasGrammarTexts ∧ a.HasPairedQuotes)
    (hb : b.HasGrammarTexts ∧ b.HasPairedQuotes) (hta : IsTable a.table.toList)
    (htb : IsTable b.table.toList) (hna : a.filledPairs ≠ []) (hnb : b.filledPairs ≠ [])
    (hwhere : Tells (Follows orderWords) (whereClause level body? a.conditions)
      (whereClause level body?' b.conditions) P) :
    Tells (Follows orderWords) (a.updateText level body?) (b.updateText level body?')
      ((a.table = b.table ∧ a.shownPairs = b.shownPairs) ∧ P) := by
  have htable := ((tells_table hta htb).append_left "UPDATE ".toList).append_right (newLine level)
    fun r => stopsAt_cons (by decide) _
  have hassignments := Tells.intercalate (B := Follows whereWords) [','] hna hnb
    (fun r hr => hr.stops.of_inLine (by decide) (by decide))
    (fun r => ⟨stopsAt_cons (by decide) _, fun h => absurd (h.stops ',' rfl) (by decide)⟩)
    fun p hp p' hp' => (tells_assignment (ha.1.filledPairs p hp) (hb.1.filledPairs p' hp')
      (ha.2.filledPairs p hp) (hb.2.filledPairs p' hp')).append_left (newLine (level + 1))
  have hupToPairs := htable.between "SET".toList (fun _ => trivial)
    (hassignments.imp map_eq_of_forall₂)
  exact hupToPairs.append (fun _ => (opens_whereClause _).follows)
    (fun _ => (opens_whereClause _).follows) fun _ => hwhere

theorem tells_deleteText (hta : IsTable a.table.toList) (htb : IsTable b.table.toList)
    (hwhere : Tells (Follows orderWords) (whereClause level body? a.conditions)
      (whereClause level body?' b.conditions) P) :
    Tells (Follows orderWords) (a.deleteText level body?) (b.deleteText level body?')
      (a.table = b.table ∧ P) :=
  ((tells_table hta htb).append_left "DELETE FROM ".toList).append
    (fun _ hr => ((opens_whereClause _).follows hr).stops)
    (fun _ hr => ((opens_whereClause _).follows hr).stops) fun _ => hwhere

/-! ### Operations -/

/-- A statement begins with the name of its operation. -/
theorem nextWord_statement {q : Query} (hp : q.placeholder? = none) (r : List Char) :
    nextWord (q.statement level body? ++ r) = named q.operation := by
  rw [statement, hp]
  cases q.operation <;> rfl

/-- Only a selection shows more than its pairs and conditions. -/
theorem SameStatement.of_ne_select (hne : a.operation ≠ .select) (ho : a.operation = b.operation)
    (ht : a.table = b.table)
    (hpairs : a.operation = .insert ∨ a.operation = .update → a.shownPairs = b.shownPairs)
    (hterms : a.operation ≠ .insert → SameTerms R a b a.conditions b.conditions) :
    SameStatement R a b :=
  ⟨ho, ht, (absurd · hne), (absurd · hne), (absurd · hne), (absurd · hne), hpairs,
    fun h _ => hterms h⟩

theorem tells_statement (ha : a.HasGrammarTexts ∧ a.HasPairedQuotes)
    (hb : b.HasGrammarTexts ∧ b.HasPairedQuotes) (hpa : a.placeholder? = none)
    (hpb : b.placeholder? = none)
    (hwhere : a.operation ≠ .insert → b.operation ≠ .insert →
      Tells (Follows orderWords) (whereClause level body? a.conditions)
        (whereClause level body?' b.conditions) (SameTerms R a b a.conditions b.conditions)) :
    Tells (Follows endWords) (a.statement level body?) (b.statement level body?')
      (SameStatement R a b) := by
  refine .learn (P := a.operation = b.operation) (fun r s heq => ?_) fun ho => ?_
  · have hword := congrArg nextWord heq
    rw [nextWord_statement hpa, nextWord_statement hpb] at hword
    exact Operation.named_injective hword
  have hta := ha.1.table ((placeholder?_eq_none_iff a).mp hpa).1
  have htb := hb.1.table ((placeholder?_eq_none_iff b).mp hpb).1
  have hnext : ∀ r, Follows endWords r → Follows orderWords r := fun r hr => hr.mono (by decide)
  rw [← ho] at htb hwhere
  rw [statement, statement, hpa, hpb, ← ho]
  cases hop : a.operation with
  | select =>
    rw [if_pos hop] at hta htb
    refine (tells_selectText ha.1 hb.1 hta htb (hwhere (by simp [hop]) (by simp [hop]))).imp ?_
    rintro ⟨⟨⟨⟨⟨hcolumns, htable⟩, hjoins⟩, hterms⟩, hsortKeys⟩, hlimit⟩
    exact ⟨ho, htable, fun _ => hcolumns, fun _ => hjoins, fun _ => hsortKeys, fun _ => hlimit,
      by simp [hop], fun _ _ => hterms⟩
  | insert =>
    have hne : a.operation ≠ .select := by simp [hop]
    rw [if_neg hne] at hta htb
    have hinsert := tells_insertText ha hb hta htb (filledPairs_ne_nil hpa (.inl hop))
      (filledPairs_ne_nil hpb (.inl (ho ▸ hop)))
    refine (hinsert.before fun _ _ => trivial).imp ?_
    rintro ⟨htable, hpairs⟩
    exact .of_ne_select hne ho htable (fun _ => hpairs) (absurd hop)
  | update =>
    have hne : a.operation ≠ .select := by simp [hop]
    rw [if_neg hne] at hta htb
    have hupdate := tells_updateText ha hb hta.isTable htb.isTable
      (filledPairs_ne_nil hpa (.inr hop)) (filledPairs_ne_nil hpb (.inr (ho ▸ hop)))
      (hwhere (by simp [hop]) (by simp [hop]))
    refine (hupdate.before hnext).imp ?_
    rintro ⟨⟨htable, hpairs⟩, hterms⟩
    exact .of_ne_select hne ho htable (fun _ => hpairs) fun _ => hterms
  | delete =>
    have hne : a.operation ≠ .select := by simp [hop]
    rw [if_neg hne] at hta htb
    have hdelete := tells_deleteText hta.isTable htb.isTable
      (hwhere (by simp [hop]) (by simp [hop]))
    refine (hdelete.before hnext).imp ?_
    rintro ⟨htable, hterms⟩
    exact .of_ne_select hne ho htable (by simp [hop]) fun _ => hterms

/-! ### Subqueries -/

theorem tells_parenthesized {body body' : List Char} (h : Tells (Follows endWords) body body' P) :
    Tells (StopsAt isInLine) (parenthesized level body) (parenthesized level body') P := by
  have hclosing : ∀ r, Follows endWords (newLine (level + 1) ++ [')'] ++ r) := by
    intro r
    rw [List.append_assoc]
    exact follows_newLine_append _ (List.mem_singleton.mpr rfl)
  have hinside := (h.append_left ('(' :: newLine (level + 2))).append_right _ hclosing
  rw [← List.append_assoc, ← List.append_assoc] at hinside
  exact hinside.before fun _ _ => trivial

/-- Subqueries stand in parentheses and values in quotes. -/
theorem tells_operand {c c' : Condition} (hc : Sql.HasPairedQuotes c.value)
    (hc' : Sql.HasPairedQuotes c'.value)
    (h : ∀ child child', a.operand? c = some child → b.operand? c' = some child' →
      Tells (Follows endWords) (child.body (level + 2)) (child'.body (level + 2))
        (R child child')) :
    Tells (StopsAt isInLine)
      (c.operandText level fun key =>
        (Entries.find? key a.subqueries).map fun child => child.body (level + 2))
      (c'.operandText level fun key =>
        (Entries.find? key b.subqueries).map fun child => child.body (level + 2))
      (SameOperand R a b c c') := by
  rw [operandText_body, operandText_body, SameOperand]
  cases hchild : a.operand? c with
  | none =>
    cases hchild' : b.operand? c' with
    | none =>
      exact (hc.tells_literal hc').before fun r hr => hr.of_inLine (by decide) (by decide)
    | some child' => exact .of_ne fun r s _ _ heq => absurd (List.cons.inj heq).1 (by decide)
  | some child =>
    cases hchild' : b.operand? c' with
    | none => exact .of_ne fun r s _ _ heq => absurd (List.cons.inj heq).1 (by decide)
    | some child' => exact tells_parenthesized (h child child' hchild hchild')

/-- Clean and finished queries are told by their bodies, wherever these stand. -/
theorem IsClean.tells_body (ha : a.IsClean) (hfa : a.IsFinished) (hb : b.IsClean)
    (hfb : b.IsFinished) (level : Int) :
    Tells (Follows endWords) (a.body level) (b.body level) (SameStatement Alike a b) := by
  induction a using Query.induct generalizing b level with
  | step a ih =>
    obtain ⟨hpa, hanswered⟩ := isFinished_iff.mp hfa
    obtain ⟨hpb, hanswered'⟩ := isFinished_iff.mp hfb
    rw [body_eq, body_eq]
    -- One induction is enough: conditions that are read side by side lead to subqueries that are.
    refine tells_statement ha.root hb.root hpa hpb fun hoa hob => ?_
    refine tells_whereClause fun c hc c' hc' => ?_
    refine (Condition.tells_term (ha.root.1.conditions c hc) (hb.root.1.conditions c' hc')
      fun ho hn => ?_).imp fun h => ⟨h.1, h.2.1, h.2.2⟩
    refine tells_operand (ha.root.2.conditions c hc) (hb.root.2.conditions c' hc') ?_
    intro child child' hchild hchild'
    obtain ⟨key, -, hmem⟩ := exists_mem_of_operand? hchild
    have hfinished := ((hanswered hoa c hc).2 hn child hchild).2
    have hfinished' := ((hanswered' hob c' hc').2 (ho ▸ hn) child' hchild').2
    have htable := ((placeholder?_eq_none_iff child).mp (isFinished_iff.mp hfinished).1).1
    exact (ih (key, child) hmem (ha.subqueries _ hmem) hfinished (hb.operand hchild') hfinished'
      (level + 2)).imp fun h => .statement htable h fun _ _ h => h

/-- **A statement tells its query.** Clean and finished queries with the same statement, at whatever
level, agree in all that they show. -/
theorem IsClean.sameStatement_of_sql_eq (ha : a.IsClean) (hfa : a.IsFinished) (hb : b.IsClean)
    (hfb : b.IsFinished) (h : a.sql level = b.sql level) : SameStatement Alike a b := by
  have hsemicolon : Follows endWords [';'] := ⟨stopsAt_cons (by decide) _, by decide⟩
  simp only [sql, (isFinished_iff.mp hfa).1, (isFinished_iff.mp hfb).1] at h
  exact (ha.tells_body hfa hb hfb level [';'] [';'] hsemicolon hsemicolon h).1

/-- The same strangers, with a value behind the subquery and a sort key without a column. -/
def newcomers : Query :=
  { strangers with
    id := "other"
    columns := " *"
    conditions := [⟨"d1", "u.id", .notAmong, "spare", .or, some "s1"⟩,
      ⟨"d2", "name", .equal, "O\x27\x27Brien", .or, some "lost"⟩]
    sortKeys := [SortKey.blank "k1"] }

theorem isClean_newcomers : newcomers.IsClean := by
  obtain ⟨htexts, hquotes⟩ := isClean_strangers.root
  have hnames := htexts.conditions
  have hvalues := hquotes.conditions
  simp only [strangers, List.forall_mem_cons] at hnames hvalues
  refine .intro ⟨{ htexts with conditions := ?_, sortKeys := ?_ }, ⟨hquotes.pairs, ?_⟩⟩
    isClean_strangers.subqueries
  · simp only [newcomers, List.forall_mem_cons]
    exact ⟨hnames.1, hnames.2.1, List.forall_mem_nil _⟩
  · simp only [newcomers, List.forall_mem_cons]
    exact ⟨fun h => absurd rfl h, List.forall_mem_nil _⟩
  · simp only [newcomers, List.forall_mem_cons]
    exact ⟨⟨"spare".toList, by decide⟩, hvalues.2.1, List.forall_mem_nil _⟩

theorem isFinished_newcomers : newcomers.IsFinished := by
  refine isFinished_iff.mpr ⟨rfl, fun _ => ?_⟩
  simp only [newcomers, List.forall_mem_cons]
  refine ⟨⟨nofun, fun _ child hchild => ?_⟩, ⟨nofun, nofun⟩, nofun⟩
  cases hchild
  exact ⟨rfl, isFinished_iff.mpr ⟨rfl, nofun⟩⟩

theorem sameStatement_newcomers :
    newcomers ≠ strangers ∧ newcomers.sql 3 = strangers.sql 3 ∧
      SameStatement Alike newcomers strangers :=
  have hsql : newcomers.sql 3 = strangers.sql 3 := by rfl
  ⟨by decide, hsql, isClean_newcomers.sameStatement_of_sql_eq isFinished_newcomers
    isClean_strangers isFinished_strangers hsql⟩

end Query

end QueryComposer
