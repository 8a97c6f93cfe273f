import QueryComposer.Proofs.Query.Tree
import QueryComposer.Proofs.Query.Unnamed
import QueryComposer.Proofs.Sql.Alike

/-!
# Identifiers are not shown

A statement shows no identifier, and to find a subquery takes its key and not its identifier. So a
query without its identifiers shows all that the query does, at every depth, and has the same
statement.

## Main results

* `Query.sameStatement_unnamed`: both show the same.
* `Query.sql_eq_of_unnamed_eq`: queries that differ in identifiers only have the same statement.
-/

namespace QueryComposer.Query

variable {q q' : Query}

theorem shownJoins_unnamed (q : Query) : q.unnamed.shownJoins = q.shownJoins := by
  rw [unnamed_eq, shownJoins, shownJoins, List.filter_map, List.map_map]
  rfl

theorem shownSortKeys_unnamed (q : Query) : q.unnamed.shownSortKeys = q.shownSortKeys := by
  rw [unnamed_eq, shownSortKeys, shownSortKeys, List.filter_map, List.map_map]
  rfl

theorem shownPairs_unnamed (q : Query) : q.unnamed.shownPairs = q.shownPairs := by
  rw [unnamed_eq, shownPairs, shownPairs, List.filter_map, List.map_map]
  rfl

/-- A condition shows the same without its identifier if its subquery does. -/
theorem sameTerm_unnamed (h : ∀ e ∈ q.subqueries, SameBody e.2 e.2.unnamed) (c : Condition) :
    SameTerm SameBody q q.unnamed c c.unnamed := by
  refine ⟨rfl, fun _ => rfl, fun _ => ?_⟩
  rw [SameOperand, operand?_unnamed]
  cases hc : q.operand? c with
  | none => rfl
  | some child =>
    obtain ⟨key, -, hmem⟩ := exists_mem_of_operand? hc
    exact h _ hmem

theorem sameTerms_unnamed (h : ∀ e ∈ q.subqueries, SameBody e.2 e.2.unnamed)
    (cs : List Condition) : SameTerms SameBody q q.unnamed cs (cs.map Condition.unnamed) := by
  cases cs with
  | nil => exact .nil
  | cons c cs =>
    refine .cons (sameTerm_unnamed h c) (List.forall₂_map_right_iff.mpr ?_)
    exact List.forall₂_same.mpr fun c' _ => ⟨rfl, sameTerm_unnamed h c'⟩

/-- **Without its identifiers a query shows the same**, its subqueries doing so as well. -/
theorem sameStatement_unnamed (q : Query) : SameStatement SameBody q q.unnamed := by
  induction q using Query.induct with
  | step q ih =>
    have hterms := sameTerms_unnamed (fun e he => (ih e he).sameBody) q.conditions
    have hjoins := (shownJoins_unnamed q).symm
    have hsortKeys := (shownSortKeys_unnamed q).symm
    have hpairs := (shownPairs_unnamed q).symm
    cases q
    exact ⟨rfl, rfl, fun _ => rfl, fun _ => hjoins, fun _ => hsortKeys, fun _ => rfl,
      fun _ => hpairs, fun _ _ => hterms⟩

theorem sql_unnamed (q : Query) (level : Int) : q.unnamed.sql level = q.sql level :=
  ((sameStatement_unnamed q).sql_congr level).symm

/-- **Identifiers make no difference to a statement.** -/
theorem sql_eq_of_unnamed_eq (h : q.unnamed = q'.unnamed) (level : Int) :
    q.sql level = q'.sql level := by
  rw [← sql_unnamed q, ← sql_unnamed q', h]

end QueryComposer.Query
