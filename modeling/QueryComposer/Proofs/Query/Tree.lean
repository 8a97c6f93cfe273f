import QueryComposer.Proofs.Entries
import QueryComposer.Query.Basic

/-!
# Properties of whole trees

Many conditions on a query are meant for its subqueries as well, at every depth and whether or not
a condition leads to them. `Query.Every` spreads a condition on one query over its tree.
-/

namespace QueryComposer.Query

variable {P Q : Query → Prop}

/-- The property holds of the query and of all queries below it. -/
inductive Every (P : Query → Prop) : Query → Prop where
  | intro {q : Query} : P q → (∀ e ∈ q.subqueries, Every P e.2) → Every P q

theorem every_iff {q : Query} : q.Every P ↔ P q ∧ ∀ e ∈ q.subqueries, e.2.Every P :=
  ⟨fun ⟨h, hs⟩ => ⟨h, hs⟩, fun ⟨h, hs⟩ => .intro h hs⟩

theorem Every.root {q : Query} (h : q.Every P) : P q := (every_iff.mp h).1

theorem Every.subqueries {q : Query} (h : q.Every P) : ∀ e ∈ q.subqueries, e.2.Every P :=
  (every_iff.mp h).2

/-- The subquery of a condition is one of the subqueries, kept under the link. -/
theorem exists_mem_of_operand? {q child : Query} {c : Condition} (h : q.operand? c = some child) :
    ∃ key, c.link? = some key ∧ (key, child) ∈ q.subqueries := by
  obtain ⟨key, hkey, hfind⟩ := Option.bind_eq_some_iff.mp h
  exact ⟨key, hkey, Entries.mem_of_find? hfind⟩

theorem Every.operand {q child : Query} (h : q.Every P) {c : Condition}
    (hc : q.operand? c = some child) : child.Every P := by
  obtain ⟨key, -, hmem⟩ := exists_mem_of_operand? hc
  exact h.subqueries _ hmem

/-- A path leads to a query of the tree. -/
theorem Every.at? {q r : Query} (h : q.Every P) {path : List String} (hr : q.at? path = some r) :
    r.Every P := by
  induction path generalizing q with
  | nil =>
    cases hr
    exact h
  | cons key path ih =>
    obtain ⟨child, hfind, hchild⟩ := Option.bind_eq_some_iff.mp hr
    exact ih (h.subqueries _ (Entries.mem_of_find? hfind)) hchild

theorem Every.mono {q : Query} (h : q.Every P) (himp : ∀ q, P q → Q q) : q.Every Q := by
  induction q using Query.induct with
  | step q ih => exact .intro (himp q h.root) fun e he => ih e he (h.subqueries e he)

end QueryComposer.Query
