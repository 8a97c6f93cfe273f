import QueryComposer.Proofs.Entries
import QueryComposer.Query.Basic

/-!
# The height of a tree

The height of a query is the number of levels below it, whether or not a condition leads to the
queries there. It is compared with bounds only, and a bound of a query is a bound of its subqueries
one level further down (`Query.height_le_iff`), so no lemma looks at a maximum.

## Main definitions

* `Query.height` counts the levels below a query.

## Main results

* `Query.height_le_iff`: a bound of a query, said of its subqueries.
* `Query.length_add_height_le`: how far down a path may lead.
-/

namespace QueryComposer.Query

mutual

/-- The number of levels below the query. -/
def height : Query → Nat
  | ⟨_, _, _, _, _, _, _, _, _, subqueries⟩ => heightBelow subqueries

/-- The number of levels that the entries take. -/
def heightBelow : List (String × Query) → Nat
  | [] => 0
  | (_, q) :: es => max (height q + 1) (heightBelow es)

end

variable {q q' r : Query} {n : Nat}

theorem height_eq (q : Query) : q.height = heightBelow q.subqueries := by
  cases q
  rw [height]

theorem heightBelow_le_iff {es : List (String × Query)} :
    heightBelow es ≤ n ↔ ∀ e ∈ es, e.2.height < n := by
  induction es with
  | nil => exact ⟨fun _ => nofun, fun _ => Nat.zero_le n⟩
  | cons e es ih => rw [heightBelow, Nat.max_le, ih, List.forall_mem_cons, Nat.succ_le_iff]

theorem height_le_iff : q.height ≤ n ↔ ∀ e ∈ q.subqueries, e.2.height < n := by
  rw [height_eq, heightBelow_le_iff]

theorem height_lt_of_mem {e : String × Query} (he : e ∈ q.subqueries) : e.2.height < q.height :=
  height_le_iff.mp (Nat.le_refl _) e he

/-- A path goes down one level with each of its keys. -/
theorem length_add_height_le {path : List String} (h : q.at? path = some r) :
    path.length + r.height ≤ q.height := by
  induction path generalizing q with
  | nil =>
    cases h
    exact Nat.le_of_eq (Nat.zero_add _)
  | cons key path ih =>
    obtain ⟨child, hfind, hchild⟩ := Option.bind_eq_some_iff.mp h
    have hbelow := ih hchild
    have hlt := height_lt_of_mem (Entries.mem_of_find? hfind)
    rw [List.length_cons]
    dsimp only at hlt
    omega

end QueryComposer.Query
