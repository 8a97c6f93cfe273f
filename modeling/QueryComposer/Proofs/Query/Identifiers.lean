import Mathlib.Data.List.Flatten
import QueryComposer.Proofs.Entries
import QueryComposer.Query.Basic

/-!
# The identifiers of a tree

Queries carry identifiers, and so do all their parts. `Query.ids` lists every one of them, as often
as it stands in the tree. How an operation moves identifiers around is of no interest here, only how
many of each there are, so the lemmas count them.

## Main definitions

* `Query.ownIds` lists the identifiers of a query and its parts, `Query.ids` those of a whole tree.

## Main results

* `Query.count_ids`: an identifier is counted kind by kind.
* `Query.count_idsBelow_put_of_find?`: another subquery in the place of one brings its own
  identifiers and takes those of the old one away.
-/

namespace QueryComposer

namespace Query

variable {key x : String} {q child old : Query} {es : List (String × Query)}

/-- The identifiers of the query and of its parts, without the subqueries. -/
def ownIds (q : Query) : List String :=
  q.id :: (q.pairs.map Pair.id ++ q.conditions.map Condition.id ++ q.joins.map Join.id ++
    q.sortKeys.map SortKey.id)

mutual

/-- The identifiers of all queries of the tree and of all their parts. -/
def ids : Query → List String
  | ⟨id, operation, table, columns, pairs, conditions, joins, sortKeys, limit, subqueries⟩ =>
    ownIds ⟨id, operation, table, columns, pairs, conditions, joins, sortKeys, limit, subqueries⟩ ++
      idsBelow subqueries

/-- The identifiers of these queries, of all queries below them and of their parts. -/
def idsBelow : List (String × Query) → List String
  | [] => []
  | (_, q) :: es => ids q ++ idsBelow es

end

theorem ids_eq (q : Query) : q.ids = q.ownIds ++ idsBelow q.subqueries := by
  cases q
  rw [ids]

theorem idsBelow_eq_flatMap (es : List (String × Query)) :
    idsBelow es = es.flatMap fun e => e.2.ids := by
  induction es with
  | nil => rw [idsBelow, List.flatMap_nil]
  | cons e es ih => rw [idsBelow, ih, List.flatMap_cons]

theorem mem_ids_of_mem {e : String × Query} (he : e ∈ q.subqueries) (hx : x ∈ e.2.ids) :
    x ∈ q.ids := by
  rw [ids_eq, List.mem_append, idsBelow_eq_flatMap]
  exact .inr (List.mem_flatMap.mpr ⟨e, he, hx⟩)

theorem id_mem_ids (q : Query) : q.id ∈ q.ids := by
  rw [ids_eq]
  exact List.mem_append_left _ List.mem_cons_self

theorem mem_ids_of_mem_conditions (hx : x ∈ q.conditions.map Condition.id) : x ∈ q.ids := by
  rw [ids_eq, ownIds, List.mem_append, List.mem_cons]
  simp only [List.mem_append]
  exact .inl (.inr (.inl (.inl (.inr hx))))

/-- The identifiers of a query at the end of a path are among those of the query at its start. -/
theorem mem_ids_of_at? {path : List String} (h : q.at? path = some child) (hx : x ∈ child.ids) :
    x ∈ q.ids := by
  induction path generalizing q with
  | nil =>
    cases h
    exact hx
  | cons key path ih =>
    obtain ⟨next, hfind, hnext⟩ := Option.bind_eq_some_iff.mp h
    exact mem_ids_of_mem (Entries.mem_of_find? hfind) (ih hnext)

/-! ### Counting identifiers -/

theorem count_ids (q : Query) (x : String) :
    q.ids.count x = [q.id].count x + (q.pairs.map Pair.id).count x +
      (q.conditions.map Condition.id).count x + (q.joins.map Join.id).count x +
      (q.sortKeys.map SortKey.id).count x + (idsBelow q.subqueries).count x := by
  rw [ids_eq, ownIds, ← List.singleton_append]
  simp only [List.count_append]
  omega

/-- The new subquery and the old one change places. -/
theorem count_idsBelow_put_of_find? (child : Query) (x : String)
    (h : Entries.find? key es = some old) :
    (idsBelow (Entries.put key child es)).count x + old.ids.count x =
      (idsBelow es).count x + child.ids.count x := by
  induction es with
  | nil => cases h
  | cons e es ih =>
    obtain ⟨k, r⟩ := e
    rw [Entries.find?] at h
    rw [Entries.put]
    split at h
    · next hk =>
      cases h
      rw [if_pos hk, idsBelow, idsBelow, List.count_append, List.count_append]
      omega
    · next hk =>
      have htail := ih h
      rw [if_neg hk, idsBelow, idsBelow, List.count_append, List.count_append]
      omega

theorem count_idsBelow_put_le (key x : String) (child : Query) (es : List (String × Query)) :
    (idsBelow (Entries.put key child es)).count x ≤ (idsBelow es).count x + child.ids.count x := by
  cases h : Entries.find? key es with
  | some old =>
    have hput := count_idsBelow_put_of_find? child x h
    omega
  | none =>
    have hkey := Entries.find?_eq_none_iff.mp h
    have hput : idsBelow (Entries.put key child es) = idsBelow es ++ child.ids := by
      rw [Entries.put_of_not_mem hkey, idsBelow_eq_flatMap, idsBelow_eq_flatMap,
        List.flatMap_append, List.flatMap_singleton]
    exact Nat.le_of_eq (by rw [hput, List.count_append])

theorem idsBelow_erase_sublist (key : String) (es : List (String × Query)) :
    (idsBelow (Entries.erase key es)).Sublist (idsBelow es) := by
  have hsub : (Entries.erase key es).Sublist es := List.filter_sublist
  rw [idsBelow_eq_flatMap, idsBelow_eq_flatMap]
  exact hsub.flatMap _

end Query

end QueryComposer
