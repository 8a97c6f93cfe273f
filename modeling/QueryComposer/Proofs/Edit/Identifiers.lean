import QueryComposer.Proofs.Edit.Basic
import QueryComposer.Proofs.Query.Identifiers
import QueryComposer.Proofs.Supply

/-!
# Edits and identifiers

An edit moves no identifier to a second place and takes new ones from the supply only. So each
identifier stands in the new tree as often as it stood in the old one and was drawn by the edit, at
most. Nothing is asked of the tree for this: identifiers may be repeated in it already.

The one edit that brings identifiers from elsewhere is `Edit.replaceSubquery`.

## Main definitions

* `Query.Grows` is the statement above, about a query and a supply before and after an edit.

## Main results

* `Edit.grows`: edits of one query.
* `Query.grows_editAt`: edits at a path.
-/

namespace QueryComposer

namespace Query

theorem sublist_of_eq {xs ys : List String} (h : xs = ys) : xs.Sublist ys := h ▸ .refl xs

/-- The supply goes on, and no identifier stands in the new tree more often than it stood in the old
one and was drawn. -/
structure Grows (q : Query) (supply : Supply) (q' : Query) (supply' : Supply) : Prop where
  source : supply'.source = supply.source
  drawn_le : supply.drawn ≤ supply'.drawn
  count_ids_le : ∀ x, q'.ids.count x ≤ q.ids.count x + (supply.issued supply').count x

variable {q q' child : Query} {supply supply' : Supply} {id : String}

theorem Grows.trans {q'' : Query} {supply'' : Supply} (h : q.Grows supply q' supply')
    (h' : q'.Grows supply' q'' supply'') : q.Grows supply q'' supply'' := by
  refine ⟨h'.source.trans h.source, Nat.le_trans h.drawn_le h'.drawn_le, ?_⟩
  intro x
  have hfirst := h.count_ids_le x
  have hsecond := h'.count_ids_le x
  rw [← Supply.issued_append h.source h.drawn_le h'.drawn_le, List.count_append]
  omega

/-- Nothing is drawn, and whatever goes, no identifier comes. -/
theorem Grows.of_sublist (hid : q'.id = q.id)
    (hpairs : (q'.pairs.map Pair.id).Sublist (q.pairs.map Pair.id))
    (hconditions : (q'.conditions.map Condition.id).Sublist (q.conditions.map Condition.id))
    (hjoins : (q'.joins.map Join.id).Sublist (q.joins.map Join.id))
    (hkeys : (q'.sortKeys.map SortKey.id).Sublist (q.sortKeys.map SortKey.id))
    (hbelow : (idsBelow q'.subqueries).Sublist (idsBelow q.subqueries)) :
    q.Grows supply q' supply := by
  refine ⟨rfl, Nat.le_refl _, ?_⟩
  intro x
  have hpairs := hpairs.count_le x
  have hconditions := hconditions.count_le x
  have hjoins := hjoins.count_le x
  have hkeys := hkeys.count_le x
  have hbelow := hbelow.count_le x
  rw [count_ids, count_ids q, hid]
  omega

/-- One identifier is drawn, and comes once. -/
theorem Grows.of_next
    (h : ∀ x, q'.ids.count x = q.ids.count x + [supply.source supply.drawn].count x) :
    q.Grows supply q' supply.next.2 := by
  refine ⟨rfl, Nat.le_succ _, ?_⟩
  intro x
  have hissued : supply.issued supply.next.2 = [supply.source supply.drawn] :=
    Supply.issued_add supply.source supply.drawn 1
  rw [hissued]
  exact Nat.le_of_eq (h x)

/-! ### Edits of one query -/

theorem map_id_mapConditions (q : Query) (id : String) {f : Condition → Condition}
    (hf : ∀ c, (f c).id = c.id) :
    (q.mapConditions id f).map Condition.id = q.conditions.map Condition.id := by
  rw [mapConditions, List.map_map]
  refine List.map_congr_left ?_
  intro c _
  rw [Function.comp_apply]
  split
  · exact hf c
  · rfl

theorem idsBelow_without_sublist (c : Condition) (es : List (String × Query)) :
    (idsBelow (without c es)).Sublist (idsBelow es) := by
  rw [without]
  split
  · exact idsBelow_erase_sublist _ es
  · exact .refl _

theorem Grows.of_updateCondition {changes : List (String × Json)}
    (h : q.updateCondition id changes = .ok q') : q.Grows supply q' supply := by
  obtain ⟨conditions, rfl, hids, -⟩ := updateCondition_ok h
  exact .of_sublist rfl (.refl _) (sublist_of_eq hids) (.refl _) (.refl _) (.refl _)

theorem count_ids_attach_le {depth : Int} (h : q.attach child id depth = .ok q') (x : String) :
    q'.ids.count x ≤ q.ids.count x + child.ids.count x := by
  obtain ⟨-, c, -, -, -, rfl⟩ := attach_ok h
  have hput := count_idsBelow_put_le child.id x child q.subqueries
  have hconditions := map_id_mapConditions q id
    (f := fun c => { c with subqueryId := some child.id }) fun _ => rfl
  rw [count_ids, count_ids q]
  dsimp only
  rw [hconditions]
  omega

/-- The new subquery comes in and the one in its place goes. -/
theorem count_ids_replaceSubquery {key : String} {old : Query}
    (hold : Entries.find? key q.subqueries = some old)
    (h : q.replaceSubquery key child = .ok q') (x : String) :
    q'.ids.count x + old.ids.count x = q.ids.count x + child.ids.count x := by
  obtain ⟨-, -, rfl⟩ := replaceSubquery_ok h
  have hput := count_idsBelow_put_of_find? child x hold
  rw [count_ids, count_ids q]
  dsimp only
  omega

/-- What is drawn for a blank query is what stands in it. -/
theorem count_ids_run_blank (operation : Operation) (supply : Supply) (x : String) :
    ((blank operation).run supply).1.ids.count x =
      (supply.issued ((blank operation).run supply).2).count x := by
  have hissued : supply.issued ((blank operation).run supply).2 =
      [supply.source supply.drawn] ++ [supply.source (supply.drawn + 1)] :=
    Supply.issued_add supply.source supply.drawn 2
  rw [hissued, count_ids, run_blank, List.count_append]
  simp only [bare, Pair.blank, idsBelow, List.map_nil, List.map_cons, List.count_nil]
  omega

theorem Grows.attach_blank {depth : Int}
    (h : q.attach ((blank .select).run supply).1 id depth = .ok q') :
    q.Grows supply q' ((blank .select).run supply).2 := by
  refine ⟨rfl, Nat.le_add_right _ 2, ?_⟩
  intro x
  have hattach := count_ids_attach_le h x
  rwa [count_ids_run_blank] at hattach

end Query

open Query

/-- **An edit of one query takes new identifiers from the supply only**, and repeats none. -/
theorem Edit.grows {e : Edit} {supply supply' : Supply} {q q' : Query}
    (he : ∀ key child, e ≠ .replaceSubquery key child)
    (h : e.apply supply q = .ok (q', supply')) : q.Grows supply q' supply' := by
  cases e with
  | setFields changes =>
    obtain ⟨hr, rfl⟩ := keeping_ok h
    obtain ⟨hid, hpairs, hconditions, hjoins, hkeys, hsubqueries⟩ := setFields_ok hr
    exact .of_sublist hid (sublist_of_eq (by rw [hpairs])) (sublist_of_eq (by rw [hconditions]))
      (sublist_of_eq (by rw [hjoins])) (sublist_of_eq (by rw [hkeys]))
      (sublist_of_eq (by rw [hsubqueries]))
  | addPair =>
    cases h
    refine .of_next ?_
    intro x
    rw [count_ids, count_ids q]
    simp only [Query.addPair, Pair.blank, List.map_append, List.count_append,
      List.map_singleton]
    omega
  | addCondition =>
    cases h
    refine .of_next ?_
    intro x
    rw [count_ids, count_ids q]
    simp only [Query.addCondition, Condition.blank, List.map_append, List.count_append,
      List.map_singleton]
    omega
  | addJoin =>
    cases h
    refine .of_next ?_
    intro x
    rw [count_ids, count_ids q]
    simp only [Query.addJoin, Join.blank, List.map_append, List.count_append,
      List.map_singleton]
    omega
  | addSortKey =>
    cases h
    refine .of_next ?_
    intro x
    rw [count_ids, count_ids q]
    simp only [Query.addSortKey, SortKey.blank, List.map_append, List.count_append,
      List.map_singleton]
    omega
  | updatePair id changes =>
    obtain ⟨hr, rfl⟩ := keeping_ok h
    obtain ⟨pairs, hpairs, rfl⟩ := Except.map_eq_ok hr
    exact .of_sublist rfl (Part.map_id_update_sublist hpairs) (.refl _) (.refl _) (.refl _)
      (.refl _)
  | updateCondition id changes =>
    obtain ⟨hr, rfl⟩ := keeping_ok h
    exact .of_updateCondition hr
  | updateJoin id changes =>
    obtain ⟨hr, rfl⟩ := keeping_ok h
    obtain ⟨joins, hjoins, rfl⟩ := Except.map_eq_ok hr
    exact .of_sublist rfl (.refl _) (.refl _) (Part.map_id_update_sublist hjoins) (.refl _)
      (.refl _)
  | updateSortKey id changes =>
    obtain ⟨hr, rfl⟩ := keeping_ok h
    obtain ⟨sortKeys, hkeys, rfl⟩ := Except.map_eq_ok hr
    exact .of_sublist rfl (.refl _) (.refl _) (.refl _) (Part.map_id_update_sublist hkeys) (.refl _)
  | removePair id =>
    obtain ⟨hr, rfl⟩ := keeping_ok h
    obtain ⟨pairs, hpairs, rfl⟩ := Except.map_eq_ok hr
    exact .of_sublist rfl (Part.map_id_remove_sublist hpairs) (.refl _) (.refl _) (.refl _)
      (.refl _)
  | removeCondition id =>
    obtain ⟨hr, rfl⟩ := keeping_ok h
    obtain ⟨c, -, -, rfl⟩ := removeCondition_ok hr
    exact .of_sublist rfl (.refl _) (List.filter_sublist.map _) (.refl _) (.refl _)
      (idsBelow_without_sublist c q.subqueries)
  | removeJoin id =>
    obtain ⟨hr, rfl⟩ := keeping_ok h
    obtain ⟨joins, hjoins, rfl⟩ := Except.map_eq_ok hr
    exact .of_sublist rfl (.refl _) (.refl _) (Part.map_id_remove_sublist hjoins) (.refl _)
      (.refl _)
  | removeSortKey id =>
    obtain ⟨hr, rfl⟩ := keeping_ok h
    obtain ⟨sortKeys, hkeys, rfl⟩ := Except.map_eq_ok hr
    exact .of_sublist rfl (.refl _) (.refl _) (.refl _) (Part.map_id_remove_sublist hkeys) (.refl _)
  | setOperator id operator depth =>
    obtain ⟨r, hr, ⟨rfl, rfl⟩ | ⟨hattach, rfl⟩⟩ := setOperator_ok h
    · exact .of_updateCondition hr
    · exact (Grows.of_updateCondition hr).trans (Grows.attach_blank hattach)
  | attach id depth =>
    obtain ⟨hr, rfl⟩ := apply_attach_ok h
    exact .attach_blank hr
  | detach id =>
    obtain ⟨hr, rfl⟩ := keeping_ok h
    obtain ⟨c, -, -, key, -, rfl⟩ := detach_ok hr
    have hids := map_id_mapConditions q id
      (f := fun c => { c with subqueryId := none, value := "" }) fun _ => rfl
    exact .of_sublist rfl (.refl _) (sublist_of_eq hids) (.refl _) (.refl _)
      (idsBelow_erase_sublist key q.subqueries)
  | replaceSubquery key child => exact absurd rfl (he key child)

/-! ### Edits at a path -/

/-- **So does an edit at a path**: on the way back each subquery changes places with the one that it
was before. -/
theorem Query.grows_editAt {e : Edit} {supply supply' : Supply} {path : List String}
    {q q' : Query} (he : ∀ key child, e ≠ .replaceSubquery key child)
    (h : q.editAt (e.apply supply) path = .ok (q', supply')) : q.Grows supply q' supply' := by
  induction path generalizing q q' with
  | nil => exact e.grows he h
  | cons key path ih =>
    obtain ⟨child, child', hfind, hedit, hreplace⟩ := editAt_cons_ok h
    obtain ⟨hsource, hdrawn, hcount⟩ := ih hedit
    refine ⟨hsource, hdrawn, ?_⟩
    intro x
    have hchild := hcount x
    have htree := count_ids_replaceSubquery hfind hreplace x
    omega

end QueryComposer
