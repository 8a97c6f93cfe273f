import QueryComposer.Proofs.Edit.Path
import QueryComposer.Proofs.Sql.Alike
import QueryComposer.Proofs.Sql.Nesting

/-!
# Edits and the statement that is shown

The statement of the whole tree is shown after every edit, wherever in the tree the edit was made.
A subquery may stand in it more than once, or not at all, and what it shows there is its body and
not the statement that it has by itself. But the body can be read off that statement. So an edit
that leaves the statement of a subquery as it is, at every level, leaves the statement of the tree
as it is.

The levels are load-bearing: a line end that was typed looks like one of the layout at one level
only, so two subqueries with the same statement at some level may differ further in.

## Main definitions

* `Edit.ShowsNothing` holds of the edits that only concern parts which are not filled in.

## Main results

* `Query.sameBody_of_sql_eq`: statements settle bodies.
* `Query.sql_put`: a subquery gives way to another one with the same statement.
* `Query.sql_editAt`: what edits at a path leave of the statement of the tree.
-/

namespace QueryComposer

namespace Query

variable {q q' child old : Query} {key : String} {level : Int}

/-! ### Statements and bodies -/

/-- The body is what is left of the statement without its semicolon and without an indent. -/
theorem dropWhile_sql (q : Query) (level : Int) :
    (if (q.sql level).getLast? = some ';' then (q.sql level).dropLast
      else q.sql level).dropWhile Text.isBlank = q.body level := by
  obtain ⟨c, cs, hbody, hc⟩ := q.exists_body_eq_cons level
  rw [dropSemicolon_sql, hbody, dropWhile_indent_append _ hc]

theorem sameBody_of_sql_eq (h : ∀ level, q.sql level = q'.sql level) : SameBody q q' := by
  intro level
  rw [← dropWhile_sql q, ← dropWhile_sql q', h]

/-! ### Parts that are not shown, and subqueries that look the same -/

/-- A condition shows the same in two queries that keep the same bodies under the same keys. -/
theorem sameTerms_of_rel
    (h : ∀ key, Option.Rel SameBody (Entries.find? key q.subqueries)
      (Entries.find? key q'.subqueries)) (cs : List Condition) :
    SameTerms SameBody q q' cs cs := by
  have hterm : ∀ c, SameTerm SameBody q q' c c := by
    refine fun c => ⟨rfl, fun _ => rfl, fun _ => ?_⟩
    rw [SameOperand, operand?, operand?]
    cases c.link? with
    | none => rfl
    | some key =>
      rw [Option.bind_some, Option.bind_some]
      have hkey := h key
      generalize Entries.find? key q.subqueries = x, Entries.find? key q'.subqueries = y at hkey ⊢
      cases hkey with
      | some hbody => exact hbody
      | none => rfl
  cases cs with
  | nil => exact .nil
  | cons c cs => exact .cons (hterm c) (List.forall₂_same.mpr fun d _ => ⟨rfl, hterm d⟩)

theorem rel_sameBody_refl (child? : Option Query) : Option.Rel SameBody child? child? := by
  cases child? with
  | none => exact .none
  | some child => exact .some fun _ => rfl

/-- A query shows the same with other pairs, joins, sort keys and subqueries, if these show the
same. -/
theorem sameStatement_with {pairs : List Pair} {joins : List Join} {sortKeys : List SortKey}
    {subqueries : List (String × Query)} (hpairs : shownPairs { q with pairs } = q.shownPairs)
    (hjoins : shownJoins { q with joins } = q.shownJoins)
    (hkeys : shownSortKeys { q with sortKeys } = q.shownSortKeys)
    (hsubqueries : ∀ key, Option.Rel SameBody (Entries.find? key subqueries)
      (Entries.find? key q.subqueries)) :
    SameStatement SameBody { q with pairs, joins, sortKeys, subqueries } q :=
  ⟨rfl, rfl, fun _ => rfl, fun _ => hjoins, fun _ => hkeys, fun _ => rfl, fun _ => hpairs,
    fun _ _ => sameTerms_of_rel hsubqueries q.conditions⟩

/-- **A subquery may give way to one that has the same statement**, wherever and however often it
is shown. -/
theorem sql_put (hfind : Entries.find? key q.subqueries = some old)
    (h : ∀ level, child.sql level = old.sql level) (level : Int) :
    sql { q with subqueries := Entries.put key child q.subqueries } level = q.sql level := by
  refine SameStatement.sql_congr (sameStatement_with rfl rfl rfl fun key' => ?_) level
  rw [Entries.find?_put]
  split
  · next hkey =>
    subst hkey
    rw [hfind]
    exact .some (sameBody_of_sql_eq h)
  · exact rel_sameBody_refl _

theorem sql_editAt_of_sql_eq {α : Type} {edit : Query → Except EditError (Query × α)} {a : α}
    {path : List String} (h : q.editAt edit path = .ok (q', a))
    (hsame : ∀ n n', q.at? path = some n → edit n = .ok (n', a) →
      ∀ level, n'.sql level = n.sql level) (level : Int) : q'.sql level = q.sql level := by
  induction path generalizing q q' level with
  | nil => exact hsame q q' rfl h level
  | cons key path ih =>
    obtain ⟨child, child', hfind, hedit, hreplace⟩ := editAt_cons_ok h
    obtain ⟨-, -, rfl⟩ := replaceSubquery_ok hreplace
    rw [at?_cons_of_find? hfind] at hsame
    exact sql_put hfind (ih hedit hsame) level

end Query

/-! ### Edits that show nothing -/

/-- The edit adds a part, which is blank, or removes parts of which none is filled in. Conditions
are always shown. -/
def Edit.ShowsNothing (q : Query) : Edit → Prop
  | .addPair | .addJoin | .addSortKey => True
  | .removePair id => ∀ p ∈ q.pairs, p.id = id → p.column = ""
  | .removeJoin id => ∀ j ∈ q.joins, j.id = id → j.table = "" ∨ j.left = "" ∨ j.right = ""
  | .removeSortKey id => ∀ s ∈ q.sortKeys, s.id = id → s.column = ""
  | _ => False

open Query

variable {q q' : Query} {e : Edit} {supply supply' : Supply}

theorem Query.shownPairs_addPair (q : Query) (id : String) :
    (q.addPair id).shownPairs = q.shownPairs := by
  simp [shownPairs, addPair, Pair.blank]

theorem Query.shownJoins_addJoin (q : Query) (id : String) :
    (q.addJoin id).shownJoins = q.shownJoins := by
  simp [shownJoins, addJoin, Join.blank]

theorem Query.shownSortKeys_addSortKey (q : Query) (id : String) :
    (q.addSortKey id).shownSortKeys = q.shownSortKeys := by
  simp [shownSortKeys, addSortKey, SortKey.blank]

/-- The parts that are shown are all there if none that was removed is among them. -/
theorem Part.filter_remove {α : Type} [Part α] {id : String} {shown : α → Bool} {parts : List α}
    (h : ∀ a ∈ parts, Part.id a = id → shown a = false) :
    (parts.filter fun a => Part.id a ≠ id).filter shown = parts.filter shown := by
  rw [List.filter_filter]
  refine List.filter_congr fun a ha => ?_
  by_cases hid : Part.id a = id
  · rw [h a ha hid, Bool.false_and]
  · rw [decide_eq_true hid, Bool.and_true]

/-- **An edit that shows nothing leaves the statement as it is.** -/
theorem Edit.ShowsNothing.sql_apply (he : e.ShowsNothing q)
    (h : e.apply supply q = .ok (q', supply')) (level : Int) : q'.sql level = q.sql level := by
  have hsame : ∀ key, Option.Rel SameBody (Entries.find? key q.subqueries)
      (Entries.find? key q.subqueries) := fun key => rel_sameBody_refl _
  cases e with
  | addPair =>
    cases h
    exact (sameStatement_with (shownPairs_addPair q _) rfl rfl hsame).sql_congr level
  | addJoin =>
    cases h
    exact (sameStatement_with rfl (shownJoins_addJoin q _) rfl hsame).sql_congr level
  | addSortKey =>
    cases h
    exact (sameStatement_with rfl rfl (shownSortKeys_addSortKey q _) hsame).sql_congr level
  | removePair id =>
    obtain ⟨hr, rfl⟩ := keeping_ok h
    obtain ⟨pairs, hpairs, rfl⟩ := Except.map_eq_ok hr
    rw [Part.remove_ok hpairs]
    refine (sameStatement_with (congrArg (List.map _) ?_) rfl rfl hsame).sql_congr level
    exact Part.filter_remove fun p hp hid => decide_eq_false (not_not.mpr (he p hp hid))
  | removeJoin id =>
    obtain ⟨hr, rfl⟩ := keeping_ok h
    obtain ⟨joins, hjoins, rfl⟩ := Except.map_eq_ok hr
    rw [Part.remove_ok hjoins]
    refine (sameStatement_with rfl (congrArg (List.map _) ?_) rfl hsame).sql_congr level
    refine Part.filter_remove fun j hj hid => decide_eq_false ?_
    rintro ⟨htable, hleft, hright⟩
    rcases he j hj hid with hempty | hempty | hempty
    · exact htable hempty
    · exact hleft hempty
    · exact hright hempty
  | removeSortKey id =>
    obtain ⟨hr, rfl⟩ := keeping_ok h
    obtain ⟨sortKeys, hkeys, rfl⟩ := Except.map_eq_ok hr
    rw [Part.remove_ok hkeys]
    refine (sameStatement_with rfl rfl (congrArg (List.map _) ?_) hsame).sql_congr level
    exact Part.filter_remove fun s hs hid => decide_eq_false (not_not.mpr (he s hs hid))
  | _ => exact he.elim

/-! ### Edits at a path -/

namespace Query

/-- **The statement of the tree depends on the statements of its subqueries.** An edit at a path
that leaves the statement of the edited query as it is, at every level, leaves the statement of the
tree as it is. Edits that show nothing are of this kind: parts that are added, and parts that are
removed and were not filled in. -/
theorem sql_editAt :
    (∀ (α : Type) (edit : Query → Except EditError (Query × α)) (path : List String)
      (q q' : Query) (a : α), q.editAt edit path = .ok (q', a) →
      (∀ n n', q.at? path = some n → edit n = .ok (n', a) →
        ∀ level, n'.sql level = n.sql level) →
      ∀ level, q'.sql level = q.sql level) ∧
    ∀ (e : Edit) (path : List String) (supply supply' : Supply) (q q' : Query),
      q.editAt (e.apply supply) path = .ok (q', supply') →
      (∀ n, q.at? path = some n → e.ShowsNothing n) →
      ∀ level, q'.sql level = q.sql level := by
  refine ⟨fun α edit path q q' a => sql_editAt_of_sql_eq, ?_⟩
  intro e path supply supply' q q' h hnothing
  exact sql_editAt_of_sql_eq h fun n n' hn hedit => (hnothing n hn).sql_apply hedit

/-- A query that shows the same subquery twice, and has another one that it does not show. The
subquery has a join that lacks its columns. -/
def mirrored : Query :=
  { bare "root" .select with
    table := "users"
    conditions := [{ Condition.blank "c1" with operator := .existing, subqueryId := some "s" },
      { Condition.blank "c2" with column := "id", operator := .among, subqueryId := some "s" }]
    subqueries := [("t", bare "t" .delete),
      ("s", { bare "s" .select with
        table := "orders", columns := "user_id", joins := [⟨"j", .left, "items", "", "id"⟩] })] }

/-- The join is removed where it is shown twice. Blanks are typed behind a column there, which shows
nothing either, though this edit may show something elsewhere. -/
theorem sql_editAt_mirrored :
    let supply := Supply.ofSource numbered
    let typing := Edit.setFields [("select_columns", .string "user_id ")]
    (∃ q', mirrored.editAt (Edit.apply (.removeJoin "j") supply) ["s"] = .ok (q', supply) ∧
        q' ≠ mirrored ∧ q'.sql 1 = mirrored.sql 1) ∧
      ∃ q', mirrored.editAt (typing.apply supply) ["s"] = .ok (q', supply) ∧
        q' ≠ mirrored ∧ q'.sql 1 = mirrored.sql 1 := by
  intro supply typing
  constructor
  · refine ⟨_, rfl, by decide, sql_editAt.2 (.removeJoin "j") ["s"] supply supply _ _ rfl ?_ 1⟩
    rintro n hn
    cases hn
    exact List.forall_mem_singleton.mpr fun _ => .inr (.inl rfl)
  · refine ⟨_, rfl, by decide, sql_editAt.1 _ (typing.apply supply) ["s"] _ _ supply rfl ?_ 1⟩
    rintro n n' hn hedit level
    cases hn
    cases hedit
    rfl

end Query

end QueryComposer
