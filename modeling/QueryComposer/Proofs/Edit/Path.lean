import QueryComposer.Proofs.Edit.Basic
import QueryComposer.Proofs.Entries

/-!
# Edits at the end of a path

What an edit at a path comes to, said in terms of the two trees and of the edit at the end of the
path, for any edit and any tree. On the way down the path may lead nowhere. On the way back each
query has to carry the identifier of the place that it is put into, the innermost first.

The identifiers on the way back are those of the tree before, except for the last query of the path,
which is the edited one: a query that only takes another subquery keeps its identifier.

## Main definitions

* `Query.returningId?` is the identifier that a query on the path comes back with.
* `Query.Fits` says that all of these are the keys of their places, `Query.MisfitsAt` that one is
  not.
* `Query.BreaksOffAt` says that a key on the path leads nowhere.

## Main results

* `Query.editAt_append`: a path in two parts is followed part by part.
* `Query.editAt_outcome`: when an edit at a path succeeds, why it fails, and what it changes.
-/

namespace QueryComposer

namespace Query

variable {α : Type} {edit : Query → Except EditError (Query × α)} {q q' r n n' child : Query}
  {a : α} {key : String} {path before after : List String}

theorem at?_append (q : Query) (before after : List String) :
    q.at? (before ++ after) = (q.at? before).bind fun r => r.at? after := by
  induction before generalizing q with
  | nil => rfl
  | cons key before ih =>
    rw [List.cons_append, at?, at?]
    cases Entries.find? key q.subqueries with
    | none => rfl
    | some child => exact ih child

theorem at?_cons_of_find? (h : Entries.find? key q.subqueries = some child) (path : List String) :
    q.at? (key :: path) = child.at? path := by
  rw [at?, h, Option.bind_some]

/-! ### The ways in which an edit fails -/

theorem editAt_cons_of_find? (h : Entries.find? key q.subqueries = some child)
    (edit : Query → Except EditError (Query × α)) (path : List String) :
    q.editAt edit (key :: path) =
      match child.editAt edit path with
      | .error e => .error e
      | .ok (child', a) =>
        if child'.id = key then
          .ok ({ q with subqueries := Entries.put key child' q.subqueries }, a)
        else .error (.misplaced key child'.id) := by
  rw [editAt, h]
  dsimp only
  cases child.editAt edit path with
  | error e => rfl
  | ok r =>
    obtain ⟨child', a⟩ := r
    change (q.replaceSubquery key child' >>= fun q => pure (q, a)) = _
    rw [replaceSubquery, h, if_neg (by simp)]
    dsimp only
    by_cases hid : child'.id = key
    · rw [if_neg (Decidable.not_not.mpr hid), if_pos hid]
      rfl
    · rw [if_pos hid, if_neg hid]
      rfl

/-- A path in two parts is followed part by part. -/
theorem editAt_append (edit : Query → Except EditError (Query × α)) (q : Query)
    (before after : List String) :
    q.editAt edit (before ++ after) = q.editAt (fun r => r.editAt edit after) before := by
  induction before generalizing q with
  | nil => rfl
  | cons key before ih =>
    rw [List.cons_append, editAt, editAt]
    cases Entries.find? key q.subqueries with
    | none => rfl
    | some child =>
      dsimp only
      rw [ih child]

/-- What is wrong at the end of a path is wrong with the edit. -/
theorem editAt_of_error (hr : q.at? path = some r) {e : EditError} (h : edit r = .error e) :
    q.editAt edit path = .error e := by
  induction path generalizing q with
  | nil =>
    cases hr
    exact h
  | cons key path ih =>
    obtain ⟨child, hfind, hchild⟩ := Option.bind_eq_some_iff.mp hr
    rw [editAt_cons_of_find? hfind, ih hchild]

/-! ### The way back -/

/-- The identifier with which the query behind `before` and `key` comes back into its place. At the
end of the path it is the edited query `n'`, further up a query that keeps its identifier. -/
def returningId? (q n' : Query) (before : List String) (key : String) (after : List String) :
    Option String :=
  if after = [] then some n'.id else (q.at? (before ++ [key])).map Query.id

/-- Every query on the path comes back with the key of its place. -/
def Fits (q n' : Query) (path : List String) : Prop :=
  ∀ before key after, path = before ++ key :: after →
    q.returningId? n' before key after = some key

/-- The place of `key` is the innermost one on the path to which a query comes back with another
identifier. -/
def MisfitsAt (q n' : Query) (path : List String) (key id : String) : Prop :=
  ∃ before after, path = before ++ key :: after ∧
    q.returningId? n' before key after = some id ∧ id ≠ key ∧
    ∀ before' key' after', path = before' ++ key' :: after' → before.length < before'.length →
      q.returningId? n' before' key' after' = some key'

theorem returningId?_append (hr : q.at? before = some r) (n' : Query) (between : List String)
    (key : String) (after : List String) :
    q.returningId? n' (before ++ between) key after = r.returningId? n' between key after := by
  rw [returningId?, returningId?, List.append_assoc, at?_append, hr, Option.bind_some]

theorem returningId?_cons (hfind : Entries.find? key q.subqueries = some child) (n' : Query)
    (before : List String) (key' : String) (after : List String) :
    q.returningId? n' (key :: before) key' after = child.returningId? n' before key' after := by
  have hchild : q.at? [key] = some child := at?_cons_of_find? hfind []
  exact returningId?_append hchild n' before key' after

/-- A query that only takes another subquery keeps its identifier. -/
theorem id_of_editAt_cons (h : q.editAt edit (key :: path) = .ok (q', a)) : q'.id = q.id := by
  obtain ⟨child, child', -, -, hreplace⟩ := editAt_cons_ok h
  obtain ⟨-, -, rfl⟩ := replaceSubquery_ok hreplace
  rfl

/-- The identifier that a place is offered is the one that the edited subquery has. -/
theorem returningId?_nil {child' : Query} (hfind : Entries.find? key q.subqueries = some child)
    (hn : child.at? path = some n) (hedit : edit n = .ok (n', a))
    (h : child.editAt edit path = .ok (child', a)) :
    q.returningId? n' [] key path = some child'.id := by
  cases path with
  | nil =>
    cases hn
    cases hedit.symm.trans h
    rfl
  | cons key' path =>
    have hchild : q.at? ([] ++ [key]) = some child := at?_cons_of_find? hfind []
    rw [returningId?, if_neg (List.cons_ne_nil key' path), hchild, id_of_editAt_cons h,
      Option.map_some]

theorem fits_nil (q n' : Query) : q.Fits n' [] := fun before key after h => by simp at h

theorem fits_cons_iff (hfind : Entries.find? key q.subqueries = some child) :
    q.Fits n' (key :: path) ↔
      q.returningId? n' [] key path = some key ∧ child.Fits n' path := by
  constructor
  · intro h
    refine ⟨h [] key path rfl, ?_⟩
    rintro before key' after rfl
    rw [← returningId?_cons hfind]
    exact h (key :: before) key' after rfl
  · rintro ⟨hhead, htail⟩ before key' after hpath
    rcases List.cons_eq_append_iff.mp hpath with ⟨rfl, heq⟩ | ⟨before, rfl, rfl⟩
    · cases heq
      exact hhead
    · rw [returningId?_cons hfind]
      exact htail before key' after rfl

/-- **Where everything fits the edit succeeds.** -/
theorem editAt_of_fits (hn : q.at? path = some n) (hedit : edit n = .ok (n', a))
    (hfits : q.Fits n' path) : ∃ q', q.editAt edit path = .ok (q', a) := by
  induction path generalizing q with
  | nil =>
    cases hn
    exact ⟨n', hedit⟩
  | cons key path ih =>
    obtain ⟨child, hfind, hchild⟩ := Option.bind_eq_some_iff.mp hn
    obtain ⟨hhead, htail⟩ := (fits_cons_iff hfind).mp hfits
    obtain ⟨child', hok⟩ := ih hchild htail
    have hid := (returningId?_nil hfind hchild hedit hok).symm.trans hhead
    rw [editAt_cons_of_find? hfind, hok]
    exact ⟨_, if_pos (Option.some.inj hid)⟩

/-- **Otherwise the innermost misfit counts.** -/
theorem editAt_of_misfitsAt (hn : q.at? path = some n) (hedit : edit n = .ok (n', a)) {id : String}
    (h : q.MisfitsAt n' path key id) : q.editAt edit path = .error (.misplaced key id) := by
  obtain ⟨before, after, rfl, hid, hne, hdeeper⟩ := h
  obtain ⟨r, hr, hn⟩ := Option.bind_eq_some_iff.mp ((at?_append _ _ _).symm.trans hn)
  obtain ⟨child, hfind, hchild⟩ := Option.bind_eq_some_iff.mp hn
  have hfits : child.Fits n' after := by
    rintro between key' after' rfl
    have hplace : before ++ key :: (between ++ key' :: after') =
        (before ++ key :: between) ++ key' :: after' := by simp
    have hkey := hdeeper (before ++ key :: between) key' after' hplace (by simp)
    rwa [returningId?_append hr, returningId?_cons hfind] at hkey
  obtain ⟨child', hok⟩ := editAt_of_fits hchild hedit hfits
  have hback := returningId?_append hr n' [] key after
  rw [List.append_nil, hid, returningId?_nil hfind hchild hedit hok] at hback
  cases hback
  rw [editAt_append]
  refine editAt_of_error hr ?_
  rw [editAt_cons_of_find? hfind, hok]
  exact if_neg hne

theorem fits_or_misfitsAt (hn : q.at? path = some n) (n' : Query) :
    q.Fits n' path ∨ ∃ key id, q.MisfitsAt n' path key id := by
  induction path generalizing q with
  | nil => exact .inl (fits_nil q n')
  | cons key path ih =>
    obtain ⟨child, hfind, hchild⟩ := Option.bind_eq_some_iff.mp hn
    rcases ih hchild with hfits | ⟨key', id, before, after, rfl, hid, hne, hdeeper⟩
    · have hback : ∃ id, q.returningId? n' [] key path = some id := by
        rw [returningId?]
        split
        · exact ⟨_, rfl⟩
        · exact ⟨child.id, by rw [List.nil_append, at?_cons_of_find? hfind]; rfl⟩
      obtain ⟨id, hid⟩ := hback
      by_cases hkey : id = key
      · exact .inl ((fits_cons_iff hfind).mpr ⟨hkey ▸ hid, hfits⟩)
      · refine .inr ⟨key, id, [], path, rfl, hid, hkey, ?_⟩
        intro before' key' after' hpath hlt
        rcases List.cons_eq_append_iff.mp hpath with ⟨rfl, -⟩ | ⟨before', rfl, rfl⟩
        · cases hlt
        · rw [returningId?_cons hfind]
          exact hfits before' key' after' rfl
    · refine .inr ⟨key', id, key :: before, after, rfl, ?_, hne, ?_⟩
      · rw [returningId?_cons hfind]
        exact hid
      · intro before' key'' after' hpath hlt
        rcases List.cons_eq_append_iff.mp hpath with ⟨rfl, -⟩ | ⟨before', rfl, heq⟩
        · cases hlt
        · rw [returningId?_cons hfind]
          exact hdeeper before' key'' after' heq (Nat.lt_of_succ_lt_succ hlt)

/-! ### Paths that lead nowhere -/

/-- The first key on the path that leads to no subquery. -/
def BreaksOffAt (q : Query) (path : List String) (key : String) : Prop :=
  ∃ before after r, path = before ++ key :: after ∧ q.at? before = some r ∧
    Entries.find? key r.subqueries = none

theorem editAt_of_breaksOffAt (h : q.BreaksOffAt path key) :
    q.editAt edit path = .error (.notFound .subquery key) := by
  obtain ⟨before, after, r, rfl, hr, hfind⟩ := h
  rw [editAt_append]
  refine editAt_of_error hr ?_
  rw [editAt, hfind]

theorem exists_breaksOffAt (h : q.at? path = none) : ∃ key, q.BreaksOffAt path key := by
  induction path generalizing q with
  | nil => cases h
  | cons key path ih =>
    cases hfind : Entries.find? key q.subqueries with
    | none => exact ⟨key, [], path, q, rfl, rfl, hfind⟩
    | some child =>
      rw [at?_cons_of_find? hfind] at h
      obtain ⟨key', before, after, r, rfl, hr, hnone⟩ := ih h
      exact ⟨key', key :: before, after, r, rfl, (at?_cons_of_find? hfind before).trans hr, hnone⟩

/-- **An edit at a path fails for one of three reasons.** -/
theorem editAt_error {e : EditError} (h : q.editAt edit path = .error e) :
    (∃ key, q.BreaksOffAt path key ∧ e = .notFound .subquery key) ∨
      (∃ n, q.at? path = some n ∧ edit n = .error e) ∨
      ∃ n n' a key id, q.at? path = some n ∧ edit n = .ok (n', a) ∧ q.MisfitsAt n' path key id ∧
        e = .misplaced key id := by
  cases hn : q.at? path with
  | none =>
    obtain ⟨key, hkey⟩ := exists_breaksOffAt hn
    cases h.symm.trans (editAt_of_breaksOffAt hkey)
    exact .inl ⟨key, hkey, rfl⟩
  | some n =>
    cases hedit : edit n with
    | error e' =>
      cases h.symm.trans (editAt_of_error hn hedit)
      exact .inr (.inl ⟨n, rfl, hedit⟩)
    | ok r =>
      obtain ⟨n', a⟩ := r
      rcases fits_or_misfitsAt hn n' with hfits | ⟨key, id, hmisfit⟩
      · obtain ⟨q', hok⟩ := editAt_of_fits hn hedit hfits
        cases h.symm.trans hok
      · cases h.symm.trans (editAt_of_misfitsAt hn hedit hmisfit)
        exact .inr (.inr ⟨n, n', a, key, id, rfl, hedit, hmisfit, rfl⟩)

/-! ### What changes -/

theorem at?_put_cons (q : Query) (key : String) (child' : Query) (path : List String) :
    at? { q with subqueries := Entries.put key child' q.subqueries } (key :: path) =
      child'.at? path :=
  at?_cons_of_find? (by rw [Entries.find?_put, if_pos rfl]) path

theorem at?_of_editAt_ok (h : q.editAt edit path = .ok (q', a)) :
    ∃ n n', q.at? path = some n ∧ edit n = .ok (n', a) ∧ q'.at? path = some n' := by
  induction path generalizing q q' with
  | nil => exact ⟨q, q', rfl, h, rfl⟩
  | cons key path ih =>
    obtain ⟨child, child', hfind, hedit, hreplace⟩ := editAt_cons_ok h
    obtain ⟨-, -, rfl⟩ := replaceSubquery_ok hreplace
    rw [at?_put_cons, at?_cons_of_find? hfind]
    exact ih hedit

/-- A query on the path differs from before in the one subquery that the path goes on to. -/
theorem at?_prefix_of_editAt_ok (h : q.editAt edit (before ++ key :: after) = .ok (q', a)) :
    ∃ r left old new right, q.at? before = some r ∧
      r.subqueries = left ++ (key, old) :: right ∧
      q'.at? before = some { r with subqueries := left ++ (key, new) :: right } ∧
      q.at? (before ++ [key]) = some old ∧ q'.at? (before ++ [key]) = some new := by
  induction before generalizing q q' with
  | nil =>
    obtain ⟨child, child', hfind, hedit, hreplace⟩ := editAt_cons_ok h
    obtain ⟨-, -, rfl⟩ := replaceSubquery_ok hreplace
    obtain ⟨left, right, hold, hput⟩ := Entries.exists_put_eq hfind
    refine ⟨q, left, child, child', right, rfl, hold, ?_, at?_cons_of_find? hfind [],
      at?_put_cons q key child' []⟩
    rw [at?, hput]
  | cons key' before ih =>
    obtain ⟨child, child', hfind, hedit, hreplace⟩ := editAt_cons_ok h
    obtain ⟨-, -, rfl⟩ := replaceSubquery_ok hreplace
    rw [List.cons_append, at?_put_cons, at?_put_cons, at?_cons_of_find? hfind,
      at?_cons_of_find? hfind]
    exact ih hedit

/-- A query that is neither on the path nor below its end stays as it is. -/
theorem at?_of_editAt_ok_of_not_prefix (h : q.editAt edit path = .ok (q', a)) {other : List String}
    (habove : ¬other <+: path) (hbelow : ¬path <+: other) : q'.at? other = q.at? other := by
  induction path generalizing q q' other with
  | nil => exact absurd List.nil_prefix hbelow
  | cons key path ih =>
    cases other with
    | nil => exact absurd List.nil_prefix habove
    | cons key' other =>
      obtain ⟨child, child', hfind, hedit, hreplace⟩ := editAt_cons_ok h
      obtain ⟨-, -, rfl⟩ := replaceSubquery_ok hreplace
      by_cases hkey : key = key'
      · subst hkey
        rw [at?_put_cons, at?_cons_of_find? hfind]
        exact ih hedit (fun hp => habove (List.cons_prefix_cons.mpr ⟨rfl, hp⟩))
          fun hp => hbelow (List.cons_prefix_cons.mpr ⟨rfl, hp⟩)
      · rw [at?, at?, Entries.find?_put, if_neg hkey]

/-- **What an edit at a path comes to.** It succeeds exactly if the path leads to a query, the edit
of that query succeeds, and on the way back every query has the identifier of its place. It fails
for the first key that leads nowhere, else for the reason that the edit gives, else for the
innermost query that does not have the identifier of its place. Where it succeeds, the edited query
stands at the end of the path, the queries on the path have another subquery in the same place
between the same neighbours, and all others are what they were. -/
theorem editAt_outcome (edit : Query → Except EditError (Query × α)) (path : List String)
    (q : Query) :
    ((∃ q' a, q.editAt edit path = .ok (q', a)) ↔
      ∃ n n' a, q.at? path = some n ∧ edit n = .ok (n', a) ∧ q.Fits n' path) ∧
    (∀ e, q.editAt edit path = .error e ↔
      (∃ key, q.BreaksOffAt path key ∧ e = .notFound .subquery key) ∨
      (∃ n, q.at? path = some n ∧ edit n = .error e) ∨
      ∃ n n' a key id, q.at? path = some n ∧ edit n = .ok (n', a) ∧ q.MisfitsAt n' path key id ∧
        e = .misplaced key id) ∧
    ∀ q' a, q.editAt edit path = .ok (q', a) →
      (∃ n n', q.at? path = some n ∧ edit n = .ok (n', a) ∧ q'.at? path = some n') ∧
      (∀ before key after, path = before ++ key :: after →
        ∃ r left old new right, q.at? before = some r ∧
          r.subqueries = left ++ (key, old) :: right ∧
          q'.at? before = some { r with subqueries := left ++ (key, new) :: right } ∧
          q.at? (before ++ [key]) = some old ∧ q'.at? (before ++ [key]) = some new) ∧
      ∀ other, ¬other <+: path → ¬path <+: other → q'.at? other = q.at? other := by
  refine ⟨⟨?_, ?_⟩, fun e => ⟨editAt_error, ?_⟩, fun q' a h => ⟨at?_of_editAt_ok h, ?_, ?_⟩⟩
  · rintro ⟨q', a, h⟩
    obtain ⟨n, n', hn, hedit, -⟩ := at?_of_editAt_ok h
    rcases fits_or_misfitsAt hn n' with hfits | ⟨key, id, hmisfit⟩
    · exact ⟨n, n', a, hn, hedit, hfits⟩
    · cases h.symm.trans (editAt_of_misfitsAt hn hedit hmisfit)
  · rintro ⟨n, n', a, hn, hedit, hfits⟩
    obtain ⟨q', h⟩ := editAt_of_fits hn hedit hfits
    exact ⟨q', a, h⟩
  · rintro (⟨key, hkey, rfl⟩ | ⟨n, hn, hedit⟩ | ⟨n, n', a, key, id, hn, hedit, hmisfit, rfl⟩)
    · exact editAt_of_breaksOffAt hkey
    · exact editAt_of_error hn hedit
    · exact editAt_of_misfitsAt hn hedit hmisfit
  · rintro before key after rfl
    exact at?_prefix_of_editAt_ok h
  · exact fun other => at?_of_editAt_ok_of_not_prefix h

/-- A query with two subqueries, the first of which has another one. -/
def branching : Query :=
  { bare "root" .select with
    subqueries := [("a", { bare "a" .select with subqueries := [("b", bare "b" .select)] }),
      ("c", bare "c" .select)] }

/-- The subquery in the middle of the path does not carry its key. -/
def astray : Query :=
  { bare "root" .select with
    subqueries := [("a", { bare "x" .select with subqueries := [("b", bare "b" .select)] })] }

/-- The same edit succeeds in one tree, where the other subquery is left alone, and fails in the
other. -/
theorem editAt_outcome_branching :
    let edit : Query → Except EditError (Query × Unit) := fun r => .ok ({ r with limit := "1" }, ())
    (∃ q', branching.editAt edit ["a", "b"] = .ok (q', ()) ∧
      q'.at? ["c"] = branching.at? ["c"]) ∧
      astray.editAt edit ["a", "b"] = .error (.misplaced "a" "x") := by
  intro edit
  constructor
  · have hfits : branching.Fits { bare "b" .select with limit := "1" } ["a", "b"] :=
      (fits_cons_iff rfl).mpr ⟨rfl, (fits_cons_iff rfl).mpr ⟨rfl, fits_nil _ _⟩⟩
    obtain ⟨q', a, h⟩ :=
      (editAt_outcome edit ["a", "b"] branching).1.mpr ⟨_, _, (), rfl, rfl, hfits⟩
    obtain ⟨-, -, hothers⟩ := (editAt_outcome edit ["a", "b"] branching).2.2 q' a h
    exact ⟨q', h, hothers ["c"] (by decide) (by decide)⟩
  · refine ((editAt_outcome edit ["a", "b"] astray).2.1 _).mpr (.inr (.inr ⟨bare "b" .select, _, (),
      "a", "x", rfl, rfl, ⟨[], ["b"], rfl, rfl, by decide, ?_⟩, rfl⟩))
    intro before key after hpath hlt
    rcases List.cons_eq_append_iff.mp hpath with ⟨rfl, -⟩ | ⟨before, rfl, hrest⟩
    · cases hlt
    · rcases List.cons_eq_append_iff.mp hrest with ⟨rfl, heq⟩ | ⟨before, rfl, hnil⟩
      · cases heq
        rfl
      · simp at hnil

end Query

end QueryComposer
