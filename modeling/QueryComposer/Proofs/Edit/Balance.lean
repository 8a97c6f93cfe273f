import QueryComposer.Proofs.Edit.Frame
import QueryComposer.Proofs.Edit.Path
import QueryComposer.Proofs.Query.Count

/-!
# The number of subqueries under edits

Subqueries are counted in the entries that they stand in, at every depth. On the way back from an
edit each query has one entry that is put again, so the number changes at every level by as much as
at the end of the path. What an edit adds there is settled by the one thing that it does to the
entries, its `Edit.shift`. A subquery that goes takes all below it along, and one that conditions
still lead to goes as well; a link that leads nowhere takes nothing.

## Main definitions

* `Shift.gain` is what is added to the entries, and `Edit.gain` what an edit adds to a query.

## Main results

* `Query.count_editAt_sub`: the number for the tree changes as that for the edited query.
* `Query.count_balance`: by how much that is, for every edit.
-/

namespace QueryComposer

/-! ### Entries -/

/-- What comes to the number of subqueries, with all that are below them. -/
def Shift.gain (es : List (String × Query)) : Shift → Int
  | .keep => 0
  | .attach child => 1 + child.count
  | .drop key => -((key.bind fun key => Entries.find? key es).elim 0 fun child => 1 + child.count)
  | .replace key child => child.count - (Entries.find? key es).elim 0 fun old => old.count

/-- **A shift gains what comes less what goes**, where no key is repeated and the key of what is
attached is new. -/
theorem Shift.Takes.countAll_sub {shift : Shift} {es ds : List (String × Query)}
    (h : shift.Takes es ds) (hkeys : (Entries.keys es).Nodup)
    (hnew : ∀ child, shift = .attach child → child.id ∉ Entries.keys es) :
    (Query.countAll ds : Int) - Query.countAll es = shift.gain es := by
  cases shift with
  | keep =>
    cases h
    exact Int.sub_self _
  | attach child =>
    have hput := Query.countAll_put_of_not_mem (hnew child rfl) child
    rw [h.1, gain]
    omega
  | drop key =>
    cases h
    cases key with
    | none => simp [gain]
    | some key =>
      have herase : Query.countAll (Entries.erase key es) +
          ((Entries.find? key es).map fun child => 1 + child.count).getD 0 = Query.countAll es :=
        Query.countAll_erase hkeys
      rw [← Edit.leaving_some, Edit.leaving] at herase
      rw [gain, Option.bind_some]
      cases hfind : Entries.find? key es with
      | none =>
        rw [hfind, Option.map_none, Option.getD_none] at herase
        rw [Option.elim_none]
        omega
      | some child =>
        rw [hfind, Option.map_some, Option.getD_some] at herase
        rw [Option.elim_some]
        omega
  | replace key child =>
    obtain ⟨before, old, after, rfl, rfl⟩ := h
    have hfind : Entries.find? key (before ++ (key, old) :: after) = some old :=
      (Entries.find?_eq_some_iff hkeys).mpr (List.mem_append_right _ List.mem_cons_self)
    rw [gain, hfind, Option.elim_some, Query.countAll_append, Query.countAll_append, Query.countAll,
      Query.countAll]
    omega

/-! ### Edits of one query -/

/-- What an edit adds to the number of subqueries. What is removed with a condition is the subquery
of the first condition with the identifier, if its link leads to one. -/
def Edit.gain (q : Query) (e : Edit) : Int :=
  match e with
  | .attach .. => 1
  | .setOperator .. => if e.attaches q then 1 else 0
  | .removeCondition id | .detach id =>
    -(((linkOf? id q.conditions).bind fun key => Entries.find? key q.subqueries).elim 0
      fun child => 1 + child.count)
  | .replaceSubquery key child =>
    child.count - (Entries.find? key q.subqueries).elim 0 fun old => old.count
  | _ => 0

theorem Edit.gain_eq (e : Edit) (supply : Supply) (q : Query) :
    e.gain q = (e.shift supply q).gain q.subqueries := by
  cases e with
  | setOperator id operator depth =>
    rw [gain, shift]
    split <;> rfl
  | _ => rfl

/-- **By how much an edit changes the number of subqueries.** -/
theorem Edit.count_apply_sub {e : Edit} {supply supply' : Supply} {q q' : Query}
    (h : e.apply supply q = .ok (q', supply')) (hkeys : (Entries.keys q.subqueries).Nodup)
    (hnew : e.attaches q → (attached supply).id ∉ Entries.keys q.subqueries) :
    (q'.count : Int) - q.count = e.gain q := by
  rw [Query.count_eq_countAll, Query.count_eq_countAll, e.gain_eq supply]
  refine (frames h).subqueries.countAll_sub hkeys fun child hshift => ?_
  cases e with
  | attach id depth =>
    cases hshift
    exact hnew rfl
  | setOperator id operator depth =>
    rw [shift] at hshift
    split at hshift
    · next hattaches =>
      cases hshift
      exact hnew hattaches
    · cases hshift
  | _ => cases hshift

/-! ### Edits at a path -/

namespace Query

/-- The number for the tree changes as that for the edited query. -/
theorem count_editAt_sub {α : Type} {edit : Query → Except EditError (Query × α)} {a : α}
    {path : List String} {q q' : Query} (h : q.editAt edit path = .ok (q', a)) :
    ∃ n n', q.at? path = some n ∧ q'.at? path = some n' ∧ edit n = .ok (n', a) ∧
      (q'.count : Int) - q.count = n'.count - n.count := by
  induction path generalizing q q' with
  | nil => exact ⟨q, q', rfl, rfl, h, rfl⟩
  | cons key path ih =>
    obtain ⟨child, child', hfind, hedit, hreplace⟩ := editAt_cons_ok h
    obtain ⟨-, -, rfl⟩ := replaceSubquery_ok hreplace
    obtain ⟨n, n', hn, hn', hok, hsub⟩ := ih hedit
    refine ⟨n, n', (at?_cons_of_find? hfind path).trans hn,
      (at?_put_cons q key child' path).trans hn', hok, ?_⟩
    have hput := countAll_put_of_find? hfind child'
    rw [count_eq_countAll, count_eq_countAll q]
    dsimp only
    omega

/-- **The number of subqueries is balanced.** An edit at a path changes it for the tree by as much
as for the query that is edited. There it is one more if a blank subquery is attached under a new
key; less by all that stood under the link of the first condition, where a condition is detached or
removed and the link leads somewhere; the difference of the two where a subquery is replaced; and
the same after every other edit. The keys of the edited query are not repeated, which is so in every
query that was read. -/
theorem count_balance :
    (∀ (α : Type) (edit : Query → Except EditError (Query × α)) (path : List String)
      (q q' : Query) (a : α), q.editAt edit path = .ok (q', a) →
      ∃ n n', q.at? path = some n ∧ q'.at? path = some n' ∧ edit n = .ok (n', a) ∧
        (q'.count : Int) - q.count = n'.count - n.count) ∧
    ∀ (e : Edit) (supply supply' : Supply) (n n' : Query),
      e.apply supply n = .ok (n', supply') → (Entries.keys n.subqueries).Nodup →
      (e.attaches n → (Edit.attached supply).id ∉ Entries.keys n.subqueries) →
      (n'.count : Int) - n.count = e.gain n :=
  ⟨fun _ _ _ _ _ _ => count_editAt_sub, fun _ _ _ _ _ => Edit.count_apply_sub⟩

/-- The first two conditions of the subquery share their identifier. The link of the last one leads
nowhere. -/
def ledger : Query :=
  { bare "root" .select with
    subqueries := [("a", { bare "a" .select with
      conditions := [⟨"c", "id", .among, "", .and, some "b"⟩,
        ⟨"c", "id", .equal, "", .and, some "e"⟩, ⟨"d", "", .existing, "", .or, some "gone"⟩]
      subqueries := [("b", { bare "b" .select with subqueries := [("f", bare "f" .select)] }),
        ("e", bare "e" .select)] })] }

/-- Of two conditions that are detached only the first one loses its subquery, with what is below
it. A link that leads nowhere takes nothing along, and what is attached is one more. -/
theorem count_balance_ledger :
    let supply := Supply.ofSource numbered
    (∃ q', ledger.editAt (Edit.apply (.detach "c") supply) ["a"] = .ok (q', supply) ∧
        (q'.count : Int) - ledger.count = -2) ∧
      (∃ q', ledger.editAt (Edit.apply (.removeCondition "d") supply) ["a"] = .ok (q', supply) ∧
        (q'.count : Int) - ledger.count = 0) ∧
      ∃ n', (Edit.attach "g" 0).apply supply (ledger.addCondition "g") = .ok (n', ⟨numbered, 2⟩) ∧
        (n'.count : Int) - (ledger.addCondition "g").count = 1 := by
  intro supply
  refine ⟨⟨_, rfl, ?_⟩, ⟨_, rfl, ?_⟩, _, rfl, ?_⟩
  · obtain ⟨n, n', hn, -, hok, hsub⟩ :=
      count_balance.1 _ (Edit.apply (.detach "c") supply) ["a"] ledger _ supply rfl
    cases hn
    exact hsub.trans (count_balance.2 _ _ _ _ _ hok (by decide) nofun)
  · obtain ⟨n, n', hn, -, hok, hsub⟩ :=
      count_balance.1 _ (Edit.apply (.removeCondition "d") supply) ["a"] ledger _ supply rfl
    cases hn
    exact hsub.trans (count_balance.2 _ _ _ _ _ hok (by decide) nofun)
  · have hnew : numbered 1 ∉ ["a"] := by decide
    exact count_balance.2 (.attach "g" 0) supply _ _ _ rfl (by decide) fun _ => hnew

end Query

end QueryComposer
