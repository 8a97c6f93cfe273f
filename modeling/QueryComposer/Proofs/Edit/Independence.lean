import QueryComposer.Proofs.Edit.Locality
import QueryComposer.Proofs.Edit.Path

/-!
# Edits that do not meet

Two edits that draw nothing can be done in either order if they do not meet: at paths of which
neither leads on to the other, or in one query at parts with different identifiers or of different
kinds. In both orders they succeed or fail together, and what they come to is the same query, with
everything in the same places.

It is enough to show one half, that two edits which succeed in one order succeed in the other and
come to the same: the condition is symmetric in the two. On the way back up an edit puts a subquery
into the place of the old one, so edits in different subqueries leave all entries in their places.

## Main definitions

* `Edit.DrawsNothing` holds of the edits that need no new identifier.
* `Edit.Apart` says that two edits at paths do not meet.

## Main results

* `Query.editAt_swap`: edits at one path can be swapped if they can be at its end.
* `Query.editAt_swap_of_not_prefix`: any two edits at paths that part can be swapped.
* `Session.advance_comm`: steps that do not meet come to the same in either order.
-/

namespace QueryComposer

/-! ### Edits at paths -/

namespace Query

variable {α : Type} {edit edit' : Query → Except EditError (Query × α)} {a a' : α}
  {q q' r child child' : Query} {key : String} {path path' : List String}

/-- The one way in which an edit further down succeeds. -/
theorem editAt_cons_ok_iff (hfind : Entries.find? key q.subqueries = some child) :
    q.editAt edit (key :: path) = .ok (q', a) ↔
      ∃ child', child.editAt edit path = .ok (child', a) ∧ child'.id = key ∧
        { q with subqueries := Entries.put key child' q.subqueries } = q' := by
  rw [editAt_cons_of_find? hfind]
  cases child.editAt edit path with
  | error e => simp
  | ok r =>
    obtain ⟨child', b⟩ := r
    by_cases hid : child'.id = key <;> simp [hid, and_comm]

theorem exists_find?_of_editAt_cons (h : q.editAt edit (key :: path) = .ok (q', a)) :
    ∃ child, Entries.find? key q.subqueries = some child := by
  obtain ⟨child, -, hfind, -, -⟩ := editAt_cons_ok h
  exact ⟨child, hfind⟩

theorem id_of_editAt (hid : ∀ n n', edit n = .ok (n', a) → n'.id = n.id)
    (h : q.editAt edit path = .ok (q', a)) : q'.id = q.id := by
  cases path with
  | nil => exact hid q q' h
  | cons key path => exact id_of_editAt_cons h

/-- Edits that go into the same subquery can be swapped if they can be there, and the subquery keeps
its identifier in the end. -/
theorem editAt_cons_swap (hid : ∀ n n' : Query, n.editAt edit path = .ok (n', a) → n'.id = n.id)
    (hswap : ∀ n n' m : Query, n.editAt edit path = .ok (n', a) →
      n'.editAt edit' path' = .ok (m, a') →
        ∃ n'', n.editAt edit' path' = .ok (n'', a') ∧ n''.editAt edit path = .ok (m, a))
    (h : q.editAt edit (key :: path) = .ok (q', a))
    (h' : q'.editAt edit' (key :: path') = .ok (r, a')) :
    ∃ q'', q.editAt edit' (key :: path') = .ok (q'', a') ∧
      q''.editAt edit (key :: path) = .ok (r, a) := by
  obtain ⟨child, hfind⟩ := exists_find?_of_editAt_cons h
  obtain ⟨child₁, hedit, -, rfl⟩ := (editAt_cons_ok_iff hfind).mp h
  have hback : ∀ n : Query, Entries.find? key (Entries.put key n q.subqueries) = some n :=
    fun n => by rw [Entries.find?_put, if_pos rfl]
  obtain ⟨child₂, hedit', hkey, rfl⟩ := (editAt_cons_ok_iff (hback child₁)).mp h'
  obtain ⟨child₁', hfirst, hsecond⟩ := hswap child child₁ child₂ hedit hedit'
  have hkey' : child₁'.id = key := (hid child₁' child₂ hsecond).symm.trans hkey
  refine ⟨_, (editAt_cons_ok_iff hfind).mpr ⟨child₁', hfirst, hkey', rfl⟩,
    (editAt_cons_ok_iff (hback child₁')).mpr ⟨child₂, hsecond, hkey, ?_⟩⟩
  rw [Entries.put_put, Entries.put_put]

/-- Edits at one path can be swapped if they can be where the path ends, and the first keeps the
identifier there. -/
theorem editAt_swap (hid : ∀ n n', edit n = .ok (n', a) → n'.id = n.id)
    (hswap : ∀ n n' m, edit n = .ok (n', a) → edit' n' = .ok (m, a') →
      ∃ n'', edit' n = .ok (n'', a') ∧ edit n'' = .ok (m, a))
    (h : q.editAt edit path = .ok (q', a)) (h' : q'.editAt edit' path = .ok (r, a')) :
    ∃ q'', q.editAt edit' path = .ok (q'', a') ∧ q''.editAt edit path = .ok (r, a) := by
  induction path generalizing q q' r with
  | nil => exact hswap q q' r h h'
  | cons key path ih =>
    exact editAt_cons_swap (fun n n' => id_of_editAt hid) (fun n n' m => ih) h h'

/-- **Edits at paths that part can be swapped**, whatever they are. -/
theorem editAt_swap_of_not_prefix (hpath : ¬path <+: path') (hpath' : ¬path' <+: path)
    (h : q.editAt edit path = .ok (q', a)) (h' : q'.editAt edit' path' = .ok (r, a')) :
    ∃ q'', q.editAt edit' path' = .ok (q'', a') ∧ q''.editAt edit path = .ok (r, a) := by
  induction path generalizing path' q q' r with
  | nil => exact absurd List.nil_prefix hpath
  | cons key path ih =>
    cases path' with
    | nil => exact absurd List.nil_prefix hpath'
    | cons key' path' =>
      by_cases hkey : key = key'
      · subst hkey
        rw [List.cons_prefix_cons, and_iff_right rfl] at hpath hpath'
        -- Neither path ends in the subquery, so it keeps its identifier.
        refine editAt_cons_swap ?_ (fun n n' m => ih hpath hpath') h h'
        intro n n' hn
        cases path with
        | nil => exact absurd List.nil_prefix hpath
        | cons l path => exact id_of_editAt_cons hn
      · obtain ⟨child, hfind⟩ := exists_find?_of_editAt_cons h
        obtain ⟨child₁, hedit, hid, rfl⟩ := (editAt_cons_ok_iff hfind).mp h
        obtain ⟨other, hother⟩ := exists_find?_of_editAt_cons h'
        obtain ⟨other₁, hedit', hid', rfl⟩ := (editAt_cons_ok_iff hother).mp h'
        dsimp only at hother
        rw [Entries.find?_put, if_neg hkey] at hother
        have hmem := Entries.mem_keys_of_find? hfind
        have hmem' := Entries.mem_keys_of_find? hother
        refine ⟨_, (editAt_cons_ok_iff hother).mpr ⟨other₁, hedit', hid', rfl⟩,
          (editAt_cons_ok_iff ?_).mpr ⟨child₁, hedit, hid, ?_⟩⟩
        · rw [Entries.find?_put, if_neg (Ne.symm hkey), hfind]
        · rw [Entries.put_comm hkey hmem hmem']

end Query

/-! ### Steps -/

namespace Edit

variable {e f : Edit} {t t' : Entity × String} {q q' r : Query} {supply supply' : Supply}

/-- The edit needs no new identifier. -/
def DrawsNothing : Edit → Prop
  | .addPair | .addCondition | .addJoin | .addSortKey | .setOperator .. | .attach .. => False
  | _ => True

theorem DrawsNothing.apply_ok (he : e.DrawsNothing) (h : e.apply supply q = .ok (q', supply')) :
    supply' = supply := by
  cases e with
  | addPair | addCondition | addJoin | addSortKey | setOperator | attach => exact he.elim
  | _ => exact (keeping_ok h).2

theorem DrawsNothing.editAt_ok (he : e.DrawsNothing) {path : List String}
    (h : q.editAt (e.apply supply) path = .ok (q', supply')) : supply' = supply := by
  obtain ⟨n, n', -, hn, -⟩ := Query.at?_of_editAt_ok h
  exact he.apply_ok hn

/-- Neither path leads on to the other, or the edits are made in one query and address different
parts of it. -/
def Apart (path : List String) (e : Edit) (path' : List String) (f : Edit) : Prop :=
  (¬path <+: path' ∧ ¬path' <+: path) ∨
    path = path' ∧ ∃ t t', e.target? = some t ∧ f.target? = some t' ∧ t ≠ t'

theorem Apart.symm {path path' : List String} (h : Apart path e path' f) :
    Apart path' f path e := by
  rcases h with ⟨hpath, hpath'⟩ | ⟨rfl, t, t', he, hf, hne⟩
  · exact .inl ⟨hpath', hpath⟩
  · exact .inr ⟨rfl, t', t, hf, he, hne.symm⟩

end Edit

namespace Session

variable {s s' t : Session} {path path' : List String} {e f : Edit}

theorem advance_edit_ok_iff : s.advance path (.edit e) = .ok s' ↔
    s.query.editAt (e.apply s.supply) path = .ok (s'.query, s'.supply) := by
  constructor
  · intro h
    obtain ⟨e', supply, hprepare, hedit⟩ := advance_ok h
    cases hprepare
    exact hedit
  · intro h
    change (s.query.editAt (e.apply s.supply) path >>= fun r => pure (⟨r.1, r.2⟩ : Session)) = _
    rw [h]
    rfl

theorem advance_swap (he : e.DrawsNothing) (hf : f.DrawsNothing) (hapart : e.Apart path path' f)
    (h : s.advance path (.edit e) = .ok s') (h' : s'.advance path' (.edit f) = .ok t) :
    ∃ s'', s.advance path' (.edit f) = .ok s'' ∧ s''.advance path (.edit e) = .ok t := by
  rw [advance_edit_ok_iff] at h h'
  have hsupply := he.editAt_ok h
  rw [hsupply] at h h'
  have hsupply' := hf.editAt_ok h'
  rw [hsupply'] at h'
  have hboth : ∃ q, s.query.editAt (f.apply s.supply) path' = .ok (q, s.supply) ∧
      q.editAt (e.apply s.supply) path = .ok (t.query, s.supply) := by
    rcases hapart with ⟨hpath, hpath'⟩ | ⟨rfl, u, u', hu, hu', hne⟩
    · exact Query.editAt_swap_of_not_prefix hpath hpath' h h'
    · exact Query.editAt_swap (fun n n' => Edit.id_of_apply hu)
        (fun n n' m => Edit.apply_swap hu hu' hne) h h'
  obtain ⟨q, hfirst, hsecond⟩ := hboth
  refine ⟨⟨q, s.supply⟩, advance_edit_ok_iff.mpr hfirst, advance_edit_ok_iff.mpr ?_⟩
  rw [hsupply']
  exact hsecond

/-- **Steps that do not meet come to the same in either order**, and fail in either order if they
fail in one. -/
theorem advance_comm (he : e.DrawsNothing) (hf : f.DrawsNothing) (hapart : e.Apart path path' f)
    (s t : Session) :
    (s.advance path (.edit e) >>= fun s' => s'.advance path' (.edit f)) = .ok t ↔
      (s.advance path' (.edit f) >>= fun s' => s'.advance path (.edit e)) = .ok t := by
  constructor
  · intro h
    obtain ⟨s', h, h'⟩ := Except.bind_eq_ok h
    obtain ⟨s'', hfirst, hsecond⟩ := advance_swap he hf hapart h h'
    rw [hfirst]
    exact hsecond
  · intro h
    obtain ⟨s', h, h'⟩ := Except.bind_eq_ok h
    obtain ⟨s'', hfirst, hsecond⟩ := advance_swap hf he hapart.symm h h'
    rw [hfirst]
    exact hsecond

/-- A query with two conditions that are linked to the same subquery, and another subquery that no
condition is linked to. -/
def sharing : Query :=
  { Query.bare "root" .select with
    conditions := [{ Condition.blank "0" with subqueryId := some "a" },
      { Condition.blank "1" with subqueryId := some "a" }]
    subqueries := [("a", Query.bare "a" .select), ("b", Query.bare "b" .select)] }

/-- One condition is removed and the other one detached, and both drop the same subquery. The two
subqueries are changed, and one of them is replaced. -/
theorem advance_comm_sharing :
    let s : Session := ⟨sharing, .ofSource numbered⟩
    let limit : Edit := .setFields [("limit", .string "5")]
    (∃ t, (s.advance [] (.edit (.removeCondition "0")) >>= fun s' =>
        s'.advance [] (.edit (.detach "1"))) = .ok t ∧
      (s.advance [] (.edit (.detach "1")) >>= fun s' =>
        s'.advance [] (.edit (.removeCondition "0"))) = .ok t ∧
      t.query.subqueries = [("b", Query.bare "b" .select)]) ∧
    ∃ t, (s.advance ["a"] (.edit limit) >>= fun s' => s'.advance ["b"] (.edit limit)) = .ok t ∧
      (s.advance ["b"] (.edit limit) >>= fun s' => s'.advance ["a"] (.edit limit)) = .ok t := by
  intro s limit
  have hremove : (Edit.removeCondition "0").DrawsNothing := trivial
  have hdetach : (Edit.detach "1").DrawsNothing := trivial
  have hlimit : limit.DrawsNothing := trivial
  have hparts : (Edit.removeCondition "0").Apart [] [] (.detach "1") :=
    .inr ⟨rfl, _, _, rfl, rfl, by decide⟩
  have hpaths : limit.Apart ["a"] ["b"] limit := .inl (by decide)
  exact ⟨⟨_, rfl, (advance_comm hremove hdetach hparts s _).mp rfl, rfl⟩,
    ⟨_, rfl, (advance_comm hlimit hlimit hpaths s _).mp rfl⟩⟩

end Session

end QueryComposer
