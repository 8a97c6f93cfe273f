import QueryComposer.Proofs.Edit.Path
import QueryComposer.Proofs.Edit.Runs
import QueryComposer.Proofs.Query.Unnamed

/-!
# How deep subqueries are nested

No edit looks at the level that a query lies on. The level is told to it instead, and a subquery is
attached only where that level leaves room below. So the limit holds as long as nobody names a level
above the true one, and as long as a subquery that comes from elsewhere brings no more levels than
there is room for.

A query gets a new subquery from three edits only (`Edit.mem_subqueries_of_apply`). What a level
says is carried down a path together with the height that is left below it.

## Main definitions

* `Edit.Brings` says which subquery an edit may bring.
* `Edit.IsWithin` says that an edit on some level keeps to the limit, `Command.IsWithin` the same of
  a command.

## Main results

* `Query.height_editAt_le`: an edit at a path keeps to the limit.
* `Session.height_kept`: so does every run, and no edit is refused where there is room.
-/

namespace QueryComposer

open Query

/-- What an edit may bring into a query: a blank subquery where the level that it was told leaves
room, or the one that it was given. -/
def Edit.Brings (e : Edit) (supply : Supply) (child : Query) : Prop :=
  match e with
  | .setOperator _ _ depth | .attach _ depth =>
    depth < maxDepth ∧ child = ((Query.blank .select).run supply).1
  | .replaceSubquery _ given => child = given
  | _ => False

/-- The edit keeps to the limit where the query lies on this level. The level that it is told is not
above the true one, and what it is given has room there. -/
def Edit.IsWithin (level : Nat) : Edit → Prop
  | .setOperator _ _ depth | .attach _ depth => level ≤ depth
  | .replaceSubquery _ child => child.height + level + 1 ≤ maxDepth
  | _ => True

/-- The command keeps to the limit. Data is read with the same height whatever the supply is, so it
is enough to ask for one. -/
def Command.IsWithin (level : Nat) : Command → Prop
  | .edit e => e.IsWithin level
  | .readSubquery _ data =>
    ∀ d, Query.read data = .ok d → ∃ supply, (d.run supply).1.height + level + 1 ≤ maxDepth

variable {e : Edit} {supply supply' : Supply} {q q' child : Query} {id : String} {level : Nat}

/-- A command that keeps to the limit comes to an edit that does. -/
theorem Command.IsWithin.prepare_ok {c : Command} (hc : c.IsWithin level)
    (h : Session.prepare supply c = .ok (e, supply')) : e.IsWithin level := by
  cases c with
  | edit e' =>
    cases h
    exact hc
  | readSubquery key data =>
    rw [Session.prepare] at h
    cases hread : Query.read data with
    | error issues =>
      rw [hread] at h
      cases h
    | ok d =>
      rw [hread] at h
      cases h
      obtain ⟨other, hle⟩ := hc d hread
      have hheight := height_eq_of_unnamed_eq (agrees_read data d hread supply other)
      change (d.run supply).1.height + level + 1 ≤ maxDepth
      rwa [hheight]

/-! ### Edits of one query -/

theorem Query.mem_subqueries_of_attach {depth : Int} (h : q.attach child id depth = .ok q') :
    depth < maxDepth ∧ ∀ entry ∈ q'.subqueries, entry ∈ q.subqueries ∨ entry.2 = child := by
  obtain ⟨hdepth, c, -, -, -, rfl⟩ := attach_ok h
  refine ⟨hdepth, fun entry hentry => ?_⟩
  rcases Entries.mem_put hentry with rfl | hold
  · exact .inr rfl
  · exact .inl hold

/-- **Where subqueries come from.** A subquery was there before, or the edit brings it. -/
theorem Edit.mem_subqueries_of_apply (h : e.apply supply q = .ok (q', supply'))
    {entry : String × Query} (hentry : entry ∈ q'.subqueries) :
    entry ∈ q.subqueries ∨ e.Brings supply entry.2 := by
  by_cases he : e.SparesConditions
  · exact .inl ((he.apply_ok h).2 ▸ hentry)
  cases e with
  | addCondition =>
    cases h
    exact .inl hentry
  | updateCondition id changes =>
    obtain ⟨hr, rfl⟩ := keeping_ok h
    obtain ⟨conditions, rfl, -⟩ := updateCondition_ok hr
    exact .inl hentry
  | removeCondition id =>
    obtain ⟨hr, rfl⟩ := keeping_ok h
    obtain ⟨c, -, -, rfl⟩ := removeCondition_ok hr
    exact .inl (mem_of_mem_without hentry)
  | setOperator id operator depth =>
    obtain ⟨r, hr, ⟨rfl, rfl⟩ | ⟨hattach, rfl⟩⟩ := setOperator_ok h
    · obtain ⟨conditions, rfl, -⟩ := updateCondition_ok hr
      exact .inl hentry
    · obtain ⟨hdepth, hmem⟩ := mem_subqueries_of_attach hattach
      obtain ⟨conditions, rfl, -⟩ := updateCondition_ok hr
      exact (hmem entry hentry).imp_right fun hnew => ⟨hdepth, hnew⟩
  | attach id depth =>
    obtain ⟨hr, rfl⟩ := apply_attach_ok h
    obtain ⟨hdepth, hmem⟩ := mem_subqueries_of_attach hr
    exact (hmem entry hentry).imp_right fun hnew => ⟨hdepth, hnew⟩
  | detach id =>
    obtain ⟨hr, rfl⟩ := keeping_ok h
    obtain ⟨c, -, -, key, -, rfl⟩ := detach_ok hr
    exact .inl (List.mem_filter.mp hentry).1
  | replaceSubquery key child =>
    obtain ⟨hr, rfl⟩ := keeping_ok h
    obtain ⟨-, -, rfl⟩ := replaceSubquery_ok hr
    rcases Entries.mem_put hentry with rfl | hold
    · exact .inr rfl
    · exact .inl hold
  | _ => exact absurd trivial he

/-- A subquery that is brought has room below the query. -/
theorem Edit.Brings.height_lt (h : e.Brings supply child) (he : e.IsWithin level) :
    child.height + level < maxDepth := by
  have hblank : ∀ depth : Int, (level : Int) ≤ depth →
      depth < maxDepth ∧ child = ((Query.blank .select).run supply).1 →
      child.height + level < maxDepth := by
    rintro depth hlevel ⟨hdepth, rfl⟩
    have hheight : ((Query.blank .select).run supply).1.height = 0 := rfl
    omega
  cases e with
  | setOperator id operator depth => exact hblank depth he h
  | attach id depth => exact hblank depth he h
  | replaceSubquery key given =>
    cases h
    exact he
  | _ => exact h.elim

theorem Edit.height_apply_le (h : e.apply supply q = .ok (q', supply'))
    (hq : q.height + level ≤ maxDepth) (he : e.IsWithin level) :
    q'.height + level ≤ maxDepth := by
  have hlevel : level ≤ maxDepth := Nat.le_trans (Nat.le_add_left _ _) hq
  refine Nat.add_le_of_le_sub hlevel (height_le_iff.mpr fun entry hentry => ?_)
  rcases Edit.mem_subqueries_of_apply h hentry with hold | hnew
  · have hlt := height_lt_of_mem hold
    omega
  · have hlt := hnew.height_lt he
    omega

/-! ### Edits at a path -/

/-- **An edit at a path keeps to the limit.** The level grows along the path as the height below it
goes down. -/
theorem Query.height_editAt_le {path : List String}
    (h : q.editAt (e.apply supply) path = .ok (q', supply')) (hq : q.height + level ≤ maxDepth)
    (he : e.IsWithin (level + path.length)) : q'.height + level ≤ maxDepth := by
  induction path generalizing q q' level with
  | nil => exact Edit.height_apply_le h hq he
  | cons key path ih =>
    obtain ⟨child, child', hfind, hedit, hreplace⟩ := editAt_cons_ok h
    obtain ⟨-, -, rfl⟩ := replaceSubquery_ok hreplace
    have hchild := height_lt_of_mem (Entries.mem_of_find? hfind)
    have hlength : level + (key :: path).length = level + 1 + path.length := by
      rw [List.length_cons]
      omega
    rw [hlength] at he
    have hbelow := ih hedit (by dsimp only at hchild; omega) he
    have hlevel : level ≤ maxDepth := by omega
    refine Nat.add_le_of_le_sub hlevel (height_le_iff.mpr fun entry hentry => ?_)
    rcases Entries.mem_put hentry with rfl | hold
    · dsimp only
      omega
    · have hlt := height_lt_of_mem hold
      omega

theorem Session.height_advance_le {s s' : Session} {path : List String} {c : Command}
    (h : s.advance path c = .ok s') (hs : s.query.height ≤ maxDepth)
    (hc : c.IsWithin path.length) : s'.query.height ≤ maxDepth := by
  obtain ⟨e, supply', hprepare, hedit⟩ := advance_ok h
  have he := hc.prepare_ok hprepare
  rw [← Nat.zero_add path.length] at he
  exact height_editAt_le hedit hs he

/-! ### Refusals -/

theorem Edit.attach_ne_tooDeep {depth : Int} (hdepth : depth < maxDepth) (d : Int) :
    (Edit.attach id depth).apply supply q ≠ .error (.tooDeep d) := by
  intro h
  rcases Query.attach_error (Except.map_eq_error h) with ⟨hle, -⟩ | heq | heq
  · exact absurd hdepth (Int.not_lt.mpr hle)
  · cases heq
  · cases heq

theorem Edit.setOperator_ne_tooDeep (operator : Json) (depth d : Int) :
    (Edit.setOperator id operator depth).apply supply q ≠ .error (.tooDeep d) := by
  intro h
  rcases Query.setOperator_error h with h | heq | heq
  · rcases Query.updateCondition_error h with heq | heq | heq | ⟨names, heq⟩ | ⟨issues, heq⟩ <;>
      cases heq
  · cases heq
  · cases heq

/-- The way to a query and back adds no refusal for want of room. -/
theorem Query.editAt_ne_tooDeep {path : List String} {d : Int}
    (he : ∀ r, e.apply supply r ≠ .error (.tooDeep d)) :
    q.editAt (e.apply supply) path ≠ .error (.tooDeep d) := by
  intro h
  rcases editAt_error h with ⟨key, -, heq⟩ | ⟨r, -, hr⟩ | ⟨n, n', a, key, id, -, -, -, heq⟩
  · cases heq
  · exact he r hr
  · cases heq

/-! ### Runs -/

namespace Session

/-- **The limit holds in every run.** Whatever is edited, from a blank query on, no query ever lies
below the deepest level, if each command keeps to the limit on the level of its path. On the other
hand no subquery is refused where there is room: attaching one to a query above the deepest level is
never too deep, and a change of an operator never is, whatever level it is told. -/
theorem height_kept :
    (∀ (operation : Operation) (supply : Supply) (steps : List (List String × Command)),
      (∀ step ∈ steps, step.2.IsWithin step.1.length) →
      ∀ q, q = (Session.blank operation supply).query ∨
        .ok q ∈ (Session.blank operation supply).run steps →
      q.height ≤ maxDepth ∧ ∀ path r, q.at? path = some r → path.length ≤ maxDepth) ∧
    (∀ (q : Query) (path : List String) (id : String) (supply : Supply) (d : Int),
      path.length < maxDepth →
      q.editAt (Edit.apply (.attach id path.length) supply) path ≠ .error (.tooDeep d)) ∧
    ∀ (q : Query) (path : List String) (id : String) (operator : Json) (depth : Int)
      (supply : Supply) (d : Int),
      q.editAt (Edit.apply (.setOperator id operator depth) supply) path ≠
        .error (.tooDeep d) := by
  refine ⟨fun operation supply steps hsteps q hq => ?_, fun q path id supply d hlength => ?_,
    fun q path id operator depth supply d => ?_⟩
  · have hstart : (Session.blank operation supply).query.height ≤ maxDepth := Nat.zero_le _
    have hheight : q.height ≤ maxDepth := by
      rcases hq with rfl | hq
      · exact hstart
      · obtain ⟨s', hs', rfl⟩ := exists_of_mem_run (P := fun s => s.query.height ≤ maxDepth)
          (C := fun step => step.2.IsWithin step.1.length)
          (fun s s' path c hs hc h => height_advance_le h hs hc) hstart hsteps hq
        exact hs'
    refine ⟨hheight, fun path r hr => ?_⟩
    have hlength := length_add_height_le hr
    omega
  · exact editAt_ne_tooDeep fun r => Edit.attach_ne_tooDeep (Int.ofNat_lt.mpr hlength) d
  · exact editAt_ne_tooDeep fun r => Edit.setOperator_ne_tooDeep operator depth d

/-- A query with one level below it, to be put in the place of a subquery. -/
def annex : Query :=
  { bare "0000004" .select with subqueries := [("0000005", bare "0000005" .select)] }

/-- A subquery is attached and another one put in its place, and then there is room for one more
level at the subquery. -/
theorem height_kept_annex :
    let steps := [([], .edit .addCondition), ([], .edit (.attach "0000002" 0)),
      ([], .edit (.replaceSubquery "0000004" annex)), ([], .edit (.attach "0000002" 3))]
    let extended := { nested with subqueries := [("0000004", annex)] }
    .ok extended ∈ (Session.blank .select (.ofSource numbered)).run steps ∧
      (extended.height ≤ maxDepth ∧
        ∀ path r, extended.at? path = some r → path.length ≤ maxDepth) ∧
      ∀ d, extended.editAt (Edit.apply (.attach "0000002" 1) (.ofSource numbered)) ["0000004"] ≠
        .error (.tooDeep d) := by
  intro steps extended
  have hrun : (Session.blank .select (.ofSource numbered)).run steps =
      [.ok ((Session.blank .select (.ofSource numbered)).query.addCondition "0000002"),
        .ok nested, .ok extended, .error (.tooDeep 3)] := by rfl
  have hmem : .ok extended ∈ (Session.blank .select (.ofSource numbered)).run steps := by
    rw [hrun]
    exact List.mem_cons_of_mem _ (List.mem_cons_of_mem _ List.mem_cons_self)
  refine ⟨hmem, height_kept.1 .select _ steps ?_ extended (.inr hmem),
    fun d => height_kept.2.1 extended ["0000004"] "0000002" _ d (by decide)⟩
  have hattach : (0 : Int) ≤ 0 ∧ (0 : Int) ≤ 3 := by decide
  have hreplace : annex.height + 0 + 1 ≤ maxDepth := by decide
  simp only [steps, List.forall_mem_cons]
  exact ⟨trivial, hattach.1, hreplace, hattach.2, nofun⟩

end Session

end QueryComposer
