import Mathlib.Data.List.Basic
import QueryComposer.Proofs.Edit.Basic
import QueryComposer.Proofs.Edit.Part

/-!
# What an edit of parts depends on

An edit of a list of parts is local: what becomes of the parts with one identifier is settled by
these parts alone, and the others stay as they are. It may be that there are several of them, and
that the edit fails for one. Two local edits that address different parts can be done in either
order.

An edit of a query is local in each of its lists. What it does besides is to drop a subquery, and
which one is settled by the conditions that it addresses, so the same is true of the edits of a
query. Links may be shared or lead nowhere.

## Main definitions

* `Part.rewriteAt` lets each part of one target give way to other parts.
* `Part.IsLocalAt` says that an edit of a list rewrites it at a target.
* `Edit.target?` is the part that an edit addresses.
* `Edit.Takes` says what an edit of parts does to a query, list by list.

## Main results

* `Part.rewriteAt_comm`, `Part.IsLocalAt.swap`: local edits of different parts can be swapped.
* `Edit.apply_ok_iff`: an edit of parts works list by list.
* `Edit.apply_swap`: edits of different parts of a query can be swapped.
-/

namespace QueryComposer

/-! ### Edits of a list -/

theorem Except.map_eq_ok_iff {ε α β : Type} {f : α → β} {x : Except ε α} {b : β} :
    x.map f = .ok b ↔ ∃ a, x = .ok a ∧ f a = b := by
  refine ⟨map_eq_ok, ?_⟩
  rintro ⟨a, rfl, rfl⟩
  rfl

theorem mapM_eq_ok_iff {ε α β : Type} {f : α → Except ε β} {as : List α} {bs : List β} :
    as.mapM f = .ok bs ↔
      (∀ a ∈ as, ∃ b, f a = .ok b) ∧ bs = as.flatMap fun a => (f a).toOption.toList := by
  induction as generalizing bs with
  | nil => simp [pure, Except.pure, eq_comm]
  | cons a as ih =>
    rw [List.mapM_cons, List.forall_mem_cons, List.flatMap_cons]
    cases ha : f a with
    | error e => simp [bind, Except.bind]
    | ok b =>
      cases has : as.mapM f with
      | error e =>
        have hnone : ¬∀ a ∈ as, ∃ b, f a = .ok b := fun h => by
          cases has.symm.trans (ih.mpr ⟨h, rfl⟩)
        simp [bind, Except.bind, hnone]
      | ok cs =>
        obtain ⟨hall, rfl⟩ := ih.mp has
        have hfirst : (Except.ok b : Except ε β).toOption.toList = [b] := rfl
        simp [bind, Except.bind, pure, Except.pure, hfirst, and_iff_right hall, eq_comm]

namespace Part

variable {α : Type} [Part α] {t t' : Entity × String} {F G : List α → Except EditError (List α)}
  {as bs cs : List α}

/-- The kind and the identifier of a part. -/
def target (a : α) : Entity × String := (entity α, Part.id a)

theorem target_eq_iff {a : α} {id : String} : target a = (entity α, id) ↔ Part.id a = id := by
  simp [target]

/-- What becomes of a part is of its kind and has its identifier. -/
def KeepsTarget (g : α → List α) : Prop := ∀ a, ∀ b ∈ g a, target b = target a

/-- Every part of the target gives way to what becomes of it. -/
def rewriteAt (t : Entity × String) (g : α → List α) (as : List α) : List α :=
  as.flatMap fun a => if target a = t then g a else [a]

/-- Whether the edit succeeds depends on the parts of the target alone, and these are rewritten one
by one. -/
def IsLocalAt (t : Entity × String) (F : List α → Except EditError (List α)) : Prop :=
  ∃ (guard : List α → Prop) (g : α → List α), KeepsTarget g ∧
    ∀ as bs, F as = .ok bs ↔ guard (as.filter (target · = t)) ∧ bs = rewriteAt t g as

/-! ### Rewriting at a target -/

theorem rewriteAt_nil (id : String) (as : List α) :
    rewriteAt (entity α, id) (fun _ => []) as = as.filter fun a => Part.id a ≠ id := by
  induction as with
  | nil => rfl
  | cons a as ih =>
    rw [rewriteAt, List.flatMap_cons, ← rewriteAt, ih, List.filter_cons]
    by_cases ha : Part.id a = id <;> simp [target_eq_iff, ha]

theorem rewriteAt_singleton (id : String) (f : α → α) (as : List α) :
    rewriteAt (entity α, id) (fun a => [f a]) as =
      as.map fun a => if Part.id a = id then f a else a := by
  rw [rewriteAt, ← List.flatMap_singleton' (List.map _ as), List.flatMap_map]
  refine List.flatMap_congr fun a _ => ?_
  simp only [target_eq_iff]
  split <;> rfl

theorem filter_rewriteAt {g : α → List α} (hg : KeepsTarget g) (hne : t ≠ t') (as : List α) :
    (rewriteAt t g as).filter (target · = t') = as.filter (target · = t') := by
  induction as with
  | nil => rfl
  | cons a as ih =>
    change _ = ([a] ++ as).filter _
    rw [rewriteAt, List.flatMap_cons, ← rewriteAt, List.filter_append, List.filter_append, ih]
    congr 1
    split
    · next ha =>
      have hother : ∀ b ∈ g a, ¬target b = t' := fun b hb => by rwa [hg a b hb, ha]
      rw [List.filter_eq_nil_iff.mpr (by simpa using hother),
        List.filter_eq_nil_iff.mpr (by simpa [ha] using hne)]
    · rfl

/-- What becomes of a part of one target is left alone at another. -/
theorem rewriteAt_of_keepsTarget {g g' : α → List α} (hg : KeepsTarget g) {a : α}
    (ha : target a ≠ t) : rewriteAt t g' (g a) = g a := by
  rw [rewriteAt, List.flatMap_congr (g := fun b => [b]), List.flatMap_singleton']
  intro b hb
  rw [if_neg (by rwa [hg a b hb])]

theorem rewriteAt_comm {g g' : α → List α} (hg : KeepsTarget g) (hg' : KeepsTarget g')
    (hne : t ≠ t') (as : List α) :
    rewriteAt t' g' (rewriteAt t g as) = rewriteAt t g (rewriteAt t' g' as) := by
  rw [rewriteAt, rewriteAt, List.flatMap_assoc, rewriteAt, rewriteAt, List.flatMap_assoc]
  refine List.flatMap_congr fun a _ => ?_
  rw [← rewriteAt, ← rewriteAt]
  -- At most one of the two has to do with the part.
  by_cases ha : target a = t
  · have ha' : target a ≠ t' := by rwa [ha]
    rw [if_pos ha, if_neg ha', rewriteAt_of_keepsTarget hg ha', rewriteAt, List.flatMap_singleton,
      if_pos ha]
  · by_cases ha' : target a = t'
    · rw [if_neg ha, if_pos ha', rewriteAt_of_keepsTarget hg' ha, rewriteAt,
        List.flatMap_singleton, if_pos ha']
    · rw [if_neg ha, if_neg ha', rewriteAt, rewriteAt, List.flatMap_singleton,
        List.flatMap_singleton, if_neg ha, if_neg ha']

/-! ### Local edits -/

theorem isLocalAt_ok (t : Entity × String) : IsLocalAt t (.ok : List α → Except EditError _) := by
  refine ⟨fun _ => True, fun a => [a], ?_, ?_⟩
  · intro a b hb
    rw [List.mem_singleton.mp hb]
  · intro as bs
    simp [rewriteAt, eq_comm]

theorem isLocalAt_error (t : Entity × String) (e : EditError) :
    IsLocalAt t fun _ : List α => .error e :=
  ⟨fun _ => False, fun _ => [], nofun, by simp⟩

theorem any_id_iff {id : String} :
    (as.any fun a => Part.id a = id) = true ↔ as.filter (target · = (entity α, id)) ≠ [] := by
  simp [target_eq_iff]

/-- What can be removed can be found. -/
theorem exists_find_of_remove {id : String} (h : remove id as = .ok bs) :
    ∃ a, find id as = .ok a := by
  unfold remove at h
  split at h
  · next hany =>
    obtain ⟨a, ha⟩ := Option.isSome_iff_exists.mp (List.find?_isSome.mpr (List.any_eq_true.mp hany))
    exact ⟨a, by rw [find, ha]⟩
  · cases h

/-- Finding a part looks at its target only. -/
theorem find_filter_target (id : String) (as : List α) :
    find id (as.filter (target · = (entity α, id))) = find id as := by
  rw [find, find, List.find?_filter]
  simp [target_eq_iff]

theorem isLocalAt_remove (id : String) : IsLocalAt (entity α, id) (remove (α := α) id) := by
  refine ⟨(· ≠ []), fun _ => [], nofun, ?_⟩
  intro as bs
  dsimp only
  rw [← any_id_iff, rewriteAt_nil, remove]
  split
  · next hany =>
    rw [and_iff_right hany, Except.ok.injEq]
    exact eq_comm
  · next hany => simp [hany]

/-- A change that does not name the identifier keeps it, and one that does is refused. -/
theorem isLocalAt_update [LawfulPart α] (id : String) (changes : List (String × Json)) :
    IsLocalAt (entity α, id) (update (α := α) id changes) := by
  by_cases hid : Entries.find? Field.id.altKey changes = none
  · refine ⟨fun as => as ≠ [] ∧ ∀ a ∈ as, ∃ b, change changes a = .ok b,
      fun a => (change changes a).toOption.toList, ?_, ?_⟩
    · intro a b hb
      have hchange : change changes a = .ok b := by
        cases ha : change changes a with
        | error e => simp [ha, Except.toOption] at hb
        | ok b' => simp_all [Except.toOption]
      rw [target, target, id_of_change hid hchange]
    · intro as bs
      have hone : ∀ a : α, (if Part.id a = id then change changes a else .ok a).toOption.toList =
          if target a = (entity α, id) then (change changes a).toOption.toList else [a] := by
        intro a
        by_cases ha : Part.id a = id
        · rw [if_pos ha, if_pos (target_eq_iff.mpr ha)]
        · rw [if_neg ha, if_neg (mt target_eq_iff.mp ha)]
          rfl
      have hall : (∀ a ∈ as, ∃ b, (if Part.id a = id then change changes a else .ok a) = .ok b) ↔
          ∀ a ∈ as.filter (target · = (entity α, id)), ∃ b, change changes a = .ok b := by
        simp only [List.mem_filter, decide_eq_true_iff, target_eq_iff, and_imp]
        refine forall₂_congr fun a _ => ?_
        by_cases ha : Part.id a = id <;> simp [ha]
      dsimp only
      rw [update, hid, ← any_id_iff, and_assoc, ← hall, if_neg (by simp)]
      split
      · next hany =>
        rw [mapM_eq_ok_iff, and_iff_right hany, rewriteAt]
        simp only [hone]
      · next hany => simp [hany]
  · have hsome : (Entries.find? Field.id.altKey changes).isSome := Option.isSome_iff_ne_none.mpr hid
    have hnever : update (α := α) id changes = fun _ => .error (.idIsFixed (entity α)) := by
      funext as
      rw [update, if_pos hsome]
    rw [hnever]
    exact isLocalAt_error _ _

/-- The edit, for the lists of one kind of parts. -/
def only (e : Entity) (F : List α → Except EditError (List α)) :
    List α → Except EditError (List α) :=
  if entity α = e then F else .ok

theorem isLocalAt_only {id : String} (hF : IsLocalAt (entity α, id) F) (e : Entity) :
    IsLocalAt (e, id) (only e F) := by
  rw [only]
  split
  · next he =>
    subst he
    exact hF
  · exact isLocalAt_ok _

/-- The parts of another target stay as they are. -/
theorem IsLocalAt.filter_eq (hF : IsLocalAt t F) (h : F as = .ok bs) (hne : t ≠ t') :
    bs.filter (target · = t') = as.filter (target · = t') := by
  obtain ⟨guard, g, hg, hF⟩ := hF
  obtain ⟨-, rfl⟩ := (hF _ _).mp h
  exact filter_rewriteAt hg hne as

/-- **Local edits at different parts can be swapped.** -/
theorem IsLocalAt.swap (hF : IsLocalAt t F) (hG : IsLocalAt t' G) (hne : t ≠ t')
    (hbs : F as = .ok bs) (hcs : G bs = .ok cs) : ∃ bs', G as = .ok bs' ∧ F bs' = .ok cs := by
  obtain ⟨guard, g, hg, hF⟩ := hF
  obtain ⟨guard', g', hg', hG⟩ := hG
  obtain ⟨hguard, rfl⟩ := (hF _ _).mp hbs
  obtain ⟨hguard', rfl⟩ := (hG _ _).mp hcs
  rw [filter_rewriteAt hg hne] at hguard'
  refine ⟨rewriteAt t' g' as, (hG _ _).mpr ⟨hguard', rfl⟩, (hF _ _).mpr ⟨?_, ?_⟩⟩
  · rwa [filter_rewriteAt hg' hne.symm]
  · exact rewriteAt_comm hg hg' hne as

end Part

/-! ### Edits of one query -/

namespace Edit

/-- The kind and the identifier of the parts that are changed, removed or detached. -/
def target? : Edit → Option (Entity × String)
  | .updatePair id _ | .removePair id => some (.pair, id)
  | .updateCondition id _ | .removeCondition id | .detach id => some (.condition, id)
  | .updateJoin id _ | .removeJoin id => some (.join, id)
  | .updateSortKey id _ | .removeSortKey id => some (.sortKey, id)
  | _ => none

/-- What the edit does to a list of parts. Conditions are edited by `onConditions`. -/
def onParts {α : Type} [Part α] : Edit → List α → Except EditError (List α)
  | .updatePair id changes => Part.only .pair (Part.update id changes)
  | .removePair id => Part.only .pair (Part.remove id)
  | .updateJoin id changes => Part.only .join (Part.update id changes)
  | .removeJoin id => Part.only .join (Part.remove id)
  | .updateSortKey id changes => Part.only .sortKey (Part.update id changes)
  | .removeSortKey id => Part.only .sortKey (Part.remove id)
  | _ => .ok

/-- The link of the first condition with the identifier. -/
def linkOf? (id : String) (cs : List Condition) : Option String :=
  (Part.find id cs).toOption.bind Condition.link?

/-- What the edit does to the conditions, as far as that does not depend on subqueries. -/
def onConditions : Edit → List Condition → Except EditError (List Condition)
  | .updateCondition id changes =>
    if (Entries.find? Field.subqueryId.altKey changes).isSome then fun _ => .error .linkIsFixed
    else Part.update id changes
  | .removeCondition id => Part.remove id
  | .detach id => fun cs =>
    if (linkOf? id cs).isSome then
      .ok (cs.map fun c => if c.id = id then { c with subqueryId := none, value := "" } else c)
    else .error (.notLinked id)
  | _ => .ok

/-- The subquery that goes with what is removed or detached. -/
def dropped? (e : Edit) (cs : List Condition) : Option String :=
  match e with
  | .removeCondition id | .detach id => linkOf? id cs
  | _ => none

/-- The subqueries without the one that is dropped. -/
def leaving (dropped : Option String) (subqueries : List (String × Query)) :
    List (String × Query) :=
  subqueries.filter fun s => dropped ≠ some s.1

/-- The edit takes the one query to the other, list by list. -/
def Takes (e : Edit) (q q' : Query) : Prop :=
  ∃ pairs conditions joins sortKeys, e.onParts q.pairs = .ok pairs ∧
    e.onConditions q.conditions = .ok conditions ∧ e.onParts q.joins = .ok joins ∧
    e.onParts q.sortKeys = .ok sortKeys ∧
    { q with
      pairs, conditions, joins, sortKeys
      subqueries := leaving (e.dropped? q.conditions) q.subqueries } = q'

variable {e f : Edit} {t t' : Entity × String} {q q' r : Query} {supply supply' : Supply}
  {id : String}

@[simp] theorem leaving_none (subqueries : List (String × Query)) :
    leaving none subqueries = subqueries := by
  simp [leaving]

theorem leaving_some (key : String) (subqueries : List (String × Query)) :
    leaving (some key) subqueries = Entries.erase key subqueries := by
  simp [leaving, Entries.erase, eq_comm]

theorem leaving_comm (k l : Option String) (subqueries : List (String × Query)) :
    leaving k (leaving l subqueries) = leaving l (leaving k subqueries) :=
  List.filter_comm _ _ _

theorem without_eq_leaving (c : Condition) (subqueries : List (String × Query)) :
    Query.without c subqueries = leaving c.link? subqueries := by
  rw [Query.without]
  cases c.link? with
  | none => exact (leaving_none subqueries).symm
  | some key => exact (leaving_some key subqueries).symm

theorem linkOf?_of_find {cs : List Condition} {c : Condition} (h : Part.find id cs = .ok c) :
    linkOf? id cs = c.link? := by
  rw [linkOf?, h]
  rfl

theorem keeping_ok_iff {edit : Query → Except EditError Query} :
    keeping edit supply q = .ok (q', supply') ↔ edit q = .ok q' ∧ supply' = supply := by
  constructor
  · exact keeping_ok
  · rintro ⟨h, rfl⟩
    rw [keeping, h]
    rfl

theorem removeCondition_ok_iff : q.removeCondition id = .ok q' ↔
    ∃ conditions, Part.remove id q.conditions = .ok conditions ∧
      { q with
        conditions
        subqueries := leaving (linkOf? id q.conditions) q.subqueries } = q' := by
  constructor
  · intro h
    obtain ⟨c, hc, h⟩ := Except.bind_eq_ok h
    obtain ⟨conditions, hconditions, h⟩ := Except.bind_eq_ok h
    cases h
    exact ⟨conditions, hconditions, by rw [linkOf?_of_find hc, without_eq_leaving]⟩
  · rintro ⟨conditions, hconditions, rfl⟩
    obtain ⟨c, hc⟩ := Part.exists_find_of_remove hconditions
    rw [Query.removeCondition, hc, hconditions, linkOf?_of_find hc, ← without_eq_leaving]
    rfl

theorem detach_ok_iff : q.detach id = .ok q' ↔
    ∃ conditions, onConditions (.detach id) q.conditions = .ok conditions ∧
      { q with
        conditions
        subqueries := leaving (linkOf? id q.conditions) q.subqueries } = q' := by
  constructor
  · intro h
    obtain ⟨c, hc, h⟩ := Except.bind_eq_ok h
    split at h
    · cases h
    · next key hlink =>
      cases h
      have hsome : linkOf? id q.conditions = some key := (linkOf?_of_find hc).trans hlink
      refine ⟨_, if_pos (by rw [hsome]; rfl), ?_⟩
      rw [hsome, leaving_some]
      rfl
  · rintro ⟨conditions, hconditions, rfl⟩
    simp only [onConditions] at hconditions
    split at hconditions
    · next hsome =>
      cases hconditions
      obtain ⟨key, hkey⟩ := Option.isSome_iff_exists.mp hsome
      cases hc : Part.find id q.conditions with
      | error e =>
        rw [linkOf?, hc] at hkey
        cases hkey
      | ok c =>
        have hlink : c.link? = some key := (linkOf?_of_find hc).symm.trans hkey
        simp only [Query.detach, hc, hkey, leaving_some, bind, Except.bind, hlink]
        rfl
    · cases hconditions

/-- **An edit of parts works list by list.** -/
theorem apply_ok_iff (h : e.target? = some t) :
    e.apply supply q = .ok (q', supply') ↔ e.Takes q q' ∧ supply' = supply := by
  cases e with
  | updatePair | removePair | updateJoin | removeJoin | updateSortKey | removeSortKey =>
    simp [apply, keeping_ok_iff, Query.updatePair, Query.removePair, Query.updateJoin,
      Query.removeJoin, Query.updateSortKey, Query.removeSortKey, Except.map_eq_ok_iff, Takes,
      onParts, Part.only, Part.entity, onConditions, dropped?]
  | updateCondition id changes =>
    simp only [apply, keeping_ok_iff, Query.updateCondition, Takes, onParts, onConditions, dropped?]
    split <;> simp [Except.map_eq_ok_iff]
  | removeCondition id =>
    simp [apply, keeping_ok_iff, removeCondition_ok_iff, Takes, onParts, onConditions, dropped?]
  | detach id => simp [apply, keeping_ok_iff, detach_ok_iff, Takes, onParts, dropped?]
  | _ => cases h

theorem isLocalAt_onParts {α : Type} [Part α] [LawfulPart α] (h : e.target? = some t) :
    Part.IsLocalAt t (e.onParts : List α → Except EditError (List α)) := by
  cases e with
  | updatePair id changes | updateJoin id changes | updateSortKey id changes =>
    cases h
    exact Part.isLocalAt_only (Part.isLocalAt_update id changes) _
  | removePair id | removeJoin id | removeSortKey id =>
    cases h
    exact Part.isLocalAt_only (Part.isLocalAt_remove id) _
  | _ => exact Part.isLocalAt_ok t

theorem linkOf?_filter_target (id : String) (cs : List Condition) :
    linkOf? id (cs.filter (Part.target · = (.condition, id))) = linkOf? id cs := by
  rw [linkOf?, linkOf?]
  exact congrArg (fun x => x.toOption.bind Condition.link?) (Part.find_filter_target id cs)

theorem isLocalAt_detach (id : String) :
    Part.IsLocalAt (.condition, id) (onConditions (.detach id)) := by
  refine ⟨fun cs => (linkOf? id cs).isSome,
    fun c => [{ c with subqueryId := none, value := "" }], ?_, ?_⟩
  · intro c c' hc'
    cases List.mem_singleton.mp hc'
    rfl
  · intro cs cs'
    have hrewrite : Part.rewriteAt (.condition, id)
        (fun c => [{ c with subqueryId := none, value := "" }]) cs =
          cs.map fun c => if c.id = id then { c with subqueryId := none, value := "" } else c :=
      Part.rewriteAt_singleton id _ cs
    dsimp only [onConditions]
    rw [linkOf?_filter_target, hrewrite]
    split
    · next hsome =>
      rw [and_iff_right hsome, Except.ok.injEq]
      exact eq_comm
    · next hnone => simp [hnone]

theorem isLocalAt_onConditions (h : e.target? = some t) : Part.IsLocalAt t e.onConditions := by
  cases e with
  | updateCondition id changes =>
    cases h
    rw [onConditions]
    split
    · exact Part.isLocalAt_error _ _
    · exact Part.isLocalAt_update id changes
  | removeCondition id =>
    cases h
    exact Part.isLocalAt_remove id
  | detach id =>
    cases h
    exact isLocalAt_detach id
  | _ => exact Part.isLocalAt_ok t

/-- Which subquery is dropped is settled by the conditions of the target. -/
theorem dropped?_eq (h : e.target? = some t) {cs cs' : List Condition}
    (hcs : cs'.filter (Part.target · = t) = cs.filter (Part.target · = t)) :
    e.dropped? cs' = e.dropped? cs := by
  cases e with
  | removeCondition id | detach id =>
    cases h
    rw [dropped?, dropped?, ← linkOf?_filter_target, hcs, linkOf?_filter_target]
  | _ => rfl

/-- **Edits of different parts can be swapped.** -/
theorem Takes.swap (he : e.target? = some t) (hf : f.target? = some t') (hne : t ≠ t')
    (h : e.Takes q q') (h' : f.Takes q' r) : ∃ q'', f.Takes q q'' ∧ e.Takes q'' r := by
  obtain ⟨pairs, conditions, joins, sortKeys, hpairs, hconditions, hjoins, hkeys, rfl⟩ := h
  obtain ⟨pairs', conditions', joins', sortKeys', hpairs', hconditions', hjoins', hkeys', rfl⟩ := h'
  obtain ⟨pairs'', hpairs, hpairs'⟩ :=
    (isLocalAt_onParts he).swap (isLocalAt_onParts hf) hne hpairs hpairs'
  obtain ⟨joins'', hjoins, hjoins'⟩ :=
    (isLocalAt_onParts he).swap (isLocalAt_onParts hf) hne hjoins hjoins'
  obtain ⟨sortKeys'', hkeys, hkeys'⟩ :=
    (isLocalAt_onParts he).swap (isLocalAt_onParts hf) hne hkeys hkeys'
  have hlocal := isLocalAt_onConditions he
  have hlocal' := isLocalAt_onConditions hf
  have hdropped' := dropped?_eq hf (hlocal.filter_eq hconditions hne)
  obtain ⟨conditions'', hconditions, hconditions'⟩ :=
    hlocal.swap hlocal' hne hconditions hconditions'
  have hdropped := dropped?_eq he (hlocal'.filter_eq hconditions (Ne.symm hne))
  refine ⟨_, ⟨pairs'', conditions'', joins'', sortKeys'', hpairs, hconditions, hjoins, hkeys, rfl⟩,
    pairs', conditions', joins', sortKeys', hpairs', hconditions', hjoins', hkeys', ?_⟩
  dsimp only
  rw [hdropped, hdropped', leaving_comm]

theorem apply_swap (he : e.target? = some t) (hf : f.target? = some t') (hne : t ≠ t')
    (h : e.apply supply q = .ok (q', supply)) (h' : f.apply supply q' = .ok (r, supply)) :
    ∃ q'', f.apply supply q = .ok (q'', supply) ∧ e.apply supply q'' = .ok (r, supply) := by
  rw [apply_ok_iff he] at h
  rw [apply_ok_iff hf] at h'
  obtain ⟨q'', hfirst, hsecond⟩ := h.1.swap he hf hne h'.1
  exact ⟨q'', (apply_ok_iff hf).mpr ⟨hfirst, rfl⟩, (apply_ok_iff he).mpr ⟨hsecond, rfl⟩⟩

theorem id_of_apply (he : e.target? = some t) (h : e.apply supply q = .ok (q', supply')) :
    q'.id = q.id := by
  obtain ⟨⟨pairs, conditions, joins, sortKeys, -, -, -, -, rfl⟩, -⟩ := (apply_ok_iff he).mp h
  rfl

end Edit

end QueryComposer
