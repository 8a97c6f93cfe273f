import QueryComposer.Proofs.Edit.Basic
import QueryComposer.Proofs.Query.Tree

/-!
# Subqueries belong to conditions

A query keeps its subqueries apart from the conditions that lead to them. Nothing in the data forces
the two to fit together: a subquery could belong to no condition, or to two, or be kept under a key
that is not its identifier. The edits keep them together, at every depth.

No two conditions share an identifier, so an edit that names a condition is about exactly one. All
of the statements on one query are about that condition and the others, in any order, since whether
subqueries belong to conditions does not depend on the order of the conditions (`Owns.perm`).

## Main definitions

* `Owns` says that some subqueries belong to some conditions, one to one.
* `Query.IsOwning` says so of every query in a tree.

## Main results

* `Edit.isOwning_apply`: every edit of a query keeps the invariant.
* `Query.isOwning_editAt`: so does every edit at a path.
-/

namespace QueryComposer

/-- The conditions have different identifiers, and each subquery is kept under its own identifier
and belongs to exactly one of the conditions. -/
structure Owns (conditions : List Condition) (subqueries : List (String × Query)) : Prop where
  ids : (conditions.map Condition.id).Nodup
  links : (conditions.filterMap Condition.link?).Nodup
  keys : (Entries.keys subqueries).Nodup
  mem_links_iff : ∀ key, key ∈ conditions.filterMap Condition.link? ↔ key ∈ Entries.keys subqueries
  keyed : ∀ e ∈ subqueries, e.1 = e.2.id

/-- In every query of the tree the subqueries belong to the conditions. -/
def Query.IsOwning (q : Query) : Prop := q.Every fun q => Owns q.conditions q.subqueries

namespace Owns

variable {c : Condition} {cs ds : List Condition} {es : List (String × Query)} {child : Query}
  {key : String}

theorem nil : Owns [] [] :=
  ⟨List.nodup_nil, List.nodup_nil, List.nodup_nil, fun _ => Iff.rfl, nofun⟩

theorem perm (h : Owns cs es) (hp : cs.Perm ds) : Owns ds es where
  ids := (hp.map _).nodup_iff.mp h.ids
  links := (hp.filterMap _).nodup_iff.mp h.links
  keys := h.keys
  mem_links_iff key := (hp.filterMap _).mem_iff.symm.trans (h.mem_links_iff key)
  keyed := h.keyed

/-- Only the identifiers and the links of the conditions matter. -/
theorem of_map_eq (h : Owns cs es) (hid : ds.map Condition.id = cs.map Condition.id)
    (hlink : ds.map Condition.link? = cs.map Condition.link?) : Owns ds es := by
  have hlinks : ds.filterMap Condition.link? = cs.filterMap Condition.link? := by
    have hmap : ∀ l : List Condition, l.filterMap Condition.link? =
        (l.map Condition.link?).filterMap id := by
      intro l
      rw [List.filterMap_map]
      rfl
    rw [hmap, hmap, hlink]
  refine ⟨?_, ?_, h.keys, ?_, h.keyed⟩
  · rw [hid]
    exact h.ids
  · rw [hlinks]
    exact h.links
  · rw [hlinks]
    exact h.mem_links_iff

/-- A condition goes and takes its subquery with it. -/
theorem tail (h : Owns (c :: cs) es) : Owns cs (Query.without c es) := by
  obtain ⟨hids, hlinks, hkeys, hmem, hkeyed⟩ := h
  have hids' := (List.nodup_cons.mp hids).2
  rw [Query.without]
  cases hlink : c.link? with
  | none =>
    rw [List.filterMap_cons_none hlink] at hlinks hmem
    exact ⟨hids', hlinks, hkeys, hmem, hkeyed⟩
  | some key =>
    rw [List.filterMap_cons_some hlink] at hlinks hmem
    obtain ⟨hkey, hlinks'⟩ := List.nodup_cons.mp hlinks
    refine ⟨hids', hlinks', Entries.nodup_keys_erase hkeys, fun k => ?_, fun e he => ?_⟩
    · have hk := hmem k
      rw [List.mem_cons] at hk
      rw [Entries.keys_erase, List.mem_filter, ← hk, decide_eq_true_iff]
      constructor
      · intro hmem
        exact ⟨.inr hmem, fun heq => hkey (heq ▸ hmem)⟩
      · rintro ⟨rfl | hmem, hne⟩
        · exact absurd rfl hne
        · exact hmem
    · exact hkeyed e (List.mem_filter.mp he).1

/-- A condition without a subquery comes in. -/
theorem cons_unlinked (h : Owns cs es) (hid : c.id ∉ cs.map Condition.id)
    (hlink : c.link? = none) : Owns (c :: cs) es := by
  refine ⟨List.nodup_cons.mpr ⟨hid, h.ids⟩, ?_, h.keys, ?_, h.keyed⟩
  · rw [List.filterMap_cons_none hlink]
    exact h.links
  · rw [List.filterMap_cons_none hlink]
    exact h.mem_links_iff

/-- A condition comes in together with a new subquery. -/
theorem cons_linked (h : Owns cs es) (hid : c.id ∉ cs.map Condition.id)
    (hlink : c.link? = some child.id) (hkey : child.id ∉ Entries.keys es) :
    Owns (c :: cs) (Entries.put child.id child es) := by
  refine ⟨List.nodup_cons.mpr ⟨hid, h.ids⟩, ?_, Entries.nodup_keys_put h.keys, fun k => ?_,
    fun e he => ?_⟩
  · rw [List.filterMap_cons_some hlink, List.nodup_cons, h.mem_links_iff]
    exact ⟨hkey, h.links⟩
  · rw [List.filterMap_cons_some hlink, List.mem_cons, h.mem_links_iff, Entries.mem_keys_put_iff]
  · rcases Entries.mem_put he with rfl | he
    · rfl
    · exact h.keyed e he

/-- A subquery is replaced by another one under the same key. -/
theorem replace (h : Owns cs es) (hkey : key ∈ Entries.keys es) (hid : child.id = key) :
    Owns cs (Entries.put key child es) := by
  refine ⟨h.ids, h.links, Entries.nodup_keys_put h.keys, fun k => ?_, fun e he => ?_⟩
  · rw [Entries.keys_put_of_mem hkey]
    exact h.mem_links_iff k
  · rcases Entries.mem_put he with rfl | he
    · exact hid.symm
    · exact h.keyed e he

end Owns

/-! ### The condition that an edit names -/

/-- The condition with an identifier stands alone: removing it and replacing it concern no other
condition. -/
theorem exists_rest {conditions : List Condition}
    (h : (conditions.map Condition.id).Nodup) {c : Condition} (hc : c ∈ conditions) :
    ∃ rest, conditions.Perm (c :: rest) ∧ (conditions.filter fun d => d.id ≠ c.id) = rest ∧
      ∀ f : Condition → Condition,
        (conditions.map fun d => if d.id = c.id then f d else d).Perm (f c :: rest) := by
  obtain ⟨before, after, rfl⟩ := List.append_of_mem hc
  have hne : ∀ d ∈ before ++ after, d.id ≠ c.id := by
    have hmiddle := (List.perm_middle.map Condition.id).nodup_iff.mp h
    intro d hd heq
    exact (List.nodup_cons.mp hmiddle).1 (List.mem_map.mpr ⟨d, hd, heq⟩)
  have hmap : ∀ (f : Condition → Condition) (l : List Condition), (∀ d ∈ l, d.id ≠ c.id) →
      (l.map fun d => if d.id = c.id then f d else d) = l := by
    intro f l hl
    rw [List.map_congr_left fun d hd => if_neg (hl d hd), List.map_id']
  refine ⟨before ++ after, List.perm_middle, ?_, fun f => ?_⟩
  · rw [List.filter_append, List.filter_cons_of_neg (by simp), ← List.filter_append,
      List.filter_eq_self]
    intro d hd
    exact decide_eq_true (hne d hd)
  · rw [List.map_append, List.map_cons, if_pos rfl,
      hmap f before fun d hd => hne d (List.mem_append_left _ hd),
      hmap f after fun d hd => hne d (List.mem_append_right _ hd)]
    exact List.perm_middle

namespace Query

variable {q q' child : Query} {supply supply' : Supply}

/-! ### Edits of one query -/

/-- What the edit of one query leaves to show for the whole tree. -/
theorem IsOwning.of_owns (hq : q.IsOwning) (h : Owns q'.conditions q'.subqueries)
    (hmem : ∀ e ∈ q'.subqueries, e ∈ q.subqueries ∨ e.2.IsOwning) : q'.IsOwning := by
  refine .intro h ?_
  intro e he
  rcases hmem e he with hold | hnew
  · exact hq.subqueries e hold
  · exact hnew

theorem isOwning_blank (operation : Operation) (supply : Supply) :
    ((blank operation).run supply).1.IsOwning :=
  .intro .nil nofun

theorem IsOwning.addCondition (hq : q.IsOwning) {id : String}
    (hid : id ∉ q.conditions.map Condition.id) : (q.addCondition id).IsOwning := by
  refine hq.of_owns ?_ fun e he => .inl he
  have hlast : (Condition.blank id :: q.conditions).Perm (q.conditions ++ [Condition.blank id]) :=
    List.perm_append_singleton _ _ |>.symm
  exact (hq.root.cons_unlinked hid rfl).perm hlast

theorem IsOwning.updateCondition (hq : q.IsOwning) {id : String} {changes : List (String × Json)}
    (h : q.updateCondition id changes = .ok q') : q'.IsOwning := by
  obtain ⟨conditions, rfl, hids, hlinks⟩ := updateCondition_ok h
  exact hq.of_owns (hq.root.of_map_eq hids hlinks) fun e he => .inl he

theorem mem_of_mem_without {c : Condition} {es : List (String × Query)} {e : String × Query}
    (h : e ∈ without c es) : e ∈ es := by
  rw [without] at h
  split at h
  · exact (List.mem_filter.mp h).1
  · exact h

theorem IsOwning.removeCondition (hq : q.IsOwning) {id : String}
    (h : q.removeCondition id = .ok q') : q'.IsOwning := by
  obtain ⟨c, hc, rfl, rfl⟩ := removeCondition_ok h
  obtain ⟨rest, hperm, hfilter, -⟩ := exists_rest hq.root.ids hc
  refine hq.of_owns ?_ fun e he => .inl (mem_of_mem_without he)
  rw [hfilter]
  exact (hq.root.perm hperm).tail

theorem IsOwning.attach (hq : q.IsOwning) (hchild : child.IsOwning) {id : String} {depth : Int}
    (hne : child.id ≠ "") (hkey : child.id ∉ Entries.keys q.subqueries)
    (h : q.attach child id depth = .ok q') : q'.IsOwning := by
  obtain ⟨-, c, hc, rfl, hlink, rfl⟩ := attach_ok h
  obtain ⟨rest, hperm, -, hmap⟩ := exists_rest hq.root.ids hc
  have howns := hq.root.perm hperm
  have hid : c.id ∉ rest.map Condition.id := (List.nodup_cons.mp howns.ids).1
  have hrest : Owns rest q.subqueries := by
    have htail := howns.tail
    rwa [without, hlink] at htail
  have hlinked : Condition.link? { c with subqueryId := some child.id } = some child.id := by
    simp [Condition.link?, hne]
  refine hq.of_owns ?_ fun e he => ?_
  · exact (hrest.cons_linked (c := { c with subqueryId := some child.id }) hid hlinked hkey).perm
      (hmap fun c => { c with subqueryId := some child.id }).symm
  · rcases Entries.mem_put he with rfl | he
    · exact .inr hchild
    · exact .inl he

theorem IsOwning.detach (hq : q.IsOwning) {id : String} (h : q.detach id = .ok q') :
    q'.IsOwning := by
  obtain ⟨c, hc, rfl, key, hlink, rfl⟩ := detach_ok h
  obtain ⟨rest, hperm, -, hmap⟩ := exists_rest hq.root.ids hc
  have howns := hq.root.perm hperm
  have hid : c.id ∉ rest.map Condition.id := (List.nodup_cons.mp howns.ids).1
  have hrest : Owns rest (Entries.erase key q.subqueries) := by
    have htail := howns.tail
    rwa [without, hlink] at htail
  refine hq.of_owns ?_ fun e he => .inl (List.mem_filter.mp he).1
  exact (hrest.cons_unlinked (c := { c with subqueryId := none, value := "" }) hid rfl).perm
    (hmap fun c => { c with subqueryId := none, value := "" }).symm

theorem IsOwning.replaceSubquery (hq : q.IsOwning) (hchild : child.IsOwning) {key : String}
    (h : q.replaceSubquery key child = .ok q') : q'.IsOwning := by
  obtain ⟨⟨old, hold⟩, hid, rfl⟩ := replaceSubquery_ok h
  refine hq.of_owns (hq.root.replace (Entries.mem_keys_of_find? hold) hid) ?_
  intro e he
  rcases Entries.mem_put he with rfl | he
  · exact .inr hchild
  · exact .inl he

/-- None of the identifiers drawn between two supplies stands for a condition or a subquery of the
query already. -/
def IsFresh (q : Query) (supply supply' : Supply) : Prop :=
  ∀ n, supply.drawn ≤ n → n < supply'.drawn →
    supply.source n ∉ q.conditions.map Condition.id ∧
      supply.source n ∉ Entries.keys q.subqueries

theorem IsOwning.attach_blank (hq : q.IsOwning) {id : String} {depth : Int}
    (hne : ∀ n, supply.source n ≠ "") (hfresh : q.IsFresh supply ((blank .select).run supply).2)
    (h : q.attach ((blank .select).run supply).1 id depth = .ok q') : q'.IsOwning := by
  obtain ⟨-, hkey⟩ := hfresh (supply.drawn + 1) (Nat.le_succ _) (Nat.lt_succ_self _)
  exact hq.attach (isOwning_blank .select supply) (hne _) hkey h

end Query

/-- **Every edit keeps the invariant**, if what it draws is fresh and the query that it is given
satisfies it. -/
theorem Edit.isOwning_apply {e : Edit} {supply supply' : Supply} {q q' : Query}
    (h : e.apply supply q = .ok (q', supply')) (hq : q.IsOwning)
    (hne : ∀ n, supply.source n ≠ "") (hfresh : q.IsFresh supply supply')
    (hchild : ∀ key child, e = .replaceSubquery key child → child.IsOwning) : q'.IsOwning := by
  by_cases he : e.SparesConditions
  · obtain ⟨hconditions, hsubqueries⟩ := he.apply_ok h
    refine hq.of_owns ?_ fun entry hentry => .inl (hsubqueries ▸ hentry)
    rw [hconditions, hsubqueries]
    exact hq.root
  cases e with
  | addCondition =>
    cases h
    exact hq.addCondition (hfresh supply.drawn (Nat.le_refl _) (Nat.lt_succ_self _)).1
  | updateCondition id changes =>
    obtain ⟨hr, rfl⟩ := keeping_ok h
    exact hq.updateCondition hr
  | removeCondition id =>
    obtain ⟨hr, rfl⟩ := keeping_ok h
    exact hq.removeCondition hr
  | setOperator id operator depth =>
    obtain ⟨r, hr, ⟨rfl, rfl⟩ | ⟨hattach, rfl⟩⟩ := Query.setOperator_ok h
    · exact hq.updateCondition hr
    · refine (hq.updateCondition hr).attach_blank hne ?_ hattach
      obtain ⟨conditions, rfl, hids, -⟩ := Query.updateCondition_ok hr
      rw [Query.IsFresh, hids]
      exact hfresh
  | attach id depth =>
    obtain ⟨hr, rfl⟩ := apply_attach_ok h
    exact hq.attach_blank hne hfresh hr
  | detach id =>
    obtain ⟨hr, rfl⟩ := keeping_ok h
    exact hq.detach hr
  | replaceSubquery key child =>
    obtain ⟨hr, rfl⟩ := keeping_ok h
    exact hq.replaceSubquery (hchild key child rfl) hr
  | _ => exact absurd trivial he

/-- **Every edit at a path keeps the invariant.** The queries on the way back only take another
subquery in the place of the one that they have. -/
theorem Query.isOwning_editAt {e : Edit} {supply supply' : Supply} {path : List String}
    {q q' : Query} (h : q.editAt (e.apply supply) path = .ok (q', supply')) (hq : q.IsOwning)
    (hne : ∀ n, supply.source n ≠ "")
    (hfresh : ∀ r, q.at? path = some r → r.IsFresh supply supply')
    (hchild : ∀ key child, e = .replaceSubquery key child → child.IsOwning) : q'.IsOwning := by
  induction path generalizing q q' with
  | nil => exact e.isOwning_apply h hq hne (hfresh q rfl) hchild
  | cons key path ih =>
    obtain ⟨child, child', hfind, hedit, hreplace⟩ := editAt_cons_ok h
    have hmem := Entries.mem_of_find? hfind
    refine hq.replaceSubquery (ih hedit (hq.subqueries _ hmem) fun r hr => ?_) hreplace
    refine hfresh r ?_
    rw [at?, hfind]
    exact hr

end QueryComposer
