import Mathlib.Data.List.Infix
import QueryComposer.Proofs.Edit.Frame
import QueryComposer.Proofs.Edit.Identifiers
import QueryComposer.Proofs.Edit.Path

/-!
# Identifiers that can not be edited

Settings and parts are changed freely, but no change can name an identifier or a link. So however
many of these edits are done, and wherever in the tree, every query stays where it is and it and its
parts keep their identifiers. A condition keeps its link as well, unless it had none and a change of
its operator attached a subquery.

What is attached takes a key that was drawn for it. That the key is new to the query that gets it is
load-bearing: under a key that was there already another subquery would give way, and with it all of
the identifiers below it. Nothing else is asked of the tree, where identifiers may be repeated and
the same key may stand at other queries. If no identifier is drawn twice and none of those still to
be drawn is a key anywhere, all keys are new (`Session.DrawsNoKey.hasFreshKeys`).

## Main definitions

* `Edit.IsRevision` holds of the edits that change settings and parts.
* `Query.Retains` compares a query before and after, and `Query.RetainsTree` all queries of a tree.
* `Session.HasFreshKeys` says that what steps attach gets keys that are new where it is attached.

## Main results

* `Query.retainsTree_editAt`: what one edit at a path retains.
* `Session.frame_and_retention`: the frame of every edit, and what runs of revisions retain.
-/

namespace QueryComposer

open Query

/-- The edit changes settings or parts that are there. -/
def Edit.IsRevision : Edit → Prop
  | .setFields _ | .updatePair .. | .updateCondition .. | .updateJoin .. | .updateSortKey ..
  | .setOperator .. => True
  | _ => False

namespace Query

/-! ### One query -/

/-- A condition keeps its identifier. It keeps its link too, unless the first condition with the
identifier had none and a subquery was attached. -/
def RetainsLink (r r' : Query) (c c' : Condition) : Prop :=
  c'.id = c.id ∧
    (c'.subqueryId = c.subqueryId ∨
      Edit.linkOf? c.id r.conditions = none ∧ ∃ key, c'.subqueryId = some key ∧
        key ∉ Entries.keys r.subqueries ∧ key ∈ Entries.keys r'.subqueries)

/-- The query keeps its identifier, its parts keep theirs, and what comes to the subqueries comes
after all others. -/
structure Retains (r r' : Query) : Prop where
  id : r'.id = r.id
  pairs : r'.pairs.map Pair.id = r.pairs.map Pair.id
  conditions : List.Forall₂ (RetainsLink r r') r.conditions r'.conditions
  joins : r'.joins.map Join.id = r.joins.map Join.id
  sortKeys : r'.sortKeys.map SortKey.id = r.sortKeys.map SortKey.id
  keys : Entries.keys r.subqueries <+: Entries.keys r'.subqueries

variable {q q' q'' r r' r'' : Query} {supply supply' : Supply} {e : Edit} {key : String}

theorem RetainsLink.of_eq {c c' : Condition} (hid : c'.id = c.id)
    (hlink : c'.subqueryId = c.subqueryId) : RetainsLink r r' c c' :=
  ⟨hid, .inl hlink⟩

theorem Retains.refl (r : Query) : r.Retains r :=
  ⟨rfl, rfl, List.forall₂_same.mpr fun _ _ => .of_eq rfl rfl, rfl, rfl, List.prefix_refl _⟩

/-- A query that takes another subquery in the place of one keeps everything else. -/
theorem retains_put {child old : Query} (h : Entries.find? key r.subqueries = some old) :
    r.Retains { r with subqueries := Entries.put key child r.subqueries } := by
  refine ⟨rfl, rfl, List.forall₂_same.mpr fun _ _ => .of_eq rfl rfl, rfl, rfl, ?_⟩
  rw [Entries.keys_put_of_mem (Entries.mem_keys_of_find? h)]

/-- Where the first condition has no link, it had none before. -/
theorem Retains.linkOf?_eq_none (h : r.Retains r') {id : String}
    (hlink : Edit.linkOf? id r'.conditions = none) : Edit.linkOf? id r.conditions = none := by
  cases hc : Part.find id r.conditions with
  | error e =>
    rw [Edit.linkOf?, hc]
    rfl
  | ok c =>
    have hflip := h.conditions.flip
    obtain ⟨c', hc', -, hsame | ⟨hnone, -⟩⟩ :=
      Part.find_of_forall₂ (fun _ _ hcc => hcc.1.symm) hflip hc
    · rw [Edit.linkOf?_of_find hc'] at hlink
      rw [Edit.linkOf?_of_find hc, Condition.link?, ← hsame]
      exact hlink
    · rwa [← (Part.find_ok hc).2]

theorem Retains.trans (h : r.Retains r') (h' : r'.Retains r'') : r.Retains r'' := by
  refine ⟨h'.id.trans h.id, h'.pairs.trans h.pairs, ?_, h'.joins.trans h.joins,
    h'.sortKeys.trans h.sortKeys, h.keys.trans h'.keys⟩
  refine forall₂_trans ?_ h.conditions h'.conditions
  rintro c c' c'' ⟨hid, hlink⟩ ⟨hid', hlink'⟩
  refine ⟨hid'.trans hid, ?_⟩
  rcases hlink' with hsame | ⟨hnone, key, hkey, hnew, hmem⟩
  · rw [hsame]
    rcases hlink with hsame | ⟨hnone, key, hkey, hnew, hmem⟩
    · exact .inl hsame
    · exact .inr ⟨hnone, key, hkey, hnew, h'.keys.subset hmem⟩
  -- What is attached second was not linked after the first step, so it was not before either.
  · rw [hid] at hnone
    exact .inr ⟨h.linkOf?_eq_none hnone, key, hkey, fun hold => hnew (h.keys.subset hold), hmem⟩

end Query

/-! ### One edit -/

/-- No part comes and none goes. -/
def Action.IsRevision : Action → Prop
  | .keep | .change .. => True
  | .add | .remove _ => False

theorem Action.Takes.map_id {α : Type} [Part α] [DescribedPart α] {action : Action}
    (ha : action.IsRevision) {fresh : String} {as bs : List α} (h : action.Takes fresh as bs) :
    bs.map Part.id = as.map Part.id := by
  cases action with
  | keep =>
    cases h
    rfl
  | change id changes =>
    have hids : List.Forall₂ Eq (bs.map Part.id) (as.map Part.id) := by
      rw [List.forall₂_map_left_iff, List.forall₂_map_right_iff]
      exact List.Forall₂.flip (List.Forall₂.imp (fun a b hab => hab.1) h)
    rwa [List.forall₂_eq_eq_eq] at hids
  | _ => exact ha.elim

theorem Part.Changed.subqueryId_eq {id : String} {changes : List (String × Json)} {c d : Condition}
    (habsent : Entries.find? Field.subqueryId.altKey changes = none)
    (h : Part.Changed id changes c d) : d.subqueryId = c.subqueryId := by
  obtain ⟨-, h⟩ := h
  split at h
  · have hlink := Condition.subqueryId_of_values h
    rw [habsent] at hlink
    exact Json.ofText?_injective hlink
  · rw [h]

namespace Edit.IsRevision

variable {e : Edit} {q q' : Query} {supply supply' : Supply}

theorem actionOn (he : e.IsRevision) (supply : Supply) (q : Query) (entity : Entity) :
    (e.actionOn supply q entity).IsRevision := by
  cases e with
  | setFields => trivial
  | updatePair | updateCondition | updateJoin | updateSortKey | setOperator =>
    simp only [Edit.actionOn, action?]
    split <;> trivial
  | _ => exact he.elim

/-- The subqueries stay, and what is attached comes after them. -/
theorem subqueries_eq (he : e.IsRevision) (h : e.apply supply q = .ok (q', supply'))
    (hnew : e.attaches q → (attached supply).id ∉ Entries.keys q.subqueries) :
    q'.subqueries = q.subqueries ++
      if e.attaches q then [((attached supply).id, attached supply)] else [] := by
  have hsubqueries := (frames h).subqueries
  cases e with
  | setFields | updatePair | updateCondition | updateJoin | updateSortKey =>
    exact hsubqueries.trans (List.append_nil _).symm
  | setOperator id operator depth =>
    rw [Edit.shift] at hsubqueries
    split at hsubqueries
    · next hattaches =>
      rw [if_pos hattaches]
      exact hsubqueries.2 (hnew hattaches)
    · next hattaches =>
      rw [if_neg hattaches, List.append_nil]
      exact hsubqueries
  | _ => exact he.elim

/-- A link stays as it is, unless a subquery is attached. -/
theorem conditions (he : e.IsRevision) (h : e.apply supply q = .ok (q', supply')) :
    List.Forall₂ (fun c c' => c'.id = c.id ∧ (c'.subqueryId = c.subqueryId ∨
      e.attaches q ∧ linkOf? c.id q.conditions = none ∧
        c'.subqueryId = some (attached supply).id)) q.conditions q'.conditions := by
  have hconditions := (frames h).conditions
  cases e with
  | setFields | updatePair | updateJoin | updateSortKey =>
    rw [show q'.conditions = q.conditions from hconditions]
    exact List.forall₂_same.mpr fun _ _ => ⟨rfl, .inl rfl⟩
  | updateCondition id changes =>
    obtain ⟨hlink, -⟩ := Query.updateCondition_ok_update (keeping_ok h).1
    exact List.Forall₂.imp (fun c c' hc => ⟨hc.1, .inl (hc.subqueryId_eq hlink)⟩) hconditions
  | setOperator id operator depth =>
    rw [Edit.actionOn, action?] at hconditions
    by_cases hattaches : (setOperator id operator depth).attaches q
    · rw [if_pos hattaches] at hconditions
      refine List.Forall₂.imp (fun c c' => ?_) hconditions
      rintro ⟨hid, hchanged⟩
      refine ⟨hid, ?_⟩
      split at hchanged
      · next heq =>
        have hnone : linkOf? c.id q.conditions = none := by
          rw [show c.id = id from heq]
          simp only [attaches, Bool.and_eq_true, Option.isNone_iff_eq_none] at hattaches
          exact hattaches.2
        have hkey : Json.ofText? c'.subqueryId = Json.ofText? (some (attached supply).id) :=
          Condition.subqueryId_of_values hchanged
        exact .inr ⟨hattaches, hnone, Json.ofText?_injective hkey⟩
      · rw [hchanged]
        exact .inl rfl
    · rw [if_neg hattaches] at hconditions
      exact List.Forall₂.imp (fun c c' hc => ⟨hc.1, .inl (hc.subqueryId_eq rfl)⟩) hconditions
  | _ => exact he.elim

/-- **A revision retains all identifiers of the query**, if the key is new under which it may
attach a subquery. -/
theorem retains (he : e.IsRevision) (h : e.apply supply q = .ok (q', supply'))
    (hnew : e.attaches q → (attached supply).id ∉ Entries.keys q.subqueries) : q.Retains q' := by
  have hframes := frames h
  have hsubqueries := he.subqueries_eq h hnew
  refine ⟨hframes.id, hframes.pairs.map_id (he.actionOn supply q .pair), ?_,
    hframes.joins.map_id (he.actionOn supply q .join),
    hframes.sortKeys.map_id (he.actionOn supply q .sortKey), ?_⟩
  · refine (he.conditions h).imp ?_
    rintro c c' ⟨hid, hsame | ⟨hattaches, hnone, hkey⟩⟩
    · exact .of_eq hid hsame
    · refine ⟨hid, .inr ⟨hnone, (attached supply).id, hkey, hnew hattaches, ?_⟩⟩
      rw [hsubqueries, if_pos hattaches]
      simp [Entries.keys]
  · rw [hsubqueries, Entries.keys, Entries.keys, List.map_append]
    exact List.prefix_append _ _

theorem supply_of_attaches (he : e.IsRevision) (h : e.apply supply q = .ok (q', supply'))
    (hattaches : e.attaches q) : supply' = ⟨supply.source, supply.drawn + 2⟩ := by
  cases e with
  | setOperator id operator depth =>
    obtain ⟨conditions, -, hr⟩ := setOperator_ok_attaches h
    rw [if_pos hattaches] at hr
    exact hr.2
  | attach => exact he.elim
  | _ => cases hattaches

end Edit.IsRevision

/-! ### Whole trees -/

namespace Query

variable {q q' q'' child : Query} {e : Edit} {supply supply' : Supply} {path : List String}
  {key : String}

/-- Every path leads to a query that retains what the one before had. -/
def RetainsTree (q q' : Query) : Prop :=
  ∀ path r, q.at? path = some r → ∃ r', q'.at? path = some r' ∧ r.Retains r'

/-- The key stands somewhere in the tree. -/
def HasKey (q : Query) (key : String) : Prop :=
  ∃ path r, q.at? path = some r ∧ key ∈ Entries.keys r.subqueries

theorem RetainsTree.refl (q : Query) : q.RetainsTree q := fun _ r hr => ⟨r, hr, .refl r⟩

theorem RetainsTree.trans (h : q.RetainsTree q') (h' : q'.RetainsTree q'') :
    q.RetainsTree q'' := by
  intro path r hr
  obtain ⟨r', hr', hretains⟩ := h path r hr
  obtain ⟨r'', hr'', hretains'⟩ := h' path r' hr'
  exact ⟨r'', hr'', hretains.trans hretains'⟩

theorem hasKey_iff : q.HasKey key ↔ key ∈ Entries.keys q.subqueries ∨
    ∃ k child, Entries.find? k q.subqueries = some child ∧ child.HasKey key := by
  constructor
  · rintro ⟨_ | ⟨k, path⟩, r, hr, hkey⟩
    · cases hr
      exact .inl hkey
    · obtain ⟨child, hfind, hr⟩ := Option.bind_eq_some_iff.mp hr
      exact .inr ⟨k, child, hfind, path, r, hr, hkey⟩
  · rintro (hkey | ⟨k, child, hfind, path, r, hr, hkey⟩)
    · exact ⟨[], q, rfl, hkey⟩
    · exact ⟨k :: path, r, (at?_cons_of_find? hfind path).trans hr, hkey⟩

theorem not_hasKey_of_nil (h : q.subqueries = []) (key : String) : ¬q.HasKey key := by
  rw [hasKey_iff, h]
  rintro (hkey | ⟨k, child, hfind, -⟩)
  · cases hkey
  · cases hfind

/-- **An edit that revises a query retains the identifiers of the tree.** -/
theorem retainsTree_editAt (he : e.IsRevision)
    (h : q.editAt (e.apply supply) path = .ok (q', supply'))
    (hnew : ∀ r, q.at? path = some r → e.attaches r →
      (Edit.attached supply).id ∉ Entries.keys r.subqueries) : q.RetainsTree q' := by
  induction path generalizing q q' with
  | nil =>
    have hkeys := hnew q rfl
    rintro (_ | ⟨k, other⟩) r hr
    · cases hr
      exact ⟨q', rfl, he.retains h hkeys⟩
    · obtain ⟨child, hfind, hr⟩ := Option.bind_eq_some_iff.mp hr
      refine ⟨r, ?_, .refl r⟩
      rw [at?, he.subqueries_eq h hkeys, Entries.find?_append, hfind]
      exact hr
  | cons key path ih =>
    obtain ⟨child, child', hfind, hedit, hreplace⟩ := editAt_cons_ok h
    obtain ⟨-, -, rfl⟩ := replaceSubquery_ok hreplace
    rw [at?_cons_of_find? hfind] at hnew
    rintro (_ | ⟨k, other⟩) r hr
    · cases hr
      exact ⟨_, rfl, retains_put hfind⟩
    · by_cases hk : key = k
      · subst hk
        rw [at?_cons_of_find? hfind] at hr
        rw [at?_put_cons]
        exact ih hedit hnew other r hr
      · refine ⟨r, ?_, .refl r⟩
        rw [at?, Entries.find?_put, if_neg hk]
        exact hr

/-- A key that is new to the tree was drawn for a subquery. -/
theorem hasKey_of_editAt (he : e.IsRevision)
    (h : q.editAt (e.apply supply) path = .ok (q', supply'))
    (hnew : ¬q.HasKey (Edit.attached supply).id) (hkey : q'.HasKey key) :
    q.HasKey key ∨ key ∈ supply.issued supply' := by
  induction path generalizing q q' with
  | nil =>
    have hkeys := fun hmem => hnew (hasKey_iff.mpr (.inl hmem))
    rw [hasKey_iff, he.subqueries_eq h fun _ => hkeys] at hkey
    by_cases hattaches : e.attaches q
    · rw [if_pos hattaches] at hkey
      rcases hkey with hmem | ⟨k, child, hfind, hchild⟩
      · rw [Entries.keys, List.map_append, List.mem_append] at hmem
        refine hmem.imp (fun hold => hasKey_iff.mpr (.inl hold)) fun hlast => ?_
        rw [List.mem_singleton.mp hlast, he.supply_of_attaches h hattaches]
        exact Supply.mem_issued_iff.mpr ⟨supply.drawn + 1, Nat.le_succ _, Nat.lt_succ_self _, rfl⟩
      -- The subquery that was attached is blank, so no key stands further down in it.
      · rw [Entries.find?_append, Option.or_eq_some_iff] at hfind
        rcases hfind with hold | ⟨-, hlast⟩
        · exact .inl (hasKey_iff.mpr (.inr ⟨k, child, hold, hchild⟩))
        · cases List.mem_singleton.mp (Entries.mem_of_find? hlast)
          exact absurd hchild (not_hasKey_of_nil rfl key)
    · rw [if_neg hattaches, List.append_nil, ← hasKey_iff] at hkey
      exact .inl hkey
  | cons k path ih =>
    obtain ⟨child, child', hfind, hedit, hreplace⟩ := editAt_cons_ok h
    obtain ⟨⟨old, hold⟩, -, rfl⟩ := replaceSubquery_ok hreplace
    have hchild : ∀ key, child.HasKey key → q.HasKey key :=
      fun key hmem => hasKey_iff.mpr (.inr ⟨k, child, hfind, hmem⟩)
    rcases hasKey_iff.mp hkey with hmem | ⟨k', child'', hfind', hmem⟩
    · rw [Entries.keys_put_of_mem (Entries.mem_keys_of_find? hold)] at hmem
      exact .inl (hasKey_iff.mpr (.inl hmem))
    · rw [Entries.find?_put] at hfind'
      split at hfind'
      · cases hfind'
        exact (ih hedit (mt (hchild _) hnew) hmem).imp_left (hchild key)
      · exact .inl (hasKey_iff.mpr (.inr ⟨k', child'', hfind', hmem⟩))

end Query

/-! ### Runs -/

/-- The command is an edit that changes settings or parts that are there. -/
def Command.IsRevision (c : Command) : Prop := ∃ e, c = .edit e ∧ e.IsRevision

namespace Session

variable {s s' : Session} {path : List String} {c : Command}

/-- If the step attaches a subquery, then under a key that is new to the query that gets it. -/
def AttachesFresh (s : Session) (path : List String) (c : Command) : Prop :=
  ∀ e r, c = .edit e → s.query.at? path = some r → e.attaches r →
    (Edit.attached s.supply).id ∉ Entries.keys r.subqueries

/-- Each of the steps that attaches a subquery does so under a key that is new to the query that
gets it. -/
def HasFreshKeys (s : Session) : List (List String × Command) → Prop
  | [] => True
  | (path, c) :: steps => s.AttachesFresh path c ∧
    match s.advance path c with
    | .ok s' => s'.HasFreshKeys steps
    | .error _ => s.HasFreshKeys steps

/-- **A step retains the identifiers of the tree.** -/
theorem retainsTree_advance (hfresh : s.AttachesFresh path c) (hc : c.IsRevision)
    (h : s.advance path c = .ok s') : s.query.RetainsTree s'.query := by
  obtain ⟨e, rfl, he⟩ := hc
  obtain ⟨e', supply', hprepare, hedit⟩ := advance_ok h
  cases hprepare
  exact retainsTree_editAt he hedit fun r => hfresh e r rfl

/-- **So does a run**, through the steps that fail as well. -/
theorem HasFreshKeys.run {steps : List (List String × Command)} (hs : s.HasFreshKeys steps)
    (hsteps : ∀ step ∈ steps, step.2.IsRevision) {q : Query} (hq : .ok q ∈ s.run steps) :
    s.query.RetainsTree q := by
  induction steps generalizing s with
  | nil => cases hq
  | cons step steps ih =>
    obtain ⟨path, c⟩ := step
    obtain ⟨hc, hsteps⟩ := List.forall_mem_cons.mp hsteps
    obtain ⟨hfresh, hs⟩ := hs
    cases hadvance : s.advance path c with
    | ok s' =>
      rw [hadvance] at hs
      rw [Session.run, hadvance] at hq
      have hretains := retainsTree_advance hfresh hc hadvance
      rcases List.mem_cons.mp hq with heq | hq
      · cases heq
        exact hretains
      · exact hretains.trans (ih hs hsteps hq)
    | error e =>
      rw [hadvance] at hs
      rw [Session.run, hadvance] at hq
      rcases List.mem_cons.mp hq with heq | hq
      · cases heq
      · exact ih hs hsteps hq

/-- No identifier that is still to be drawn is a key. -/
def DrawsNoKey (s : Session) : Prop :=
  ∀ n, s.supply.drawn ≤ n → ¬s.query.HasKey (s.supply.source n)

theorem DrawsNoKey.attachesFresh (hs : s.DrawsNoKey) (path : List String) (c : Command) :
    s.AttachesFresh path c :=
  fun _ r _ hr _ hkey => hs (s.supply.drawn + 1) (Nat.le_succ _) ⟨path, r, hr, hkey⟩

/-- A step leaves keys to draw. -/
theorem DrawsNoKey.advance (hs : s.DrawsNoKey) (hsource : Function.Injective s.supply.source)
    (hc : c.IsRevision) (h : s.advance path c = .ok s') :
    s'.supply.source = s.supply.source ∧ s'.DrawsNoKey := by
  obtain ⟨e, rfl, he⟩ := hc
  obtain ⟨e', supply', hprepare, hedit⟩ := advance_ok h
  cases hprepare
  have hgrows : s.query.Grows s.supply s'.query s'.supply :=
    grows_editAt (fun key child heq => by rw [heq] at he; exact he) hedit
  have hnew : ¬s.query.HasKey (Edit.attached s.supply).id := hs (s.supply.drawn + 1) (Nat.le_succ _)
  refine ⟨hgrows.source, fun n hn hkey => ?_⟩
  rw [hgrows.source] at hkey
  rcases hasKey_of_editAt he hedit hnew hkey with hold | hissued
  · exact hs n (Nat.le_trans hgrows.drawn_le hn) hold
  · obtain ⟨m, -, hm, heq⟩ := Supply.mem_issued_iff.mp hissued
    have hmn : m = n := hsource heq
    omega

/-- **New identifiers are new keys**, through any number of steps. -/
theorem DrawsNoKey.hasFreshKeys (hs : s.DrawsNoKey) (hsource : Function.Injective s.supply.source)
    {steps : List (List String × Command)} (hsteps : ∀ step ∈ steps, step.2.IsRevision) :
    s.HasFreshKeys steps := by
  induction steps generalizing s with
  | nil => trivial
  | cons step steps ih =>
    obtain ⟨path, c⟩ := step
    obtain ⟨hc, hsteps⟩ := List.forall_mem_cons.mp hsteps
    refine ⟨hs.attachesFresh path c, ?_⟩
    split
    · next s' hadvance =>
      obtain ⟨hsame, hs'⟩ := hs.advance hsource hc hadvance
      exact ih hs' (hsame ▸ hsource) hsteps
    · exact ih hs hsource hsteps

/-- **What an edit is about, and what it leaves alone.** An edit that succeeds changes the settings
that it names, or one list of parts in one way, and takes or drops one subquery at most; the
identifier of the query and everything else stay as they are. No run of changes reaches an
identifier: from whatever tree it starts, at whatever paths and however many of its steps fail, each
query of the tree retains its identifier, those of its parts, its subqueries and its links, apart
from those of conditions to which a subquery was attached under a key that is new to the query. -/
theorem frame_and_retention :
    (∀ (e : Edit) (supply supply' : Supply) (q q' : Query),
      e.apply supply q = .ok (q', supply') → e.Frames supply q q') ∧
    ∀ (s : Session) (steps : List (List String × Command)),
      s.HasFreshKeys steps → (∀ step ∈ steps, step.2.IsRevision) →
      ∀ q, .ok q ∈ s.run steps → s.query.RetainsTree q :=
  ⟨fun _ _ _ _ _ => Edit.frames, fun _ _ hs hsteps _ => hs.run hsteps⟩

/-- Two conditions with one identifier, the second of which has a subquery. -/
def twins : Query :=
  { bare "root" .select with
    conditions := [⟨"c", "id", .equal, "1", .and, none⟩,
      ⟨"c", "owner_id", .equal, "", .or, some "0000000"⟩]
    subqueries := [("0000000", bare "0000000" .select)] }

/-- The first condition decides, so both are linked to what is attached. -/
def joinedTwins (table : String) : Query :=
  { twins with
    conditions := [⟨"c", "id", .among, "1", .and, some "0000002"⟩,
      ⟨"c", "owner_id", .among, "", .or, some "0000002"⟩]
    subqueries := [("0000000", { bare "0000000" .select with table }),
      ("0000002", { bare "0000002" .select with pairs := [Pair.blank "0000001"] })] }

/-- The identifier of their subquery was drawn before. -/
def twinSession : Session := ⟨twins, ⟨numbered, 1⟩⟩

/-- After the attachment an identifier is to be changed, which fails, and then the table of a
subquery. -/
theorem frame_and_retention_twins :
    let attaching := Edit.setOperator "c" (.string "IN") 0
    let steps := [([], .edit attaching),
      ([], .edit (.updateCondition "c" [("id", .string "d")])),
      (["0000000"], .edit (.setFields [("table", .string "orders")]))]
    twinSession.HasFreshKeys steps ∧ attaching.Frames twinSession.supply twins (joinedTwins "") ∧
      .ok (joinedTwins "orders") ∈ twinSession.run steps ∧
        twins.RetainsTree (joinedTwins "orders") := by
  intro attaching steps
  have hdraws : twinSession.DrawsNoKey := by
    intro n hn hkey
    rcases hasKey_iff.mp hkey with hmem | ⟨k, child, hfind, hchild⟩
    · have hzero : numbered n = numbered 0 := List.mem_singleton.mp hmem
      have heq := numbered_injective hzero
      have hone : 1 ≤ n := hn
      omega
    · cases List.mem_singleton.mp (Entries.mem_of_find? hfind)
      exact not_hasKey_of_nil rfl _ hchild
  have hrun : twinSession.run steps =
      [.ok (joinedTwins ""), .error (.idIsFixed .condition), .ok (joinedTwins "orders")] := by rfl
  have hmem : .ok (joinedTwins "orders") ∈ twinSession.run steps := by
    rw [hrun]
    exact List.mem_of_getLast? rfl
  have hsteps : ∀ step ∈ steps, step.2.IsRevision := by
    simp only [steps, List.forall_mem_cons]
    exact ⟨⟨_, rfl, trivial⟩, ⟨_, rfl, trivial⟩, ⟨_, rfl, trivial⟩, nofun⟩
  have hfresh := hdraws.hasFreshKeys numbered_injective hsteps
  exact ⟨hfresh, frame_and_retention.1 attaching ⟨numbered, 1⟩ ⟨numbered, 3⟩ twins _ (by rfl), hmem,
    frame_and_retention.2 twinSession steps hfresh hsteps _ hmem⟩

end Session

end QueryComposer
