import QueryComposer.Proofs.Edit.Identifiers
import QueryComposer.Proofs.Edit.Ownership

/-!
# Runs from a blank query

In a run that starts from a blank query and takes no subquery from elsewhere, every identifier in
the tree came from the supply. That is the invariant that carries the run: what is drawn next
occurs nowhere in the tree, so the edits keep it that way that subqueries belong to conditions, and
no identifier ever stands in two places.

## Main definitions

* `Command.IsLocal` holds of the commands that bring no subquery from elsewhere.
* `Session.blank` is the session to start from.
* `Session.IsSound` is the invariant.

## Main results

* `Session.IsSound.advance`, `Session.IsSound.run`: steps and runs keep the invariant.
* `Session.isOwning_kept`: what that means for the queries.
-/

namespace QueryComposer

open Query

/-- Whatever the command puts into the tree is new. -/
def Command.IsLocal (c : Command) : Prop :=
  ∃ e, c = .edit e ∧ ∀ key child, e ≠ .replaceSubquery key child

namespace Session

/-- The session that begins with a blank query. -/
def blank (operation : Operation) (supply : Supply) : Session :=
  let (query, supply) := (Query.blank operation).run supply
  ⟨query, supply⟩

/-- The subqueries belong to the conditions, and the identifiers of the tree are all different and
were all drawn from the supply. -/
structure IsSound (s : Session) : Prop where
  supply : s.supply.IsProper
  owning : s.query.IsOwning
  nodup : s.query.ids.Nodup
  drawn : ∀ x ∈ s.query.ids, ∃ n < s.supply.drawn, s.supply.source n = x

variable {s s' : Session} {path : List String} {c : Command} {r : Query}

/-! ### What is drawn next -/

/-- What is drawn next does not occur in the tree. -/
theorem IsSound.not_mem_ids (hs : s.IsSound) {n : Nat} (hn : s.supply.drawn ≤ n) :
    s.supply.source n ∉ s.query.ids := by
  intro hmem
  obtain ⟨m, hm, heq⟩ := hs.drawn _ hmem
  have hnm : m = n := hs.supply.injective heq
  omega

theorem IsSound.isFresh (hs : s.IsSound) (hr : s.query.at? path = some r) (supply' : Supply) :
    r.IsFresh s.supply supply' := by
  intro n hn _
  have hnot : s.supply.source n ∉ r.ids := fun hmem => hs.not_mem_ids hn (mem_ids_of_at? hr hmem)
  refine ⟨fun hmem => hnot (mem_ids_of_mem_conditions hmem), ?_⟩
  intro hmem
  -- A key is the identifier of its subquery.
  obtain ⟨e, he, hkey⟩ := List.mem_map.mp hmem
  have howns := (hs.owning.at? hr).root
  rw [howns.keyed e he] at hkey
  exact hnot (mem_ids_of_mem he (hkey ▸ id_mem_ids e.2))

/-- Growing from identifiers that all differ, by some that are new, they still all differ. -/
theorem IsSound.nodup_of_grows (hs : s.IsSound) {q' : Query} {supply' : Supply}
    (h : s.query.Grows s.supply q' supply') : q'.ids.Nodup := by
  have hissued := hs.supply.nodup_issued supply'
  have hboth : (s.query.ids ++ s.supply.issued supply').Nodup := by
    rw [List.nodup_append]
    refine ⟨hs.nodup, hissued, ?_⟩
    rintro x hx y hy rfl
    obtain ⟨n, hn, rfl⟩ := hs.drawn x hx
    exact hs.supply.ne_of_mem_issued hy hn rfl
  rw [List.nodup_iff_count] at hboth ⊢
  intro x
  have hx := hboth x
  rw [List.count_append] at hx
  exact Nat.le_trans (h.count_ids_le x) hx

theorem IsSound.drawn_of_grows (hs : s.IsSound) {q' : Query} {supply' : Supply}
    (h : s.query.Grows s.supply q' supply') {x : String} (hx : x ∈ q'.ids) :
    ∃ n < supply'.drawn, supply'.source n = x := by
  have hpos := List.count_pos_iff.mpr hx
  have hle := h.count_ids_le x
  rw [h.source]
  by_cases hold : x ∈ s.query.ids
  · obtain ⟨n, hn, heq⟩ := hs.drawn x hold
    exact ⟨n, Nat.lt_of_lt_of_le hn h.drawn_le, heq⟩
  · have hzero := List.count_eq_zero.mpr hold
    have hnew : x ∈ s.supply.issued supply' := List.count_pos_iff.mp (by omega)
    obtain ⟨n, -, hn, heq⟩ := Supply.mem_issued_iff.mp hnew
    exact ⟨n, hn, heq⟩

/-! ### Steps and runs -/

theorem IsSound.blank (operation : Operation) {supply : Supply} (hsupply : supply.IsProper) :
    (blank operation supply).IsSound where
  supply := ⟨hsupply.injective, hsupply.ne_empty⟩
  owning := isOwning_blank operation supply
  nodup := by
    rw [List.nodup_iff_count]
    intro x
    have hcount := List.nodup_iff_count.mp
      (hsupply.nodup_issued ((Query.blank operation).run supply).2) x
    rwa [← count_ids_run_blank] at hcount
  drawn x hx := by
    have hpos : 0 < ((Query.blank operation).run supply).1.ids.count x := List.count_pos_iff.mpr hx
    rw [count_ids_run_blank] at hpos
    obtain ⟨n, -, hn, heq⟩ := Supply.mem_issued_iff.mp (List.count_pos_iff.mp hpos)
    exact ⟨n, hn, heq⟩

/-- **A step keeps the invariant.** -/
theorem IsSound.advance (hs : s.IsSound) (hc : c.IsLocal) (h : s.advance path c = .ok s') :
    s'.IsSound := by
  obtain ⟨e, rfl, he⟩ := hc
  obtain ⟨e', supply', hprepare, hedit⟩ := advance_ok h
  cases hprepare
  have hgrows := grows_editAt he hedit
  refine ⟨⟨?_, ?_⟩, ?_, hs.nodup_of_grows hgrows, fun x => hs.drawn_of_grows hgrows⟩
  · rw [hgrows.source]
    exact hs.supply.injective
  · rw [hgrows.source]
    exact hs.supply.ne_empty
  · have hfresh : ∀ r, s.query.at? path = some r → r.IsFresh s.supply s'.supply :=
      fun r hr => hs.isFresh hr s'.supply
    refine isOwning_editAt hedit hs.owning hs.supply.ne_empty hfresh ?_
    intro key child heq
    exact absurd heq (he key child)

/-- **So does a run**, through the steps that fail as well. -/
theorem IsSound.run (hs : s.IsSound) {steps : List (List String × Command)}
    (hsteps : ∀ step ∈ steps, step.2.IsLocal) {q : Query} (hq : .ok q ∈ s.run steps) :
    q.IsOwning ∧ q.ids.Nodup := by
  obtain ⟨s', hs', rfl⟩ := exists_of_mem_run (C := fun step => step.2.IsLocal)
    (fun _ _ _ _ hs hc => hs.advance hc) hs hsteps hq
  exact ⟨hs'.owning, hs'.nodup⟩

/-- **Subqueries belong to conditions, whatever is edited.** A successful edit at a path keeps it so
if what it draws is not empty and new to the query that it edits. In a run from a blank query with
identifiers that are never repeated this is always the case: after any number of steps, some of
which may have failed, subqueries belong to conditions and all identifiers in the tree are
different. -/
theorem isOwning_kept :
    (∀ (e : Edit) (path : List String) (supply supply' : Supply) (q q' : Query),
      q.IsOwning → (∀ key child, e = .replaceSubquery key child → child.IsOwning) →
      (∀ n, supply.source n ≠ "") → (∀ r, q.at? path = some r → r.IsFresh supply supply') →
      q.editAt (e.apply supply) path = .ok (q', supply') → q'.IsOwning) ∧
    ∀ (operation : Operation) (supply : Supply) (steps : List (List String × Command)),
      supply.IsProper → (∀ step ∈ steps, step.2.IsLocal) →
      ∀ q, q = (Session.blank operation supply).query ∨
        .ok q ∈ (Session.blank operation supply).run steps → q.IsOwning ∧ q.ids.Nodup := by
  constructor
  · intro e path supply supply' q q' hq hchild hne hfresh h
    exact isOwning_editAt h hq hne hfresh hchild
  · intro operation supply steps hsupply hsteps q hq
    have hstart := IsSound.blank operation hsupply
    rcases hq with rfl | hq
    · exact ⟨hstart.owning, hstart.nodup⟩
    · exact hstart.run hsteps hq

/-- A query whose only condition has a subquery. -/
def nested : Query :=
  { bare "0000001" .select with
    pairs := [Pair.blank "0000000"]
    conditions := [{ Condition.blank "0000002" with subqueryId := some "0000004" }]
    subqueries := [("0000004", { bare "0000004" .select with pairs := [Pair.blank "0000003"] })] }

/-- The subquery is attached, by an edit and in a run whose last step fails. -/
theorem isOwning_kept_nested :
    let unnested := (Session.blank .select (.ofSource numbered)).query.addCondition "0000002"
    let steps := [([], .edit .addCondition), ([], .edit (.attach "0000002" 0)),
      ([], .edit (.detach "0"))]
    (unnested.editAt (Edit.apply (.attach "0000002" 0) ⟨numbered, 3⟩) [] =
        .ok (nested, ⟨numbered, 5⟩) ∧ nested.IsOwning) ∧
      .ok nested ∈ (Session.blank .select (.ofSource numbered)).run steps ∧
        nested.IsOwning ∧ nested.ids.Nodup := by
  intro unnested steps
  have hedit : unnested.editAt (Edit.apply (.attach "0000002" 0) ⟨numbered, 3⟩) [] =
      .ok (nested, ⟨numbered, 5⟩) := by rfl
  have hrun : (Session.blank .select (.ofSource numbered)).run steps =
      [.ok unnested, .ok nested, .error (.notFound .condition "0")] := by rfl
  have hmem : .ok nested ∈ (Session.blank .select (.ofSource numbered)).run steps := by
    rw [hrun]
    exact List.mem_cons_of_mem _ List.mem_cons_self
  have howning : unnested.IsOwning :=
    (isOwning_blank .select (.ofSource numbered)).addCondition (by decide)
  have hne : ∀ key child, Edit.attach "0000002" 0 ≠ .replaceSubquery key child :=
    fun key child heq => by cases heq
  refine ⟨⟨hedit, isOwning_kept.1 _ [] _ _ _ _ howning
    (fun key child heq => absurd heq (hne key child)) numbered_ne_empty ?_ hedit⟩, hmem,
    isOwning_kept.2 .select _ steps Supply.isProper_numbered ?_ nested (.inr hmem)⟩
  · rintro r hr n (hn : 3 ≤ n) -
    cases hr
    refine ⟨fun hmem => ?_, nofun⟩
    have htwo : numbered n = numbered 2 := List.mem_singleton.mp hmem
    have hn := numbered_injective htwo
    omega
  · simp only [steps, List.forall_mem_cons]
    exact ⟨⟨_, rfl, nofun⟩, ⟨_, rfl, hne⟩, ⟨_, rfl, fun key child heq => by cases heq⟩, nofun⟩

end Session

end QueryComposer
