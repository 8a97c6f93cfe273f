import QueryComposer.Edit.Session
import QueryComposer.Proofs.Edit.Part

/-!
# What the edits of one query do

For each edit there is one statement of everything that it does where it succeeds, and with which
guards. Invariants are derived from these and look at no edit again.

## Main results

* `Query.setFields_ok`, `Query.updateCondition_ok`: what stays as it is.
* `Query.removeCondition_ok`, `Query.attach_ok`, `Query.detach_ok`, `Query.setOperator_ok`,
  `Query.replaceSubquery_ok`: the edits that work on subqueries.
* `Edit.SparesConditions.apply_ok`: most edits leave conditions and subqueries as they are.
* `Query.attach_error`, `Query.updateCondition_error`, `Query.setOperator_error`: why they fail.
-/

namespace QueryComposer

open Intake

theorem Except.map_eq_ok {ε α β : Type} {f : α → β} {x : Except ε α} {b : β}
    (h : x.map f = .ok b) : ∃ a, x = .ok a ∧ f a = b := by
  cases x with
  | error e => cases h
  | ok a =>
    cases h
    exact ⟨a, rfl, rfl⟩

theorem Except.bind_eq_ok {ε α β : Type} {f : α → Except ε β} {x : Except ε α} {b : β}
    (h : x >>= f = .ok b) : ∃ a, x = .ok a ∧ f a = .ok b := by
  cases x with
  | error e => cases h
  | ok a => exact ⟨a, rfl, h⟩

theorem Except.map_eq_error {ε α β : Type} {f : α → β} {x : Except ε α} {e : ε}
    (h : x.map f = .error e) : x = .error e := by
  cases x with
  | error e' =>
    cases h
    rfl
  | ok a => cases h

theorem Except.bind_eq_error {ε α β : Type} {f : α → Except ε β} {x : Except ε α} {e : ε}
    (h : x >>= f = .error e) : x = .error e ∨ ∃ a, x = .ok a ∧ f a = .error e := by
  cases x with
  | error e' =>
    cases h
    exact .inl rfl
  | ok a => exact .inr ⟨a, rfl, h⟩

/-- The link of a condition can not be changed together with its other fields. -/
theorem Condition.link?_of_change {changes : List (String × Json)} {c c' : Condition}
    (hlink : Entries.find? Field.subqueryId.altKey changes = none)
    (h : Part.change changes c = .ok c') : c'.link? = c.link? := by
  refine Part.change_ok (P := fun c' => c'.link? = c.link?) h ?_
  intro hnames
  have habsent : Field.subqueryId.find? changes = none :=
    Field.find?_eq_none_iff.mpr ⟨find?_of_strangeNames_eq_nil hnames (by decide), hlink⟩
  refine Yields.seq (Yields.seq_all (Yields.seq_all (Yields.seq_all (Yields.seq_all
    (Yields.map (P := fun _ => True) (.of_forall fun _ => trivial) ?_)))))
    (yields_field_of_absent habsent optionalText c.subqueryId)
  rintro id - column operator value gate subqueryId rfl
  rfl

namespace Query

variable {q q' child : Query} {id : String} {changes : List (String × Json)}

theorem setFields_ok (h : q.setFields changes = .ok q') :
    q'.id = q.id ∧ q'.pairs = q.pairs ∧ q'.conditions = q.conditions ∧ q'.joins = q.joins ∧
      q'.sortKeys = q.sortKeys ∧ q'.subqueries = q.subqueries := by
  unfold setFields at h
  split at h
  · next hnames =>
    have habsent : ∀ f : Field, f.key ∉ scalarFields.map Field.altKey →
        f.altKey ∉ scalarFields.map Field.altKey → f.find? changes = none :=
      fun f hkey halt => Field.find?_eq_none_iff.mpr
        ⟨find?_of_strangeNames_eq_nil hnames hkey, find?_of_strangeNames_eq_nil hnames halt⟩
    refine EditError.ofIntake_ok (P := fun q' => q'.id = q.id ∧ q'.pairs = q.pairs ∧
      q'.conditions = q.conditions ∧ q'.joins = q.joins ∧ q'.sortKeys = q.sortKeys ∧
        q'.subqueries = q.subqueries) h ?_
    have hid := yields_field_of_absent (habsent .id (by decide) (by decide)) text q.id
    have hpairs := yields_field_of_absent (habsent .pairs (by decide) (by decide))
      (items Pair.read) q.pairs
    have hconditions := yields_field_of_absent (habsent .conditions (by decide) (by decide))
      (items Condition.read) q.conditions
    have hjoins := yields_field_of_absent (habsent .joins (by decide) (by decide))
      (items Join.read) q.joins
    have hkeys := yields_field_of_absent (habsent .sortKeys (by decide) (by decide))
      (items SortKey.read) q.sortKeys
    refine Yields.seq (Yields.seq_all (Yields.seq (Yields.seq (Yields.seq (Yields.seq
      (Yields.seq_all (Yields.seq_all (Yields.seq_all (hid.map ?_)))) hpairs) hconditions) hjoins)
      hkeys)) (yields_done (P := fun es => es = q.subqueries) rfl)
    rintro id rfl operation table columns pairs rfl conditions rfl joins rfl sortKeys rfl limit
      subqueries rfl
    exact ⟨rfl, rfl, rfl, rfl, rfl, rfl⟩
  · cases h

theorem updateCondition_ok (h : q.updateCondition id changes = .ok q') :
    ∃ conditions, q' = { q with conditions } ∧
      conditions.map Condition.id = q.conditions.map Condition.id ∧
        conditions.map Condition.link? = q.conditions.map Condition.link? := by
  unfold updateCondition at h
  split at h
  · cases h
  · next hlink =>
    rw [Bool.not_eq_true, Option.isSome_eq_false_iff, Option.isNone_iff_eq_none] at hlink
    obtain ⟨conditions, hupdate, rfl⟩ := Except.map_eq_ok h
    exact ⟨conditions, rfl, Part.map_id_update hupdate,
      Part.map_update hupdate fun _ _ _ hc => Condition.link?_of_change hlink hc⟩

theorem removeCondition_ok (h : q.removeCondition id = .ok q') :
    ∃ c ∈ q.conditions, c.id = id ∧
      q' = { q with
        conditions := q.conditions.filter fun c => c.id ≠ id
        subqueries := without c q.subqueries } := by
  obtain ⟨c, hc, h⟩ := Except.bind_eq_ok h
  obtain ⟨conditions, hconditions, h⟩ := Except.bind_eq_ok h
  obtain ⟨hmem, hid⟩ := Part.find_ok hc
  rw [Part.remove_ok hconditions] at h
  cases h
  exact ⟨c, hmem, hid, rfl⟩

theorem attach_ok {depth : Int} (h : q.attach child id depth = .ok q') :
    depth < maxDepth ∧ ∃ c ∈ q.conditions, c.id = id ∧ c.link? = none ∧
      q' = { q with
        conditions := q.mapConditions id fun c => { c with subqueryId := some child.id }
        subqueries := Entries.put child.id child q.subqueries } := by
  unfold attach at h
  split at h
  · cases h
  · next hdepth =>
    obtain ⟨c, hc, h⟩ := Except.bind_eq_ok h
    obtain ⟨hmem, hid⟩ := Part.find_ok hc
    split at h
    · cases h
    · next hlink =>
      cases h
      exact ⟨Int.not_le.mp hdepth, c, hmem, hid, hlink, rfl⟩

theorem detach_ok (h : q.detach id = .ok q') :
    ∃ c ∈ q.conditions, c.id = id ∧ ∃ key, c.link? = some key ∧
      q' = { q with
        conditions := q.mapConditions id fun c => { c with subqueryId := none, value := "" }
        subqueries := Entries.erase key q.subqueries } := by
  obtain ⟨c, hc, h⟩ := Except.bind_eq_ok h
  obtain ⟨hmem, hid⟩ := Part.find_ok hc
  split at h
  · cases h
  · next key hlink =>
    cases h
    exact ⟨c, hmem, hid, key, hlink, rfl⟩

/-- An operator is changed, and perhaps a subquery attached after that. -/
theorem setOperator_ok {supply supply' : Supply} {operator : Json} {depth : Int}
    (h : q.setOperator supply id operator depth = .ok (q', supply')) :
    ∃ q₁, q.updateCondition id [(Field.operator.key, operator)] = .ok q₁ ∧
      (q' = q₁ ∧ supply' = supply ∨
        q₁.attach ((blank .select).run supply).1 id depth = .ok q' ∧
          supply' = ((blank .select).run supply).2) := by
  obtain ⟨q₁, hq₁, h⟩ := Except.bind_eq_ok h
  obtain ⟨c, hc, h⟩ := Except.bind_eq_ok h
  refine ⟨q₁, hq₁, ?_⟩
  split at h
  · obtain ⟨q₂, hq₂, h⟩ := Except.bind_eq_ok h
    cases h
    exact .inr ⟨hq₂, rfl⟩
  · cases h
    exact .inl ⟨rfl, rfl⟩

theorem replaceSubquery_ok {key : String} (h : q.replaceSubquery key child = .ok q') :
    (∃ old, Entries.find? key q.subqueries = some old) ∧ child.id = key ∧
      q' = { q with subqueries := Entries.put key child q.subqueries } := by
  unfold replaceSubquery at h
  split at h
  · cases h
  · next hfind =>
    split at h
    · cases h
    · next hid =>
      cases h
      rw [Bool.not_eq_true, Option.isNone_eq_false_iff, Option.isSome_iff_exists] at hfind
      exact ⟨hfind, Decidable.not_not.mp hid, rfl⟩

/-! ### Why an edit of a condition fails -/

theorem attach_error {depth : Int} {e : EditError} (h : q.attach child id depth = .error e) :
    (maxDepth ≤ depth ∧ e = .tooDeep depth) ∨ e = .notFound .condition id ∨
      e = .alreadyLinked id := by
  unfold attach at h
  split at h
  · next hdepth =>
    cases h
    exact .inl ⟨hdepth, rfl⟩
  · rcases Except.bind_eq_error h with hfind | ⟨c, -, h⟩
    · exact .inr (.inl (Part.find_error hfind))
    · split at h
      · cases h
        exact .inr (.inr rfl)
      · cases h

theorem updateCondition_error {e : EditError} (h : q.updateCondition id changes = .error e) :
    e = .linkIsFixed ∨ e = .idIsFixed .condition ∨ e = .notFound .condition id ∨
      (∃ names, e = .unknownFields .condition names) ∨
        ∃ issues, e = .invalid .condition issues := by
  unfold updateCondition at h
  split at h
  · cases h
    exact .inl rfl
  · rcases Part.update_error (Except.map_eq_error h) with rfl | rfl | ⟨c, -, hchange⟩
    · exact .inr (.inl rfl)
    · exact .inr (.inr (.inl rfl))
    · exact .inr (.inr (.inr (Part.change_error hchange)))

/-- A subquery is attached only where there is room, so an operator is never refused for want of
it. -/
theorem setOperator_error {supply : Supply} {operator : Json} {depth : Int} {e : EditError}
    (h : q.setOperator supply id operator depth = .error e) :
    q.updateCondition id [(Field.operator.key, operator)] = .error e ∨
      e = .notFound .condition id ∨ e = .alreadyLinked id := by
  rcases Except.bind_eq_error h with h | ⟨r, -, h⟩
  · exact .inl h
  rcases Except.bind_eq_error h with h | ⟨c, -, h⟩
  · exact .inr (.inl (Part.find_error h))
  split at h
  · next hroom =>
    rcases Except.bind_eq_error h with h | ⟨r', -, h⟩
    · rcases attach_error h with ⟨hdepth, -⟩ | hother
      · exact absurd hroom.2.1 (Int.not_lt.mpr hdepth)
      · exact .inr hother
    · cases h
  · cases h

/-! ### Edits further down -/

/-- An edit further down the path edits the subquery, which then comes into its old place. -/
theorem editAt_cons_ok {α : Type} {edit : Query → Except EditError (Query × α)} {a : α}
    {key : String} {path : List String} (h : q.editAt edit (key :: path) = .ok (q', a)) :
    ∃ child child', Entries.find? key q.subqueries = some child ∧
      child.editAt edit path = .ok (child', a) ∧ q.replaceSubquery key child' = .ok q' := by
  unfold editAt at h
  split at h
  · cases h
  · next child hfind =>
    obtain ⟨⟨child', b⟩, hedit, h⟩ := Except.bind_eq_ok h
    obtain ⟨r, hreplace, h⟩ := Except.bind_eq_ok h
    cases h
    exact ⟨child, child', hfind, hedit, hreplace⟩

/-- A blank query draws two identifiers, the first for its pair and the second for itself. -/
theorem run_blank (operation : Operation) (supply : Supply) :
    (blank operation).run supply =
      ({ bare (supply.source (supply.drawn + 1)) operation with
          pairs := [Pair.blank (supply.source supply.drawn)] },
        ⟨supply.source, supply.drawn + 2⟩) := rfl

end Query

/-- An edit that draws nothing leaves the supply as it was. -/
theorem Edit.keeping_ok {edit : Query → Except EditError Query} {supply supply' : Supply}
    {q q' : Query} (h : keeping edit supply q = .ok (q', supply')) :
    edit q = .ok q' ∧ supply' = supply := by
  obtain ⟨r, hr, heq⟩ := Except.map_eq_ok h
  cases heq
  exact ⟨hr, rfl⟩

theorem Edit.apply_attach_ok {supply supply' : Supply} {q q' : Query} {id : String} {depth : Int}
    (h : (Edit.attach id depth).apply supply q = .ok (q', supply')) :
    q.attach ((Query.blank .select).run supply).1 id depth = .ok q' ∧
      supply' = ((Query.blank .select).run supply).2 := by
  obtain ⟨r, hr, heq⟩ := Except.map_eq_ok h
  cases heq
  exact ⟨hr, rfl⟩

/-- The edit has nothing to do with conditions, and so with subqueries neither. -/
def Edit.SparesConditions : Edit → Prop
  | .addCondition | .updateCondition .. | .removeCondition _ | .setOperator .. | .attach ..
  | .detach _ | .replaceSubquery .. => False
  | _ => True

theorem Edit.SparesConditions.apply_ok {e : Edit} (he : e.SparesConditions)
    {supply supply' : Supply} {q q' : Query} (h : e.apply supply q = .ok (q', supply')) :
    q'.conditions = q.conditions ∧ q'.subqueries = q.subqueries := by
  cases e with
  | setFields changes =>
    obtain ⟨hr, rfl⟩ := keeping_ok h
    obtain ⟨-, -, hconditions, -, -, hsubqueries⟩ := Query.setFields_ok hr
    exact ⟨hconditions, hsubqueries⟩
  | addPair =>
    cases h
    exact ⟨rfl, rfl⟩
  | addJoin =>
    cases h
    exact ⟨rfl, rfl⟩
  | addSortKey =>
    cases h
    exact ⟨rfl, rfl⟩
  | updatePair id changes =>
    obtain ⟨hr, rfl⟩ := keeping_ok h
    obtain ⟨pairs, -, rfl⟩ := Except.map_eq_ok hr
    exact ⟨rfl, rfl⟩
  | removePair id =>
    obtain ⟨hr, rfl⟩ := keeping_ok h
    obtain ⟨pairs, -, rfl⟩ := Except.map_eq_ok hr
    exact ⟨rfl, rfl⟩
  | updateJoin id changes =>
    obtain ⟨hr, rfl⟩ := keeping_ok h
    obtain ⟨joins, -, rfl⟩ := Except.map_eq_ok hr
    exact ⟨rfl, rfl⟩
  | removeJoin id =>
    obtain ⟨hr, rfl⟩ := keeping_ok h
    obtain ⟨joins, -, rfl⟩ := Except.map_eq_ok hr
    exact ⟨rfl, rfl⟩
  | updateSortKey id changes =>
    obtain ⟨hr, rfl⟩ := keeping_ok h
    obtain ⟨sortKeys, -, rfl⟩ := Except.map_eq_ok hr
    exact ⟨rfl, rfl⟩
  | removeSortKey id =>
    obtain ⟨hr, rfl⟩ := keeping_ok h
    obtain ⟨sortKeys, -, rfl⟩ := Except.map_eq_ok hr
    exact ⟨rfl, rfl⟩
  | _ => exact he.elim

/-- A step that succeeds is an edit at its path. -/
theorem Session.advance_ok {s s' : Session} {path : List String} {c : Command}
    (h : s.advance path c = .ok s') :
    ∃ e supply, prepare s.supply c = .ok (e, supply) ∧
      s.query.editAt (e.apply supply) path = .ok (s'.query, s'.supply) := by
  obtain ⟨⟨e, supply⟩, hprepare, h⟩ := Except.bind_eq_ok h
  obtain ⟨⟨query, supply'⟩, hedit, h⟩ := Except.bind_eq_ok h
  cases h
  exact ⟨e, supply, hprepare, hedit⟩

/-- **What the steps keep, a run keeps**, through the steps that fail as well. -/
theorem Session.exists_of_mem_run {P : Session → Prop} {C : List String × Command → Prop}
    (hadvance : ∀ s s' path c, P s → C (path, c) → s.advance path c = .ok s' → P s') {s : Session}
    (hs : P s) {steps : List (List String × Command)} (hsteps : ∀ step ∈ steps, C step) {q : Query}
    (hq : .ok q ∈ s.run steps) : ∃ s', P s' ∧ s'.query = q := by
  induction steps generalizing s with
  | nil => cases hq
  | cons step steps ih =>
    obtain ⟨path, c⟩ := step
    obtain ⟨hc, hsteps⟩ := List.forall_mem_cons.mp hsteps
    rw [run] at hq
    split at hq
    · next s' hs' =>
      have hkept := hadvance s s' path c hs hc hs'
      rcases List.mem_cons.mp hq with heq | hq
      · cases heq
        exact ⟨s', hkept, rfl⟩
      · exact ih hkept hsteps hq
    · rcases List.mem_cons.mp hq with heq | hq
      · cases heq
      · exact ih hs hsteps hq

end QueryComposer
