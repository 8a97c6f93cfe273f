import QueryComposer.Proofs.Edit.Operators
import QueryComposer.Proofs.Edit.Path

/-!
# Taking back what was made

A part that was just added, or a subquery that was just attached, can be taken back, and then the
query is what it was, with everything in the same order. A subquery may have been edited at any
length before: as long as all edits go through its key, they change no more than the one entry under
the key (`Query.exists_edited_eq`), and that is the entry that goes.

The key has to be new. Under a key that was there already the attachment would have replaced another
subquery, which nothing brings back. The conditions have to be without a link in the strict sense: a
link that is empty is overwritten by the attachment and not restored either.

## Main definitions

* `Query.edited` is a query after edits at paths, through those that fail as well.

## Main results

* `Query.exists_edited_eq`: edits below a key change one entry.
* `Query.detach_edited`, `Query.removeCondition_edited`: a subquery is taken back.
* `Part.remove_concat`: so is a part.
* `Query.creation_undone`: all of these together.
-/

namespace QueryComposer

variable {α : Type}

/-- What has another name stays, and there is nothing else. -/
theorem filter_ne_of_notMem {name : α → String} {id : String} {as : List α}
    (h : id ∉ as.map name) : as.filter (fun a => name a ≠ id) = as := by
  rw [List.filter_eq_self]
  intro a ha
  exact decide_eq_true fun hid => h (hid ▸ List.mem_map_of_mem ha)

/-! ### Edits below a key -/

/-- A query after some edits at paths. An edit that fails leaves the query as it was. -/
def Query.edited (q : Query) :
    List (List String × (Query → Except EditError (Query × α))) → Query
  | [] => q
  | (path, edit) :: edits =>
    match q.editAt edit path with
    | .ok (q', _) => q'.edited edits
    | .error _ => q.edited edits

/-- What stands under a key already is put there again. -/
theorem Entries.put_self {key : String} {a : α} {es : Entries α} (h : find? key es = some a) :
    put key a es = es := by
  obtain ⟨before, after, rfl, hput⟩ := exists_put_eq h
  exact hput a

theorem Entries.erase_put_of_not_mem {key : String} {a : α} {es : Entries α}
    (h : key ∉ keys es) : erase key (put key a es) = es := by
  rw [put_of_not_mem h, erase, List.filter_append, filter_ne_of_notMem h]
  simp

namespace Part

variable [Part α] {id : String} {as : List α} {a : α}

theorem remove_of_mem (hmem : ∃ a ∈ as, Part.id a = id) :
    remove id as = .ok (as.filter fun a => Part.id a ≠ id) := by
  rw [remove, if_pos (by simpa using hmem)]

/-- Where the parts with an identifier are removed, it does not matter what became of them. -/
theorem filter_map_ne {f : α → α} (hf : ∀ a, Part.id (f a) = Part.id a) (id : String)
    (as : List α) : (as.map fun a => if Part.id a = id then f a else a).filter
      (fun a => Part.id a ≠ id) = as.filter fun a => Part.id a ≠ id := by
  induction as with
  | nil => rfl
  | cons a as ih =>
    rw [List.map_cons, List.filter_cons, List.filter_cons, ih]
    by_cases ha : Part.id a = id
    · simp [ha, hf]
    · simp [ha]

/-- A part that was just added can be taken back, if its identifier was new. -/
theorem remove_concat (hid : id ∉ as.map Part.id) (ha : Part.id a = id) :
    remove id (as ++ [a]) = .ok as := by
  rw [remove_of_mem ⟨a, List.mem_append_right _ List.mem_cons_self, ha⟩, List.filter_append,
    filter_ne_of_notMem hid]
  simp [ha]

theorem find_concat (hid : id ∉ as.map Part.id) (ha : Part.id a = id) :
    find id (as ++ [a]) = .ok a := by
  have hnone : as.find? (fun b => Part.id b = id) = none :=
    List.find?_eq_none.mpr fun b hb hbid => hid (of_decide_eq_true hbid ▸ List.mem_map_of_mem hb)
  rw [find, List.find?_append, hnone, Option.none_or, List.find?_singleton,
    if_pos (decide_eq_true ha)]

end Part

namespace Query

variable {q child : Query} {id key : String}
  {edits : List (List String × (Query → Except EditError (Query × α)))}

/-- **Edits below a key change the entry under it** and nothing else. -/
theorem exists_edited_eq (hfind : Entries.find? key q.subqueries = some child)
    (hpaths : ∀ step ∈ edits, ∃ path, step.1 = key :: path) :
    ∃ child', q.edited edits = { q with subqueries := Entries.put key child' q.subqueries } := by
  induction edits generalizing q child with
  | nil =>
    refine ⟨child, ?_⟩
    rw [Entries.put_self hfind]
    cases q
    rfl
  | cons step edits ih =>
    obtain ⟨path, edit⟩ := step
    obtain ⟨⟨path, rfl⟩, hrest⟩ := List.forall_mem_cons.mp hpaths
    rw [edited]
    split
    · next q' a hedit =>
      obtain ⟨old, child', -, -, hreplace⟩ := editAt_cons_ok hedit
      obtain ⟨-, -, rfl⟩ := replaceSubquery_ok hreplace
      have hback : Entries.find? key (Entries.put key child' q.subqueries) = some child' := by
        rw [Entries.find?_put, if_pos rfl]
      obtain ⟨child'', heq⟩ :=
        ih (q := { q with subqueries := Entries.put key child' q.subqueries }) hback hrest
      refine ⟨child'', heq.trans ?_⟩
      dsimp only
      rw [Entries.put_put]
    · exact ih hfind hrest

/-! ### Subqueries that are taken back -/

variable (hid : ∃ c ∈ q.conditions, c.id = id)
  (hnull : ∀ c ∈ q.conditions, c.id = id → c.subqueryId = none)

include hid hnull in
theorem linkOf?_of_null : Edit.linkOf? id q.conditions = none := by
  obtain ⟨c, hc⟩ : ∃ c, Part.find id q.conditions = .ok c := Part.exists_find hid
  obtain ⟨hmem, hcid⟩ := Part.find_ok hc
  rw [Edit.linkOf?_of_find hc, Condition.link?, hnull c hmem hcid, Option.filter_none]

/-- A subquery was attached, and only edited since. -/
theorem exists_edited_settle_eq (q child : Query) (id : String)
    (hpaths : ∀ step ∈ edits, ∃ path, step.1 = child.id :: path) :
    ∃ child', (q.settle id none (some child)).edited edits = { q with
      conditions := q.mapConditions id (Condition.settle none (some child.id))
      subqueries := Entries.put child.id child' q.subqueries } := by
  have hfind : Entries.find? child.id (Entries.put child.id child q.subqueries) = some child := by
    rw [Entries.find?_put, if_pos rfl]
  obtain ⟨child', heq⟩ :=
    exists_edited_eq (q := q.settle id none (some child)) hfind hpaths
  refine ⟨child', heq.trans ?_⟩
  rw [settle, Option.elim_some, Option.map_some]
  dsimp only
  rw [Entries.put_put]

include hid in
theorem linkOf?_linked (hne : key ≠ "") :
    Edit.linkOf? id (q.mapConditions id (Condition.settle none (some key))) = some key :=
  linkOf?_settle hid none (some (bare key .select)) fun _ hr => Option.some.inj hr ▸ hne

include hid hnull in
/-- **A subquery that is detached again leaves nothing behind**, but the conditions lose their
values. -/
theorem detach_edited (hne : child.id ≠ "") (hkey : child.id ∉ Entries.keys q.subqueries)
    (hpaths : ∀ step ∈ edits, ∃ path, step.1 = child.id :: path) :
    ((q.settle id none (some child)).edited edits).detach id =
      .ok { q with conditions := q.mapConditions id fun c => { c with value := "" } } := by
  obtain ⟨child', heq⟩ := exists_edited_settle_eq q child id hpaths
  have hlink := linkOf?_linked hid hne
  rw [heq]
  refine Edit.detach_ok_iff.mpr ⟨_, if_pos (by rw [hlink]; rfl), ?_⟩
  have hconditions : ((q.mapConditions id (Condition.settle none (some child.id))).map fun c =>
      if c.id = id then { c with subqueryId := none, value := "" } else c) =
        q.mapConditions id fun c => { c with value := "" } := by
    rw [mapConditions, mapConditions, List.map_map]
    refine List.map_congr_left fun c hc => ?_
    rw [Function.comp_apply]
    by_cases hcid : c.id = id
    · rw [if_pos hcid, if_pos hcid, if_pos (by exact hcid), hnull c hc hcid]
      rfl
    · rw [if_neg hcid, if_neg hcid, if_neg hcid]
  dsimp only
  rw [hlink, Edit.leaving_some, Entries.erase_put_of_not_mem hkey, hconditions]

include hid hnull in
/-- **A condition is removed together with the subquery that it got**, as if it had got none. -/
theorem removeCondition_edited (hne : child.id ≠ "") (hkey : child.id ∉ Entries.keys q.subqueries)
    (hpaths : ∀ step ∈ edits, ∃ path, step.1 = child.id :: path) :
    ∃ r, q.removeCondition id = .ok r ∧
      ((q.settle id none (some child)).edited edits).removeCondition id = .ok r := by
  obtain ⟨child', heq⟩ := exists_edited_settle_eq q child id hpaths
  have hremove : Part.remove id q.conditions = .ok (q.conditions.filter fun c => Part.id c ≠ id) :=
    Part.remove_of_mem hid
  have hremove' : Part.remove id (q.mapConditions id (Condition.settle none (some child.id))) =
      .ok (q.conditions.filter fun c => Part.id c ≠ id) :=
    (Part.remove_of_mem (exists_mem_settle hid none (some child))).trans
      (congrArg Except.ok (Part.filter_map_ne (f := Condition.settle none (some child.id))
        (fun _ => rfl) id q.conditions))
  rw [heq]
  refine ⟨_, Edit.removeCondition_ok_iff.mpr ⟨_, hremove, rfl⟩,
    Edit.removeCondition_ok_iff.mpr ⟨_, hremove', ?_⟩⟩
  rw [linkOf?_of_null hid hnull, Edit.leaving_none]
  dsimp only
  rw [linkOf?_linked hid hne, Edit.leaving_some, Entries.erase_put_of_not_mem hkey]

/-! ### Parts that are taken back -/

theorem removeCondition_addCondition (h : id ∉ q.conditions.map Condition.id) :
    (q.addCondition id).removeCondition id = .ok q := by
  have hfind : Part.find id (q.conditions ++ [Condition.blank id]) = .ok (Condition.blank id) :=
    Part.find_concat h rfl
  have hremove : Part.remove id (q.conditions ++ [Condition.blank id]) = .ok q.conditions :=
    Part.remove_concat h rfl
  refine Edit.removeCondition_ok_iff.mpr ⟨_, hremove, ?_⟩
  rw [addCondition, Edit.linkOf?_of_find hfind]
  change { q with subqueries := Edit.leaving none q.subqueries } = q
  rw [Edit.leaving_none]
  cases q
  rfl

/-- **Creation and removal are inverse.** Let the conditions with an identifier have no link, let
there be one at least, and let a subquery be attached to them where there is room, under a key that
is new and not empty. However the subquery is edited then, detaching it gives the query as it was,
with the values of these conditions empty, and removing the conditions gives what it would have
given before. A part that was just added under a new identifier is removed without a trace. -/
theorem creation_undone :
    (∀ (q child : Query) (id : String) (depth : Int), (∃ c ∈ q.conditions, c.id = id) →
      (∀ c ∈ q.conditions, c.id = id → c.subqueryId = none) → depth < maxDepth → child.id ≠ "" →
      child.id ∉ Entries.keys q.subqueries →
      ∃ q₁, q.attach child id depth = .ok q₁ ∧
        ∀ (α : Type) (edits : List (List String × (Query → Except EditError (Query × α)))),
          (∀ step ∈ edits, ∃ path, step.1 = child.id :: path) →
          (q₁.edited edits).detach id =
            .ok { q with conditions := q.mapConditions id fun c => { c with value := "" } } ∧
          ∃ r, q.removeCondition id = .ok r ∧ (q₁.edited edits).removeCondition id = .ok r) ∧
    ∀ (q : Query) (id : String),
      (id ∉ q.pairs.map Pair.id → (q.addPair id).removePair id = .ok q) ∧
      (id ∉ q.conditions.map Condition.id → (q.addCondition id).removeCondition id = .ok q) ∧
      (id ∉ q.joins.map Join.id → (q.addJoin id).removeJoin id = .ok q) ∧
      (id ∉ q.sortKeys.map SortKey.id → (q.addSortKey id).removeSortKey id = .ok q) := by
  constructor
  · intro q child id depth hid hnull hdepth hne hkey
    refine ⟨_, attach_of_linkOf? hid hdepth (linkOf?_of_null hid hnull) child, ?_⟩
    intro α edits hpaths
    exact ⟨detach_edited hid hnull hne hkey hpaths,
      removeCondition_edited hid hnull hne hkey hpaths⟩
  · intro q id
    refine ⟨fun h => ?_, removeCondition_addCondition, fun h => ?_, fun h => ?_⟩
    · have hremove : Part.remove id (q.pairs ++ [Pair.blank id]) = .ok q.pairs :=
        Part.remove_concat h rfl
      rw [removePair, addPair, hremove]
      cases q
      rfl
    · have hremove : Part.remove id (q.joins ++ [Join.blank id]) = .ok q.joins :=
        Part.remove_concat h rfl
      rw [removeJoin, addJoin, hremove]
      cases q
      rfl
    · have hremove : Part.remove id (q.sortKeys ++ [SortKey.blank id]) = .ok q.sortKeys :=
        Part.remove_concat h rfl
      rw [removeSortKey, addSortKey, hremove]
      cases q
      rfl

/-- Two conditions with one identifier and no link, between them one with a subquery. -/
def interleaved : Query :=
  { bare "root" .select with
    conditions := [⟨"c", "id", .among, "1", .and, none⟩, ⟨"d", "", .existing, "", .or, some "old"⟩,
      ⟨"c", "owner_id", .among, "2", .and, none⟩]
    subqueries := [("old", bare "old" .select)] }

/-- The subquery gets a condition with a subquery of its own, and one of the edits fails. -/
theorem creation_undone_interleaved :
    let child := Edit.attached (.ofSource numbered)
    let edits := [([child.id], Edit.addCondition.apply ⟨numbered, 2⟩),
      ([child.id, "gone"], Edit.addPair.apply ⟨numbered, 3⟩),
      ([child.id], (Edit.attach (numbered 2) 1).apply ⟨numbered, 3⟩)]
    (∃ q₁, interleaved.attach child "c" 0 = .ok q₁ ∧ (q₁.edited edits).count = 3 ∧
      (q₁.edited edits).detach "c" = .ok { interleaved with
        conditions := [⟨"c", "id", .among, "", .and, none⟩,
          ⟨"d", "", .existing, "", .or, some "old"⟩, ⟨"c", "owner_id", .among, "", .and, none⟩] } ∧
      ∃ r, interleaved.removeCondition "c" = .ok r ∧
        (q₁.edited edits).removeCondition "c" = .ok r) ∧
    "e" ∉ interleaved.conditions.map Condition.id ∧
      (interleaved.addCondition "e").removeCondition "e" = .ok interleaved := by
  intro child edits
  have hnull : ∀ c ∈ interleaved.conditions, c.id = "c" → c.subqueryId = none := by decide
  have hkey : numbered 1 ∉ ["old"] := by decide
  obtain ⟨q₁, hattach, hundone⟩ := creation_undone.1 interleaved child "c" 0
    ⟨_, List.mem_cons_self, rfl⟩ hnull (by decide) (numbered_ne_empty 1) hkey
  have hpaths : ∀ step ∈ edits, ∃ path, step.1 = child.id :: path := by
    simp only [edits, List.forall_mem_cons]
    exact ⟨⟨_, rfl⟩, ⟨_, rfl⟩, ⟨_, rfl⟩, nofun⟩
  obtain ⟨hdetach, hremove⟩ := hundone _ edits hpaths
  have hid : "e" ∉ interleaved.conditions.map Condition.id := by decide
  refine ⟨⟨q₁, hattach, ?_, hdetach, hremove⟩, hid, (creation_undone.2 interleaved "e").2.1 hid⟩
  cases hattach
  rfl

end Query

end QueryComposer
