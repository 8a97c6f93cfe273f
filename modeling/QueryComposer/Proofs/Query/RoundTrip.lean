import QueryComposer.Proofs.Intake.Yields
import QueryComposer.Proofs.Json.Keys
import QueryComposer.Proofs.Json.RoundTrip
import QueryComposer.Proofs.Query.Tree
import QueryComposer.Query.Encode
import QueryComposer.Query.Intake

/-!
# Queries that are read back

A query is written with all of its fields, so reading it back draws no identifier and leaves
nothing to a default. What is read from any data, on the other hand, is a tree of maps again: the
keys of subqueries come from an object, and an object that was read has no key twice.

## Main definitions

* `Query.HasDistinctKeys` says that no query of the tree keeps two subqueries under one key.

## Main results

* `Query.read_toJson`: a query is read back as it was written.
* `Query.isTextual_toJson`: it is written with texts, lists and maps only.
* `Query.yields_read`: every query that was read has distinct keys.
-/

namespace QueryComposer

open Intake

theorem Choice.ofName?_operation (o : Operation) :
    (Choice.ofName? (Choice.name o) : Option Operation) = some o := by
  cases o <;> rfl

theorem Intake.choice_name {α : Type} [Choice α] {a : α}
    (h : (Choice.ofName? (Choice.name a) : Option α) = some a) :
    choice α (.string (Choice.name a)) = done a := by
  simp only [choice, h]

theorem Pair.read_toJson (p : Pair) : Pair.read p.toJson = done p := rfl

theorem Condition.read_toJson (c : Condition) : Condition.read c.toJson = done c := by
  obtain ⟨id, column, operator, value, gate, subqueryId⟩ := c
  cases operator <;> cases gate <;> cases subqueryId <;> rfl

theorem Join.read_toJson (j : Join) : Join.read j.toJson = done j := by
  obtain ⟨id, kind, table, left, right⟩ := j
  cases kind <;> rfl

theorem SortKey.read_toJson (s : SortKey) : SortKey.read s.toJson = done s := by
  obtain ⟨id, column, direction⟩ := s
  cases direction <;> rfl

namespace Query

/-- No query of the tree keeps two subqueries under one key. -/
def HasDistinctKeys (q : Query) : Prop := q.Every fun q => (Entries.keys q.subqueries).Nodup

theorem readEntries_map {es : List (String × Query)}
    (h : ∀ e ∈ es, read e.2.toJson = done e.2) :
    readEntries (es.map fun e => (e.1, e.2.toJson)) = done es := by
  induction es with
  | nil => rfl
  | cons e es ih =>
    rw [List.map_cons, readEntries, h e List.mem_cons_self,
      ih fun f hf => h f (List.mem_cons_of_mem _ hf)]
    rfl

/-- **A query is read back as it was.** -/
theorem read_toJson (q : Query) : read q.toJson = done q := by
  induction q using Query.induct with
  | step q ih =>
    obtain ⟨id, operation, table, columns, pairs, conditions, joins, sortKeys, limit,
      subqueries⟩ := q
    have hpairs := itemsFrom_map (fun p (_ : p ∈ pairs) => p.read_toJson) 0
    have hconditions := itemsFrom_map (fun c (_ : c ∈ conditions) => c.read_toJson) 0
    have hjoins := itemsFrom_map (fun j (_ : j ∈ joins) => j.read_toJson) 0
    have hkeys := itemsFrom_map (fun s (_ : s ∈ sortKeys) => s.read_toJson) 0
    have hsubqueries := readEntries_map ih
    have hoperation := choice_name (Choice.ofName?_operation operation)
    rw [← entriesToJson_eq] at hsubqueries
    rw [toJson, read_object]
    change Query.mk <$> done id
      <*> (choice Operation (.string (Choice.name operation))).under _
      <*> done table <*> done columns
      <*> (itemsFrom Pair.read 0 (pairs.map Pair.toJson)).under _
      <*> (itemsFrom Condition.read 0 (conditions.map Condition.toJson)).under _
      <*> (itemsFrom Join.read 0 (joins.map Join.toJson)).under _
      <*> (itemsFrom SortKey.read 0 (sortKeys.map SortKey.toJson)).under _
      <*> done limit <*> (readEntries (entriesToJson subqueries)).under _ = _
    rw [hoperation, hpairs, hconditions, hjoins, hkeys, hsubqueries]
    rfl

/-! ### What is written -/

end Query

open Json

theorem Pair.isTextual_toJson (p : Pair) : p.toJson.IsTextual := by
  have hkeys : ["id", "column", "value"].Nodup := by decide
  refine .object hkeys ?_
  simp only [List.forall_mem_cons]
  exact ⟨.string _, .string _, .string _, List.forall_mem_nil _⟩

theorem Condition.isTextual_toJson (c : Condition) : c.toJson.IsTextual := by
  have hkeys : ["id", "column", "operator", "value", "logic"].Nodup := by decide
  have hkeys' : ["id", "column", "operator", "value", "logic", "subQueryId"].Nodup := by decide
  cases hs : c.subqueryId with
  | none =>
    rw [toJson, hs]
    refine .object hkeys ?_
    simp only [List.cons_append, List.nil_append, Option.map_none, Option.toList_none,
      List.forall_mem_cons]
    exact ⟨.string _, .string _, .string _, .string _, .string _, List.forall_mem_nil _⟩
  | some key =>
    rw [toJson, hs]
    refine .object hkeys' ?_
    simp only [List.cons_append, List.nil_append, Option.map_some, Option.toList_some,
      List.forall_mem_cons]
    exact ⟨.string _, .string _, .string _, .string _, .string _, .string _, List.forall_mem_nil _⟩

theorem Join.isTextual_toJson (j : Join) : j.toJson.IsTextual := by
  have hkeys : ["id", "type", "table", "onLeft", "onRight"].Nodup := by decide
  refine .object hkeys ?_
  simp only [List.forall_mem_cons]
  exact ⟨.string _, .string _, .string _, .string _, .string _, List.forall_mem_nil _⟩

theorem SortKey.isTextual_toJson (s : SortKey) : s.toJson.IsTextual := by
  have hkeys : ["id", "column", "direction"].Nodup := by decide
  refine .object hkeys ?_
  simp only [List.forall_mem_cons]
  exact ⟨.string _, .string _, .string _, List.forall_mem_nil _⟩

theorem Json.isTextual_array_map {α : Type} {write : α → Json} (as : List α)
    (h : ∀ a ∈ as, (write a).IsTextual) : IsTextual (.array (as.map write)) :=
  .array (List.forall_mem_map.mpr h)

namespace Query

/-- **A query is written with texts, lists and maps only.** -/
theorem isTextual_toJson {q : Query} (h : q.HasDistinctKeys) : q.toJson.IsTextual := by
  induction q using Query.induct with
  | step q ih =>
    have hsubqueries : IsTextual (.object (entriesToJson q.subqueries)) := by
      rw [entriesToJson_eq]
      refine .object ?_ (List.forall_mem_map.mpr fun e he => ih e he (h.subqueries e he))
      rw [Entries.keys, List.map_map]
      exact h.root
    obtain ⟨id, operation, table, columns, pairs, conditions, joins, sortKeys, limit,
      subqueries⟩ := q
    have hkeys : ["id", "operation", "table", "selectColumns", "pairs", "conditions", "joins",
      "orderBy", "limit", "subQueries"].Nodup := by decide
    rw [toJson]
    refine .object hkeys ?_
    simp only [List.forall_mem_cons]
    exact ⟨.string _, .string _, .string _, .string _,
      isTextual_array_map _ fun p _ => p.isTextual_toJson,
      isTextual_array_map _ fun c _ => c.isTextual_toJson,
      isTextual_array_map _ fun j _ => j.isTextual_toJson,
      isTextual_array_map _ fun s _ => s.isTextual_toJson, .string _, hsubqueries,
      List.forall_mem_nil _⟩

/-! ### What is read -/

/-- The entries can be the subqueries of a query. -/
def IsForest (es : List (String × Query)) : Prop :=
  (Entries.keys es).Nodup ∧ ∀ e ∈ es, e.2.HasDistinctKeys

/-- The subqueries are read entry by entry, each under the key that it has. -/
theorem yields_readEntries {P : String → Query → Prop} {es : List (String × Json)}
    (h : ∀ e ∈ es, (read e.2).Yields (P e.1)) :
    (readEntries es).Yields fun qs =>
      Entries.keys qs = Entries.keys es ∧ ∀ e ∈ qs, P e.1 e.2 := by
  induction es with
  | nil => exact yields_done ⟨rfl, nofun⟩
  | cons e es ih =>
    obtain ⟨k, v⟩ := e
    have hv := (h (k, v) List.mem_cons_self).under (.key k)
    have hes := ih fun e he => h e (List.mem_cons_of_mem _ he)
    rw [readEntries]
    refine (hv.map fun q hq => ?_).seq hes
    rintro qs ⟨hkeys, hqs⟩
    refine ⟨?_, List.forall_mem_cons.mpr ⟨hq, hqs⟩⟩
    rw [Entries.keys, List.map_cons, Entries.keys, List.map_cons]
    exact congrArg _ hkeys

/-- What the subqueries of a query settle about it. -/
theorem yields_ofFields {P : List (String × Query) → Prop} {R : Query → Prop} {id : Intake String}
    {base : Query} {subqueries : Intake (List (String × Query))} (h : subqueries.Yields P)
    (hR : ∀ q : Query, P q.subqueries → R q) (es : List (String × Json)) :
    (ofFields id base subqueries es).Yields R := by
  rw [ofFields]
  refine Yields.seq ?_ h
  iterate 8 refine Yields.seq_all ?_
  refine Yields.map (P := fun _ => True) (.of_forall fun _ => trivial) ?_
  exact fun id _ operation table columns pairs conditions joins sortKeys limit subqueries =>
    hR ⟨id, operation, table, columns, pairs, conditions, joins, sortKeys, limit, subqueries⟩

/-- A query is read with its subqueries, and they with theirs, so both ways of reading are followed
at once. -/
theorem yields_read_and_readMap {v : Json} (h : v.HasDistinctKeys) :
    (read v).Yields HasDistinctKeys ∧ (readMap v).Yields IsForest := by
  induction h with
  | @object es hkeys _ ih =>
    constructor
    · rw [read_object]
      refine yields_ofFields (P := IsForest) (yields_field (fun k v hv => ?_) fun _ => ?_)
        (fun q hforest => .intro hforest.1 hforest.2) es
      · exact (ih (k, v) (Entries.mem_of_find? (Field.find?_eq_some hv).2)).2
      · exact yields_done ⟨List.nodup_nil, nofun⟩
    · intro d hd supply
      obtain ⟨hk, hqs⟩ := yields_readEntries (P := fun _ => HasDistinctKeys)
        (fun e he => (ih e he).1) d hd supply
      exact ⟨hk ▸ hkeys, hqs⟩
  | _ => exact ⟨yields_fail _, yields_fail _⟩

/-- **What is read has distinct keys.** -/
theorem yields_read {v : Json} (h : v.HasDistinctKeys) : (read v).Yields HasDistinctKeys :=
  (yields_read_and_readMap h).1

end Query

end QueryComposer
