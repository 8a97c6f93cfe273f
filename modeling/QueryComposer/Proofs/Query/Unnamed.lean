import Mathlib.Data.List.Basic
import Mathlib.Order.Nat
import QueryComposer.Proofs.Entries
import QueryComposer.Proofs.Intake.Yields
import QueryComposer.Proofs.Query.Height
import QueryComposer.Query.Intake

/-!
# Queries without their identifiers

Data may leave out identifiers, and the supply gives them then. So what is read from it depends on
the supply, but in nothing else: the identifiers of queries and of their parts are drawn, while the
links of conditions and the keys of subqueries stand in the data. Without the identifiers, the same
query is read with every supply.

## Main definitions

* `Query.unnamed` is the query with the identifiers of its tree removed.

## Main results

* `Query.agrees_read`: what is read is the same, but for identifiers.
* `Query.count_unnamed`, `Query.height_unnamed`: the size of the tree does not depend on them.
-/

namespace QueryComposer

open Intake

/-- The pair without its identifier. -/
def Pair.unnamed (p : Pair) : Pair := { p with id := "" }

/-- The condition without its identifier. Its link stays. -/
def Condition.unnamed (c : Condition) : Condition := { c with id := "" }

/-- The join without its identifier. -/
def Join.unnamed (j : Join) : Join := { j with id := "" }

/-- The sort key without its identifier. -/
def SortKey.unnamed (s : SortKey) : SortKey := { s with id := "" }

namespace Query

mutual

/-- The query without the identifiers of its tree. Links stay, and the keys that they lead to. -/
def unnamed : Query → Query
  | ⟨_, operation, table, columns, pairs, conditions, joins, sortKeys, limit, subqueries⟩ =>
    ⟨"", operation, table, columns, pairs.map Pair.unnamed, conditions.map Condition.unnamed,
      joins.map Join.unnamed, sortKeys.map SortKey.unnamed, limit, unnamedBelow subqueries⟩

/-- The subqueries without the identifiers of their trees, under the same keys. -/
def unnamedBelow : List (String × Query) → List (String × Query)
  | [] => []
  | (k, q) :: es => (k, unnamed q) :: unnamedBelow es

end

theorem unnamedBelow_eq (es : List (String × Query)) :
    unnamedBelow es = es.map fun e => (e.1, e.2.unnamed) := by
  induction es with
  | nil => rfl
  | cons e es ih => rw [unnamedBelow, ih, List.map_cons]

theorem unnamed_eq (q : Query) : q.unnamed =
    { q with
      id := ""
      pairs := q.pairs.map Pair.unnamed
      conditions := q.conditions.map Condition.unnamed
      joins := q.joins.map Join.unnamed
      sortKeys := q.sortKeys.map SortKey.unnamed
      subqueries := q.subqueries.map fun e => (e.1, e.2.unnamed) } := by
  cases q
  rw [unnamed, unnamedBelow_eq]

theorem count_unnamed (q : Query) : q.unnamed.count = q.count := by
  induction q using Query.induct with
  | step q ih =>
    rw [count_eq, count_eq q, unnamed_eq, List.foldr_map]
    exact List.foldr_ext _ _ _ fun e he n => by rw [ih e he]

theorem height_unnamed (q : Query) : q.unnamed.height = q.height := by
  induction q using Query.induct with
  | step q ih =>
    refine eq_of_forall_ge_iff fun n => ?_
    rw [height_le_iff, height_le_iff, unnamed_eq, List.forall_mem_map]
    exact forall₂_congr fun e he => by rw [ih e he]

theorem height_eq_of_unnamed_eq {q q' : Query} (h : q.unnamed = q'.unnamed) :
    q.height = q'.height := by
  rw [← height_unnamed q, ← height_unnamed q', h]

/-- Without identifiers, the conditions lead to the same subqueries. -/
theorem operand?_unnamed (q : Query) (c : Condition) :
    q.unnamed.operand? c.unnamed = (q.operand? c).map unnamed := by
  have hfind : ∀ key, Entries.find? key q.unnamed.subqueries =
      (Entries.find? key q.subqueries).map unnamed := by
    intro key
    rw [unnamed_eq]
    exact Entries.find?_map key unnamed q.subqueries
  rw [operand?, operand?, Option.map_bind, funext hfind]
  rfl

end Query

/-! ### Reading -/

theorem Pair.agrees_read (v : Json) : (Pair.read v).Agrees fun p p' => p.unnamed = p'.unnamed := by
  cases v with
  | object es =>
    refine Agrees.seq_eq (Agrees.seq_eq (.map_any ?_) (agrees_field_eq agrees_text))
      (agrees_field_eq agrees_text)
    exact fun id id' column value => rfl
  | _ => exact agrees_fail _

theorem Condition.agrees_read (v : Json) :
    (Condition.read v).Agrees fun c c' => c.unnamed = c'.unnamed := by
  cases v with
  | object es =>
    refine Agrees.seq_eq (Agrees.seq_eq (Agrees.seq_eq (Agrees.seq_eq (Agrees.seq_eq (.map_any ?_)
      (agrees_field_eq agrees_text)) (agrees_field_eq agrees_choice))
      (agrees_field_eq agrees_text)) (agrees_field_eq agrees_choice))
      (agrees_field_eq agrees_optionalText)
    exact fun id id' column operator value gate subqueryId => rfl
  | _ => exact agrees_fail _

theorem Join.agrees_read (v : Json) : (Join.read v).Agrees fun j j' => j.unnamed = j'.unnamed := by
  cases v with
  | object es =>
    refine Agrees.seq_eq (Agrees.seq_eq (Agrees.seq_eq (Agrees.seq_eq (.map_any ?_)
      (agrees_field_eq agrees_choice)) (agrees_field_eq agrees_text))
      (agrees_field_eq agrees_text)) (agrees_field_eq agrees_text)
    exact fun id id' kind table left right => rfl
  | _ => exact agrees_fail _

theorem SortKey.agrees_read (v : Json) :
    (SortKey.read v).Agrees fun s s' => s.unnamed = s'.unnamed := by
  cases v with
  | object es =>
    refine Agrees.seq_eq (Agrees.seq_eq (.map_any ?_) (agrees_field_eq agrees_text))
      (agrees_field_eq agrees_choice)
    exact fun id id' column direction => rfl
  | _ => exact agrees_fail _

namespace Query

theorem agrees_ofFields {subqueries : Intake (List (String × Query))}
    (h : subqueries.Agrees fun qs qs' => unnamedBelow qs = unnamedBelow qs')
    (es : List (String × Json)) :
    (ofFields fresh (bare "" .select) subqueries es).Agrees fun q q' => q.unnamed = q'.unnamed := by
  have hitems : ∀ {α : Type} {read : Json → Intake α} {f : α → α}
      (_ : ∀ v, (read v).Agrees fun a a' => f a = f a') (field : Field),
      (Intake.field field (items read) (done []) es).Agrees fun as as' => as.map f = as'.map f :=
    fun hread field => agrees_field (fun _ v _ => agrees_items hread v) fun _ => agrees_done rfl
  have hpairs := hitems Pair.agrees_read .pairs
  have hconditions := hitems Condition.agrees_read .conditions
  have hjoins := hitems Join.agrees_read .joins
  have hsortKeys := hitems SortKey.agrees_read .sortKeys
  refine Agrees.seq (Agrees.seq_eq (Agrees.seq (Agrees.seq (Agrees.seq (Agrees.seq
    (Agrees.seq_eq (Agrees.seq_eq (Agrees.seq_eq (.map_any ?_) (agrees_field_eq agrees_choice))
    (agrees_field_eq agrees_text)) (agrees_field_eq agrees_text)) hpairs) hconditions) hjoins)
    hsortKeys) (agrees_field_eq agrees_text)) h
  intro id id' operation table columns pairs pairs' hpairs conditions conditions' hconditions
    joins joins' hjoins sortKeys sortKeys' hsortKeys limit subqueries subqueries' hsubqueries
  rw [unnamed, unnamed, hpairs, hconditions, hjoins, hsortKeys, hsubqueries]

mutual

/-- **What is read is the same with every supply**, but for identifiers. -/
theorem agrees_read : ∀ v, (read v).Agrees fun q q' => q.unnamed = q'.unnamed
  | .object es => by
    rw [read]
    refine agrees_ofFields ?_ es
    cases hkey : readUnder? Field.subqueries.key es with
    | some x => exact agrees_readUnder? es hkey
    | none =>
      cases halt : readUnder? Field.subqueries.altKey es with
      | some x => exact agrees_readUnder? es halt
      | none => exact agrees_done rfl
  | .null | .bool _ | .number _ | .string _ | .array _ => agrees_fail _

theorem agrees_readUnder? {key : String} {x : Intake (List (String × Query))} :
    ∀ es, readUnder? key es = some x →
      x.Agrees fun qs qs' => unnamedBelow qs = unnamedBelow qs'
  | [] => nofun
  | (k, v) :: es => by
    intro h
    rw [readUnder?] at h
    split at h
    · cases h
      exact (agrees_readMap v).under _
    · exact agrees_readUnder? es h

theorem agrees_readMap :
    ∀ v, (readMap v).Agrees fun qs qs' => unnamedBelow qs = unnamedBelow qs'
  | .object es => by
    rw [readMap]
    exact agrees_readEntries es
  | .null | .bool _ | .number _ | .string _ | .array _ => agrees_fail _

theorem agrees_readEntries :
    ∀ es, (readEntries es).Agrees fun qs qs' => unnamedBelow qs = unnamedBelow qs'
  | [] => agrees_done rfl
  | (k, v) :: es => by
    rw [readEntries]
    refine Agrees.seq (((agrees_read v).under (.key k)).map fun q q' hq qs qs' hqs => ?_)
      (agrees_readEntries es)
    rw [unnamedBelow, unnamedBelow, hq, hqs]

end

end Query

end QueryComposer
