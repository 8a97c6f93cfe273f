import QueryComposer.Edit.Part

/-!
# Edits of one query

Every edit gives a new query or the reason why it cannot be done. A condition gets a subquery by
`attach` and loses it by `detach`, or together with the condition; the subquery is kept under its
own identifier, to which the condition is linked.

## Main definitions

* `Query.setFields` changes the single fields of a query.
* `Query.addPair`, `Query.updatePair` and `Query.removePair`, and the same for conditions, joins and
  sort keys.
* `Query.attach`, `Query.detach`, `Query.setOperator` and `Query.replaceSubquery` work on
  subqueries.

## Implementation notes

What is new in a query comes in as an argument: the identifier of a new part, the subquery that is
attached. Only `Query.setOperator` takes a supply, since it attaches a subquery in some cases only.
-/

namespace QueryComposer

namespace Query

/-- The fields that hold one value and no list. -/
def scalarFields : List Field := [.operation, .table, .columns, .limit]

/-- New values for single fields. A change that names any other field is refused as a whole. -/
def setFields (changes : List (String × Json)) (q : Query) : Except EditError Query :=
  match strangeNames scalarFields changes with
  | [] => EditError.ofIntake .query (ofFields (.done q.id) q (.done q.subqueries) changes)
  | names => .error (.notScalar names)

/-! ### Pairs -/

/-- One more pair, at the end. -/
def addPair (id : String) (q : Query) : Query := { q with pairs := q.pairs ++ [Pair.blank id] }

/-- New values for some fields of the pairs with the identifier. -/
def updatePair (id : String) (changes : List (String × Json)) (q : Query) :
    Except EditError Query :=
  (Part.update id changes q.pairs).map fun pairs => { q with pairs }

/-- The query without the pairs with the identifier. -/
def removePair (id : String) (q : Query) : Except EditError Query :=
  (Part.remove id q.pairs).map fun pairs => { q with pairs }

/-! ### Joins -/

/-- One more join, at the end. -/
def addJoin (id : String) (q : Query) : Query := { q with joins := q.joins ++ [Join.blank id] }

/-- New values for some fields of the joins with the identifier. -/
def updateJoin (id : String) (changes : List (String × Json)) (q : Query) :
    Except EditError Query :=
  (Part.update id changes q.joins).map fun joins => { q with joins }

/-- The query without the joins with the identifier. -/
def removeJoin (id : String) (q : Query) : Except EditError Query :=
  (Part.remove id q.joins).map fun joins => { q with joins }

/-! ### Sort keys -/

/-- One more sort key, at the end. -/
def addSortKey (id : String) (q : Query) : Query :=
  { q with sortKeys := q.sortKeys ++ [SortKey.blank id] }

/-- New values for some fields of the sort keys with the identifier. -/
def updateSortKey (id : String) (changes : List (String × Json)) (q : Query) :
    Except EditError Query :=
  (Part.update id changes q.sortKeys).map fun sortKeys => { q with sortKeys }

/-- The query without the sort keys with the identifier. -/
def removeSortKey (id : String) (q : Query) : Except EditError Query :=
  (Part.remove id q.sortKeys).map fun sortKeys => { q with sortKeys }

/-! ### Conditions -/

/-- One more condition, at the end. -/
def addCondition (id : String) (q : Query) : Query :=
  { q with conditions := q.conditions ++ [Condition.blank id] }

/-- The link to a subquery is no field that may be changed here. -/
def updateCondition (id : String) (changes : List (String × Json)) (q : Query) :
    Except EditError Query :=
  if (Entries.find? Field.subqueryId.altKey changes).isSome then .error .linkIsFixed
  else (Part.update id changes q.conditions).map fun conditions => { q with conditions }

/-- The subqueries without the one that a condition is linked to. -/
def without (c : Condition) (subqueries : List (String × Query)) : List (String × Query) :=
  match c.link? with
  | some key => Entries.erase key subqueries
  | none => subqueries

/-- The subquery of the first condition with the identifier goes with it. -/
def removeCondition (id : String) (q : Query) : Except EditError Query := do
  let c ← Part.find id q.conditions
  let conditions ← Part.remove id q.conditions
  pure { q with conditions, subqueries := without c q.subqueries }

/-! ### Subqueries -/

/-- The conditions, with every one of the identifier replaced. -/
def mapConditions (id : String) (f : Condition → Condition) (q : Query) : List Condition :=
  q.conditions.map fun c => if c.id = id then f c else c

/-- Links the conditions of the identifier to a new subquery. The query itself lies on level
`depth`. -/
def attach (q child : Query) (id : String) (depth : Int) : Except EditError Query :=
  if maxDepth ≤ depth then .error (.tooDeep depth)
  else do
    let c ← Part.find id q.conditions
    match c.link? with
    | some _ => .error (.alreadyLinked id)
    | none =>
      pure { q with
        conditions := q.mapConditions id fun c => { c with subqueryId := some child.id }
        subqueries := Entries.put child.id child q.subqueries }

/-- Drops the subquery of the first condition with the identifier. The conditions of the identifier
lose their link and their value. -/
def detach (id : String) (q : Query) : Except EditError Query := do
  let c ← Part.find id q.conditions
  match c.link? with
  | none => .error (.notLinked id)
  | some key =>
    pure { q with
      conditions := q.mapConditions id fun c => { c with subqueryId := none, value := "" }
      subqueries := Entries.erase key q.subqueries }

/-- Changes the operator. A condition that has no subquery gets a blank one if the operator usually
takes a query and the level allows it. -/
def setOperator (supply : Supply) (id : String) (operator : Json) (depth : Int) (q : Query) :
    Except EditError (Query × Supply) := do
  let q ← q.updateCondition id [(Field.operator.key, operator)]
  let c ← Part.find id q.conditions
  if c.operator.takesQuery ∧ depth < maxDepth ∧ c.link? = none then
    let (child, supply) := (blank .select).run supply
    let q ← q.attach child id depth
    pure (q, supply)
  else pure (q, supply)

/-- Puts another query in the place of a subquery. It has to carry the identifier of the place. -/
def replaceSubquery (q : Query) (key : String) (child : Query) : Except EditError Query :=
  if (Entries.find? key q.subqueries).isNone then .error (.notFound .subquery key)
  else if child.id ≠ key then .error (.misplaced key child.id)
  else .ok { q with subqueries := Entries.put key child q.subqueries }

end Query

end QueryComposer
