import QueryComposer.Edit.Path

/-!
# Sessions

A session is a query under edit, with the supply of identifiers for what is new in it. Its steps are
edits at a path. A step that fails changes neither the query nor the supply.

## Main definitions

* `Edit` lists the edits of one query, and `Edit.apply` does one.
* `Session.advance` does a step, and `Session.run` a list of steps with what each of them gave.
-/

namespace QueryComposer

/-- The edits of one query, with what they are asked to do. -/
inductive Edit where
  | setFields (changes : List (String × Json))
  | addPair
  | updatePair (id : String) (changes : List (String × Json))
  | removePair (id : String)
  | addCondition
  | updateCondition (id : String) (changes : List (String × Json))
  | removeCondition (id : String)
  | addJoin
  | updateJoin (id : String) (changes : List (String × Json))
  | removeJoin (id : String)
  | addSortKey
  | updateSortKey (id : String) (changes : List (String × Json))
  | removeSortKey (id : String)
  | setOperator (id : String) (operator : Json) (depth : Int)
  | attach (id : String) (depth : Int)
  | detach (id : String)
  | replaceSubquery (key : String) (child : Query)

namespace Edit

/-- The query with a new part, which gets the next identifier. -/
def adding (add : String → Query → Query) (supply : Supply) (q : Query) :
    Except EditError (Query × Supply) :=
  let (id, supply) := supply.next
  .ok (add id q, supply)

/-- An edit that draws no identifier. -/
def keeping (edit : Query → Except EditError Query) (supply : Supply) (q : Query) :
    Except EditError (Query × Supply) :=
  (edit q).map fun q => (q, supply)

/-- One edit, with the supply that is left. What is attached draws its identifiers before it is
known whether it can be. -/
def apply (e : Edit) (supply : Supply) : Query → Except EditError (Query × Supply) :=
  match e with
  | .setFields changes => keeping (Query.setFields changes) supply
  | .addPair => adding Query.addPair supply
  | .updatePair id changes => keeping (Query.updatePair id changes) supply
  | .removePair id => keeping (Query.removePair id) supply
  | .addCondition => adding Query.addCondition supply
  | .updateCondition id changes => keeping (Query.updateCondition id changes) supply
  | .removeCondition id => keeping (Query.removeCondition id) supply
  | .addJoin => adding Query.addJoin supply
  | .updateJoin id changes => keeping (Query.updateJoin id changes) supply
  | .removeJoin id => keeping (Query.removeJoin id) supply
  | .addSortKey => adding Query.addSortKey supply
  | .updateSortKey id changes => keeping (Query.updateSortKey id changes) supply
  | .removeSortKey id => keeping (Query.removeSortKey id) supply
  | .setOperator id operator depth => Query.setOperator supply id operator depth
  | .attach id depth => fun q =>
    let (child, rest) := (Query.blank .select).run supply
    keeping (·.attach child id depth) rest q
  | .detach id => keeping (Query.detach id) supply
  | .replaceSubquery key child => keeping (·.replaceSubquery key child) supply

end Edit

/-- What a step asks for: an edit, or to read a subquery from data and put it in its place. Data is
read before the path is followed. -/
inductive Command where
  | edit (e : Edit)
  | readSubquery (key : String) (data : Json)

/-- A query under edit, and the identifiers that are still to be drawn. -/
structure Session where
  query : Query
  supply : Supply

namespace Session

/-- The edit that a command comes to, and the supply that is left for it. -/
def prepare (supply : Supply) : Command → Except EditError (Edit × Supply)
  | .edit e => .ok (e, supply)
  | .readSubquery key data =>
    match (Query.read data).run supply with
    | .ok (child, supply) => .ok (.replaceSubquery key child, supply)
    | .error issues => .error (.invalid .query issues)

/-- One step: the command is prepared, and its edit is done at the end of the path. -/
def advance (s : Session) (path : List String) (c : Command) : Except EditError Session := do
  let (e, supply) ← prepare s.supply c
  let (query, supply) ← s.query.editAt (e.apply supply) path
  pure ⟨query, supply⟩

/-- What each step gave. After a step that failed the session goes on as before it. -/
def run (s : Session) : List (List String × Command) → List (Except EditError Query)
  | [] => []
  | (path, c) :: steps =>
    match s.advance path c with
    | .ok s' => .ok s'.query :: run s' steps
    | .error e => .error e :: run s steps

end Session

end QueryComposer
