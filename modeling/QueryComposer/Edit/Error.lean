import QueryComposer.Intake.Issue

/-!
# Why an edit fails

An edit that cannot be done leaves the query as it was and says why. An error is a cause with what
was asked for; `EditError.message` words it.

## Main definitions

* `EditError` lists the causes.
* `maxDepth` is the deepest level that a subquery may lie on.
-/

namespace QueryComposer

/-- Level zero is the outermost query. -/
def maxDepth : Nat := 3

/-- The things that an edit refers to by identifier. -/
inductive Entity where
  | pair
  | condition
  | join
  | sortKey
  | subquery
deriving DecidableEq, Repr

/-- The word that messages have for it. -/
def Entity.name : Entity → String
  | .pair => "pair"
  | .condition => "condition"
  | .join => "join"
  | .sortKey => "order-by entry"
  | .subquery => "subquery"

/-- Why an edit cannot be done, with what was asked for. -/
inductive EditError where
  | unknownFields (model : Model) (names : List String)
  | idIsFixed (entity : Entity)
  | linkIsFixed
  | notScalar (names : List String)
  | notFound (entity : Entity) (id : String)
  | alreadyLinked (conditionId : String)
  | notLinked (conditionId : String)
  | misplaced (key : String) (id : String)
  | tooDeep (depth : Int)
  | invalid (model : Model) (issues : List Issue)
deriving DecidableEq, Repr

/-- Names in the order of their code points, with commas between them. -/
def nameList (names : List String) : String :=
  ", ".intercalate (names.mergeSort fun a b => a ≤ b)

namespace EditError

/-- The wording of the error. -/
def message : EditError → String
  | .unknownFields model names => "Unknown " ++ model.name ++ " field(s): " ++ nameList names
  | .idIsFixed entity => "Cannot change the id of a " ++ entity.name
  | .linkIsFixed => "Use attach_subquery / detach_subquery to change sub_query_id"
  | .notScalar names => "Cannot set " ++ nameList names ++ " directly"
  | .notFound entity id => "No " ++ entity.name ++ " with id '" ++ id ++ "'"
  | .alreadyLinked id => "Condition '" ++ id ++ "' already has a subquery"
  | .notLinked id => "Condition '" ++ id ++ "' has no subquery"
  | .misplaced key id => "Subquery '" ++ key ++ "' cannot be replaced by node '" ++ id ++ "'"
  | .tooDeep depth =>
    "Cannot nest a subquery at depth " ++ toString depth ++ " (max depth is " ++
      toString maxDepth ++ ")"
  | .invalid model issues => model.headline issues

end EditError

end QueryComposer
