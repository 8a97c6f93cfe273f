import QueryComposer.Query.Vocabulary

/-!
# Issues

What is wrong with data that should be a query or a document: one issue for each place that breaks
a rule, with the way to that place from the outside. An issue is a cause; its code and its wording
are given here and nowhere else.

## Main definitions

* `Problem` is what may be wrong with a value, `Issue` a problem at a place.
* `Model` names the kinds of objects, and `Model.headline` sums up the issues of one.
-/

namespace QueryComposer

/-- The kinds of objects that data is read as. -/
inductive Model where
  | pair
  | condition
  | join
  | sortKey
  | query
  | info
  | document
deriving DecidableEq, Repr

/-- The name that users know the kind by. -/
def Model.name : Model → String
  | .pair => "ColumnValuePair"
  | .condition => "Condition"
  | .join => "JoinClause"
  | .sortKey => "OrderByClause"
  | .query => "QueryNode"
  | .info => "DocumentMeta"
  | .document => "VisualQueryDocument"

/-- One step into a value: to the entry of a key, or to the item at a position. -/
inductive Step where
  | key (name : String)
  | item (position : Nat)
deriving DecidableEq, Repr

/-- What may be wrong with a value. -/
inductive Problem where
  | notText
  | notAmong (names : List String)
  | notList
  | notMap
  | notModel (model : Model)
  | missing
  | notObject
  | notInteger
  | notFinite
  | fractional
  | unreadable
  | tooLarge
  | negative
deriving DecidableEq, Repr

/-- A problem, and the way to the value that has it. -/
structure Issue where
  path : List Step
  problem : Problem
deriving DecidableEq, Repr

/-! ### Codes and wording -/

/-- Names in quotes, the last two with "or" between them and the others with commas. -/
def alternatives : List String → String
  | [] => ""
  | [a] => "'" ++ a ++ "'"
  | [a, b] => "'" ++ a ++ "' or '" ++ b ++ "'"
  | a :: as => "'" ++ a ++ "', " ++ alternatives as

namespace Problem

/-- The code of the problem, which programs go by. -/
def code : Problem → String
  | .notText => "string_type"
  | .notAmong _ => "literal_error"
  | .notList => "list_type"
  | .notMap => "dict_type"
  | .notModel _ => "model_type"
  | .missing => "missing"
  | .notObject => "model_attributes_type"
  | .notInteger => "int_type"
  | .notFinite => "finite_number"
  | .fractional => "int_from_float"
  | .unreadable => "int_parsing"
  | .tooLarge => "int_parsing_size"
  | .negative => "greater_than_equal"

/-- The wording of the problem, which users read. -/
def message : Problem → String
  | .notText => "Input should be a valid string"
  | .notAmong names => "Input should be " ++ alternatives names
  | .notList => "Input should be a valid list"
  | .notMap => "Input should be a valid dictionary"
  | .notModel model => "Input should be a valid dictionary or instance of " ++ model.name
  | .missing => "Field required"
  | .notObject => "Input should be a valid dictionary or object to extract fields from"
  | .notInteger => "Input should be a valid integer"
  | .notFinite => "Input should be a finite number"
  | .fractional => "Input should be a valid integer, got a number with a fractional part"
  | .unreadable => "Input should be a valid integer, unable to parse string as an integer"
  | .tooLarge => "Unable to parse input string as an integer, exceeded maximum size"
  | .negative => "Input should be greater than or equal to 0"

end Problem

/-- The issues of an object, counted. -/
def Model.headline (model : Model) (issues : List Issue) : String :=
  toString issues.length ++ " validation error" ++ (if issues.length = 1 then "" else "s") ++
    " for " ++ model.name

end QueryComposer
