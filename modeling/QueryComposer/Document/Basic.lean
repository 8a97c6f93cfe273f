import QueryComposer.Calendar.Stamp
import QueryComposer.Json.Printer
import QueryComposer.Query.Encode
import QueryComposer.Query.Intake
import QueryComposer.Text.Blank

/-!
# Documents

A document keeps a query under a display name, with the times at which it was made and changed. It
is written as an object that also names its format.

## Main definitions

* `Document` is a query with its `Info`.
* `Document.read` reads a document as it is written, `Document.dump` writes its text.
* `Document.ofQuery` makes a document of a query, `Document.filename` a name for its file.
-/

namespace QueryComposer

/-- The name of documents to which nobody gave one. -/
def defaultName : String := "my_query"

/-- What is known of a document: its display name, and the stamps of when it was made and changed.
-/
structure Info where
  name : String
  createdAt : String
  updatedAt : String
deriving DecidableEq, Repr

/-- A query with the information about it. -/
structure Document where
  info : Info
  root : Query
deriving DecidableEq, Repr

/-- The format of a document. There is one so far. -/
inductive Format where
  | first
deriving DecidableEq, Repr

instance : Choice Format where
  all := [.first]
  name
    | .first => "sql-forge/visual-query/v1"

/-! ### Reading and writing -/

open Intake

/-- The information of a document of which nothing is known. -/
def Info.blank : Info := ⟨defaultName, "", ""⟩

/-- The information from its fields, all of which may be absent. -/
def Info.ofFields (es : List (String × Json)) : Intake Info :=
  Info.mk <$> field .name text (done Info.blank.name) es
    <*> field .createdAt text (done Info.blank.createdAt) es
    <*> field .updatedAt text (done Info.blank.updatedAt) es

/-- The information from an object. -/
def Info.read : Json → Intake Info := object .info Info.ofFields

/-- The object of the information. -/
def Info.toJson (i : Info) : Json :=
  .object [Field.name.text i.name, Field.createdAt.text i.createdAt,
    Field.updatedAt.text i.updatedAt]

namespace Document

/-- The document from its fields. Only the query may not be absent. -/
def ofFields (es : List (String × Json)) : Intake Document :=
  (fun _ info root => ⟨info, root⟩) <$> field .schema (choice Format) (done .first) es
    <*> field .info Info.read (done Info.blank) es
    <*> required .root Query.read es

/-- The document from an object. -/
def read : Json → Intake Document := object .document ofFields

/-- The object of the document. -/
def toJson (d : Document) : Json :=
  .object [Field.schema.choice Format.first, (Field.info.key, d.info.toJson),
    (Field.root.key, d.root.toJson)]

/-- The text of the document. -/
def dump (d : Document) : String := d.toJson.print

/-! ### New documents -/

/-- The name of a document, where an empty one stands for none. -/
def nameOr (name : String) : String := if name = "" then defaultName else name

/-- The document of a query that is made at the time of the stamp. -/
def ofQuery (root : Query) (name stamp : String) : Document := ⟨⟨nameOr name, stamp, stamp⟩, root⟩

/-- The document of a query that is made at the time a clock shows, if that time has a stamp. -/
def ofQueryAt? (root : Query) (name : String) (t : Calendar.LocalTime) : Option Document :=
  t.stamp?.map (ofQuery root name)

/-- The text with every longest run of blanks replaced by one underscore. -/
def joinBlanks : List Char → List Char
  | [] => []
  | c :: cs =>
    if Text.isBlank c then
      if cs.head?.any Text.isBlank then joinBlanks cs else '_' :: joinBlanks cs
    else c :: joinBlanks cs

/-- The name of a file for a document of that name. -/
def filename (name : String) : String :=
  String.ofList (joinBlanks (nameOr name).toList) ++ ".sqlforge.json"

end Document

end QueryComposer
