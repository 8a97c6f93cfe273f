import QueryComposer.Document.Basic
import QueryComposer.Json.Reader

/-!
# Loading documents

A text is loaded as a document if it names the format and holds a query. Loading is lenient about
the name: a document without one gets the default name, whatever stands in its place.

## Main definitions

* `Document.isEnvelope` holds of the values that name the format and have an object for a query.
* `Document.load` reads a text as a document.
-/

namespace QueryComposer

/-- Why a text is not loaded: it is no value at all, or not a document. Apart from these stands a
text in which an integer has too many digits. Its reader breaks off with a complaint of its own,
which is not about documents and which nothing turns into one of the other two. -/
inductive LoadError where
  | unreadable
  | notDocument
  | overlong (digits : Nat)
deriving DecidableEq, Repr

/-- What the error says. -/
def LoadError.message : LoadError → String
  | .unreadable => "Failed to parse JSON file"
  | .notDocument => "Invalid file: not a SQL Forge query"
  | .overlong digits => Json.Number.overlongMessage digits

namespace Document

/-- The entries name the format of documents. -/
def namesFormat (es : List (String × Json)) : Bool :=
  match Entries.find? Field.schema.key es with
  | some (.string s) => s = Choice.name Format.first
  | _ => false

/-- The value names the format and has an object in the place of the query. -/
def isEnvelope : Json → Bool
  | .object es =>
    namesFormat es &&
      match Entries.find? Field.root.key es with
      | some (.object _) => true
      | _ => false
  | _ => false

/-- The entries of the information, with the default name where none is given. -/
def infoEntries (es : List (String × Json)) : List (String × Json) :=
  let given := match Entries.find? Field.info.key es with
    | some (.object given) => given
    | _ => []
  let named := match Entries.find? Field.name.key given with
    | some v => !v.isFalsy
    | none => false
  if named then given else Entries.put Field.name.key (.string defaultName) given

/-- The document of a value, its information repaired before it is read. -/
def ofJson (v : Json) : Except LoadError (Draw Document) :=
  match v with
  | .object es =>
    if isEnvelope v then
      match ofFields (Entries.put Field.info.key (.object (infoEntries es)) es) with
      | .ok d => .ok d
      | .error _ => .error .notDocument
    else .error .notDocument
  | _ => .error .notDocument

/-- The document of a text, with the identifiers that are missing in it still to be drawn. -/
def load (text : String) : Except LoadError (Draw Document) :=
  match Json.read? text.toList with
  | some v => ofJson v
  | none =>
    match Json.overlong? text.toList with
    | some n => .error (.overlong n)
    | none => .error .unreadable

end Document

end QueryComposer
