import QueryComposer.Document.Load
import QueryComposer.Service.Integer
import QueryComposer.Sql.Complete
import QueryComposer.Sql.Level

/-!
# The service

The service answers requests about queries: it hands out blank queries, renders them as statements,
and turns documents into queries and back. A request names a resource by its path and says what to
do with it by its method; what it brings along stands in the query text or in the body.

## Main definitions

* `Request` and `Response` are what comes in and what goes out.
* `Service.respond` answers a request, `Response.status` and `Response.body?` tell what it says.

## Implementation notes

A request that does not have the form its resource asks for is refused with the issues of all its
fields. A request in good form always gets an answer, which says itself whether it succeeded.

The service also has pages that describe it to its users. What they show is no concern of this
library, which knows only where they are.

The parser that tells whether a statement is complete comes from outside, like the stamp and the
supply of identifiers.
-/

namespace QueryComposer

/-- A request; its parameters are the text after the question mark, as it was sent. -/
structure Request where
  method : String
  path : String
  parameters : String
  body : Option Json

/-- What comes back: a value, a page, the advice to ask elsewhere, or a refusal. -/
inductive Response where
  | answer (body : Json)
  | page
  | moved
  | notFound
  | notAllowed
  | refused (issues : List Issue)

/-- The number that stands for the kind of response. -/
def Response.status : Response → Nat
  | .answer _ => 200
  | .page => 200
  | .moved => 307
  | .notFound => 404
  | .notAllowed => 405
  | .refused _ => 422

/-- The value in a response, where it has one. -/
def Response.body? : Response → Option Json
  | .answer body => some body
  | .notFound => some (.object [("detail", .string "Not Found")])
  | .notAllowed => some (.object [("detail", .string "Method Not Allowed")])
  | .page | .moved | .refused _ => none

namespace Service

/-! ### Parameters -/

/-- The characters of a text in which a percent sign with two hexadecimal digits stands for a
character of ASCII. Other codes are no part of the names that are looked for, and stay. -/
def unescape : List Char → List Char
  | '%' :: a :: b :: cs =>
    match Json.Token.hexValue? a, Json.Token.hexValue? b with
    | some x, some y =>
      if 16 * x + y < 0x80 then Char.ofNat (16 * x + y) :: unescape cs
      else '%' :: a :: b :: unescape cs
    | _, _ => '%' :: unescape (a :: b :: cs)
  | '+' :: cs => ' ' :: unescape cs
  | c :: cs => c :: unescape cs
  | [] => []

/-- The name and the value of a parameter. The value is empty where there is no equals sign. -/
def parameter (cs : List Char) : String × String :=
  (String.ofList (unescape (cs.takeWhile (· ≠ '='))),
    String.ofList (unescape ((cs.dropWhile (· ≠ '=')).drop 1)))

/-- The parameters between ampersands, with their names. Empty pieces are none. -/
def parameters (text : String) : List (String × String) :=
  ((Text.splitAt (· = '&') text.toList).filter (· ≠ [])).map parameter

/-- The last value of a name counts. -/
def parameter? (name text : String) : Option String :=
  ((parameters text).reverse.find? (·.1 = name)).map (·.2)

/-! ### Forms of requests -/

open Intake

/-- The entries of an object. -/
def entries : Json → Intake (List (String × Json))
  | .object es => done es
  | _ => fail .notMap

/-- The body of a request is an object with the fields of the form. -/
def form {α : Type} (read : List (String × Json) → Intake α) (body : Option Json) : Intake α :=
  let read : Intake α :=
    match body with
    | none => fail .missing
    | some (.object es) => read es
    | some _ => fail .notObject
  read.under (.key "body")

/-- What to lay out: the entries of a query, and a level, which is zero if it is absent. -/
def renderForm (es : List (String × Json)) : Intake (List (String × Json) × Int) :=
  Prod.mk <$> required .root entries es <*> field (.plain "depth") natural (done 0) es

/-- What to load: the text of a document. -/
def loadForm (es : List (String × Json)) : Intake String :=
  required (.plain "content") text es

/-- What to save: the entries of a query, and a name, which is empty if it is absent. -/
def saveForm (es : List (String × Json)) : Intake (List (String × Json) × String) :=
  Prod.mk <$> required .root entries es <*> field .name text (done "") es

/-! ### Answers -/

/-- The issues of a query in one line. -/
def summary (issues : List Issue) : String := Model.headline .query issues

/-- The statement of a query at a level, and the query, or the reason why there is none. -/
def statement (root : List (String × Json)) (depth : Int) (supply : Supply) :
    Except String (List Char × Query) :=
  match (Query.read (.object root)).run supply with
  | .error issues => .error (summary issues)
  | .ok (q, _) =>
    match q.render depth with
    | .error e => .error e.message
    | .ok sql => .ok (sql, q)

/-- The statement of a query, whether it is ready to run as the parser sees it, and how many
subqueries there are. -/
def render (parses : List Char → Bool) (root : List (String × Json)) (depth : Int)
    (supply : Supply) : Json :=
  match statement root depth supply with
  | .ok (sql, q) =>
    .object [("success", .bool true), ("sql", .string (String.ofList sql)),
      ("complete", .bool (Sql.isComplete parses sql)),
      ("subqueryCount", .number (.integer q.count)), ("error", .null)]
  | .error reason =>
    .object [("success", .bool false), ("sql", .null), ("complete", .bool false),
      ("subqueryCount", .number (.integer 0)),
      ("error", .string ("Failed to generate SQL: " ++ reason))]

/-- Why a text is not loaded, in one line. What is no complaint about the document is reported as a
failure of the service. -/
def loadFailure (e : LoadError) : String :=
  match e with
  | .unreadable | .notDocument => e.message
  | .overlong _ => "Failed to import document: " ++ e.message

/-- The query in the text of a document, with its name and its statement. -/
def load (content : String) (supply : Supply) : Json :=
  match Document.load content with
  | .ok d =>
    let doc := (d.run supply).1
    .object [("success", .bool true), ("name", .string doc.info.name), ("root", doc.root.toJson),
      ("sql", .string (String.ofList (doc.root.sql 0))), ("error", .null)]
  | .error e =>
    .object [("success", .bool false), ("name", .null), ("root", .null), ("sql", .null),
      ("error", .string (loadFailure e))]

/-- A document of a query, stamped, with a name for its file. -/
def save (stamp : String) (root : List (String × Json)) (name : String) (supply : Supply) : Json :=
  match (Query.read (.object root)).run supply with
  | .ok (q, _) =>
    let doc := Document.ofQuery q name stamp
    .object [("success", .bool true), ("filename", .string (Document.filename doc.info.name)),
      ("document", doc.toJson), ("error", .null)]
  | .error issues =>
    .object [("success", .bool false), ("filename", .null), ("document", .null),
      ("error", .string ("Failed to export document: " ++ summary issues))]

/-! ### Resources -/

/-- The pages for users: one to try requests, one to read about them, the description that both
are made from, and the place where a sign-in returns to. -/
inductive Page where
  | console
  | reference
  | description
  | signedIn
deriving DecidableEq, Repr

/-- What the service does, one thing for each resource. -/
inductive Resource where
  | home
  | health
  | blank
  | render
  | load
  | save
  | page (page : Page)
deriving DecidableEq, Repr

/-- All resources, in the order in which paths are compared with theirs. -/
def Resource.all : List Resource :=
  [.home, .health, .blank, .render, .load, .save, .page .console, .page .reference,
    .page .description, .page .signedIn]

/-- Where the resource is found. -/
def Resource.path : Resource → String
  | .home => "/"
  | .health => "/health"
  | .blank => "/api/query/new"
  | .render => "/api/build-sql"
  | .load => "/api/documents/import"
  | .save => "/api/documents/export"
  | .page .console => "/docs"
  | .page .reference => "/redoc"
  | .page .description => "/openapi.json"
  | .page .signedIn => "/docs/oauth2-redirect"

/-- The methods that the resource answers to. -/
def Resource.methods : Resource → List String
  | .home | .health | .blank => ["GET"]
  | .render | .load | .save => ["POST"]
  | .page _ => ["GET", "HEAD"]

/-! ### Paths -/

/-- A line feed at the end of a path does no harm. -/
def Resource.isAt (path : String) (resource : Resource) : Bool :=
  path = resource.path || path = resource.path ++ "\n"

/-- The resource at a path. -/
def resource? (path : String) : Option Resource := Resource.all.find? (Resource.isAt path)

/-- The path with a slash at its end in place of none, and with none in place of any. -/
def otherPath (path : String) : String :=
  match path.toList.reverse with
  | '/' :: cs => String.ofList (cs.dropWhile (· = '/')).reverse
  | _ => path.push '/'

/-- The answer to a request in good form, or the issues of its form. -/
def ofIntake {α : Type} (supply : Supply) (x : Intake α) (answer : α → Json) : Response :=
  match x.run supply with
  | .ok (a, _) => .answer (answer a)
  | .error issues => .refused issues

/-- The response of a resource. A document that is made bears the given stamp. -/
def Resource.respond (parses : List Char → Bool) (stamp : String) (supply : Supply) (r : Request) :
    Resource → Response
  | .home =>
    .answer (.object [("message", .string "SQL Forge Backend API"), ("status", .string "running")])
  | .health => .answer (.object [("status", .string "healthy")])
  | .blank =>
    ofIntake supply
      ((Query.start ((parameter? "operation" r.parameters).map .string)).under (.key "query"))
      Query.toJson
  | .render =>
    ofIntake supply (form renderForm r.body) fun f => Service.render parses f.1 f.2 supply
  | .load => ofIntake supply (form loadForm r.body) fun content => Service.load content supply
  | .save => ofIntake supply (form saveForm r.body) fun f => Service.save stamp f.1 f.2 supply
  | .page _ => .page

/-- The resource at the path of a request responds if it knows the method. Where there is none, the
request may be meant for a resource at the other path. -/
def respond (parses : List Char → Bool) (stamp : String) (supply : Supply) (r : Request) :
    Response :=
  match resource? r.path with
  | some resource =>
    if r.method ∈ resource.methods then resource.respond parses stamp supply r else .notAllowed
  | none => if (resource? (otherPath r.path)).isSome then .moved else .notFound

end Service

end QueryComposer
