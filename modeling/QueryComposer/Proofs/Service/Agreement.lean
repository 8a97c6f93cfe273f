import QueryComposer.Proofs.Document.RoundTrip
import QueryComposer.Proofs.Sql.Unnamed
import QueryComposer.Service.Basic
import QueryComposer.Sql.Dialect

/-!
# The resources agree on a query

The same query may be sent to the service in three ways: to see its statement, to get a document of
it, and as the text of such a document. Each request reads the query anew and draws the identifiers
that are missing, so the queries that are read need not be equal. They differ in identifiers only,
which are not shown, and a document holds all of its identifiers, so that nothing is drawn when it
is loaded. Hence every way leads to the same statement.

## Main definitions

* `Service.renderRequest`, `Service.saveRequest` and `Service.loadRequest` send a query.
* `Response.Succeeds` says that the answer tells of success.
* `Service.rendered`, `Service.saved` and `Service.loaded` are the answers in that case.

## Main results

* `Service.succeeds_render_iff`, `Service.succeeds_save_iff`: which queries are accepted.
* `Service.resources_agree`: what the answers have in common.
-/

namespace QueryComposer

/-- The value under a key of an object. -/
def Json.get? (key : String) : Json → Option Json
  | .object es => Entries.find? key es
  | _ => none

/-- The value can be read as a query. -/
def Json.IsQuery (v : Json) : Prop := ∃ d, Query.read v = .ok d

/-- The value under a key of an answer. -/
def Response.get? (r : Response) (key : String) : Option Json := r.body?.bind (Json.get? key)

/-- The answer says itself that it succeeded. -/
def Response.Succeeds (r : Response) : Prop := r.get? "success" = some (.bool true)

namespace Service

/-- A request that sends an object to a resource. -/
def post (resource : Resource) (es : List (String × Json)) : Request :=
  ⟨"POST", resource.path, "", some (.object es)⟩

/-- The request for the statement of a query that stands alone. -/
def renderRequest (root : Json) : Request :=
  post .render [("root", root), ("depth", .number (.integer 0))]

/-- The request for a document of a query. -/
def saveRequest (root : Json) (name : String) : Request :=
  post .save [("root", root), ("name", .string name)]

/-- The request to load the text of a document. -/
def loadRequest (content : String) : Request := post .load [("content", .string content)]

/-- What the service tells about a query that stands alone. -/
def rendered (parses : List Char → Bool) (q : Query) : Json :=
  .object [("success", .bool true), ("sql", .string (String.ofList (q.sql 0))),
    ("complete", .bool (Sql.isComplete parses (q.sql 0))),
    ("subqueryCount", .number (.integer q.count)), ("error", .null)]

/-- What the service tells about a document that it made. -/
def saved (d : Document) : Json :=
  .object [("success", .bool true), ("filename", .string (Document.filename d.info.name)),
    ("document", d.toJson), ("error", .null)]

/-- What the service tells about a document that it loaded. -/
def loaded (d : Document) : Json :=
  .object [("success", .bool true), ("name", .string d.info.name), ("root", d.root.toJson),
    ("sql", .string (String.ofList (d.root.sql 0))), ("error", .null)]

variable {parses : List Char → Bool} {root : Json} {made : Draw Query} {stamp name : String}
  {supply : Supply}

/-! ### Answers -/

theorem respond_renderRequest (h : Query.read root = .ok made) :
    respond parses stamp supply (renderRequest root) =
      .answer (rendered parses (made.run supply).1) := by
  cases root with
  | object es =>
    change Response.answer (render parses es 0 supply) = _
    unfold render statement
    rw [h]
    rfl
  | _ => cases h

theorem respond_saveRequest (h : Query.read root = .ok made) :
    respond parses stamp supply (saveRequest root name) =
      .answer (saved (Document.ofQuery (made.run supply).1 name stamp)) := by
  cases root with
  | object es =>
    change Response.answer (save stamp es name supply) = _
    unfold save
    rw [h]
    rfl
  | _ => cases h

theorem respond_loadRequest {content : String} {made : Draw Document}
    (h : Document.load content = .ok made) :
    respond parses stamp supply (loadRequest content) = .answer (loaded (made.run supply).1) := by
  change Response.answer (load content supply) = _
  unfold load
  rw [h]
  rfl

/-! ### What is accepted -/

theorem succeeds_iff_isQuery {r : Response}
    (hok : ∀ made, Query.read root = .ok made → r.Succeeds)
    (herror : ∀ issues, Query.read root = .error issues → ¬ r.Succeeds) :
    r.Succeeds ↔ root.IsQuery := by
  cases h : Query.read root with
  | ok made => exact iff_of_true (hok made h) ⟨made, h⟩
  | error issues =>
    refine iff_of_false (herror issues h) ?_
    rintro ⟨made, hmade⟩
    cases h.symm.trans hmade

theorem succeeds_render_iff :
    (respond parses stamp supply (renderRequest root)).Succeeds ↔ root.IsQuery := by
  refine succeeds_iff_isQuery (fun made h => ?_) fun issues h => ?_
  · rw [respond_renderRequest h]
    rfl
  · cases root with
    | object es =>
      change ¬ (Response.answer (render parses es 0 supply)).Succeeds
      unfold render statement
      rw [h]
      exact nofun
    | _ => exact nofun

theorem succeeds_save_iff :
    (respond parses stamp supply (saveRequest root name)).Succeeds ↔ root.IsQuery := by
  refine succeeds_iff_isQuery (fun made h => ?_) fun issues h => ?_
  · rw [respond_saveRequest h]
    rfl
  · cases root with
    | object es =>
      change ¬ (Response.answer (save stamp es name supply)).Succeeds
      unfold save
      rw [h]
      exact nofun
    | _ => exact nofun

/-! ### The same statement -/

/-- What the service tells about a query does not depend on identifiers. -/
theorem rendered_eq {q q' : Query} (h : q.unnamed = q'.unnamed) :
    rendered parses q = rendered parses q' := by
  have hcount : q.count = q'.count := by rw [← q.count_unnamed, ← q'.count_unnamed, h]
  rw [rendered, rendered, Query.sql_eq_of_unnamed_eq h, hcount]

/-- Loading a new document from any of its texts gives it back as it was made. -/
theorem load_of_read? {q : Query} {text : String}
    (h : Json.read? text.toList = some (Document.ofQuery q name stamp).toJson) :
    Document.load text = .ok (pure (Document.ofQuery q name stamp)) := by
  have hjson := Document.ofJson_toJson (Document.ofQuery q name stamp)
  rw [Document.named_ofQuery] at hjson
  rw [Document.load, h]
  exact hjson

/-- **The resources agree on a query.** Let requests be answered at any times, with any supplies and
with any parser. A query is rendered exactly if a document of it is made, and exactly if the data
can be read as a query. If so, the document is loaded from each of its texts: the query comes back
as it stands in the document, under the name that was given or the default name, and with the same
statement. And to render that query again gives the same answer. -/
theorem resources_agree (hroot : root.HasDistinctKeys) (name : String)
    (parses : List Char → Bool) (stamp : Nat → String) (supply : Nat → Supply) :
    let reply n := respond parses (stamp n) (supply n)
    ((reply 0 (renderRequest root)).Succeeds ↔ root.IsQuery) ∧
      ((reply 1 (saveRequest root name)).Succeeds ↔ root.IsQuery) ∧
      (root.IsQuery → ∃ document root' sql,
        (reply 0 (renderRequest root)).get? "sql" = some (.string sql) ∧
        (reply 1 (saveRequest root name)).get? "document" = some document ∧
        document.get? "root" = some root' ∧
        Json.read? document.print.toList = some document ∧
        (∀ text, Json.read? text.toList = some document →
          (reply 2 (loadRequest text)).Succeeds ∧
          (reply 2 (loadRequest text)).get? "root" = some root' ∧
          (reply 2 (loadRequest text)).get? "name" = some (.string (Document.nameOr name)) ∧
          (reply 2 (loadRequest text)).get? "sql" = some (.string sql)) ∧
        reply 3 (renderRequest root') = reply 0 (renderRequest root)) := by
  intro reply
  refine ⟨succeeds_render_iff, succeeds_save_iff, ?_⟩
  rintro ⟨made, hmade⟩
  let q := (made.run (supply 1)).1
  have hkeys : q.HasDistinctKeys := Query.yields_read hroot made hmade _
  have hsame := Query.agrees_read root made hmade (supply 0) (supply 1)
  have hrender : reply 0 (renderRequest root) = .answer (rendered parses q) :=
    (respond_renderRequest hmade).trans (congrArg Response.answer (rendered_eq hsame))
  have hsave : reply 1 (saveRequest root name) =
      .answer (saved (Document.ofQuery q name (stamp 1))) := respond_saveRequest hmade
  rw [hrender, hsave]
  refine ⟨_, q.toJson, String.ofList (q.sql 0), rfl, rfl, rfl, Document.read?_dump hkeys,
    fun text htext => ?_, respond_renderRequest (Query.read_toJson q)⟩
  have hload : reply 2 (loadRequest text) = .answer (loaded (Document.ofQuery q name (stamp 1))) :=
    respond_loadRequest (load_of_read? htext)
  rw [hload]
  exact ⟨rfl, rfl, rfl, rfl⟩

/-- Data of a query that leaves out its identifiers and goes by second names. -/
def sketch : Json :=
  .object [("operation", .string "DELETE"), ("table", .string "users"),
    ("conditions", .array [.object [("column", .string "id"), ("operator", .string "IN"),
      ("sub_query_id", .string "latest")]]),
    ("sub_queries", .object [("latest", .object [("table", .string "orders")])])]

theorem hasDistinctKeys_sketch : sketch.HasDistinctKeys := by
  have hkeys : ["operation", "table", "conditions", "sub_queries"].Nodup := by decide
  have hcondition : ["column", "operator", "sub_query_id"].Nodup := by decide
  have hsubqueries : ["latest"].Nodup := by decide
  have hsubquery : ["table"].Nodup := by decide
  refine .object hkeys ?_
  simp only [List.forall_mem_cons]
  refine ⟨.string _, .string _, .array ?_, .object hsubqueries ?_, nofun⟩
  · simp only [List.forall_mem_singleton]
    refine .object hcondition ?_
    simp only [List.forall_mem_cons]
    exact ⟨.string _, .string _, .string _, nofun⟩
  · simp only [List.forall_mem_singleton]
    refine .object hsubquery ?_
    simp only [List.forall_mem_singleton]
    exact .string _

/-- A document without a name is made of the sketch and loaded again. -/
theorem resources_agree_sketch :
    let reply n := respond Sql.Dialect.parses "2024-02-29T23:59:59.999Z" ⟨numbered, n⟩
    (reply 0 (renderRequest sketch)).Succeeds ∧ (reply 1 (saveRequest sketch "")).Succeeds ∧
      ∃ document root', (reply 1 (saveRequest sketch "")).get? "document" = some document ∧
        (reply 2 (loadRequest document.print)).get? "root" = some root' ∧
        (reply 2 (loadRequest document.print)).get? "name" = some (.string "my_query") ∧
        (reply 2 (loadRequest document.print)).get? "sql" =
          (reply 0 (renderRequest sketch)).get? "sql" ∧
        reply 3 (renderRequest root') = reply 0 (renderRequest sketch) := by
  intro reply
  have hquery : sketch.IsQuery := ⟨_, rfl⟩
  obtain ⟨hrender, hsave, hmore⟩ := resources_agree hasDistinctKeys_sketch ""
    Sql.Dialect.parses (fun _ => "2024-02-29T23:59:59.999Z") fun n => ⟨numbered, n⟩
  obtain ⟨document, root', sql, hsql, hdocument, -, hread, hloads, hagain⟩ := hmore hquery
  obtain ⟨-, hroot', hname, hsql'⟩ := hloads _ hread
  exact ⟨hrender.mpr hquery, hsave.mpr hquery, document, root', hdocument, hroot', hname,
    hsql'.trans hsql.symm, hagain⟩

end Service

end QueryComposer
