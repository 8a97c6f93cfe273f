import QueryComposer.Proofs.Document.RoundTrip
import QueryComposer.Proofs.Edit.Path

/-!
# Edits in loaded documents

An edit further down is put back into its place only if the query that comes back carries the key of
the place. Loading does not see to that: a subquery for which the data gives no identifier gets a
fresh one, and one for which it gives another identifier keeps that. So there are documents that
load and in which some subqueries cannot be edited. Editing them is refused by the check on the way
back alone, whatever the edit does.

What holds of every text that loads is that an edit which always succeeds and keeps the identifier
can be made exactly where all subqueries on the path carry their keys. This is everywhere if the
data gives the keys as identifiers.

## Main definitions

* `Query.IsRevision` holds of the edits that always succeed and keep the identifier.
* `Query.IsKeyedAlong` says that the subqueries on a path carry their keys, `Query.IsKeyed` that all
  subqueries in a tree do.
* `Json.IsKeyed` says of the data of a query that it gives the keys as identifiers.

## Main results

* `Query.exists_editAt_iff`: where the edits of a tree succeed.
* `Document.not_forall_exists_editAt`: not everywhere in the documents that load.
* `Document.exists_editAt_iff`: where they do.
-/

namespace QueryComposer

open Intake

namespace Query

variable {α : Type} {edit : Query → Except EditError (Query × α)} {q n n' : Query}
  {path : List String}

/-! ### Edits in a tree -/

/-- The edit succeeds on every query and keeps its identifier. -/
def IsRevision (edit : Query → Except EditError (Query × α)) : Prop :=
  ∀ q, ∃ q' a, edit q = .ok (q', a) ∧ q'.id = q.id

/-- Every subquery on the path carries the key of its place. -/
def IsKeyedAlong (q : Query) (path : List String) : Prop :=
  ∀ before key after, path = before ++ key :: after →
    (q.at? (before ++ [key])).map Query.id = some key

/-- Every subquery in the tree carries the key of its place. -/
def IsKeyed (q : Query) : Prop := q.Every fun q => ∀ e ∈ q.subqueries, e.2.id = e.1

theorem IsKeyed.isKeyedAlong (h : q.IsKeyed) (hn : q.at? path = some n) : q.IsKeyedAlong path := by
  rintro before key after rfl
  obtain ⟨r, hr, hn⟩ := Option.bind_eq_some_iff.mp ((at?_append _ _ _).symm.trans hn)
  obtain ⟨child, hfind, -⟩ := Option.bind_eq_some_iff.mp hn
  have hchild : q.at? (before ++ [key]) = some child := by
    rw [at?_append, hr, Option.bind_some, at?_cons_of_find? hfind]
    rfl
  rw [hchild, Option.map_some]
  exact congrArg some ((h.at? hr).root _ (Entries.mem_of_find? hfind))

/-- What keeps its identifier comes back with the one that it had. -/
theorem fits_iff_isKeyedAlong (hn : q.at? path = some n) (hid : n'.id = n.id) :
    q.Fits n' path ↔ q.IsKeyedAlong path := by
  refine forall₄_congr fun before key after hpath => ?_
  rw [returningId?]
  split
  · next hafter =>
    subst hafter
    rw [← hpath, hn, Option.map_some, hid]
  · exact Iff.rfl

/-- **Where the edits of a tree succeed.** -/
theorem exists_editAt_iff (hedit : IsRevision edit) (hn : q.at? path = some n) :
    (∃ q' a, q.editAt edit path = .ok (q', a)) ↔ q.IsKeyedAlong path := by
  obtain ⟨n', a, hok, hid⟩ := hedit n
  rw [← fits_iff_isKeyedAlong hn hid]
  constructor
  · rintro ⟨q', a', h⟩
    rcases fits_or_misfitsAt hn n' with hfits | ⟨key, id, hmisfit⟩
    · exact hfits
    · cases h.symm.trans (editAt_of_misfitsAt hn hok hmisfit)
  · intro hfits
    obtain ⟨q', h⟩ := editAt_of_fits hn hok hfits
    exact ⟨q', a, h⟩

/-- A new limit can be set in every query. -/
theorem isRevision_setLimit (limit : String) (supply : Supply) :
    IsRevision (Edit.apply (.setFields [(Field.limit.altKey, .string limit)]) supply) :=
  fun q => ⟨{ q with limit }, supply, rfl, rfl⟩

end Query

/-! ### Data with keys for identifiers -/

namespace Json

/-- The subqueries in the data of a query. -/
def subqueries : Json → List (String × Json)
  | .object es =>
    match Field.subqueries.find? es with
    | some (_, .object subqueries) => subqueries
    | _ => []
  | _ => []

/-- The data of a query gives it the identifier. -/
def NamesId (id : String) : Json → Prop
  | .object es => ∃ k, Field.id.find? es = some (k, .string id)
  | _ => False

/-- In the data of a query every subquery is given its key for an identifier. -/
inductive IsKeyed : Json → Prop where
  | intro {v : Json} : (∀ e ∈ v.subqueries, e.2.NamesId e.1) → (∀ e ∈ v.subqueries, IsKeyed e.2) →
      IsKeyed v

end Json

namespace Query

theorem yields_id_read {id : String} {v : Json} (h : v.NamesId id) :
    (read v).Yields fun q => q.id = id := by
  cases v with
  | object es =>
    obtain ⟨k, hfind⟩ := h
    have hid : (field .id text fresh es).Yields fun s => s = id := by
      refine yields_field (fun k' w hw => ?_) fun hnone => ?_
      · cases hfind.symm.trans hw
        exact yields_done rfl
      · cases hfind.symm.trans hnone
    rw [read_object, ofFields]
    iterate 9 refine Yields.seq_all ?_
    refine hid.map ?_
    exact fun _ h operation table columns pairs conditions joins sortKeys limit subqueries => h
  | _ => exact h.elim

theorem yields_isKeyed {v : Json} (h : v.IsKeyed) : (read v).Yields IsKeyed := by
  induction h with
  | @intro v hnames _ ih =>
    cases v with
    | object es =>
      rw [read_object]
      refine yields_ofFields (P := fun qs => ∀ e ∈ qs, e.2.id = e.1 ∧ e.2.IsKeyed)
        (yields_field (fun k w hw => ?_) fun _ => ?_)
        (fun q hqs => .intro (fun e he => (hqs e he).1) fun e he => (hqs e he).2) es
      · cases w with
        | object subqueries =>
          have heq : (Json.object es).subqueries = subqueries := by rw [Json.subqueries, hw]
          rw [heq] at hnames ih
          have hentries := yields_readEntries (P := fun k q => q.id = k ∧ q.IsKeyed)
            fun e he d hd s => ⟨yields_id_read (hnames e he) d hd s, ih e he d hd s⟩
          exact fun d hd s => (hentries d hd s).2
        | _ => exact yields_fail _
      · exact yields_done (List.forall_mem_nil _)
    | _ => exact yields_fail _

end Query

/-! ### Loaded documents -/

namespace Document

/-- The text is a document whose query is keyed. -/
def IsKeyed (text : String) : Prop :=
  ∃ es k v, Json.read? text.toList = some (.object es) ∧ Field.root.find? es = some (k, v) ∧
    v.IsKeyed

theorem isKeyed_root {text : String} {made : Draw Document} (h : IsKeyed text)
    (hmade : load text = .ok made) (supply : Supply) : (made.run supply).1.root.IsKeyed := by
  obtain ⟨es, k, v, hread, hfind, hv⟩ := h
  rw [load, hread] at hmade
  refine (yields_root_of_ofJson (fun k' v' hfind' => ?_) hmade supply).2
  cases hfind.symm.trans hfind'
  exact Query.yields_isKeyed hv

/-- **Where the subqueries of a loaded document can be edited.** An edit that always succeeds and
keeps the identifier can be made at a path exactly if all subqueries on the path carry their keys.
If the text gives every subquery its key for an identifier, it can be made at every path. -/
theorem exists_editAt_iff_of_load {text : String} {made : Draw Document}
    (hmade : load text = .ok made) {α : Type} {edit : Query → Except EditError (Query × α)}
    (hedit : Query.IsRevision edit) (supply : Supply) {path : List String} {n : Query}
    (hn : (made.run supply).1.root.at? path = some n) :
    ((∃ q a, (made.run supply).1.root.editAt edit path = .ok (q, a)) ↔
      (made.run supply).1.root.IsKeyedAlong path) ∧
    (IsKeyed text → ∃ q a, (made.run supply).1.root.editAt edit path = .ok (q, a)) := by
  have hiff := Query.exists_editAt_iff hedit hn
  exact ⟨hiff, fun htext => hiff.mpr ((isKeyed_root htext hmade supply).isKeyedAlong hn)⟩

/-! ### One document that can be edited and one that cannot -/

/-- The entries of an object that names the format and holds a query, and nothing more. -/
def envelope (query : List (String × Json)) : List (String × Json) :=
  [(Field.schema.key, .string (Choice.name Format.first)), (Field.root.key, .object query)]

theorem load_envelope {text : String} {query : List (String × Json)} {d : Draw Query}
    (htext : Json.read? text.toList = some (.object (envelope query)))
    (hquery : Query.read (.object query) = .ok d) :
    load text = .ok ((fun root => ⟨Info.blank, root⟩) <$> d) := by
  have henvelope : isEnvelope (.object (envelope query)) = true := rfl
  have hput : Entries.put Field.info.key (.object (infoEntries (envelope query))) (envelope query) =
      envelope query ++ [(Field.info.key, .object [(Field.name.key, .string defaultName)])] := rfl
  have hfields : ofFields (envelope query ++
      [(Field.info.key, .object [(Field.name.key, .string defaultName)])]) =
        .ok ((fun root => ⟨Info.blank, root⟩) <$> d) := by
    change (fun _ info root => Document.mk info root) <$> done Format.first <*> done Info.blank
      <*> (Query.read (.object query)).under _ = _
    rw [hquery]
    rfl
  rw [load, htext]
  dsimp only
  rw [ofJson, if_pos henvelope, hput, hfields]

/-- The data of a query with one subquery, under the key `s`. -/
def ofSubquery (subquery : List (String × Json)) : List (String × Json) :=
  [(Field.id.key, .string "r"), (Field.subqueries.key, .object [("s", .object subquery)])]

/-- A document with a subquery for which no identifier is given. -/
def unnamedSubquery : String :=
  "\x7b\"$schema\":\"sql-forge/visual-query/v1\",\"root\":\x7b\"id\":\"r\"," ++
    "\"subQueries\":\x7b\"s\":\x7b\x7d\x7d\x7d\x7d"

/-- The same document with the key for an identifier. -/
def namedSubquery : String :=
  "\x7b\"$schema\":\"sql-forge/visual-query/v1\",\"root\":\x7b\"id\":\"r\"," ++
    "\"subQueries\":\x7b\"s\":\x7b\"id\":\"s\"\x7d\x7d\x7d\x7d"

/-- The subquery without an identifier gets a fresh one and is found under its key, but cannot be
edited there. -/
theorem editAt_unnamedSubquery :
    ∃ made, load unnamedSubquery = .ok made ∧
      (made.run (.ofSource numbered)).1.root.at? ["s"] = some (Query.bare "0000000" .select) ∧
      (made.run (.ofSource numbered)).1.root.editAt
        (Edit.apply (.setFields [(Field.limit.altKey, .string "5")]) (.ofSource numbered)) ["s"] =
          .error (.misplaced "s" "0000000") := by
  have hread : Json.read? unnamedSubquery.toList = some (.object (envelope (ofSubquery []))) := rfl
  exact ⟨_, load_envelope hread rfl, rfl, rfl⟩

/-- **Not every subquery of a document that loads can be edited in its place.** -/
theorem not_forall_exists_editAt :
    ¬∀ (text : String) (made : Draw Document), load text = .ok made →
      ∀ (supply : Supply) (path : List String) (n : Query),
        (made.run supply).1.root.at? path = some n →
        ∀ edit : Query → Except EditError (Query × Supply), Query.IsRevision edit →
          ∃ q a, (made.run supply).1.root.editAt edit path = .ok (q, a) := by
  intro h
  obtain ⟨made, hmade, hn, herror⟩ := editAt_unnamedSubquery
  obtain ⟨q, a, hok⟩ :=
    h _ made hmade _ ["s"] _ hn _ (Query.isRevision_setLimit "5" (.ofSource numbered))
  cases herror.symm.trans hok

theorem isKeyed_namedSubquery : IsKeyed namedSubquery := by
  have hread : Json.read? namedSubquery.toList =
      some (.object (envelope (ofSubquery [(Field.id.key, .string "s")]))) := rfl
  refine ⟨_, _, _, hread, rfl, .intro ?_ ?_⟩
  · intro e he
    cases List.mem_singleton.mp he
    exact ⟨_, rfl⟩
  · intro e he
    cases List.mem_singleton.mp he
    exact .intro nofun nofun

/-- The subquery with its key for an identifier can be edited. -/
theorem exists_editAt_iff_of_load_namedSubquery :
    ∃ made, load namedSubquery = .ok made ∧
      (made.run (.ofSource numbered)).1.root.at? ["s"] = some (Query.bare "s" .select) ∧
      ∃ q a, (made.run (.ofSource numbered)).1.root.editAt
        (Edit.apply (.setFields [(Field.limit.altKey, .string "5")]) (.ofSource numbered)) ["s"] =
          .ok (q, a) := by
  have hread : Json.read? namedSubquery.toList =
      some (.object (envelope (ofSubquery [(Field.id.key, .string "s")]))) := rfl
  have hload := load_envelope hread rfl
  exact ⟨_, hload, rfl, (exists_editAt_iff_of_load hload (Query.isRevision_setLimit "5" _) _ rfl).2
    isKeyed_namedSubquery⟩

end Document

end QueryComposer
