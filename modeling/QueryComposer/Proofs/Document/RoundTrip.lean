import QueryComposer.Document.Load
import QueryComposer.Proofs.Query.RoundTrip

/-!
# Documents that are loaded again

Saving a document and loading it gives the document back, down to the order of the subqueries and
whatever characters its texts have. The one exception is made on purpose: a document without a name
comes back under the default name. What was loaded has a name, so saving and loading do not change
it any more.

## Main definitions

* `Document.named` is the document under the name that it is loaded with.

## Main results

* `Document.ofJson_toJson`: a document is read back from its object.
* `Document.yields_of_ofJson`: what was loaded has a name, and its subqueries are kept in maps.
* `Document.load_dump`: saving and loading lose nothing.
-/

namespace QueryComposer

open Intake Json

theorem Info.read_toJson (i : Info) : Info.read i.toJson = done i := rfl

theorem Info.isTextual_toJson (i : Info) : i.toJson.IsTextual := by
  have hkeys : ["name", "createdAt", "updatedAt"].Nodup := by decide
  refine .object hkeys ?_
  simp only [List.forall_mem_cons]
  exact ⟨.string _, .string _, .string _, nofun⟩

namespace Document

/-- The document under the name that it is loaded with. -/
def named (d : Document) : Document := { d with info := { d.info with name := nameOr d.info.name } }

theorem named_of_ne {d : Document} (h : d.info.name ≠ "") : d.named = d := by
  rw [named, nameOr, if_neg h]

theorem named_ofQuery (root : Query) (name stamp : String) :
    (ofQuery root name stamp).named = ofQuery root name stamp := by
  refine named_of_ne ?_
  rw [ofQuery, nameOr]
  split
  · exact (by decide : defaultName ≠ "")
  · assumption

theorem isTextual_toJson {d : Document} (h : d.root.HasDistinctKeys) : d.toJson.IsTextual := by
  have hkeys : ["$schema", "meta", "root"].Nodup := by decide
  refine .object hkeys ?_
  simp only [List.forall_mem_cons]
  exact ⟨.string _, d.info.isTextual_toJson, Query.isTextual_toJson h, nofun⟩

/-! ### Reading back -/

theorem isEnvelope_toJson (d : Document) : isEnvelope d.toJson = true := by
  obtain ⟨info, root⟩ := d
  cases root
  rfl

/-- The text of a document is read as its object. -/
theorem read?_dump {d : Document} (h : d.root.HasDistinctKeys) :
    read? d.dump.toList = some d.toJson := by
  rw [dump, print, String.toList_ofList]
  exact read?_write (isTextual_toJson h) 0

/-- The information is read with the default name where it has none. -/
theorem infoEntries_toJson (d : Document) :
    Json.object (infoEntries [Field.schema.choice Format.first, (Field.info.key, d.info.toJson),
      (Field.root.key, d.root.toJson)]) = d.named.info.toJson := by
  obtain ⟨⟨name, createdAt, updatedAt⟩, root⟩ := d
  have hentries : infoEntries [Field.schema.choice Format.first,
      (Field.info.key, Info.toJson ⟨name, createdAt, updatedAt⟩), (Field.root.key, root.toJson)] =
        if (!decide (name = "")) = true then
          [Field.name.text name, Field.createdAt.text createdAt, Field.updatedAt.text updatedAt]
        else [Field.name.text defaultName, Field.createdAt.text createdAt,
          Field.updatedAt.text updatedAt] := rfl
  rw [hentries, named, Info.toJson, nameOr]
  by_cases hname : name = "" <;> simp [hname]

/-- **A document is read back from its object.** -/
theorem ofJson_toJson (d : Document) : ofJson d.toJson = .ok (pure d.named) := by
  have henvelope := isEnvelope_toJson d
  have hinfo := infoEntries_toJson d
  have hroot := Query.read_toJson d.root
  rw [toJson] at henvelope
  have hfields : ofFields [Field.schema.choice Format.first,
      (Field.info.key, d.named.info.toJson), (Field.root.key, d.root.toJson)] = done d.named := by
    change (fun _ info root => Document.mk info root) <$> done Format.first <*> done d.named.info
      <*> (Query.read d.root.toJson).under _ = _
    rw [hroot]
    rfl
  have hput : Entries.put Field.info.key d.named.info.toJson [Field.schema.choice Format.first,
      (Field.info.key, d.info.toJson), (Field.root.key, d.root.toJson)] =
        [Field.schema.choice Format.first, (Field.info.key, d.named.info.toJson),
          (Field.root.key, d.root.toJson)] := rfl
  rw [toJson, ofJson, if_pos henvelope, hinfo, hput, hfields]
  rfl

/-! ### What is loaded -/

/-- Whatever stands in the place of the information, it is read with a name. -/
theorem exists_name_infoEntries (es : List (String × Json)) :
    ∃ v, Entries.find? Field.name.key (infoEntries es) = some v ∧ v.isFalsy = false := by
  unfold infoEntries
  extract_lets given isNamed
  have hdefault : Entries.find? Field.name.key
      (Entries.put Field.name.key (.string defaultName) given) = some (.string defaultName) := by
    rw [Entries.find?_put, if_pos rfl]
  cases hfind : Entries.find? Field.name.key given with
  | none =>
    have hnamed : isNamed = false := by simp only [isNamed, hfind]
    rw [hnamed, if_neg Bool.false_ne_true]
    exact ⟨_, hdefault, by decide⟩
  | some v =>
    have hnamed : isNamed = !v.isFalsy := by simp only [isNamed, hfind]
    rw [hnamed]
    cases hv : v.isFalsy with
    | true => exact ⟨_, hdefault, by decide⟩
    | false => exact ⟨v, hfind, hv⟩

theorem yields_text_of_not_isFalsy {v : Json} (h : v.isFalsy = false) :
    (text v).Yields fun s => s ≠ "" := by
  cases v with
  | string s => exact yields_done (of_decide_eq_false h)
  | _ => exact yields_fail _

theorem yields_info (es : List (String × Json)) :
    (Info.read (.object (infoEntries es))).Yields fun i => i.name ≠ "" := by
  obtain ⟨v, hfind, hv⟩ := exists_name_infoEntries es
  have hfield : Field.name.find? (infoEntries es) = some (Field.name.key, v) := by
    rw [Field.find?, hfind]
  have hname : (field .name text (done Info.blank.name) (infoEntries es)).Yields
      fun s => s ≠ "" := by
    refine yields_field (fun k w hw => ?_) fun hnone => ?_
    · cases hfield.symm.trans hw
      exact yields_text_of_not_isFalsy hv
    · cases hfield.symm.trans hnone
  refine Yields.seq_all (Yields.seq_all (hname.map ?_))
  exact fun name hne createdAt updatedAt => hne

/-- What was loaded has a name, and of its query holds whatever holds of what is read in the place
of the query. -/
theorem yields_root_of_ofJson {P : Query → Prop} {es : List (String × Json)}
    (h : ∀ k w, Field.root.find? es = some (k, w) → (Query.read w).Yields P) {made : Draw Document}
    (hmade : ofJson (.object es) = .ok made) (supply : Supply) :
    (made.run supply).1.info.name ≠ "" ∧ P (made.run supply).1.root := by
  have hfields : (ofFields (Entries.put Field.info.key (.object (infoEntries es)) es)).Yields
      fun d => d.info.name ≠ "" ∧ P d.root := by
    have hinfo : (field .info Info.read (done Info.blank)
        (Entries.put Field.info.key (.object (infoEntries es)) es)).Yields
          fun i => i.name ≠ "" := by
      refine yields_field (fun k w hw => ?_) fun _ => yields_done (by decide)
      rw [Field.find?, Entries.find?_put, if_pos rfl] at hw
      cases hw
      exact yields_info es
    have hroot : (required .root Query.read
        (Entries.put Field.info.key (.object (infoEntries es)) es)).Yields P := by
      refine yields_field (fun k w hw => ?_) fun _ => (yields_fail _).under _
      rw [Field.find?, Entries.find?_put, Entries.find?_put] at hw
      exact h k w hw
    refine Yields.seq (Yields.seq ?_ hinfo) hroot
    refine Yields.map (P := fun _ => True) (.of_forall fun _ => trivial) ?_
    exact fun _ _ info hname root hP => ⟨hname, hP⟩
  simp only [ofJson] at hmade
  split at hmade
  · split at hmade
    · next d hd =>
      cases hmade
      exact hfields _ hd supply
    · cases hmade
  · cases hmade

/-- **What was loaded** has a name, and its subqueries are kept in maps. -/
theorem yields_of_ofJson {v : Json} (h : v.HasDistinctKeys) {made : Draw Document}
    (hmade : ofJson v = .ok made) (supply : Supply) :
    (made.run supply).1.info.name ≠ "" ∧ (made.run supply).1.root.HasDistinctKeys := by
  cases h with
  | @object es hkeys hes =>
    have hroot : ∀ k w, Field.root.find? es = some (k, w) →
        (Query.read w).Yields Query.HasDistinctKeys :=
      fun k w hw => Query.yields_read (hes _ (Entries.mem_of_find? (Field.find?_eq_some hw).2))
    exact yields_root_of_ofJson hroot hmade supply
  | _ => cases hmade

/-- **Saving and loading lose nothing.** A document comes back as it was saved, and no identifier is
drawn for it, but a missing name becomes the default name. So a new document comes back with the
query and the times that it was made with, and so does what was loaded from any text. -/
theorem load_dump :
    (∀ d : Document, d.root.HasDistinctKeys → load d.dump = .ok (pure d.named)) ∧
      (∀ root name stamp, root.HasDistinctKeys →
        load (ofQuery root name stamp).dump =
          .ok (pure ⟨⟨if name = "" then "my_query" else name, stamp, stamp⟩, root⟩)) ∧
      ∀ text made, load text = .ok made → ∀ supply,
        load (made.run supply).1.dump = .ok (pure (made.run supply).1) := by
  have hload : ∀ d : Document, d.root.HasDistinctKeys → load d.dump = .ok (pure d.named) := by
    intro d hd
    rw [load, read?_dump hd]
    exact ofJson_toJson d
  refine ⟨hload, fun root name stamp hroot => ?_, fun text made hmade supply => ?_⟩
  · rw [hload _ hroot, named_ofQuery]
    rfl
  · unfold load at hmade
    split at hmade
    · next v hv =>
      obtain ⟨hname, hroot⟩ := yields_of_ofJson (hasDistinctKeys_of_read? hv) hmade supply
      rw [hload _ hroot, named_of_ne hname]
    · split at hmade <;> cases hmade

/-- A document without a name, with a subquery and with characters that have to be escaped. -/
def untitled : Document :=
  ⟨⟨"", "2024-02-29T23:59:59.999Z", ""⟩,
    { Query.bare "root" .delete with
      table := "\"café\"\n🐍\x7f"
      conditions := [⟨"", "", .existing, "", .and, some ""⟩]
      subqueries := [("", Query.bare "a" .select), ("b", Query.bare "" .update)] }⟩

theorem hasDistinctKeys_untitled : untitled.root.HasDistinctKeys := by
  have hbare : ∀ id operation, (Query.bare id operation).HasDistinctKeys :=
    fun id operation => .intro List.nodup_nil nofun
  have hkeys : ["", "b"].Nodup := by decide
  refine .intro hkeys ?_
  simp only [untitled, List.forall_mem_cons]
  exact ⟨hbare _ _, hbare _ _, nofun⟩

theorem load_dump_untitled :
    load untitled.dump = .ok (pure untitled.named) ∧
      load (ofQuery untitled.root "" "noon").dump =
        .ok (pure ⟨⟨"my_query", "noon", "noon"⟩, untitled.root⟩) ∧
      load untitled.named.dump = .ok (pure untitled.named) :=
  ⟨load_dump.1 untitled hasDistinctKeys_untitled,
    load_dump.2.1 untitled.root "" "noon" hasDistinctKeys_untitled,
    load_dump.2.2 untitled.dump _ (load_dump.1 untitled hasDistinctKeys_untitled)
      (Supply.ofSource numbered)⟩

end Document

end QueryComposer
