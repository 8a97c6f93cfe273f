import QueryComposer.Proofs.Document.RoundTrip
import QueryComposer.Proofs.Json.Overlong

/-!
# Which texts are loaded

Every text is one of three things: it spells no value, it spells a document, or it spells a value
that is no document. Loading tells them apart. A document names the format and holds an object that
can be read as a query. What stands in the place of its information is ignored unless it is an
object, and then its times have to be texts, and its name too, if it is not a value that stands for
"nothing given".

Among the texts that spell no value are those in which an integer has too many digits where a value
is due. Loading has no error of its own for them. It passes on the complaint of the reader
(`LoadError.overlong`), so that not all texts that spell no value are refused in the same words
(`not_forall_unreadable`).

The information is repaired before it is read, and the query is read where it stands, so a document
is read piece by piece (`Document.ofFields_put_info`). The information draws no identifiers, which
is why the query is what is read of its object alone.

## Main definitions

* `Document.IsDocument` holds of the values that are documents.
* `Document.shownName` is the name that a document is loaded with.

## Main results

* `Document.exists_ofJson_eq_ok_iff`, `Document.ofJson_eq_error_iff`: which values are documents.
* `Document.IsDocumentWith.exists_ofJson_eq`: what is read of a document.
* `Document.load_classifies`: what loading does with each text.
-/

namespace QueryComposer

open Intake Json

/-- The first name of a field comes before the second. -/
theorem Field.find?_of_key {f : Field} {es : List (String × Json)} {v : Json}
    (h : Entries.find? f.key es = some v) : f.find? es = some (f.key, v) := by
  rw [find?, h]

namespace Intake

variable {α β : Type}

/-- Both parts of what was read were read. -/
theorem exists_of_seq_eq_ok {f : Intake (α → β)} {x : Intake α} {d : Draw β}
    (h : f <*> x = .ok d) : ∃ df dx, f = .ok df ∧ x = .ok dx := by
  cases f with
  | ok df =>
    cases x with
    | ok dx => exact ⟨df, dx, rfl, rfl⟩
    | error issues => cases h
  | error issues => cases x <;> cases h

theorem exists_of_map_eq_ok {f : α → β} {x : Intake α} {d : Draw β} (h : f <$> x = .ok d) :
    ∃ dx, x = .ok dx := by
  cases x with
  | ok dx => exact ⟨dx, rfl⟩
  | error issues => cases h

theorem exists_of_under_eq_ok {x : Intake α} {s : Step} {d : Draw α} (h : x.under s = .ok d) :
    x = .ok d := by
  cases x with
  | ok dx => exact h
  | error issues => cases h

/-- A field that is a text, or absent. -/
def IsTextAt (f : Field) (es : List (String × Json)) : Prop :=
  ∀ k v, f.find? es = some (k, v) → ∃ s, v = .string s

theorem IsTextAt.exists_field_eq {f : Field} {es : List (String × Json)} (h : IsTextAt f es)
    (s : String) : ∃ s', field f text (done s) es = done s' := by
  rw [field]
  cases hfind : f.find? es with
  | none => exact ⟨s, rfl⟩
  | some e =>
    obtain ⟨s', hs'⟩ := h e.1 e.2 hfind
    refine ⟨s', ?_⟩
    dsimp only
    rw [hs']
    rfl

theorem isTextAt_of_field_eq_ok {f : Field} {es : List (String × Json)} {absent : Intake String}
    {d : Draw String} (h : field f text absent es = .ok d) : IsTextAt f es := by
  intro k v hfind
  rw [field, hfind] at h
  have htext := exists_of_under_eq_ok h
  cases v with
  | string s => exact ⟨s, rfl⟩
  | _ => cases htext

end Intake

namespace Document

/-! ### Documents -/

/-- Information with times that are texts, and a name that is a text or stands for none. -/
structure IsInfo (given : List (String × Json)) : Prop where
  name : ∀ v, Entries.find? "name" given = some v → v.isFalsy = true ∨ ∃ s, v = .string s
  createdAt : IsTextAt .createdAt given
  updatedAt : IsTextAt .updatedAt given

/-- The object names the format, holds these fields of a query, and has good information if it has
an object in its place. -/
structure IsDocumentWith (es fields : List (String × Json)) : Prop where
  format : Entries.find? "$schema" es = some (.string "sql-forge/visual-query/v1")
  root : Entries.find? "root" es = some (.object fields)
  query : ∃ d, Query.read (.object fields) = .ok d
  info : ∀ given, Entries.find? "meta" es = some (.object given) → IsInfo given

/-- The value is an object with all that a document needs. -/
def IsDocument (v : Json) : Prop := ∃ es fields, v = .object es ∧ IsDocumentWith es fields

/-- What is given as information, which is nothing if it is no object. -/
def givenInfo (es : List (String × Json)) : List (String × Json) :=
  match Entries.find? "meta" es with
  | some (.object given) => given
  | _ => []

/-- The name, if it is a text and not empty, and the default name otherwise. -/
def shownName : Option Json → String
  | some (.string s) => if s = "" then "my_query" else s
  | _ => "my_query"

/-- The value that is read as the name. -/
def repairedName : Option Json → Json
  | some v => if v.isFalsy then .string "my_query" else v
  | none => .string "my_query"

variable {es fields : List (String × Json)}

/-! ### Information -/

theorem isInfo_givenInfo_iff : IsInfo (givenInfo es) ↔
    ∀ given, Entries.find? "meta" es = some (.object given) → IsInfo given := by
  constructor
  · intro h given hgiven
    rwa [givenInfo, hgiven] at h
  · intro h
    rw [givenInfo]
    split
    · next hgiven => exact h _ hgiven
    · exact ⟨nofun, nofun, nofun⟩

theorem shownName_ne (name : Option Json) : shownName name ≠ "" := by
  unfold shownName
  split
  · split
    · decide
    · assumption
  · decide

/-- A name that is a text, or stands for none, is read as the name that is shown. -/
theorem text_repairedName {name : Option Json}
    (h : ∀ v, name = some v → v.isFalsy = true ∨ ∃ s, v = .string s) :
    text (repairedName name) = done (shownName name) := by
  cases name with
  | none => rfl
  | some v =>
    rw [repairedName]
    cases v with
    | string s =>
      by_cases hs : s = ""
      · subst hs
        rfl
      · have hfalsy : (Json.string s).isFalsy = false := decide_eq_false hs
        rw [hfalsy, shownName, if_neg hs]
        rfl
    | _ =>
      rcases h _ rfl with hfalsy | ⟨s, hs⟩
      · rw [if_pos hfalsy]
        rfl
      · cases hs

theorem of_text_repairedName {name : Option Json} {d : Draw String}
    (h : text (repairedName name) = .ok d) {v : Json} (hv : name = some v) :
    v.isFalsy = true ∨ ∃ s, v = .string s := by
  subst hv
  rw [repairedName] at h
  split at h
  · next hfalsy => exact .inl hfalsy
  · cases v with
    | string s => exact .inr ⟨s, rfl⟩
    | _ => cases h

/-- The name is put in where none is given. -/
theorem infoEntries_eq (es : List (String × Json)) : infoEntries es =
    if (Entries.find? "name" (givenInfo es)).any (!·.isFalsy) then givenInfo es
    else Entries.put "name" (.string "my_query") (givenInfo es) := by
  unfold infoEntries
  extract_lets given isNamed
  have hnamed : isNamed = (Entries.find? "name" given).any (!·.isFalsy) := by
    change (match Entries.find? "name" given with
      | some v => !v.isFalsy
      | none => false) = _
    cases Entries.find? "name" given <;> rfl
  rw [hnamed]
  rfl

theorem find?_infoEntries {f : Field} (hkey : f.key ≠ "name") (halt : f.altKey ≠ "name") :
    f.find? (infoEntries es) = f.find? (givenInfo es) := by
  rw [infoEntries_eq]
  split
  · rfl
  · rw [Field.find?, Field.find?, Entries.find?_put, Entries.find?_put, if_neg hkey.symm,
      if_neg halt.symm]

theorem find?_name_infoEntries (es : List (String × Json)) :
    Entries.find? "name" (infoEntries es) =
      some (repairedName (Entries.find? "name" (givenInfo es))) := by
  rw [infoEntries_eq]
  cases hfind : Entries.find? "name" (givenInfo es) with
  | none => exact (Entries.find?_put _ _ _ _).trans (if_pos rfl)
  | some v =>
    rw [repairedName, Option.any_some]
    cases v.isFalsy with
    | true => exact (Entries.find?_put _ _ _ _).trans (if_pos rfl)
    | false => exact hfind

theorem field_name_infoEntries (es : List (String × Json)) (absent : Intake String) :
    field .name text absent (infoEntries es) =
      (text (repairedName (Entries.find? "name" (givenInfo es)))).under (.key "name") := by
  rw [field, Field.find?_of_key (find?_name_infoEntries es)]
  rfl

/-- Good information is read under the name that is shown. -/
theorem exists_ofFields_eq_done (h : IsInfo (givenInfo es)) :
    ∃ info, Info.ofFields (infoEntries es) = done info ∧
      info.name = shownName (Entries.find? "name" (givenInfo es)) := by
  have hcreated : IsTextAt .createdAt (infoEntries es) := by
    rw [IsTextAt, find?_infoEntries (by decide) (by decide)]
    exact h.createdAt
  have hupdated : IsTextAt .updatedAt (infoEntries es) := by
    rw [IsTextAt, find?_infoEntries (by decide) (by decide)]
    exact h.updatedAt
  obtain ⟨createdAt, hcreatedAt⟩ := hcreated.exists_field_eq Info.blank.createdAt
  obtain ⟨updatedAt, hupdatedAt⟩ := hupdated.exists_field_eq Info.blank.updatedAt
  refine ⟨⟨shownName (Entries.find? "name" (givenInfo es)), createdAt, updatedAt⟩, ?_, rfl⟩
  rw [Info.ofFields, hcreatedAt, hupdatedAt, field_name_infoEntries, text_repairedName h.name]
  rfl

theorem isInfo_of_ofFields_eq_ok {d : Draw Info} (h : Info.ofFields (infoEntries es) = .ok d) :
    IsInfo (givenInfo es) := by
  obtain ⟨_, _, hcreated, hupdated⟩ := exists_of_seq_eq_ok h
  obtain ⟨_, _, hname, hcreated⟩ := exists_of_seq_eq_ok hcreated
  obtain ⟨_, hname⟩ := exists_of_map_eq_ok hname
  rw [field_name_infoEntries] at hname
  have hcreatedAt := isTextAt_of_field_eq_ok hcreated
  have hupdatedAt := isTextAt_of_field_eq_ok hupdated
  rw [IsTextAt, find?_infoEntries (by decide) (by decide)] at hcreatedAt hupdatedAt
  exact ⟨fun v => of_text_repairedName (exists_of_under_eq_ok hname), hcreatedAt, hupdatedAt⟩

/-! ### Documents -/

theorem isEnvelope_iff : isEnvelope (.object es) = true ↔
    Entries.find? "$schema" es = some (.string "sql-forge/visual-query/v1") ∧
      ∃ fields, Entries.find? "root" es = some (.object fields) := by
  rw [isEnvelope, Bool.and_eq_true]
  refine and_congr ?_ ?_
  · rw [namesFormat]
    split
    · next s hs =>
      have hs : Entries.find? "$schema" es = some (.string s) := hs
      simp only [hs, decide_eq_true_eq, Option.some.injEq, Json.string.injEq]
      rfl
    · next hne => exact iff_of_false Bool.false_ne_true (hne _)
  · split
    · next fields hfields => exact iff_of_true rfl ⟨fields, hfields⟩
    · next hne =>
      refine iff_of_false Bool.false_ne_true ?_
      rintro ⟨fields, hfields⟩
      exact hne fields hfields

/-- The format and the query stand where they stood. -/
theorem ofFields_put_info
    (hformat : Entries.find? "$schema" es = some (.string "sql-forge/visual-query/v1"))
    (hroot : Entries.find? "root" es = some (.object fields)) (given : List (String × Json)) :
    ofFields (Entries.put Field.info.key (.object given) es) =
      (fun _ info root => ⟨info, root⟩) <$> done Format.first
        <*> (Info.ofFields given).under (.key "meta")
        <*> (Query.read (.object fields)).under (.key "root") := by
  have hput : ∀ key, Entries.find? key (Entries.put Field.info.key (.object given) es) =
      if Field.info.key = key then some (.object given) else Entries.find? key es :=
    fun key => Entries.find?_put Field.info.key key (.object given) es
  have hformat' := Field.find?_of_key ((hput Field.schema.key).trans hformat)
  have hinfo := Field.find?_of_key ((hput Field.info.key).trans (if_pos rfl))
  have hroot' := Field.find?_of_key ((hput Field.root.key).trans hroot)
  rw [ofFields, required, field, field, field, hformat', hinfo, hroot']
  rfl

/-- **A document is read**, its query as it is read alone. -/
theorem IsDocumentWith.exists_ofJson_eq (h : IsDocumentWith es fields) :
    ∃ info d, Query.read (.object fields) = .ok d ∧
      info.name = shownName (Entries.find? "name" (givenInfo es)) ∧
      ofJson (.object es) = .ok ((fun root => ⟨info, root⟩) <$> d) := by
  obtain ⟨d, hd⟩ := h.query
  obtain ⟨info, hinfo, hname⟩ := exists_ofFields_eq_done (isInfo_givenInfo_iff.mpr h.info)
  refine ⟨info, d, hd, hname, ?_⟩
  rw [ofJson, if_pos (isEnvelope_iff.mpr ⟨h.format, fields, h.root⟩),
    ofFields_put_info h.format h.root, hinfo, hd]
  rfl

/-- What is read is a document. -/
theorem exists_isDocumentWith {made : Draw Document} (h : ofJson (.object es) = .ok made) :
    ∃ fields, IsDocumentWith es fields := by
  rw [ofJson] at h
  split at h
  · next henvelope =>
    obtain ⟨hformat, fields, hroot⟩ := isEnvelope_iff.mp henvelope
    rw [ofFields_put_info hformat hroot] at h
    split at h
    · next d hd =>
      obtain ⟨_, dquery, hinfo, hquery⟩ := exists_of_seq_eq_ok hd
      obtain ⟨_, _, _, hinfo⟩ := exists_of_seq_eq_ok hinfo
      have hgood := isInfo_of_ofFields_eq_ok (exists_of_under_eq_ok hinfo)
      exact ⟨fields, hformat, hroot, ⟨dquery, exists_of_under_eq_ok hquery⟩,
        isInfo_givenInfo_iff.mp hgood⟩
    · cases h
  · cases h

theorem exists_ofJson_eq_ok_iff {v : Json} : (∃ made, ofJson v = .ok made) ↔ IsDocument v := by
  constructor
  · rintro ⟨made, hmade⟩
    cases v with
    | object es =>
      obtain ⟨fields, h⟩ := exists_isDocumentWith hmade
      exact ⟨es, fields, rfl, h⟩
    | _ => cases hmade
  · rintro ⟨es, fields, rfl, h⟩
    obtain ⟨info, d, -, -, hofJson⟩ := h.exists_ofJson_eq
    exact ⟨_, hofJson⟩

theorem ofJson_eq_error_iff {v : Json} {e : LoadError} :
    ofJson v = .error e ↔ e = .notDocument ∧ ¬IsDocument v := by
  rw [← exists_ofJson_eq_ok_iff]
  cases h : ofJson v with
  | ok made =>
    refine iff_of_false (fun herror => ?_) fun hnone => hnone.2 ⟨made, rfl⟩
    cases herror
  | error e' =>
    have he' : e' = .notDocument := by
      unfold ofJson at h
      split at h
      · split at h
        · split at h <;> cases h
          rfl
        · cases h
          rfl
      · cases h
        rfl
    subst he'
    constructor
    · intro heq
      cases heq
      refine ⟨rfl, ?_⟩
      rintro ⟨made, hmade⟩
      cases hmade
    · rintro ⟨rfl, -⟩
      rfl

/-! ### Texts -/

theorem load_of_spells {text : String} {v : Json} (h : Spells text.toList (.value v)) :
    load text = ofJson v := by
  rw [load, read?_eq_some_iff.mpr h]

theorem load_of_stopsAt {text : String} {n : Nat} (h : StopsAt text.toList n) :
    load text = .error (.overlong n) := by
  rw [load, h.read?_eq_none, overlong?_eq_some_iff.mpr h]

theorem load_of_not_spells {text : String} (h : ¬∃ v, Spells text.toList (.value v))
    (hstops : ¬∃ n, StopsAt text.toList n) : load text = .error .unreadable := by
  rw [load]
  cases hread : read? text.toList with
  | some v => exact absurd ⟨v, read?_eq_some_iff.mp hread⟩ h
  | none =>
    cases hoverlong : overlong? text.toList with
    | none => rfl
    | some n => exact absurd ⟨n, overlong?_eq_some_iff.mp hoverlong⟩ hstops

/-- A text spells a value, or has an integer with too many digits, or neither. -/
theorem load_cases (text : String) :
    (∃ v, Spells text.toList (.value v) ∧ load text = ofJson v) ∨
      (∃ n, StopsAt text.toList n ∧ load text = .error (.overlong n)) ∨
      (¬∃ v, Spells text.toList (.value v)) ∧ (¬∃ n, StopsAt text.toList n) ∧
        load text = .error .unreadable := by
  by_cases hvalue : ∃ v, Spells text.toList (.value v)
  · obtain ⟨v, hv⟩ := hvalue
    exact .inl ⟨v, hv, load_of_spells hv⟩
  by_cases hstops : ∃ n, StopsAt text.toList n
  · obtain ⟨n, hn⟩ := hstops
    exact .inr (.inl ⟨n, hn, load_of_stopsAt hn⟩)
  · exact .inr (.inr ⟨hvalue, hstops, load_of_not_spells hvalue hstops⟩)

theorem load_eq_overlong_iff {text : String} {n : Nat} :
    load text = .error (.overlong n) ↔ StopsAt text.toList n := by
  refine ⟨fun h => ?_, load_of_stopsAt⟩
  rcases load_cases text with ⟨v, -, hload⟩ | ⟨n', hn', hload⟩ | ⟨-, -, hload⟩
  · rw [hload, ofJson_eq_error_iff] at h
    cases h.1
  · cases hload.symm.trans h
    exact hn'
  · cases hload.symm.trans h

/-- The complaint about an integer is none about documents. -/
theorem message_overlong_ne (n : Nat) :
    (LoadError.overlong n).message ≠ "Failed to parse JSON file" := by
  unfold LoadError.message Number.overlongMessage
  intro h
  have hhead := congrArg (fun s => s.toList.head?) h
  simp only [String.toList_append] at hhead
  cases hhead

theorem load_unparsed_iff {text : String} :
    (∃ e, load text = .error e ∧ e.message = "Failed to parse JSON file") ↔
      (¬∃ v, Spells text.toList (.value v)) ∧ ¬∃ n, StopsAt text.toList n := by
  constructor
  · rintro ⟨e, he, hmessage⟩
    rcases load_cases text with ⟨v, -, hload⟩ | ⟨n, -, hload⟩ | ⟨hvalue, hstops, -⟩
    · rw [hload, ofJson_eq_error_iff] at he
      rw [he.1] at hmessage
      exact absurd hmessage (by decide)
    · cases hload.symm.trans he
      exact absurd hmessage (message_overlong_ne n)
    · exact ⟨hvalue, hstops⟩
  · rintro ⟨hvalue, hstops⟩
    exact ⟨.unreadable, load_of_not_spells hvalue hstops, rfl⟩

/-- **Loading tells all texts apart.** A text in which an integer has too many digits, where a value
is due, is refused with a complaint about it. Any other text that spells no value cannot be parsed.
One that spells a value is loaded if the value is a document, and belongs to something else if it is
not. The query of a document is what is read of its object alone, with the same identifiers. Its
name is the one that is given, if that is a text and not empty, and the default name otherwise. -/
theorem load_classifies (text : String) :
    ((∃ e, load text = .error e ∧ e.message = "Failed to parse JSON file") ↔
      (¬∃ v, Spells text.toList (.value v)) ∧ ¬∃ n, StopsAt text.toList n) ∧
    (∀ n, load text = .error (.overlong n) ↔ StopsAt text.toList n) ∧
    (∀ n, StopsAt text.toList n → ¬∃ v, Spells text.toList (.value v)) ∧
    ∀ v, Spells text.toList (.value v) →
      ((∃ made, load text = .ok made) ↔ IsDocument v) ∧
      ((∃ e, load text = .error e ∧ e.message = "Invalid file: not a SQL Forge query") ↔
        ¬IsDocument v) ∧
      ∀ es fields, v = .object es → IsDocumentWith es fields →
        ∃ made d, load text = .ok made ∧ Query.read (.object fields) = .ok d ∧ ∀ supply,
          ((made.run supply).1.root, (made.run supply).2) = d.run supply ∧
          (made.run supply).1.info.name = shownName (Entries.find? "name" (givenInfo es)) ∧
          (made.run supply).1.info.name ≠ "" := by
  refine ⟨load_unparsed_iff, fun n => load_eq_overlong_iff, fun n h => h.not_spells,
    fun v hv => ?_⟩
  rw [load_of_spells hv]
  refine ⟨exists_ofJson_eq_ok_iff, ⟨?_, fun h => ?_⟩, ?_⟩
  · rintro ⟨e, he, -⟩
    exact (ofJson_eq_error_iff.mp he).2
  · exact ⟨.notDocument, ofJson_eq_error_iff.mpr ⟨rfl, h⟩, rfl⟩
  · rintro es fields rfl h
    obtain ⟨info, d, hd, hname, hofJson⟩ := h.exists_ofJson_eq
    refine ⟨_, d, hofJson, hd, fun supply => ⟨rfl, hname, ?_⟩⟩
    exact hname ▸ shownName_ne _

/-- The text of a document up to the value of one more entry. -/
def unfinished : List Char :=
  "\x7b\"$schema\":\"sql-forge/visual-query/v1\",\"root\":\x7b\x7d,\"x\":".toList

/-- A document in which that value is an integer of so many nines. -/
def withNines (n : Nat) : String :=
  String.ofList (unfinished ++ (List.replicate n '9' ++ ['\x7d']))

theorem stopsAt_withNines {n : Nat} (hn : Number.longest < n) :
    StopsAt (withNines n).toList n := by
  have hdue : IsDue unfinished := Reader.isDue_iff.mpr ⟨_, ⟨_, rfl, rfl⟩, rfl⟩
  have hwhole : Number.IsWhole (List.replicate n '9') := by
    refine ⟨⟨?_, fun c hc => ?_⟩, ?_⟩
    · rw [Ne, List.replicate_eq_nil_iff]
      exact Nat.ne_zero_of_lt hn
    · rw [List.eq_of_mem_replicate hc]
      rfl
    · rintro d ds h
      have hzero : '0' ∈ List.replicate n '9' := h ▸ List.mem_cons_self
      cases List.eq_of_mem_replicate hzero
  have hbrace : ∀ c ∈ ['\x7d'].head?, c.isDigit = false := by
    intro c hc
    cases hc
    rfl
  have hends : Number.EndsInteger ['\x7d'] := (Number.endsInteger_iff hbrace).mpr rfl
  have hbegins := Number.BeginsOverlong.plain hwhole (by rwa [List.length_replicate]) hends
  rw [List.length_replicate] at hbegins
  exact ⟨_, _, String.toList_ofList, hdue, hbegins⟩

/-- The text of a document without a name, an empty object, a text that ends too early, and one with
an integer that is too long. -/
theorem load_classifies_untitled :
    (∃ made, load untitled.dump = .ok made) ∧ IsDocument untitled.toJson ∧
      (∃ e, load "\x7b\x7d" = .error e ∧ e.message = "Invalid file: not a SQL Forge query") ∧
      (¬∃ v, Spells "[1,".toList (.value v)) ∧
      load (withNines 4301) = .error (.overlong 4301) := by
  have huntitled : Spells untitled.dump.toList (.value untitled.toJson) :=
    read?_eq_some_iff.mp (read?_dump hasDistinctKeys_untitled)
  have hmade := load_dump.1 untitled hasDistinctKeys_untitled
  have hempty : Spells "\x7b\x7d".toList (.value (.object [])) := read?_eq_some_iff.mp rfl
  obtain ⟨hnone, -⟩ := (load_classifies "[1,").1.mp ⟨.unreadable, rfl, rfl⟩
  have hnot : ¬IsDocument (.object []) := by
    rintro ⟨es, fields, heq, h⟩
    cases heq
    cases h.format
  obtain ⟨hloaded, -, -⟩ := (load_classifies untitled.dump).2.2.2 _ huntitled
  obtain ⟨-, hrefused, -⟩ := (load_classifies "\x7b\x7d").2.2.2 _ hempty
  obtain ⟨-, hoverlong, -⟩ := load_classifies (withNines 4301)
  exact ⟨⟨_, hmade⟩, hloaded.mp ⟨_, hmade⟩, hrefused.mpr hnot, hnone,
    (hoverlong 4301).mpr (stopsAt_withNines (by decide))⟩

/-- Not every text that spells no value is refused in these words: an integer of 4301 digits is
enough, wherever it stands. -/
theorem not_forall_unreadable :
    ¬∀ text, (∃ e, load text = .error e ∧ e.message = "Failed to parse JSON file") ↔
      ¬∃ v, Spells text.toList (.value v) := by
  intro h
  have hstops := stopsAt_withNines (n := 4301) (by decide)
  obtain ⟨e, he, hmessage⟩ := (h _).mpr hstops.not_spells
  cases (load_of_stopsAt hstops).symm.trans he
  exact message_overlong_ne _ hmessage

end Document

end QueryComposer
