import Mathlib.Data.List.Forall2
import QueryComposer.Proofs.Intake.Exact
import QueryComposer.Proofs.Intake.Respelling

/-!
# Reading does not depend on spelling

Values with the same fields are read alike. Either both give the same value, and draw the same
identifiers from a supply, or both have the same issues in the same order, at places that differ in
the names of fields only. As in `Exact`, this is passed on from the fields to the object that has
them, and the order in which the fields are read is that of the model and not that of the object.

## Main definitions

* `Intake.Corresponds` says that two intakes do the same, with issues at corresponding places.
* `Intake.SameOutcome` says so of what they give with a supply.

## Main results

* `Model.corresponds_read`: values with the same fields are read alike.
* `Model.read_respelled`: other spellings change nothing but the spelling of paths.
-/

namespace QueryComposer

open Shape

namespace Intake

variable {α β : Type} {P Q : List Step → List Step → Prop}

/-- The issues are of the same kind, at corresponding places. -/
def SameIssue (P : List Step → List Step → Prop) (i j : Issue) : Prop :=
  P i.path j.path ∧ i.problem = j.problem

/-- Both are the same value, or both are issues, at corresponding places. -/
def SameOutcome (P : List Step → List Step → Prop) :
    Except (List Issue) α → Except (List Issue) α → Prop
  | .ok a, .ok b => a = b
  | .error is, .error js => List.Forall₂ (SameIssue P) is js
  | _, _ => False

/-- The intakes draw and give the same, or have the same issues at corresponding places. -/
inductive Corresponds (P : List Step → List Step → Prop) : Intake α → Intake α → Prop where
  | ok (d : Draw α) : Corresponds P (.ok d) (.ok d)
  | error {is js : List Issue} : List.Forall₂ (SameIssue P) is js →
      Corresponds P (.error is) (.error js)

namespace Corresponds

theorem refl (hP : ∀ path, P path path) (x : Intake α) : x.Corresponds P x := by
  cases x with
  | ok d => exact .ok d
  | error is => exact .error (List.forall₂_same.mpr fun i _ => ⟨hP i.path, rfl⟩)

theorem map {x y : Intake α} (h : x.Corresponds P y) (f : α → β) :
    (f <$> x).Corresponds P (f <$> y) := by
  cases h with
  | ok d => exact .ok _
  | error h => exact .error h

theorem seq {f g : Intake (α → β)} {x y : Intake α} (hf : f.Corresponds P g)
    (hx : x.Corresponds P y) : (f <*> x).Corresponds P (g <*> y) := by
  cases hf with
  | ok df =>
    cases hx with
    | ok dx => exact .ok _
    | error hx => exact .error hx
  | error hf =>
    cases hx with
    | ok dx => exact .error hf
    | error hx => exact .error (List.rel_append hf hx)

theorem sameOutcome_run {x y : Intake α} (h : x.Corresponds P y) (supply : Supply) :
    SameOutcome P (x.run supply) (y.run supply) := by
  cases h with
  | ok d => exact rfl
  | error h => exact h

/-- One step further in, where the steps may differ in spelling. -/
theorem under {x y : Intake α} (h : x.Corresponds P y) {s t : Step}
    (hstep : ∀ path path', P path path' → Q (s :: path) (t :: path')) :
    (x.under s).Corresponds Q (y.under t) := by
  cases h with
  | ok d => exact .ok d
  | error h =>
    refine .error (List.forall₂_map_left_iff.mpr (List.forall₂_map_right_iff.mpr (h.imp ?_)))
    exact fun i j hij => ⟨hstep _ _ hij.1, hij.2⟩

end Corresponds

/-! ### Fields -/

section Fields

variable {m : Model} {s : Shape} {es fs : List (String × Json)} {f : Field} {read : Json → Intake α}
  {absent : Intake α}

/-- A field of objects with the same fields. -/
theorem corresponds_field {r : Bool} (h : SameFields (.object m) (.object es) (.object fs))
    (hslot : ⟨f, s, r⟩ ∈ m.slots) (hread : ∀ k l v w, f.find? es = some (k, v) →
      f.find? fs = some (l, w) → SameFields s v w → (read v).Corresponds (SamePlace s) (read w)) :
    (field f read absent es).Corresponds (SamePlace (.object m)) (field f read absent fs) := by
  rw [field, field]
  rcases h.find? hslot with ⟨hes, hfs⟩ | ⟨k, l, v, w, hes, hfs, hsame⟩
  · rw [hes, hfs]
    exact .refl (.refl _) _
  · rw [hes, hfs]
    refine (hread k l v w hes hfs hsame).under fun path path' hpath => ?_
    exact .field hslot (Field.find?_eq_some hes).1 (Field.find?_eq_some hfs).1 hpath

/-- A field without fields inside. -/
theorem corresponds_plain {r : Bool} (h : SameFields (.object m) (.object es) (.object fs))
    (hslot : ⟨f, s, r⟩ ∈ m.slots) (hs : ∀ v w, SameFields s v w → v = w) :
    (field f read absent es).Corresponds (SamePlace (.object m)) (field f read absent fs) := by
  refine corresponds_field h hslot fun k l v w _ _ hsame => ?_
  rw [hs v w hsame]
  exact .refl (.refl s) _

theorem corresponds_text (h : SameFields (.object m) (.object es) (.object fs))
    {absent : Intake String} (f : Field) (hslot : .optional f .text ∈ m.slots) :
    (field f text absent es).Corresponds (SamePlace (.object m)) (field f text absent fs) :=
  corresponds_plain h hslot fun _ _ hsame => by cases hsame; rfl

theorem corresponds_choice [Choice α] (h : SameFields (.object m) (.object es) (.object fs))
    (f : Field) (hslot : .optional f (.ofChoice α) ∈ m.slots) :
    (field f (choice α) absent es).Corresponds (SamePlace (.object m))
      (field f (choice α) absent fs) :=
  corresponds_plain h hslot fun _ _ hsame => by cases hsame; rfl

theorem corresponds_itemsFrom {vs ws : List Json}
    (hread : ∀ v w, SameFields (.object m) v w →
      (read v).Corresponds (SamePlace (.object m)) (read w))
    (h : SameFields (.list m) (.array vs) (.array ws)) (i : Nat) :
    (itemsFrom read i vs).Corresponds (SamePlace (.list m)) (itemsFrom read i ws) := by
  induction vs generalizing ws i with
  | nil =>
    cases h
    exact .refl (.refl _) _
  | cons v vs ih =>
    have hcons : ∃ w ws', ws = w :: ws' ∧ SameFields (.object m) v w ∧
        SameFields (.list m) (.array vs) (.array ws') := by
      cases h with
      | refl => exact ⟨v, vs, rfl, .refl _ _, .refl _ _⟩
      | item hhead htail => exact ⟨_, _, rfl, hhead, htail⟩
    obtain ⟨w, ws, rfl, hhead, htail⟩ := hcons
    have hstep := (hread v w hhead).under (Q := SamePlace (.list m)) fun _ _ => .item i
    exact (hstep.map List.cons).seq (ih htail (i + 1))

theorem corresponds_items {m' : Model} {absent : Intake (List α)}
    (h : SameFields (.object m) (.object es) (.object fs))
    (hread : ∀ v w, SameFields (.object m') v w →
      (read v).Corresponds (SamePlace (.object m')) (read w))
    (f : Field) (hslot : .optional f (.list m') ∈ m.slots) :
    (field f (items read) absent es).Corresponds (SamePlace (.object m))
      (field f (items read) absent fs) := by
  refine corresponds_field h hslot fun k l v w _ _ hsame => ?_
  cases hsame with
  | refl => exact .refl (.refl _) _
  | item hhead htail => exact corresponds_itemsFrom hread (.item hhead htail) 0

theorem corresponds_object {read : List (String × Json) → Intake α}
    (hread : ∀ es fs, SameFields (.object m) (.object es) (.object fs) →
      (read es).Corresponds (SamePlace (.object m)) (read fs))
    {v w : Json} (h : SameFields (.object m) v w) :
    (object m read v).Corresponds (SamePlace (.object m)) (object m read w) := by
  cases h with
  | refl => exact .refl (.refl _) _
  | object hnone hsome => exact hread _ _ (.object hnone hsome)

end Fields

end Intake

open Intake

/-! ### Parts -/

theorem Pair.corresponds_read (v w : Json) (h : SameFields (.object .pair) v w) :
    (Pair.read v).Corresponds (SamePlace (.object .pair)) (Pair.read w) := by
  refine corresponds_object (fun es fs h => ?_) h
  exact (((corresponds_text h .id (by decide)).map Pair.mk).seq
    (corresponds_text h .column (by decide))).seq (corresponds_text h .value (by decide))

theorem Condition.corresponds_read (v w : Json) (h : SameFields (.object .condition) v w) :
    (Condition.read v).Corresponds (SamePlace (.object .condition)) (Condition.read w) := by
  refine corresponds_object (fun es fs h => ?_) h
  have hsubquery : (field .subqueryId optionalText (done none) es).Corresponds
      (SamePlace (.object .condition)) (field .subqueryId optionalText (done none) fs) :=
    corresponds_plain (s := .optionalText) (r := false) h (by decide)
      fun _ _ hsame => by cases hsame; rfl
  exact ((((((corresponds_text h .id (by decide)).map Condition.mk).seq
    (corresponds_text h .column (by decide))).seq
    (corresponds_choice h .operator (by decide))).seq
    (corresponds_text h .value (by decide))).seq
    (corresponds_choice h .gate (by decide))).seq hsubquery

theorem Join.corresponds_read (v w : Json) (h : SameFields (.object .join) v w) :
    (Join.read v).Corresponds (SamePlace (.object .join)) (Join.read w) := by
  refine corresponds_object (fun es fs h => ?_) h
  exact (((((corresponds_text h .id (by decide)).map Join.mk).seq
    (corresponds_choice h .kind (by decide))).seq
    (corresponds_text h .table (by decide))).seq
    (corresponds_text h .left (by decide))).seq (corresponds_text h .right (by decide))

theorem SortKey.corresponds_read (v w : Json) (h : SameFields (.object .sortKey) v w) :
    (SortKey.read v).Corresponds (SamePlace (.object .sortKey)) (SortKey.read w) := by
  refine corresponds_object (fun es fs h => ?_) h
  exact (((corresponds_text h .id (by decide)).map SortKey.mk).seq
    (corresponds_text h .column (by decide))).seq (corresponds_choice h .direction (by decide))

/-! ### Queries -/

namespace Query

theorem corresponds_ofFields {subs subs' : Intake (List (String × Query))}
    {es fs : List (String × Json)} (h : SameFields (.object .query) (.object es) (.object fs))
    (hsubs : subs.Corresponds (SamePlace (.object .query)) subs') :
    (ofFields fresh (bare "" .select) subs es).Corresponds (SamePlace (.object .query))
      (ofFields fresh (bare "" .select) subs' fs) :=
  ((((((((((corresponds_text h .id (by decide)).map Query.mk).seq
    (corresponds_choice h .operation (by decide))).seq
    (corresponds_text h .table (by decide))).seq
    (corresponds_text h .columns (by decide))).seq
    (corresponds_items h Pair.corresponds_read .pairs (by decide))).seq
    (corresponds_items h Condition.corresponds_read .conditions (by decide))).seq
    (corresponds_items h Join.corresponds_read .joins (by decide))).seq
    (corresponds_items h SortKey.corresponds_read .sortKeys (by decide))).seq
    (corresponds_text h .limit (by decide))).seq hsubs

/-- A query corresponds with its subqueries, and they with theirs, so both ways of reading are
followed at once. -/
theorem corresponds_read_and_readMap {s : Shape} {v w : Json} (h : SameFields s v w) :
    (s = .object .query → (read v).Corresponds (SamePlace s) (read w)) ∧
    (s = .map .query → (readMap v).Corresponds (SamePlace s) (readMap w)) := by
  induction h with
  | refl s v => exact ⟨fun _ => .refl (.refl s) _, fun _ => .refl (.refl s) _⟩
  | item => exact ⟨nofun, nofun⟩
  | entry k _ _ ih ih' =>
    refine ⟨nofun, fun hs => ?_⟩
    cases hs
    have hstep := (ih.1 rfl).under (Q := SamePlace (.map .query)) fun _ _ => .entry k
    exact (hstep.map _).seq (ih'.2 rfl)
  | @object m es fs hnone hsome ih =>
    refine ⟨fun hs => ?_, nofun⟩
    cases hs
    have h : SameFields (.object .query) (.object es) (.object fs) := .object hnone hsome
    have hslot : .optional .subqueries (.map .query) ∈ Model.query.slots := by decide
    rw [read_object, read_object]
    refine corresponds_ofFields h (corresponds_field h hslot fun k l v w hv hw _ => ?_)
    exact (ih _ hslot k l v w hv hw).2 rfl

theorem corresponds_read (v w : Json) (h : SameFields (.object .query) v w) :
    (read v).Corresponds (SamePlace (.object .query)) (read w) :=
  (corresponds_read_and_readMap h).1 rfl

end Query

/-! ### Documents -/

theorem Info.corresponds_read (v w : Json) (h : SameFields (.object .info) v w) :
    (Info.read v).Corresponds (SamePlace (.object .info)) (Info.read w) := by
  refine corresponds_object (fun es fs h => ?_) h
  exact (((corresponds_text h .name (by decide)).map Info.mk).seq
    (corresponds_text h .createdAt (by decide))).seq (corresponds_text h .updatedAt (by decide))

theorem Document.corresponds_read (v w : Json) (h : SameFields (.object .document) v w) :
    (Document.read v).Corresponds (SamePlace (.object .document)) (Document.read w) := by
  refine corresponds_object (fun es fs h => ?_) h
  have hinfo : (field .info Info.read (done Info.blank) es).Corresponds
      (SamePlace (.object .document)) (field .info Info.read (done Info.blank) fs) :=
    corresponds_field (s := .object .info) (r := false) h (by decide)
      fun _ _ v w _ _ => Info.corresponds_read v w
  have hroot : (required .root Query.read es).Corresponds (SamePlace (.object .document))
      (required .root Query.read fs) :=
    corresponds_field (s := .object .query) (r := true) h (by decide)
      fun _ _ v w _ _ => Query.corresponds_read v w
  exact (((corresponds_choice h .schema (by decide)).map _).seq hinfo).seq hroot

namespace Model

/-- **Values with the same fields are read alike.** -/
theorem corresponds_read (m : Model) {v w : Json} (h : SameFields (.object m) v w) :
    (m.read v).Corresponds (SamePlace (.object m)) (m.read w) := by
  cases m with
  | pair => exact Pair.corresponds_read v w h
  | condition => exact Condition.corresponds_read v w h
  | join => exact Join.corresponds_read v w h
  | sortKey => exact SortKey.corresponds_read v w h
  | query => exact Query.corresponds_read v w h
  | info => exact Info.corresponds_read v w h
  | document => exact Document.corresponds_read v w h

/-- **Reading does not depend on spelling.** Whatever other spellings a value has, at any depth and
in any number of its objects, the same is read, with the same identifiers from a supply, or the
same issues are found in the same order, at places that differ in the names of fields only. -/
theorem read_respelled (m : Model) {v w : Json} (h : Respelled (.object m) v w)
    (supply : Supply) :
    SameOutcome (SamePlace (.object m)) ((m.read v).run supply) ((m.read w).run supply) :=
  (m.corresponds_read h.sameFields).sameOutcome_run supply

/-- A query with its columns after its table, under an unknown key as well, and with null under
their second name, and a document with a null among the sort keys of a subquery. -/
theorem read_respelled_columns_and_sortKeys :
    let plain : Json := .object [("selectColumns", .string "a"), ("table", .string "t")]
    let other : Json := .object [("table", .string "t"), ("select_columns", .null),
      ("columns", .string "b"), ("selectColumns", .string "a")]
    let nested (subqueries sortKeys : String) : Json := .object [("root", .object [(subqueries,
      .object [("s", .object [(sortKeys, .array [.null])])])])]
    let issue (subqueries sortKeys : String) : Issue :=
      ⟨[.key "root", .key subqueries, .key "s", .key sortKeys, .item 0], .notModel .sortKey⟩
    (Respelled (.object .query) plain other ∧
      ∃ a, (query.read plain).run (.ofSource numbered) = .ok a ∧
        (query.read other).run (.ofSource numbered) = .ok a) ∧
    Respelled (.object .document) (nested "subQueries" "orderBy")
      (nested "sub_queries" "order_by") ∧
    (document.read (nested "subQueries" "orderBy")).run (.ofSource numbered) =
      .error [issue "subQueries" "orderBy"] ∧
    SamePlace (.object .document) (issue "subQueries" "orderBy").path
      (issue "sub_queries" "order_by").path := by
  intro plain other nested issue
  have hplain : Respelled (.object .query) plain other := by
    have hshadow : Respelled (.object .query) plain (.object [("select_columns", .null),
        ("selectColumns", .string "a"), ("table", .string "t")]) :=
      .shadow (.optional .columns .text) [] .null _ (by decide) (by decide) (by decide)
    refine .trans hshadow (.trans (.unknown (k := "columns") [("select_columns", .null)]
      (.string "b") _ (by decide)) (.permute (by decide) ?_))
    change ([_, _, _] ++ [_]).Perm ([_] ++ [_, _, _])
    exact List.perm_append_comm
  have hnested : Respelled (.object .document) (nested "subQueries" "orderBy")
      (nested "sub_queries" "order_by") := by
    refine .value (.required .root (.object .query)) [] [] (by decide) (.inl rfl) ?_
    refine .trans (.rename (.optional .subqueries (.map .query)) [] _ [] (by decide) (by decide)
      (by decide)) ?_
    refine .value (.optional .subqueries (.map .query)) [] [] (by decide) (.inr rfl) ?_
    refine .entry [] "s" [] ?_
    exact .rename (.optional .sortKeys (.list .sortKey)) [] _ [] (by decide) (by decide) (by decide)
  have hread := read_respelled .query hplain (.ofSource numbered)
  have hissues := read_respelled .document hnested (.ofSource numbered)
  have herror : (document.read (nested "subQueries" "orderBy")).run (.ofSource numbered) =
      .error [issue "subQueries" "orderBy"] := rfl
  have herror' : (document.read (nested "sub_queries" "order_by")).run (.ofSource numbered) =
      .error [issue "sub_queries" "order_by"] := rfl
  rw [herror, herror'] at hissues
  refine ⟨⟨hplain, _, rfl, ?_⟩, hnested, herror, ?_⟩
  · exact congrArg Except.ok hread.symm
  · exact (List.forall₂_cons.mp hissues).1.1

end Model

end QueryComposer
