import QueryComposer.Edit.Part
import QueryComposer.Proofs.Entries
import QueryComposer.Proofs.Intake.Yields

/-!
# What the edits of parts keep

A change of a part reaches the fields that it names and no others. The identifier can not be named,
since an update refuses it first, and the link of a condition can not be named either. So whatever
is changed in a list of parts, the identifiers stay as they are, one by one.

## Main definitions

* `LawfulPart` is the class of the parts whose changes keep the identifier.

## Main results

* `Part.map_update`: what changes keep of each part, an update keeps of the list.
* `Part.find_ok` and `Part.remove_ok`: what finding and removing do where they succeed.
* `Part.update_error` and `Part.find_error`: why updating and finding fail.
-/

namespace QueryComposer

open Intake

theorem EditError.ofIntake_ok {α : Type} {P : α → Prop} {m : Model} {x : Intake α} {a : α}
    (h : ofIntake m x = .ok a) (hx : x.Yields P) : P a := by
  cases x with
  | ok d =>
    cases h
    exact hx d rfl _
  | error issues => cases h

theorem Intake.field_of_absent {α : Type} {f : Field} {es : List (String × Json)}
    (h : f.find? es = none) (read : Json → Intake α) (absent : Intake α) :
    field f read absent es = absent := by
  rw [field, h]

/-- A field that is absent keeps the value that it has. -/
theorem Intake.yields_field_of_absent {α : Type} {f : Field} {es : List (String × Json)}
    (h : f.find? es = none) (read : Json → Intake α) (a : α) :
    (field f read (done a) es).Yields fun b => b = a := by
  rw [field_of_absent h]
  exact yields_done rfl

/-- A name that is not among those of the fields can not stand in a change. -/
theorem find?_of_strangeNames_eq_nil {fields : List Field} {changes : List (String × Json)}
    (h : strangeNames fields changes = []) {key : String} (hkey : key ∉ fields.map Field.altKey) :
    Entries.find? key changes = none := by
  rw [Entries.find?_eq_none_iff]
  intro hmem
  have hstrange : key ∈ strangeNames fields changes :=
    List.mem_filter.mpr ⟨hmem, decide_eq_true hkey⟩
  rw [h] at hstrange
  cases hstrange

/-- The parts whose changes keep the identifier where they do not name it. -/
class LawfulPart (α : Type) [Part α] : Prop where
  yields_revise : ∀ (a : α) (changes : List (String × Json)), Field.id.find? changes = none →
    (Part.revise a changes).Yields fun b => Part.id b = Part.id a

instance : LawfulPart Pair where
  yields_revise p changes h := by
    refine Yields.seq_all (Yields.seq_all ((yields_field_of_absent h text p.id).map ?_))
    exact fun id hid column value => hid

instance : LawfulPart Condition where
  yields_revise c changes h := by
    refine Yields.seq_all (Yields.seq_all (Yields.seq_all (Yields.seq_all (Yields.seq_all
      ((yields_field_of_absent h text c.id).map ?_)))))
    exact fun id hid column operator value gate subqueryId => hid

instance : LawfulPart Join where
  yields_revise j changes h := by
    refine Yields.seq_all (Yields.seq_all (Yields.seq_all (Yields.seq_all
      ((yields_field_of_absent h text j.id).map ?_))))
    exact fun id hid kind table left right => hid

instance : LawfulPart SortKey where
  yields_revise s changes h := by
    refine Yields.seq_all (Yields.seq_all ((yields_field_of_absent h text s.id).map ?_))
    exact fun id hid column direction => hid

theorem map_of_mapM {α β : Type} {f : α → β} {change : α → Except EditError α} {as bs : List α}
    (h : as.mapM change = .ok bs) (hf : ∀ a b, change a = .ok b → f b = f a) :
    bs.map f = as.map f := by
  induction as generalizing bs with
  | nil =>
    cases h
    rfl
  | cons a as ih =>
    rw [List.mapM_cons] at h
    cases ha : change a with
    | error e =>
      rw [ha] at h
      cases h
    | ok b =>
      cases has : as.mapM change with
      | error e =>
        rw [ha, has] at h
        cases h
      | ok cs =>
        rw [ha, has] at h
        cases h
        rw [List.map_cons, List.map_cons, hf a b ha, ih has]

theorem exists_error_of_mapM {α β : Type} {change : α → Except EditError β} {as : List α}
    {e : EditError} (h : as.mapM change = .error e) : ∃ a ∈ as, change a = .error e := by
  induction as with
  | nil => cases h
  | cons a as ih =>
    rw [List.mapM_cons] at h
    cases ha : change a with
    | error e' =>
      rw [ha] at h
      cases h
      exact ⟨a, List.mem_cons_self, ha⟩
    | ok b =>
      cases has : as.mapM change with
      | error e' =>
        rw [ha, has] at h
        cases h
        obtain ⟨a', ha', he⟩ := ih has
        exact ⟨a', List.mem_cons_of_mem _ ha', he⟩
      | ok bs =>
        rw [ha, has] at h
        cases h

namespace Part

variable {α β : Type} [Part α] {id : String} {changes : List (String × Json)} {a b : α}
  {parts parts' : List α}

theorem change_ok (h : change changes a = .ok b) {P : α → Prop}
    (hP : strangeNames (fields α) changes = [] → (revise a changes).Yields P) : P b := by
  unfold change at h
  split at h
  · next hnames => exact EditError.ofIntake_ok h (hP hnames)
  · cases h

theorem id_of_change [LawfulPart α] (hid : Entries.find? Field.id.altKey changes = none)
    (h : change changes a = .ok b) : Part.id b = Part.id a :=
  change_ok h fun _ =>
    LawfulPart.yields_revise a changes (Field.find?_eq_none_iff.mpr ⟨hid, hid⟩)

/-! ### Lists of parts -/

/-- **What changes keep of each part, an update keeps of the list.** -/
theorem map_update {f : α → β} (h : update id changes parts = .ok parts')
    (hf : Entries.find? Field.id.altKey changes = none →
      ∀ a b : α, change changes a = .ok b → f b = f a) : parts'.map f = parts.map f := by
  unfold update at h
  split at h
  · cases h
  · next hid =>
    rw [Bool.not_eq_true, Option.isSome_eq_false_iff, Option.isNone_iff_eq_none] at hid
    split at h
    · refine map_of_mapM h ?_
      intro a b hb
      split at hb
      · exact hf hid a b hb
      · cases hb
        rfl
    · cases h

theorem map_id_update [LawfulPart α] (h : update id changes parts = .ok parts') :
    parts'.map Part.id = parts.map Part.id :=
  map_update h fun hid _ _ hb => id_of_change hid hb

theorem remove_ok (h : remove id parts = .ok parts') :
    parts' = parts.filter fun a => Part.id a ≠ id := by
  unfold remove at h
  split at h
  · cases h
    rfl
  · cases h

/-- No identifier comes into a list by an update, or by a removal. -/
theorem map_id_update_sublist [LawfulPart α] (h : update id changes parts = .ok parts') :
    (parts'.map Part.id).Sublist (parts.map Part.id) :=
  map_id_update h ▸ List.Sublist.refl _

theorem map_id_remove_sublist (h : remove id parts = .ok parts') :
    (parts'.map Part.id).Sublist (parts.map Part.id) := by
  rw [remove_ok h]
  exact List.filter_sublist.map _

theorem find_ok (h : find id parts = .ok a) :
    a ∈ parts ∧ Part.id a = id := by
  unfold find at h
  split at h
  · next b hb =>
    cases h
    exact ⟨List.mem_of_find?_eq_some hb, by simpa using List.find?_some hb⟩
  · cases h

/-! ### Why an edit of a list fails -/

variable {e : EditError}

theorem change_error (h : change changes a = .error e) :
    (∃ names, e = .unknownFields (model α) names) ∨ ∃ issues, e = .invalid (model α) issues := by
  unfold change at h
  split at h
  · unfold EditError.ofIntake at h
    split at h
    · cases h
    · next issues _ =>
      cases h
      exact .inr ⟨issues, rfl⟩
  · cases h
    exact .inl ⟨_, rfl⟩

theorem update_error (h : update id changes parts = .error e) :
    e = .idIsFixed (entity α) ∨ e = notFound α id ∨
      ∃ a ∈ parts, change changes a = .error e := by
  unfold update at h
  split at h
  · cases h
    exact .inl rfl
  · split at h
    · obtain ⟨a, ha, he⟩ := exists_error_of_mapM h
      split at he
      · exact .inr (.inr ⟨a, ha, he⟩)
      · cases he
    · cases h
      exact .inr (.inl rfl)

theorem find_error (h : find id parts = .error e) : e = notFound α id := by
  unfold find at h
  split at h
  · cases h
  · cases h
    rfl

end Part

end QueryComposer
