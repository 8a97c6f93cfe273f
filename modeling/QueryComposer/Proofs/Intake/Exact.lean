import QueryComposer.Proofs.Intake.Shape

/-!
# Reading reports exactly what is wrong

Every way of reading data reports the violations of a shape, all of them and nothing else, each one
once and in the order of their places. This is passed on from the fields to the object that has
them: the issues of two fields stand side by side, those of the first before those of the second,
as the places do.

## Main definitions

* `Intake.Reports` says which issues an intake has, in which order.
* `Intake.IsExact` says that they are the violations of a shape.
* `Intake.Covers` says so of the first few fields of an object.
* `Model.read` reads each kind of objects.

## Main results

* `Intake.Covers.seq`: one more field is read.
* `Model.isExact_read`: reading reports exactly the violations.
* `Model.read_reports_violations`: the same for what reading gives, with the way to each place.
-/

namespace QueryComposer

namespace Intake

variable {α β : Type} {V V' : List Step → Problem → Prop} {B B' : List Step → List Step → Prop}

/-! ### Issues -/

/-- What is wrong, which is nothing where there is a value. -/
def issues : Intake α → List Issue
  | .ok _ => []
  | .error issues => issues

/-- The issues are those that `V` holds of, each once and in the order `B`. Without a value there is
one at least. -/
structure Reports (x : Intake α) (V : List Step → Problem → Prop)
    (B : List Step → List Step → Prop) : Prop where
  mem_iff : ∀ i, i ∈ x.issues ↔ V i.path i.problem
  pairwise : x.issues.Pairwise fun i j => B i.path j.path
  ne_nil : ∀ issues, x = .error issues → issues ≠ []

theorem issues_map (f : α → β) (x : Intake α) : (f <$> x).issues = x.issues := by
  cases x <;> rfl

theorem issues_seq (f : Intake (α → β)) (x : Intake α) :
    (f <*> x).issues = f.issues ++ x.issues := by
  cases f with
  | ok df => cases x <;> rfl
  | error is =>
    cases x with
    | ok dx => exact (List.append_nil is).symm
    | error is' => rfl

theorem issues_under (s : Step) (x : Intake α) :
    (x.under s).issues = x.issues.map fun i => { i with path := s :: i.path } := by
  cases x <;> rfl

theorem reports_ok {d : Draw α} (h : ∀ path p, ¬V path p) : Reports (.ok d : Intake α) V B where
  mem_iff _ := iff_of_false List.not_mem_nil (h _ _)
  pairwise := .nil
  ne_nil := nofun

theorem reports_fail {p : Problem} (h : ∀ path q, V path q ↔ path = [] ∧ q = p) :
    (fail p : Intake α).Reports V B where
  mem_iff := by
    rintro ⟨path, q⟩
    rw [h]
    exact List.mem_singleton.trans (by simp)
  pairwise := List.pairwise_singleton _ _
  ne_nil := by
    rintro issues h rfl
    cases h

theorem Reports.congr {x : Intake α} (h : x.Reports V B) (hV : ∀ path p, V' path p ↔ V path p)
    (hB : ∀ path path', B path path' → B' path path') : x.Reports V' B' where
  mem_iff i := (h.mem_iff i).trans (hV _ _).symm
  pairwise := h.pairwise.imp (hB _ _)
  ne_nil := h.ne_nil

theorem Reports.map {x : Intake α} (h : x.Reports V B) (f : α → β) : (f <$> x).Reports V B where
  mem_iff i := by
    rw [issues_map]
    exact h.mem_iff i
  pairwise := by
    rw [issues_map]
    exact h.pairwise
  ne_nil := by
    intro issues hissues
    cases x with
    | ok d => cases hissues
    | error issues' =>
      cases hissues
      exact h.ne_nil _ rfl

/-- The issues of the second come after those of the first. -/
theorem Reports.seq {f : Intake (α → β)} {x : Intake α} (hf : f.Reports V B) (hx : x.Reports V' B)
    (h : ∀ path path' p p', V path p → V' path' p' → B path path') :
    (f <*> x).Reports (fun path p => V path p ∨ V' path p) B where
  mem_iff i := by
    rw [issues_seq, List.mem_append, hf.mem_iff, hx.mem_iff]
  pairwise := by
    rw [issues_seq, List.pairwise_append]
    refine ⟨hf.pairwise, hx.pairwise, ?_⟩
    intro i hi j hj
    exact h _ _ _ _ ((hf.mem_iff i).mp hi) ((hx.mem_iff j).mp hj)
  ne_nil := by
    intro issues hissues hnil
    have happend : f.issues ++ x.issues = [] := by
      rw [← issues_seq, hissues, hnil]
      rfl
    obtain ⟨hfnil, hxnil⟩ := List.append_eq_nil_iff.mp happend
    cases f with
    | error is => exact hf.ne_nil _ rfl hfnil
    | ok df =>
      cases x with
      | error is => exact hx.ne_nil _ rfl hxnil
      | ok dx => cases hissues

/-- All places move one step further in. -/
theorem Reports.under {x : Intake α} (h : x.Reports V B) (s : Step) :
    (x.under s).Reports (fun path p => ∃ path', V path' p ∧ path = s :: path')
      (fun path path' => ∃ q q', B q q' ∧ path = s :: q ∧ path' = s :: q') where
  mem_iff := by
    rintro ⟨path, p⟩
    rw [issues_under, List.mem_map]
    constructor
    · rintro ⟨i, hi, heq⟩
      cases heq
      exact ⟨i.path, (h.mem_iff i).mp hi, rfl⟩
    · rintro ⟨path', hV, rfl⟩
      exact ⟨⟨path', p⟩, (h.mem_iff _).mpr hV, rfl⟩
  pairwise := by
    rw [issues_under, List.pairwise_map]
    exact h.pairwise.imp fun hB => ⟨_, _, hB, rfl, rfl⟩
  ne_nil := by
    intro issues hissues hnil
    cases x with
    | ok d => cases hissues
    | error is =>
      cases hissues
      exact h.ne_nil _ rfl (List.map_eq_nil_iff.mp hnil)

/-! ### Values -/

/-- The intake reports exactly what violates the shape in the value. -/
def IsExact (x : Intake α) (s : Shape) (v : Json) : Prop := x.Reports (s.Violates v) (s.Precedes v)

theorem isExact_fail {s : Shape} {v : Json} {p : Problem} (h : s.problem? v = some p) :
    (fail p : Intake α).IsExact s v :=
  reports_fail fun _ _ => Shape.violates_iff_of_problem? h

theorem isExact_done {a : α} {s : Shape} {v : Json} (h : s.Conforms v) : (done a).IsExact s v :=
  reports_ok fun _ _ => h.not_violates

theorem isExact_text (v : Json) : (text v).IsExact .text v := by
  cases v with
  | string s => exact isExact_done (.text s)
  | _ => exact isExact_fail rfl

theorem isExact_optionalText (v : Json) : (optionalText v).IsExact .optionalText v := by
  cases v with
  | null => exact isExact_done .null
  | string s => exact isExact_done (.optionalText s)
  | _ => exact isExact_fail rfl

theorem isExact_choice [Choice α] (v : Json) : (choice α v).IsExact (.ofChoice α) v := by
  cases v with
  | string s =>
    rw [choice]
    cases hs : (Choice.ofName? s : Option α) with
    | some a =>
      refine isExact_done (.choice (List.mem_map.mpr ⟨a, List.mem_of_find?_eq_some hs, ?_⟩))
      exact Choice.name_of_ofName? hs
    | none =>
      refine isExact_fail (if_neg fun hmem => ?_)
      obtain ⟨a, ha, rfl⟩ := List.mem_map.mp hmem
      simpa using List.find?_eq_none.mp hs a ha
  | _ => exact isExact_fail rfl

/-- There is a value exactly where the data has the shape. -/
theorem IsExact.issues_eq_nil_iff {x : Intake α} {s : Shape} {v : Json} (hx : x.IsExact s v)
    (hv : v.HasDistinctKeys) : x.issues = [] ↔ s.Conforms v := by
  rw [Shape.conforms_iff hv, List.eq_nil_iff_forall_not_mem]
  constructor
  · intro h path p hviolates
    exact h ⟨path, p⟩ ((hx.mem_iff ⟨path, p⟩).mpr hviolates)
  · intro h i hi
    exact h _ _ ((hx.mem_iff i).mp hi)

/-- What is wrong one step further in, in the order of the whole. -/
theorem IsExact.under {x : Intake α} {s t : Shape} {v w : Json} {step : Step} (hx : x.IsExact t w)
    (hwithin : s.Within v step t w) :
    (x.under step).Reports (fun path p => ∃ path', t.Violates w path' p ∧ path = step :: path')
      (s.Precedes v) := by
  refine (Reports.under hx step).congr (fun _ _ => Iff.rfl) ?_
  rintro path path' ⟨q, q', hB, rfl, rfl⟩
  exact .within hwithin hB

/-! ### Lists -/

theorem reports_itemsFrom {read : Json → Intake α} {m : Model} {all : List Json}
    (hread : ∀ v ∈ all, (read v).IsExact (.object m) v) {i : Nat} {vs : List Json}
    (hvs : all.drop i = vs) :
    (itemsFrom read i vs).Reports
      (fun path p => ∃ j w path', i ≤ j ∧ all[j]? = some w ∧
        (Shape.object m).Violates w path' p ∧ path = .item j :: path')
      (Shape.Precedes (.list m) (.array all)) := by
  induction vs generalizing i with
  | nil =>
    refine reports_ok ?_
    rintro path p ⟨j, w, path', hj, hw, -⟩
    have hlength := List.drop_eq_nil_iff.mp hvs
    have hnone : all[j]? = none := List.getElem?_eq_none (Nat.le_trans hlength hj)
    cases hnone.symm.trans hw
  | cons v vs ih =>
    have hv : all[i]? = some v := by
      rw [← List.head?_drop, hvs, List.head?_cons]
    have hrest : all.drop (i + 1) = vs := by
      rw [← List.tail_drop, hvs, List.tail_cons]
    have hhead := (hread v (List.mem_of_getElem? hv)).under (.item hv)
    refine ((hhead.map List.cons).seq (ih hrest) ?_).congr ?_ fun _ _ h => h
    · rintro path path' p p' ⟨q, -, rfl⟩ ⟨j, w, q', hj, -, -, rfl⟩
      exact .items hj
    · intro path p
      constructor
      · rintro ⟨j, w, path', hj, hw, h, rfl⟩
        rcases Nat.eq_or_lt_of_le hj with rfl | hlt
        · cases hv.symm.trans hw
          exact .inl ⟨path', h, rfl⟩
        · exact .inr ⟨j, w, path', hlt, hw, h, rfl⟩
      · rintro (⟨path', h, rfl⟩ | ⟨j, w, path', hj, hw, h, rfl⟩)
        · exact ⟨i, v, path', Nat.le_refl i, hv, h, rfl⟩
        · exact ⟨j, w, path', Nat.le_of_succ_le hj, hw, h, rfl⟩

theorem isExact_items {read : Json → Intake α} {m : Model}
    (hread : ∀ v, (read v).IsExact (.object m) v) (v : Json) :
    (items read v).IsExact (.list m) v := by
  cases v with
  | array vs =>
    refine (reports_itemsFrom (fun v _ => hread v) List.drop_zero).congr ?_ fun _ _ h => h
    intro path p
    rw [Shape.violates_list_iff]
    simp
  | _ => exact isExact_fail rfl

/-! ### Fields -/

/-- The intake reports exactly what is wrong with one field of an object. -/
def IsExactAt (x : Intake α) (slot : Slot) (es : List (String × Json)) : Prop :=
  x.Reports (slot.Violates es) fun path path' => ∃ k w q q', slot.field.find? es = some (k, w) ∧
    slot.shape.Precedes w q q' ∧ path = .key k :: q ∧ path' = .key k :: q'

/-- A field that is there is read as its value is. -/
theorem isExactAt_under (slot : Slot) {es : List (String × Json)} {k : String} {w : Json}
    (hfind : slot.field.find? es = some (k, w)) {x : Intake α} (hx : x.IsExact slot.shape w) :
    (x.under (.key k)).IsExactAt slot es := by
  refine (Reports.under hx (.key k)).congr ?_ ?_
  · intro path p
    constructor
    · rintro (⟨k', w', path', hfind', h, rfl⟩ | ⟨-, hnone, -⟩)
      · cases hfind.symm.trans hfind'
        exact ⟨path', h, rfl⟩
      · cases hfind.symm.trans hnone
    · rintro ⟨path', h, rfl⟩
      exact .inl ⟨k, w, path', hfind, h, rfl⟩
  · rintro path path' ⟨q, q', hB, rfl, rfl⟩
    exact ⟨k, w, q, q', hfind, hB, rfl, rfl⟩

/-- Nothing is wrong with a field that may be absent and is. -/
theorem isExactAt_field {f : Field} {s : Shape} {es : List (String × Json)}
    {read : Json → Intake α} {absent : Intake α}
    (hread : ∀ k w, f.find? es = some (k, w) → (read w).IsExact s w)
    (habsent : ∃ d, absent = .ok d) :
    (field f read absent es).IsExactAt (.optional f s) es := by
  rw [field]
  cases hfind : f.find? es with
  | some e => exact isExactAt_under (.optional f s) hfind (hread e.1 e.2 hfind)
  | none =>
    obtain ⟨d, rfl⟩ := habsent
    refine reports_ok ?_
    rintro path p (⟨k, w, path', hfind', -⟩ | ⟨hrequired, -⟩)
    · cases hfind.symm.trans hfind'
    · cases hrequired

theorem isExactAt_text (f : Field) (es : List (String × Json)) {absent : Intake String}
    (habsent : ∃ d, absent = .ok d) : (field f text absent es).IsExactAt (.optional f .text) es :=
  isExactAt_field (fun _ w _ => isExact_text w) habsent

theorem isExactAt_choice [Choice α] (f : Field) (es : List (String × Json)) (a : α) :
    (field f (choice α) (done a) es).IsExactAt (.optional f (.ofChoice α)) es :=
  isExactAt_field (fun _ w _ => isExact_choice w) ⟨_, rfl⟩

theorem isExactAt_items {read : Json → Intake α} {m : Model}
    (hread : ∀ v, (read v).IsExact (.object m) v) (f : Field) (es : List (String × Json)) :
    (field f (items read) (done []) es).IsExactAt (.optional f (.list m)) es :=
  isExactAt_field (fun _ w _ => isExact_items hread w) ⟨_, rfl⟩

/-- A field that has to be there is missing where it is not. -/
theorem isExactAt_required {f : Field} {s : Shape} {es : List (String × Json)}
    {read : Json → Intake α} (hread : ∀ k w, f.find? es = some (k, w) → (read w).IsExact s w) :
    (required f read es).IsExactAt (.required f s) es := by
  rw [required, field]
  cases hfind : f.find? es with
  | some e => exact isExactAt_under (.required f s) hfind (hread e.1 e.2 hfind)
  | none =>
    have hfail : (fail .missing : Intake α).Reports (fun path p => path = [] ∧ p = .missing)
        fun _ _ => False := reports_fail fun _ _ => Iff.rfl
    refine (hfail.under (.key f.key)).congr ?_ ?_
    · intro path p
      constructor
      · rintro (⟨k, w, path', hfind', -⟩ | ⟨-, -, rfl, rfl⟩)
        · cases hfind.symm.trans hfind'
        · exact ⟨[], ⟨rfl, rfl⟩, rfl⟩
      · rintro ⟨path', ⟨rfl, rfl⟩, rfl⟩
        exact .inr ⟨rfl, hfind, rfl, rfl⟩
    · rintro path path' ⟨q, q', hB, -⟩
      exact hB.elim

/-! ### Objects -/

/-- The intake reports exactly what is wrong with the given fields of an object. -/
def Covers (x : Intake α) (m : Model) (es : List (String × Json)) (slots : List Slot) : Prop :=
  x.Reports (fun path p => ∃ slot ∈ slots, slot.Violates es path p)
    (Shape.Precedes (.object m) (.object es))

variable {m : Model} {es : List (String × Json)} {slot : Slot} {before after : List Slot}

theorem IsExactAt.covers {x : Intake α} (hx : x.IsExactAt slot es) (hslot : slot ∈ m.slots) :
    x.Covers m es [slot] := by
  refine hx.congr (fun path p => by simp) ?_
  rintro path path' ⟨k, w, q, q', hfind, hB, rfl, rfl⟩
  exact .within (.slot hslot hfind) hB

theorem Covers.first {x : Intake α} (hm : m.slots = slot :: after) (hx : x.IsExactAt slot es)
    (f : α → β) : (f <$> x).Covers m es [slot] :=
  (hx.covers (hm ▸ List.mem_cons_self)).map f

/-- What is wrong with a field is wrong at its key, or further in. -/
theorem exists_eq_of_violates {path : List Step} {p : Problem} (h : slot.Violates es path p) :
    ∃ path', path = .key (slot.key es) :: path' := by
  rcases h with ⟨k, w, path', hfind, -, rfl⟩ | ⟨-, hnone, rfl, -⟩
  · exact ⟨path', by rw [Slot.key, hfind]; rfl⟩
  · exact ⟨[], by rw [Slot.key, hnone]; rfl⟩

/-- **One more field is read**, after those before it. -/
theorem Covers.seq {f : Intake (α → β)} {x : Intake α} (hf : f.Covers m es before)
    (hm : m.slots = before ++ slot :: after) (hx : x.IsExactAt slot es) :
    (f <*> x).Covers m es (before ++ [slot]) := by
  have hmem : slot ∈ m.slots := hm ▸ List.mem_append_right _ List.mem_cons_self
  refine (Reports.seq hf (hx.covers hmem) ?_).congr (fun path p => ?_) fun _ _ h => h
  · rintro path path' p p' ⟨a, ha, hpath⟩ ⟨b, hb, hpath'⟩
    cases List.mem_singleton.mp hb
    obtain ⟨q, rfl⟩ := exists_eq_of_violates hpath
    obtain ⟨q', rfl⟩ := exists_eq_of_violates hpath'
    refine .slots ?_
    rw [hm]
    exact (List.singleton_sublist.mpr ha).append (List.singleton_sublist.mpr List.mem_cons_self)
  · simp only [List.mem_append, or_and_right, exists_or]

theorem Covers.isExact {x : Intake α} (hx : x.Covers m es m.slots) :
    x.IsExact (.object m) (.object es) :=
  Reports.congr hx (fun _ _ => Shape.violates_object_iff) fun _ _ h => h

theorem isExact_object {read : List (String × Json) → Intake α}
    (hread : ∀ es, (read es).IsExact (.object m) (.object es)) (v : Json) :
    (object m read v).IsExact (.object m) v := by
  cases v with
  | object es => exact hread es
  | _ => exact isExact_fail rfl

end Intake

open Intake

/-! ### Parts -/

theorem Pair.isExact_read (v : Json) : (Pair.read v).IsExact (.object .pair) v := by
  refine isExact_object (fun es => Covers.isExact ?_) v
  exact ((Covers.first rfl (isExactAt_text .id es ⟨_, rfl⟩) Pair.mk).seq rfl
    (isExactAt_text .column es ⟨_, rfl⟩)).seq rfl (isExactAt_text .value es ⟨_, rfl⟩)

theorem Condition.isExact_read (v : Json) : (Condition.read v).IsExact (.object .condition) v := by
  refine isExact_object (fun es => Covers.isExact ?_) v
  have hsubquery : (field .subqueryId optionalText (done none) es).IsExactAt
      (.optional .subqueryId .optionalText) es :=
    isExactAt_field (fun _ w _ => isExact_optionalText w) ⟨_, rfl⟩
  exact (((((Covers.first rfl (isExactAt_text .id es ⟨_, rfl⟩) Condition.mk).seq rfl
    (isExactAt_text .column es ⟨_, rfl⟩)).seq rfl (isExactAt_choice .operator es _)).seq rfl
    (isExactAt_text .value es ⟨_, rfl⟩)).seq rfl (isExactAt_choice .gate es _)).seq rfl hsubquery

theorem Join.isExact_read (v : Json) : (Join.read v).IsExact (.object .join) v := by
  refine isExact_object (fun es => Covers.isExact ?_) v
  exact ((((Covers.first rfl (isExactAt_text .id es ⟨_, rfl⟩) Join.mk).seq rfl
    (isExactAt_choice .kind es _)).seq rfl (isExactAt_text .table es ⟨_, rfl⟩)).seq rfl
    (isExactAt_text .left es ⟨_, rfl⟩)).seq rfl (isExactAt_text .right es ⟨_, rfl⟩)

theorem SortKey.isExact_read (v : Json) : (SortKey.read v).IsExact (.object .sortKey) v := by
  refine isExact_object (fun es => Covers.isExact ?_) v
  exact ((Covers.first rfl (isExactAt_text .id es ⟨_, rfl⟩) SortKey.mk).seq rfl
    (isExactAt_text .column es ⟨_, rfl⟩)).seq rfl (isExactAt_choice .direction es _)

/-! ### Queries -/

namespace Query

theorem covers_ofFields {subqueries : Intake (List (String × Query))} {es : List (String × Json)}
    (h : subqueries.IsExactAt (.optional .subqueries (.map .query)) es) :
    (ofFields fresh (bare "" .select) subqueries es).Covers .query es Model.query.slots :=
  (((((((((Covers.first rfl (isExactAt_text .id es ⟨_, rfl⟩) Query.mk).seq rfl
    (isExactAt_choice .operation es _)).seq rfl (isExactAt_text .table es ⟨_, rfl⟩)).seq rfl
    (isExactAt_text .columns es ⟨_, rfl⟩)).seq rfl
    (isExactAt_items Pair.isExact_read .pairs es)).seq rfl
    (isExactAt_items Condition.isExact_read .conditions es)).seq rfl
    (isExactAt_items Join.isExact_read .joins es)).seq rfl
    (isExactAt_items SortKey.isExact_read .sortKeys es)).seq rfl
    (isExactAt_text .limit es ⟨_, rfl⟩)).seq rfl h

theorem reports_readEntries {all before es : List (String × Json)} (hall : all = before ++ es)
    (hread : ∀ e ∈ es, (read e.2).IsExact (.object .query) e.2) :
    (readEntries es).Reports
      (fun path p => ∃ k w path', (k, w) ∈ es ∧ (Shape.object .query).Violates w path' p ∧
        path = .key k :: path')
      (Shape.Precedes (.map .query) (.object all)) := by
  induction es generalizing before with
  | nil => exact reports_ok fun path p => by simp
  | cons e es ih =>
    obtain ⟨k, v⟩ := e
    have hmem : (k, v) ∈ all := hall ▸ List.mem_append_right _ List.mem_cons_self
    have hhead := (hread (k, v) List.mem_cons_self).under (.entry (m := .query) hmem)
    have hpassed : all = (before ++ [(k, v)]) ++ es := by rw [hall, List.append_cons]
    have hrest := ih hpassed fun e he => hread e (List.mem_cons_of_mem _ he)
    rw [readEntries]
    refine ((hhead.map _).seq hrest ?_).congr ?_ fun _ _ h => h
    · rintro path path' p p' ⟨q, -, rfl⟩ ⟨l, w, q', hl, -, rfl⟩
      have hkeys : Entries.keys all = Entries.keys before ++ k :: Entries.keys es := by
        rw [hall, Entries.keys, List.map_append]
        rfl
      have hlast : [l].Sublist (Entries.keys es) :=
        List.singleton_sublist.mpr (List.mem_map.mpr ⟨_, hl, rfl⟩)
      refine .entries ?_
      rw [hkeys]
      exact (List.cons_sublist_cons.mpr hlast).trans (List.sublist_append_right _ _)
    · intro path p
      constructor
      · rintro ⟨l, w, path', hl, h, rfl⟩
        rcases List.mem_cons.mp hl with heq | hl
        · cases heq
          exact .inl ⟨path', h, rfl⟩
        · exact .inr ⟨l, w, path', hl, h, rfl⟩
      · rintro (⟨path', h, rfl⟩ | ⟨l, w, path', hl, h, rfl⟩)
        · exact ⟨k, v, path', List.mem_cons_self, h, rfl⟩
        · exact ⟨l, w, path', List.mem_cons_of_mem _ hl, h, rfl⟩

/-- A query is read with its subqueries, and they with theirs, so both ways of reading are followed
at once. -/
theorem isExact_read_and_readMap {v : Json} (h : v.HasDistinctKeys) :
    (read v).IsExact (.object .query) v ∧ (readMap v).IsExact (.map .query) v := by
  induction h with
  | @object es hkeys _ ih =>
    constructor
    · rw [read_object]
      refine Covers.isExact (covers_ofFields (isExactAt_field (fun k w hw => ?_) ⟨_, rfl⟩))
      exact (ih (k, w) (Entries.mem_of_find? (Field.find?_eq_some hw).2)).2
    · refine Reports.congr (reports_readEntries (List.nil_append es).symm fun e he => (ih e he).1)
        (fun path p => Shape.violates_map_iff) fun _ _ h => h
  | _ => exact ⟨isExact_fail rfl, isExact_fail rfl⟩

end Query

/-! ### Documents -/

theorem Info.isExact_read (v : Json) : (Info.read v).IsExact (.object .info) v := by
  refine isExact_object (fun es => Covers.isExact ?_) v
  exact ((Covers.first rfl (isExactAt_text .name es ⟨_, rfl⟩) Info.mk).seq rfl
    (isExactAt_text .createdAt es ⟨_, rfl⟩)).seq rfl (isExactAt_text .updatedAt es ⟨_, rfl⟩)

theorem Document.isExact_read {v : Json} (h : v.HasDistinctKeys) :
    (Document.read v).IsExact (.object .document) v := by
  cases h with
  | @object es _ hes =>
    have hinfo : (field .info Info.read (done Info.blank) es).IsExactAt
        (.optional .info (.object .info)) es :=
      isExactAt_field (fun _ w _ => Info.isExact_read w) ⟨_, rfl⟩
    have hroot : (required .root Query.read es).IsExactAt (.required .root (.object .query)) es :=
      isExactAt_required fun k w hw =>
        (Query.isExact_read_and_readMap (hes _ (Entries.mem_of_find? (Field.find?_eq_some hw).2))).1
    exact Covers.isExact
      (((Covers.first rfl (isExactAt_choice .schema es _) _).seq rfl hinfo).seq rfl hroot)
  | _ => exact isExact_fail rfl

/-! ### All kinds of objects -/

namespace Model

/-- The values of each kind of objects. -/
def Value : Model → Type
  | .pair => Pair
  | .condition => Condition
  | .join => Join
  | .sortKey => SortKey
  | .query => Query
  | .info => Info
  | .document => Document

/-- Reads each kind of objects. -/
def read : (m : Model) → Json → Intake m.Value
  | .pair => Pair.read
  | .condition => Condition.read
  | .join => Join.read
  | .sortKey => SortKey.read
  | .query => Query.read
  | .info => Info.read
  | .document => Document.read

theorem isExact_read (m : Model) {v : Json} (h : v.HasDistinctKeys) :
    (m.read v).IsExact (.object m) v := by
  cases m with
  | pair => exact Pair.isExact_read v
  | condition => exact Condition.isExact_read v
  | join => exact Join.isExact_read v
  | sortKey => exact SortKey.isExact_read v
  | query => exact (Query.isExact_read_and_readMap h).1
  | info => exact Info.isExact_read v
  | document => exact Document.isExact_read h

/-- **Reading reports exactly what is wrong.** An object is read if the data has its shape, whatever
the supply. Otherwise every violation of the shape is reported, and nothing else, in the order of
the places, no place twice. The steps of each issue lead to the value that is wrong, or to the
object in which a field is missing. -/
theorem read_reports_violations (m : Model) {v : Json} (h : v.HasDistinctKeys) (supply : Supply) :
    ((∃ a, (m.read v).run supply = .ok a) ↔ (Shape.object m).Conforms v) ∧
    ∀ issues, (m.read v).run supply = .error issues →
      (∀ i, i ∈ issues ↔ (Shape.object m).Violates v i.path i.problem) ∧
      issues.Pairwise (fun i j => (Shape.object m).Precedes v i.path j.path) ∧
      (issues.map Issue.path).Nodup ∧
      ∀ i ∈ issues, (Shape.object m).IsLocated v i.path i.problem := by
  have hexact := m.isExact_read h
  have hnil := hexact.issues_eq_nil_iff h
  cases hx : m.read v with
  | ok d =>
    rw [hx] at hnil
    exact ⟨iff_of_true ⟨_, rfl⟩ (hnil.mp rfl), fun issues herror => nomatch herror⟩
  | error issues =>
    rw [hx] at hnil
    have hne := hexact.ne_nil issues hx
    obtain ⟨hmem, hpairwise, -⟩ := hexact
    rw [hx] at hmem hpairwise
    refine ⟨iff_of_false (fun ⟨a, ha⟩ => nomatch ha) fun hconforms => hne (hnil.mpr hconforms), ?_⟩
    intro issues' herror
    cases herror
    refine ⟨hmem, hpairwise, ?_, fun i hi => ((hmem i).mp hi).isLocated h⟩
    exact List.pairwise_map.mpr (hpairwise.imp fun hprecedes => hprecedes.ne h)

/-- A document of another format, with a pair that is null, one whose value is no text, and a
subquery, under the second name of its field, whose sort keys are null. -/
def flawed : Json :=
  .object [("root", .object [("sub_queries", .object [("s", .object [("orderBy", .null)])]),
    ("pairs", .array [.null, .object [("value", .bool true)]])]), ("$schema", .string "v0")]

theorem hasDistinctKeys_flawed : flawed.HasDistinctKeys := by
  have hsubqueries : (Json.object [("s", .object [("orderBy", .null)])]).HasDistinctKeys := by
    refine .object (by decide) (List.forall_mem_singleton.mpr ?_)
    exact .object (by decide) (List.forall_mem_singleton.mpr .null)
  have hpairs : (Json.array [.null, .object [("value", .bool true)]]).HasDistinctKeys := by
    refine .array (List.forall_mem_cons.mpr ⟨.null, List.forall_mem_singleton.mpr ?_⟩)
    exact .object (by decide) (List.forall_mem_singleton.mpr (.bool true))
  refine .object (by decide) (List.forall_mem_cons.mpr
    ⟨?_, List.forall_mem_singleton.mpr (.string "v0")⟩)
  exact .object (by decide)
    (List.forall_mem_cons.mpr ⟨hsubqueries, List.forall_mem_singleton.mpr hpairs⟩)

/-- The four issues come in the order of the fields, not in that of the entries. An empty object is
a query, but no document. -/
theorem read_reports_violations_flawed :
    let issues : List Issue :=
      [⟨[.key "$schema"], .notAmong ["sql-forge/visual-query/v1"]⟩,
        ⟨[.key "root", .key "pairs", .item 0], .notModel .pair⟩,
        ⟨[.key "root", .key "pairs", .item 1, .key "value"], .notText⟩,
        ⟨[.key "root", .key "sub_queries", .key "s", .key "orderBy"], .notList⟩]
    ((document.read flawed).run (.ofSource numbered) = .error issues ∧
      ∀ i, i ∈ issues ↔ (Shape.object .document).Violates flawed i.path i.problem) ∧
    (Shape.object .query).Conforms (.object []) ∧
    (Shape.object .document).Violates (.object []) [.key "root"] .missing := by
  intro issues
  have hempty : (Json.object []).HasDistinctKeys := .object List.nodup_nil nofun
  have hflawed : (document.read flawed).run (.ofSource numbered) = .error issues := rfl
  have hmissing : (document.read (.object [])).run (.ofSource numbered) =
      .error [⟨[.key "root"], .missing⟩] := rfl
  have hreported :=
    (read_reports_violations .document hasDistinctKeys_flawed (.ofSource numbered)).2 _ hflawed
  refine ⟨⟨hflawed, hreported.1⟩, ?_, ?_⟩
  · exact (read_reports_violations .query hempty (.ofSource numbered)).1.mp ⟨_, rfl⟩
  · exact (((read_reports_violations .document hempty (.ofSource numbered)).2 _ hmissing).1
      ⟨[.key "root"], .missing⟩).mp List.mem_cons_self

end Model

end QueryComposer
