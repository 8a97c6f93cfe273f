import QueryComposer.Document.Basic
import QueryComposer.Proofs.Json.Keys

/-!
# What data should look like

The shape of the data of a document, said without reading it. A shape asks something of a value and
passes shapes on to the values directly inside. A place is reached by steps into the value, and it
violates the shape if the value there is not what the shape that got there asks for, or if a field
is missing there.

The places of a value come in an order: those under the first field of an object before those under
the second, and inside each of them in the order of the value that stands there.

## Main definitions

* `Shape` is what may be asked of a value, and `Model.slots` the fields of each kind of object.
* `Shape.Conforms` holds of the values of a shape, at any depth.
* `Shape.Reaches` follows the steps to a place, `Shape.Violates` says what is wrong there.
* `Shape.Precedes` is the order of places, depth first.
* `Json.at?` follows steps in the bare value.

## Main results

* `Shape.conforms_iff`: a value conforms if no place in it violates the shape.
* `Shape.Reaches.at?_eq`, `Shape.Violates.isLocated`: steps to a place lead there in the bare value.
* `Shape.Precedes.ne`: what comes one after the other stands in different places.
-/

namespace QueryComposer

/-- What may be asked of a value. The items of lists and the values of maps are objects always. -/
inductive Shape where
  | text
  | optionalText
  | choice (names : List String)
  | list (item : Model)
  | map (value : Model)
  | object (model : Model)
deriving DecidableEq, Repr

/-- The names of the values of a finite type. -/
def Shape.ofChoice (α : Type) [Choice α] : Shape := .choice ((Choice.all : List α).map Choice.name)

/-- A field of a kind of objects. -/
structure Slot where
  field : Field
  shape : Shape
  isRequired : Bool
deriving DecidableEq, Repr

/-- A field that may be absent. -/
def Slot.optional (field : Field) (shape : Shape) : Slot := ⟨field, shape, false⟩

/-- A field that may not be absent. -/
def Slot.required (field : Field) (shape : Shape) : Slot := ⟨field, shape, true⟩

/-- The fields of each kind of objects, in their order. -/
def Model.slots : Model → List Slot
  | .pair => [.optional .id .text, .optional .column .text, .optional .value .text]
  | .condition =>
    [.optional .id .text, .optional .column .text, .optional .operator (.ofChoice Operator),
      .optional .value .text, .optional .gate (.ofChoice Gate), .optional .subqueryId .optionalText]
  | .join =>
    [.optional .id .text, .optional .kind (.ofChoice JoinKind), .optional .table .text,
      .optional .left .text, .optional .right .text]
  | .sortKey =>
    [.optional .id .text, .optional .column .text, .optional .direction (.ofChoice Direction)]
  | .query =>
    [.optional .id .text, .optional .operation (.ofChoice Operation), .optional .table .text,
      .optional .columns .text, .optional .pairs (.list .pair),
      .optional .conditions (.list .condition), .optional .joins (.list .join),
      .optional .sortKeys (.list .sortKey), .optional .limit .text,
      .optional .subqueries (.map .query)]
  | .info => [.optional .name .text, .optional .createdAt .text, .optional .updatedAt .text]
  | .document =>
    [.optional .schema (.ofChoice Format), .optional .info (.object .info),
      .required .root (.object .query)]

namespace Shape

/-- What is wrong with a value, not looking inside. -/
def problem? : Shape → Json → Option Problem
  | .text, .string _ => none
  | .text, _ => some .notText
  | .optionalText, .null => none
  | .optionalText, .string _ => none
  | .optionalText, _ => some .notText
  | .choice names, .string s => if s ∈ names then none else some (.notAmong names)
  | .choice names, _ => some (.notAmong names)
  | .list _, .array _ => none
  | .list _, _ => some .notList
  | .map _, .object _ => none
  | .map _, _ => some .notMap
  | .object _, .object _ => none
  | .object m, _ => some (.notModel m)

/-- The value has the shape, and all values inside have theirs. -/
inductive Conforms : Shape → Json → Prop where
  | text (s : String) : Conforms .text (.string s)
  | null : Conforms .optionalText .null
  | optionalText (s : String) : Conforms .optionalText (.string s)
  | choice {names : List String} {s : String} : s ∈ names → Conforms (.choice names) (.string s)
  | list {m : Model} {vs : List Json} : (∀ v ∈ vs, Conforms (.object m) v) →
      Conforms (.list m) (.array vs)
  | map {m : Model} {es : List (String × Json)} : (∀ e ∈ es, Conforms (.object m) e.2) →
      Conforms (.map m) (.object es)
  | object {m : Model} {es : List (String × Json)} :
      (∀ slot ∈ m.slots, ∀ k v, slot.field.find? es = some (k, v) → Conforms slot.shape v) →
      (∀ slot ∈ m.slots, slot.isRequired → slot.field.find? es ≠ none) →
      Conforms (.object m) (.object es)

/-- One step into a value, with the shape that is asked for there. -/
inductive Within : Shape → Json → Step → Shape → Json → Prop where
  | item {m : Model} {vs : List Json} {i : Nat} {v : Json} : vs[i]? = some v →
      Within (.list m) (.array vs) (.item i) (.object m) v
  | entry {m : Model} {es : List (String × Json)} {k : String} {v : Json} : (k, v) ∈ es →
      Within (.map m) (.object es) (.key k) (.object m) v
  | slot {m : Model} {es : List (String × Json)} {slot : Slot} {k : String} {v : Json} :
      slot ∈ m.slots → slot.field.find? es = some (k, v) →
      Within (.object m) (.object es) (.key k) slot.shape v

/-- The steps to a place in a value, with the shape that is asked for there. -/
inductive Reaches : Shape → Json → List Step → Shape → Json → Prop where
  | here {s : Shape} {v : Json} : Reaches s v [] s v
  | further {s t u : Shape} {v w x : Json} {step : Step} {path : List Step} :
      Within s v step t w → Reaches t w path u x → Reaches s v (step :: path) u x

/-- What is wrong at a place: the value there, or that a field has none. -/
inductive Violates (s : Shape) (v : Json) : List Step → Problem → Prop where
  | unfit {path : List Step} {t : Shape} {w : Json} {p : Problem} : s.Reaches v path t w →
      t.problem? w = some p → Violates s v path p
  | missing {path : List Step} {m : Model} {es : List (String × Json)} {slot : Slot} :
      s.Reaches v path (.object m) (.object es) → slot ∈ m.slots → slot.isRequired →
      slot.field.find? es = none → Violates s v (path ++ [.key slot.field.key]) .missing

end Shape

/-- The key under which a field stands in an object, or should stand. -/
def Slot.key (slot : Slot) (es : List (String × Json)) : String :=
  ((slot.field.find? es).map Prod.fst).getD slot.field.key

/-- The one place comes before the other, field by field and in depth first. -/
inductive Shape.Precedes : Shape → Json → List Step → List Step → Prop where
  | items {m : Model} {vs : List Json} {i j : Nat} {path path' : List Step} : i < j →
      Precedes (.list m) (.array vs) (.item i :: path) (.item j :: path')
  | entries {m : Model} {es : List (String × Json)} {k l : String} {path path' : List Step} :
      [k, l].Sublist (Entries.keys es) →
      Precedes (.map m) (.object es) (.key k :: path) (.key l :: path')
  | slots {m : Model} {es : List (String × Json)} {a b : Slot} {path path' : List Step} :
      [a, b].Sublist m.slots →
      Precedes (.object m) (.object es) (.key (a.key es) :: path) (.key (b.key es) :: path')
  | within {s t : Shape} {v w : Json} {step : Step} {path path' : List Step} :
      s.Within v step t w → Precedes t w path path' → Precedes s v (step :: path) (step :: path')

/-- The value at the end of the steps. -/
def Json.at? : List Step → Json → Option Json
  | [], v => some v
  | .key k :: path, .object es => (Entries.find? k es).bind (at? path)
  | .item i :: path, .array vs => vs[i]?.bind (at? path)
  | _ :: _, _ => none

/-- No two fields of an object share a name. -/
theorem Model.pairwise_slots (m : Model) : m.slots.Pairwise fun a b =>
    a.field.key ≠ b.field.key ∧ a.field.key ≠ b.field.altKey ∧
      a.field.altKey ≠ b.field.key ∧ a.field.altKey ≠ b.field.altKey := by
  cases m <;> decide

theorem Slot.key_eq (slot : Slot) (es : List (String × Json)) :
    slot.key es = slot.field.key ∨ slot.key es = slot.field.altKey := by
  rw [key]
  cases hfind : slot.field.find? es with
  | none => exact .inl rfl
  | some e => exact (Field.find?_eq_some hfind).1

theorem Model.key_ne {m : Model} {a b : Slot} (h : [a, b].Sublist m.slots)
    (es : List (String × Json)) : a.key es ≠ b.key es := by
  obtain ⟨hkeys, hkeyAlt, haltKey, halts⟩ :=
    List.rel_of_pairwise_cons (m.pairwise_slots.sublist h) List.mem_cons_self
  rcases a.key_eq es with ha | ha <;> rcases b.key_eq es with hb | hb <;> rw [ha, hb]
  · exact hkeys
  · exact hkeyAlt
  · exact haltKey
  · exact halts

namespace Shape

variable {s t u : Shape} {m : Model} {v w x : Json} {vs : List Json} {es : List (String × Json)}
  {step : Step} {path path' : List Step} {p q : Problem}

/-! ### Places -/

theorem Within.hasDistinctKeys (h : s.Within v step t w) (hv : v.HasDistinctKeys) :
    w.HasDistinctKeys := by
  cases h with
  | item hi =>
    cases hv with
    | array hvs => exact hvs _ (List.mem_of_getElem? hi)
  | entry he => exact (Json.hasDistinctKeys_object_iff.mp hv).2 _ he
  | slot hslot hfind =>
    have he := Entries.mem_of_find? (Field.find?_eq_some hfind).2
    exact (Json.hasDistinctKeys_object_iff.mp hv).2 _ he

theorem Within.at?_cons (h : s.Within v step t w) (hv : v.HasDistinctKeys) (path : List Step) :
    v.at? (step :: path) = w.at? path := by
  cases h with
  | item hi => rw [Json.at?, hi, Option.bind_some]
  | entry he =>
    have hkeys := (Json.hasDistinctKeys_object_iff.mp hv).1
    rw [Json.at?, (Entries.find?_eq_some_iff hkeys).mpr he, Option.bind_some]
  | slot hslot hfind => rw [Json.at?, (Field.find?_eq_some hfind).2, Option.bind_some]

/-- **The steps to a place lead there.** -/
theorem Reaches.at?_eq (h : s.Reaches v path t w) (hv : v.HasDistinctKeys) :
    v.at? path = some w := by
  induction h with
  | here => rfl
  | further hwithin _ ih =>
    rw [hwithin.at?_cons hv]
    exact ih (hwithin.hasDistinctKeys hv)

/-- The steps lead to a value that has the problem, or to an object that has the missing field under
neither of its names. -/
def IsLocated (s : Shape) (v : Json) (path : List Step) (p : Problem) : Prop :=
  (∃ t w, s.Reaches v path t w ∧ v.at? path = some w ∧ t.problem? w = some p) ∨
  p = .missing ∧ ∃ before m es slot, path = before ++ [.key slot.field.key] ∧
    s.Reaches v before (.object m) (.object es) ∧ v.at? before = some (.object es) ∧
    slot ∈ m.slots ∧ slot.isRequired ∧
    Entries.find? slot.field.key es = none ∧ Entries.find? slot.field.altKey es = none

theorem Violates.isLocated (h : s.Violates v path p) (hv : v.HasDistinctKeys) :
    s.IsLocated v path p := by
  cases h with
  | unfit hreaches hp => exact .inl ⟨_, _, hreaches, hreaches.at?_eq hv, hp⟩
  | missing hreaches hslot hrequired hnone =>
    obtain ⟨hkey, halt⟩ := Field.find?_eq_none_iff.mp hnone
    exact .inr ⟨rfl, _, _, _, _, rfl, hreaches, hreaches.at?_eq hv, hslot, hrequired, hkey, halt⟩

/-! ### Violations, one step at a time -/

/-- A value that is not what is asked for has nothing inside that could be. -/
theorem Within.problem?_eq_none (h : s.Within v step t w) : s.problem? v = none := by
  cases h <;> rfl

theorem Violates.further (hwithin : s.Within v step t w) (h : t.Violates w path p) :
    s.Violates v (step :: path) p := by
  cases h with
  | unfit hreaches hp => exact .unfit (.further hwithin hreaches) hp
  | missing hreaches hslot hrequired hnone =>
    exact .missing (.further hwithin hreaches) hslot hrequired hnone

/-- **A violation is here or one step further in.** -/
theorem violates_iff : s.Violates v path p ↔
    (path = [] ∧ s.problem? v = some p) ∨
    (∃ m es, s = .object m ∧ v = .object es ∧ p = .missing ∧ ∃ slot ∈ m.slots, slot.isRequired ∧
      slot.field.find? es = none ∧ path = [.key slot.field.key]) ∨
    ∃ step t w path', s.Within v step t w ∧ t.Violates w path' p ∧ path = step :: path' := by
  constructor
  · intro h
    cases h with
    | unfit hreaches hp =>
      cases hreaches with
      | here => exact .inl ⟨rfl, hp⟩
      | further hwithin hreaches =>
        exact .inr (.inr ⟨_, _, _, _, hwithin, .unfit hreaches hp, rfl⟩)
    | missing hreaches hslot hrequired hnone =>
      cases hreaches with
      | here => exact .inr (.inl ⟨_, _, rfl, rfl, rfl, _, hslot, hrequired, hnone, rfl⟩)
      | further hwithin hreaches =>
        exact .inr (.inr ⟨_, _, _, _, hwithin, .missing hreaches hslot hrequired hnone, rfl⟩)
  · rintro (⟨rfl, hp⟩ | ⟨m, es, rfl, rfl, rfl, slot, hslot, hrequired, hnone, rfl⟩ |
      ⟨step, t, w, path', hwithin, h, rfl⟩)
    · exact .unfit .here hp
    · exact .missing .here hslot hrequired hnone
    · exact h.further hwithin

/-- What is wrong with the value itself is all that is wrong. -/
theorem violates_iff_of_problem? (h : s.problem? v = some q) :
    s.Violates v path p ↔ path = [] ∧ p = q := by
  rw [violates_iff, h]
  constructor
  · rintro (⟨rfl, hp⟩ | ⟨m, es, rfl, rfl, -⟩ | ⟨step, t, w, path', hwithin, -⟩)
    · exact ⟨rfl, (Option.some.inj hp).symm⟩
    · cases h
    · cases h.symm.trans hwithin.problem?_eq_none
  · rintro ⟨rfl, rfl⟩
    exact .inl ⟨rfl, rfl⟩

/-- A value with nothing inside that anything is asked of has nothing wrong with it but itself. -/
theorem not_violates (h : s.problem? v = none) (hinside : ∀ step t w, ¬s.Within v step t w)
    (hobject : ∀ m, s ≠ .object m) : ¬s.Violates v path p := by
  rw [violates_iff]
  rintro (⟨-, hp⟩ | ⟨m, es, rfl, -⟩ | ⟨step, t, w, path', hwithin, -⟩)
  · cases h.symm.trans hp
  · exact hobject m rfl
  · exact hinside step t w hwithin

theorem violates_list_iff : (list m).Violates (.array vs) path p ↔
    ∃ i w path', vs[i]? = some w ∧ (object m).Violates w path' p ∧ path = .item i :: path' := by
  rw [violates_iff]
  constructor
  · rintro (⟨-, hp⟩ | ⟨_, _, heq, -⟩ | ⟨step, t, w, path', hwithin, h, rfl⟩)
    · cases hp
    · cases heq
    · cases hwithin with
      | item hi => exact ⟨_, w, path', hi, h, rfl⟩
  · rintro ⟨i, w, path', hi, h, rfl⟩
    exact .inr (.inr ⟨_, _, w, path', .item hi, h, rfl⟩)

theorem violates_map_iff : (map m).Violates (.object es) path p ↔
    ∃ k w path', (k, w) ∈ es ∧ (object m).Violates w path' p ∧ path = .key k :: path' := by
  rw [violates_iff]
  constructor
  · rintro (⟨-, hp⟩ | ⟨_, _, heq, -⟩ | ⟨step, t, w, path', hwithin, h, rfl⟩)
    · cases hp
    · cases heq
    · cases hwithin with
      | entry he => exact ⟨_, w, path', he, h, rfl⟩
  · rintro ⟨k, w, path', he, h, rfl⟩
    exact .inr (.inr ⟨_, _, w, path', .entry he, h, rfl⟩)

end Shape

/-- What is wrong with one field of an object. -/
def Slot.Violates (slot : Slot) (es : List (String × Json)) (path : List Step) (p : Problem) :
    Prop :=
  (∃ k w path', slot.field.find? es = some (k, w) ∧ slot.shape.Violates w path' p ∧
    path = .key k :: path') ∨
  slot.isRequired ∧ slot.field.find? es = none ∧ path = [.key slot.field.key] ∧ p = .missing

namespace Shape

variable {s t : Shape} {m : Model} {v w : Json} {es : List (String × Json)}
  {path path' : List Step} {p : Problem}

theorem violates_object_iff : (object m).Violates (.object es) path p ↔
    ∃ slot ∈ m.slots, slot.Violates es path p := by
  rw [violates_iff]
  constructor
  · rintro (⟨-, hp⟩ | ⟨_, _, heq, heq', rfl, slot, hslot, hrequired, hnone, rfl⟩ |
      ⟨step, t, w, path', hwithin, h, rfl⟩)
    · cases hp
    · cases heq
      cases heq'
      exact ⟨slot, hslot, .inr ⟨hrequired, hnone, rfl, rfl⟩⟩
    · cases hwithin with
      | slot hslot hfind => exact ⟨_, hslot, .inl ⟨_, w, path', hfind, h, rfl⟩⟩
  · rintro ⟨slot, hslot, ⟨k, w, path', hfind, h, rfl⟩ | ⟨hrequired, hnone, rfl, rfl⟩⟩
    · exact .inr (.inr ⟨_, _, w, path', .slot hslot hfind, h, rfl⟩)
    · exact .inr (.inl ⟨m, es, rfl, rfl, rfl, slot, hslot, hrequired, hnone, rfl⟩)

/-! ### Conforming -/

theorem Conforms.not_violates (h : s.Conforms v) : ¬s.Violates v path p := by
  induction h generalizing path with
  | text | null | optionalText => exact Shape.not_violates rfl nofun nofun
  | choice hs => exact Shape.not_violates (if_pos hs) nofun nofun
  | list _ ih =>
    rw [violates_list_iff]
    rintro ⟨i, w, path', hi, h, -⟩
    exact ih w (List.mem_of_getElem? hi) h
  | map _ ih =>
    rw [violates_map_iff]
    rintro ⟨k, w, path', he, h, -⟩
    exact ih (k, w) he h
  | object _ hrequired ih =>
    rw [violates_object_iff]
    rintro ⟨slot, hslot, ⟨k, w, path', hfind, h, -⟩ | ⟨hslot', hnone, -⟩⟩
    · exact ih slot hslot k w hfind h
    · exact hrequired slot hslot hslot' hnone

/-- **A value conforms exactly if nothing in it violates the shape.** -/
theorem conforms_iff (hv : v.HasDistinctKeys) :
    s.Conforms v ↔ ∀ path p, ¬s.Violates v path p := by
  refine ⟨fun h path p => h.not_violates, fun h => ?_⟩
  induction hv generalizing s with
  | null =>
    cases s with
    | optionalText => exact .null
    | _ => exact absurd (.unfit .here rfl) (h [] _)
  | bool | number => cases s <;> exact absurd (.unfit .here rfl) (h [] _)
  | string t =>
    cases s with
    | text => exact .text t
    | optionalText => exact .optionalText t
    | choice names =>
      by_cases ht : t ∈ names
      · exact .choice ht
      · exact absurd (.unfit .here (if_neg ht)) (h [] _)
    | _ => exact absurd (.unfit .here rfl) (h [] _)
  | @array vs _ ih =>
    cases s with
    | list m =>
      refine .list fun w hw => ih w hw fun path p hviolates => ?_
      obtain ⟨i, hi⟩ := List.mem_iff_getElem?.mp hw
      exact h _ p (violates_list_iff.mpr ⟨i, w, path, hi, hviolates, rfl⟩)
    | _ => exact absurd (.unfit .here rfl) (h [] _)
  | @object es _ _ ih =>
    cases s with
    | map m =>
      refine .map fun e he => ih e he fun path p hviolates => ?_
      exact h _ p (violates_map_iff.mpr ⟨e.1, e.2, path, he, hviolates, rfl⟩)
    | object m =>
      refine .object (fun slot hslot k w hfind => ?_) fun slot hslot hrequired hnone => ?_
      · have he := Entries.mem_of_find? (Field.find?_eq_some hfind).2
        refine ih _ he fun path p hviolates => ?_
        exact h _ p (hviolates.further (.slot hslot hfind))
      · exact h _ _ (.missing .here hslot hrequired hnone)
    | _ => exact absurd (.unfit .here rfl) (h [] _)

/-! ### Order -/

/-- **What comes one after the other stands in different places.** -/
theorem Precedes.ne (h : s.Precedes v path path') (hv : v.HasDistinctKeys) : path ≠ path' := by
  induction h with
  | items hij =>
    intro heq
    cases heq
    exact Nat.lt_irrefl _ hij
  | entries hsub =>
    intro heq
    cases heq
    have hkeys := (Json.hasDistinctKeys_object_iff.mp hv).1.sublist hsub
    simp at hkeys
  | slots hsub =>
    intro heq
    exact Model.key_ne hsub _ (Step.key.inj (List.cons.inj heq).1)
  | within hwithin _ ih =>
    intro heq
    exact ih (hwithin.hasDistinctKeys hv) (List.cons.inj heq).2

end Shape

end QueryComposer
