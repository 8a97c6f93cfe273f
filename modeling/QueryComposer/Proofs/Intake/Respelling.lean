import Mathlib.Data.List.Pairwise
import QueryComposer.Proofs.Intake.Shape

/-!
# Other spellings of the same data

The keys of an object may come in any order, under either of their names, and among keys that
nobody asks for. This module says when two values differ in nothing but that, wherever in the value
the objects stand. The keys of a map are not names of fields: they and their order count.

Two relations say it. `Shape.Respelled` lists what may be done to a value, one object at a time and
as often as one likes. `Shape.SameFields` looks at the two values together, field by field. The
first is what a reader of the format has in mind, the second is what reading sees.

## Main definitions

* `Shape.Respelled` relates the values that come from each other by other spellings.
* `Shape.SameFields` relates the values with the same fields.
* `Shape.SamePlace` relates paths that differ in the names of fields only.

## Main results

* `Shape.Respelled.sameFields`: values with other spellings have the same fields.
-/

namespace QueryComposer

namespace Entries

variable {α : Type}

/-- What a look-up sees of an entry in the middle. -/
theorem find?_middle (key k : String) (a : α) (before after : Entries α) :
    find? key (before ++ (k, a) :: after) =
      if k = key then some ((find? key before).getD a) else find? key (before ++ after) := by
  induction before with
  | nil => simp [find?]
  | cons e before ih =>
    obtain ⟨l, b⟩ := e
    rw [List.cons_append, List.cons_append, find?, find?, ih, find?]
    by_cases hl : l = key
    · simp [hl]
    · simp [hl]

theorem find?_perm {es fs : Entries α} (hkeys : (keys es).Nodup) (h : es.Perm fs) (key : String) :
    find? key es = find? key fs := by
  have hkeys' : (keys fs).Nodup := (h.map Prod.fst).nodup_iff.mp hkeys
  refine Option.ext fun a => ?_
  rw [find?_eq_some_iff hkeys, find?_eq_some_iff hkeys', h.mem_iff]

end Entries

namespace Shape

/-- **Other spellings.** Objects of a model may have their keys in another order, keys more that the
model does not know, a field under its second name, or its second name beside its first. -/
inductive Respelled : Shape → Json → Json → Prop where
  | refl (s : Shape) (v : Json) : Respelled s v v
  | symm {s : Shape} {v w : Json} : Respelled s v w → Respelled s w v
  | trans {s : Shape} {u v w : Json} : Respelled s u v → Respelled s v w → Respelled s u w
  | item {m : Model} (before : List Json) {v w : Json} (after : List Json) :
      Respelled (.object m) v w →
      Respelled (.list m) (.array (before ++ v :: after)) (.array (before ++ w :: after))
  | entry {m : Model} (before : List (String × Json)) (k : String) {v w : Json}
      (after : List (String × Json)) : Respelled (.object m) v w →
      Respelled (.map m) (.object (before ++ (k, v) :: after)) (.object (before ++ (k, w) :: after))
  | value {m : Model} (slot : Slot) (before : List (String × Json)) {k : String} {v w : Json}
      (after : List (String × Json)) : slot ∈ m.slots →
      k = slot.field.key ∨ k = slot.field.altKey → Respelled slot.shape v w →
      Respelled (.object m) (.object (before ++ (k, v) :: after))
        (.object (before ++ (k, w) :: after))
  | permute {m : Model} {es fs : List (String × Json)} : (Entries.keys es).Nodup → es.Perm fs →
      Respelled (.object m) (.object es) (.object fs)
  | unknown {m : Model} (before : List (String × Json)) {k : String} (v : Json)
      (after : List (String × Json)) :
      (∀ slot ∈ m.slots, k ≠ slot.field.key ∧ k ≠ slot.field.altKey) →
      Respelled (.object m) (.object (before ++ after)) (.object (before ++ (k, v) :: after))
  | rename {m : Model} (slot : Slot) (before : List (String × Json)) (v : Json)
      (after : List (String × Json)) : slot ∈ m.slots →
      slot.field.key ∉ Entries.keys (before ++ after) →
      slot.field.altKey ∉ Entries.keys (before ++ after) →
      Respelled (.object m) (.object (before ++ (slot.field.key, v) :: after))
        (.object (before ++ (slot.field.altKey, v) :: after))
  | shadow {m : Model} (slot : Slot) (before : List (String × Json)) (v : Json)
      (after : List (String × Json)) : slot ∈ m.slots → slot.field.key ≠ slot.field.altKey →
      slot.field.key ∈ Entries.keys (before ++ after) →
      Respelled (.object m) (.object (before ++ after))
        (.object (before ++ (slot.field.altKey, v) :: after))

/-- The values have the same fields, at any depth, whatever the keys under which they stand. -/
inductive SameFields : Shape → Json → Json → Prop where
  | refl (s : Shape) (v : Json) : SameFields s v v
  | item {m : Model} {v w : Json} {vs ws : List Json} : SameFields (.object m) v w →
      SameFields (.list m) (.array vs) (.array ws) →
      SameFields (.list m) (.array (v :: vs)) (.array (w :: ws))
  | entry {m : Model} (k : String) {v w : Json} {es fs : List (String × Json)} :
      SameFields (.object m) v w → SameFields (.map m) (.object es) (.object fs) →
      SameFields (.map m) (.object ((k, v) :: es)) (.object ((k, w) :: fs))
  | object {m : Model} {es fs : List (String × Json)} :
      (∀ slot ∈ m.slots, slot.field.find? es = none ↔ slot.field.find? fs = none) →
      (∀ slot ∈ m.slots, ∀ k l v w, slot.field.find? es = some (k, v) →
        slot.field.find? fs = some (l, w) → SameFields slot.shape v w) →
      SameFields (.object m) (.object es) (.object fs)

/-- The paths differ in nothing but the names of fields. -/
inductive SamePlace : Shape → List Step → List Step → Prop where
  | refl (s : Shape) (path : List Step) : SamePlace s path path
  | item {m : Model} (i : Nat) {path path' : List Step} : SamePlace (.object m) path path' →
      SamePlace (.list m) (.item i :: path) (.item i :: path')
  | entry {m : Model} (k : String) {path path' : List Step} : SamePlace (.object m) path path' →
      SamePlace (.map m) (.key k :: path) (.key k :: path')
  | field {m : Model} {slot : Slot} {k l : String} {path path' : List Step} : slot ∈ m.slots →
      k = slot.field.key ∨ k = slot.field.altKey → l = slot.field.key ∨ l = slot.field.altKey →
      SamePlace slot.shape path path' →
      SamePlace (.object m) (.key k :: path) (.key l :: path')

end Shape

/-! ### Fields under either name -/

theorem Field.map_snd_find? (f : Field) (es : List (String × Json)) :
    (f.find? es).map Prod.snd = (Entries.find? f.key es).or (Entries.find? f.altKey es) := by
  rw [find?]
  cases Entries.find? f.key es with
  | some v => rfl
  | none => simp [Function.comp_def]

/-- A look-up sees a value that is replaced, or does not see it. -/
theorem Field.find?_replace (f : Field) (before after : List (String × Json)) (k : String)
    (v w : Json) :
    f.find? (before ++ (k, v) :: after) = f.find? (before ++ (k, w) :: after) ∨
      f.find? (before ++ (k, v) :: after) = some (k, v) ∧
        f.find? (before ++ (k, w) :: after) = some (k, w) := by
  simp only [find?, Entries.find?_middle]
  by_cases hkey : k = f.key
  · cases hbefore : Entries.find? f.key before <;> simp [hkey]
  · rw [if_neg hkey, if_neg hkey]
    cases Entries.find? f.key (before ++ after) with
    | some u => exact .inl rfl
    | none =>
      by_cases halt : k = f.altKey
      · cases hbefore : Entries.find? f.altKey before <;> simp [halt]
      · simp [halt]

/-- A name of one field is no name of another. -/
theorem Model.ne_name {m : Model} {a b : Slot} (ha : a ∈ m.slots) (hb : b ∈ m.slots) (hab : a ≠ b)
    {k : String} (hk : k = a.field.key ∨ k = a.field.altKey) :
    k ≠ b.field.key ∧ k ≠ b.field.altKey := by
  have : Std.Symm fun a b : Slot => a.field.key ≠ b.field.key ∧ a.field.key ≠ b.field.altKey ∧
      a.field.altKey ≠ b.field.key ∧ a.field.altKey ≠ b.field.altKey :=
    ⟨fun _ _ ⟨hkeys, hkeyAlt, haltKey, halts⟩ =>
      ⟨hkeys.symm, haltKey.symm, hkeyAlt.symm, halts.symm⟩⟩
  obtain ⟨hkeys, hkeyAlt, haltKey, halts⟩ := m.pairwise_slots.forall ha hb hab
  rcases hk with rfl | rfl
  · exact ⟨hkeys, hkeyAlt⟩
  · exact ⟨haltKey, halts⟩

namespace Shape

variable {s : Shape} {m : Model} {u v w : Json} {es fs : List (String × Json)}

namespace SameFields

/-- Objects in which the look-ups of all fields give the same values. -/
theorem of_find? (h : ∀ slot ∈ m.slots, (slot.field.find? es).map Prod.snd =
      (slot.field.find? fs).map Prod.snd) : SameFields (.object m) (.object es) (.object fs) := by
  refine .object (fun slot hslot => ?_) fun slot hslot k l v w hv hw => ?_
  · rw [← Option.map_eq_none_iff (f := Prod.snd), h slot hslot, Option.map_eq_none_iff]
  · have hvalues := h slot hslot
    rw [hv, hw] at hvalues
    cases hvalues
    exact .refl _ _

/-- A field is absent from both objects, or present in both. -/
theorem find? {f : Field} {t : Shape} {r : Bool}
    (h : SameFields (.object m) (.object es) (.object fs)) (hslot : ⟨f, t, r⟩ ∈ m.slots) :
    (f.find? es = none ∧ f.find? fs = none) ∨ ∃ k l v w, f.find? es = some (k, v) ∧
      f.find? fs = some (l, w) ∧ SameFields t v w := by
  cases h with
  | refl =>
    cases hfind : f.find? es with
    | none => exact .inl ⟨rfl, rfl⟩
    | some e => exact .inr ⟨e.1, e.1, e.2, e.2, rfl, rfl, .refl t e.2⟩
  | object hnone hsome =>
    cases hes : f.find? es with
    | none => exact .inl ⟨rfl, (hnone _ hslot).mp hes⟩
    | some e =>
      have hpresent := mt (hnone _ hslot).mpr (by simp [hes])
      obtain ⟨⟨l, w⟩, hfs⟩ := Option.ne_none_iff_exists'.mp hpresent
      exact .inr ⟨e.1, l, e.2, w, rfl, hfs, hsome _ hslot e.1 l e.2 w hes hfs⟩

theorem symm (h : SameFields s v w) : SameFields s w v := by
  induction h with
  | refl s v => exact .refl s v
  | item _ _ ih ih' => exact .item ih ih'
  | entry k _ _ ih ih' => exact .entry k ih ih'
  | object hnone _ ih =>
    refine .object (fun slot hslot => (hnone slot hslot).symm) ?_
    intro slot hslot k l v w hv hw
    exact ih slot hslot l k w v hw hv

theorem trans (h : SameFields s u v) (h' : SameFields s v w) : SameFields s u w := by
  induction h generalizing w with
  | refl s v => exact h'
  | item hhead htail ih ih' =>
    cases h' with
    | refl => exact .item hhead htail
    | item hhead' htail' => exact .item (ih hhead') (ih' htail')
  | entry k hhead htail ih ih' =>
    cases h' with
    | refl => exact .entry k hhead htail
    | entry _ hhead' htail' => exact .entry k (ih hhead') (ih' htail')
  | object hnone hsome ih =>
    cases h' with
    | refl => exact .object hnone hsome
    | object hnone' hsome' =>
      refine .object (fun slot hslot => (hnone slot hslot).trans (hnone' slot hslot)) ?_
      intro slot hslot k l v w hv hw
      have hpresent := mt (hnone slot hslot).mpr (by simp [hv])
      obtain ⟨⟨n, x⟩, hx⟩ := Option.ne_none_iff_exists'.mp hpresent
      exact ih slot hslot k n v x hv hx (hsome' slot hslot n l x w hx hw)

theorem item_middle (before : List Json) {after : List Json} (h : SameFields (.object m) v w) :
    SameFields (.list m) (.array (before ++ v :: after)) (.array (before ++ w :: after)) := by
  induction before with
  | nil => exact .item h (.refl _ _)
  | cons x before ih => exact .item (.refl _ x) ih

theorem entry_middle (before : List (String × Json)) {k : String} {after : List (String × Json)}
    (h : SameFields (.object m) v w) :
    SameFields (.map m) (.object (before ++ (k, v) :: after))
      (.object (before ++ (k, w) :: after)) := by
  induction before with
  | nil => exact .entry k h (.refl _ _)
  | cons e before ih => exact .entry e.1 (.refl _ e.2) ih

/-- A field has its value replaced by one with the same fields. -/
theorem value_middle {slot : Slot} (before : List (String × Json)) {k : String}
    {after : List (String × Json)} (hslot : slot ∈ m.slots)
    (hk : k = slot.field.key ∨ k = slot.field.altKey) (h : SameFields slot.shape v w) :
    SameFields (.object m) (.object (before ++ (k, v) :: after))
      (.object (before ++ (k, w) :: after)) := by
  refine .object (fun slot' _ => ?_) fun slot' hslot' l n x y hx hy => ?_
  · rcases slot'.field.find?_replace before after k v w with heq | ⟨hv, hw⟩
    · rw [heq]
    · simp [hv, hw]
  · rcases slot'.field.find?_replace before after k v w with heq | ⟨hv, hw⟩
    · cases hx.symm.trans (heq.trans hy)
      exact .refl _ _
    · cases hx.symm.trans hv
      cases hy.symm.trans hw
      by_cases hne : slot = slot'
      · exact hne ▸ h
      · obtain ⟨hkey, halt⟩ := Model.ne_name hslot hslot' hne hk
        rcases (Field.find?_eq_some hv).1 with hkey' | halt'
        · exact absurd hkey' hkey
        · exact absurd halt' halt

end SameFields

/-- **Values with other spellings have the same fields.** -/
theorem Respelled.sameFields (h : Respelled s v w) : SameFields s v w := by
  induction h with
  | refl s v => exact .refl s v
  | symm _ ih => exact ih.symm
  | trans _ _ ih ih' => exact ih.trans ih'
  | item before after _ ih => exact ih.item_middle before
  | entry before k after _ ih => exact ih.entry_middle before
  | value slot before after hslot hk _ ih => exact ih.value_middle before hslot hk
  | permute hkeys hperm =>
    refine .of_find? fun slot _ => ?_
    rw [Field.map_snd_find?, Field.map_snd_find?, Entries.find?_perm hkeys hperm,
      Entries.find?_perm hkeys hperm]
  | unknown before v after hunknown =>
    refine .of_find? fun slot hslot => ?_
    obtain ⟨hkey, halt⟩ := hunknown slot hslot
    rw [Field.map_snd_find?, Field.map_snd_find?, Entries.find?_middle, Entries.find?_middle,
      if_neg hkey, if_neg halt]
  | rename slot before v after hslot hkey halt =>
    refine .of_find? fun slot' hslot' => ?_
    simp only [Field.map_snd_find?, Entries.find?_middle]
    by_cases hne : slot = slot'
    · subst hne
      have hnone : ∀ {k : String}, k ∉ Entries.keys (before ++ after) →
          Entries.find? k before = none ∧ Entries.find? k (before ++ after) = none := by
        intro k hk
        refine ⟨Entries.find?_eq_none_iff.mpr fun hmem => hk ?_, Entries.find?_eq_none_iff.mpr hk⟩
        rw [Entries.keys, List.map_append]
        exact List.mem_append_left _ hmem
      by_cases hnames : slot.field.altKey = slot.field.key
      · simp [hnames]
      · simp [hnames, (hnone hkey).1, (hnone hkey).2, (hnone halt).1]
    · obtain ⟨hkeys, hkeyAlt⟩ := Model.ne_name hslot hslot' hne (.inl rfl)
      obtain ⟨haltKey, halts⟩ := Model.ne_name hslot hslot' hne (.inr rfl)
      simp [hkeys, hkeyAlt, haltKey, halts]
  | shadow slot before v after hslot hne hkey =>
    refine .of_find? fun slot' hslot' => ?_
    simp only [Field.map_snd_find?, Entries.find?_middle]
    by_cases heq : slot = slot'
    · subst heq
      obtain ⟨w, hw⟩ := Option.isSome_iff_exists.mp ((Entries.mem_keys_iff _ _).mp hkey)
      simp [hne.symm, hw]
    · obtain ⟨haltKey, halts⟩ := Model.ne_name hslot hslot' heq (.inr rfl)
      simp [haltKey, halts]

end Shape

end QueryComposer
