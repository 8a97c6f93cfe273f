import QueryComposer.Json.Names
import QueryComposer.Proofs.Entries

/-!
# Different keys have different names

Names are given in turn, and a name that is made up is none of those before it, nor any of the names
that are texts already. So an object has one entry for each of its keys, in their order, and the
keys that are texts are found under themselves: nothing that is looked up by a name of this library
is mistaken for a key with lone halves.

## Main results

* `nodup_keys_named`: different keys have different names.
* `named_ofString`: texts are their own names.
* `find?_named`: what is found under a name without replacement characters.
-/

namespace QueryComposer.Json

open Text

variable {α : Type} {taken : List String} {es : List (Wide × α)} {key : Wide} {name : String}

/-! ### Names that are made up -/

theorem length_le_longestName {names : List String} (h : name ∈ names) :
    name.length ≤ longestName names := by
  induction names with
  | nil => cases h
  | cons n names ih =>
    have hlongest : longestName (n :: names) = max n.length (longestName names) := rfl
    rw [hlongest]
    rcases List.mem_cons.mp h with rfl | h
    · exact Nat.le_max_left _ _
    · exact Nat.le_trans (ih h) (Nat.le_max_right _ _)

/-- A name that is made up is free. -/
theorem freeName_not_mem (taken : List String) (name : String) : freeName taken name ∉ taken := by
  rw [freeName]
  split
  · intro hmem
    have hle := length_le_longestName hmem
    rw [String.length_append, String.length_ofList, List.length_replicate] at hle
    omega
  · assumption

theorem replacement_mem_freeName (h : replacement ∈ name.toList) :
    replacement ∈ (freeName taken name).toList := by
  rw [freeName]
  split
  · rw [String.toList_append]
    exact List.mem_append_left _ h
  · exact h

theorem replacement_mem_shown (h : key.isWhole = false) : replacement ∈ key.shown.toList := by
  rw [Wide.shown, String.toList_ofList]
  obtain ⟨p, hp, hhalf⟩ := List.all_eq_false.mp h
  cases p with
  | char c => exact absurd rfl hhalf
  | half u => exact List.mem_map.mpr ⟨_, hp, rfl⟩

/-! ### Names in turn -/

/-- A name in the list is that of a text, or was free. -/
theorem mem_keys_nameEntries (h : name ∈ Entries.keys (nameEntries taken es)) :
    (∃ key ∈ Entries.keys es, key.isWhole = true ∧ key.shown = name) ∨ name ∉ taken := by
  induction es generalizing taken with
  | nil => cases h
  | cons e es ih =>
    obtain ⟨key, a⟩ := e
    rcases List.mem_cons.mp h with rfl | h
    · cases hkey : key.isWhole with
      | true => exact .inl ⟨key, List.mem_cons_self, hkey, by simp [nameOf, hkey]⟩
      | false =>
        refine .inr ?_
        simp only [nameOf, hkey, Bool.false_eq_true, if_false]
        exact freeName_not_mem taken key.shown
    · rcases ih h with ⟨key', hmem, hkey'⟩ | hfree
      · exact .inl ⟨key', List.mem_cons_of_mem _ hmem, hkey'⟩
      · exact .inr fun hmem => hfree (List.mem_cons_of_mem _ hmem)

theorem shown_injective {key key' : Wide} (h : key.isWhole = true) (h' : key'.isWhole = true)
    (heq : key.shown = key'.shown) : key = key' := by
  rw [← Wide.ofString_shown h, heq, Wide.ofString_shown h']

/-- **Names are given once**, where the names that are texts are taken from the start. -/
theorem nodup_keys_nameEntries (hkeys : (Entries.keys es).Nodup)
    (htaken : ∀ key ∈ Entries.keys es, key.isWhole = true → key.shown ∈ taken) :
    (Entries.keys (nameEntries taken es)).Nodup := by
  induction es generalizing taken with
  | nil => exact List.nodup_nil
  | cons e es ih =>
    obtain ⟨key, a⟩ := e
    obtain ⟨hnot, hrest⟩ := List.nodup_cons.mp hkeys
    obtain ⟨hfirst, htaken⟩ := List.forall_mem_cons.mp htaken
    refine List.nodup_cons.mpr ⟨fun hmem => ?_, ih hrest fun key' hkey' hwhole =>
      List.mem_cons_of_mem _ (htaken key' hkey' hwhole)⟩
    rcases mem_keys_nameEntries hmem with ⟨key', hkey', hwhole, hshown⟩ | hfree
    · have hname : key'.shown = nameOf taken key := hshown
      have hmem := htaken key' hkey' hwhole
      rw [hname, nameOf] at hmem
      rw [nameOf] at hname
      split at hname
      · next hkey => exact hnot (shown_injective hwhole hkey hname ▸ hkey')
      · next hkey =>
        rw [if_neg hkey] at hmem
        exact freeName_not_mem taken key.shown hmem
    · exact hfree List.mem_cons_self

/-- The entries keep their values. -/
theorem exists_mem_of_mem_nameEntries {e : String × α} (h : e ∈ nameEntries taken es) :
    ∃ key, (key, e.2) ∈ es := by
  induction es generalizing taken with
  | nil => cases h
  | cons e' es ih =>
    obtain ⟨key, a⟩ := e'
    rcases List.mem_cons.mp h with rfl | h
    · exact ⟨key, List.mem_cons_self⟩
    · obtain ⟨key', hkey'⟩ := ih h
      exact ⟨key', List.mem_cons_of_mem _ hkey'⟩

theorem nameEntries_ofString (taken : List String) (es : List (String × α)) :
    nameEntries taken (es.map fun e => (Wide.ofString e.1, e.2)) = es := by
  induction es generalizing taken with
  | nil => rfl
  | cons e es ih => simp [nameEntries, nameOf, ih]

/-- Without replacement characters a name is that of a text. -/
theorem find?_nameEntries (h : replacement ∉ name.toList) (taken : List String)
    (es : List (Wide × α)) :
    Entries.find? name (nameEntries taken es) = Entries.find? (Wide.ofString name) es := by
  induction es generalizing taken with
  | nil => rfl
  | cons e es ih =>
    obtain ⟨key, a⟩ := e
    have hname : nameOf taken key = name ↔ key = Wide.ofString name := by
      cases hkey : key.isWhole with
      | true =>
        simp only [nameOf, hkey, if_true]
        refine ⟨fun heq => ?_, fun heq => heq ▸ Wide.shown_ofString name⟩
        rw [← heq, Wide.ofString_shown hkey]
      | false =>
        simp only [nameOf, hkey, Bool.false_eq_true, if_false]
        refine iff_of_false ?_ ?_
        · rintro rfl
          exact h (replacement_mem_freeName (replacement_mem_shown hkey))
        · rintro rfl
          rw [Wide.isWhole_ofString] at hkey
          cases hkey
    rw [nameEntries, Entries.find?, Entries.find?, ih]
    simp only [hname]

/-! ### Objects -/

/-- **Different keys have different names.** -/
theorem nodup_keys_named (h : (Entries.keys es).Nodup) : (Entries.keys (named es)).Nodup := by
  refine nodup_keys_nameEntries h fun key hkey hwhole => ?_
  exact List.mem_map.mpr ⟨key, List.mem_filter.mpr ⟨hkey, hwhole⟩, rfl⟩

/-- **Texts are their own names.** -/
theorem named_ofString (es : List (String × α)) :
    named (es.map fun e => (Wide.ofString e.1, e.2)) = es :=
  nameEntries_ofString _ es

/-- **A name is looked up as the text that it is**, unless it could be made up. -/
theorem find?_named (h : replacement ∉ name.toList) (es : List (Wide × α)) :
    Entries.find? name (named es) = Entries.find? (Wide.ofString name) es :=
  find?_nameEntries h _ es

/-- Two keys of one lone half each, and the text that both would be shown as. -/
example : named [([.half 0xD800], 0), ([.half 0xD801], 1), ([.char replacement], 2)] =
    [("\uFFFD\uFFFD\uFFFD", 0), ("\uFFFD\uFFFD\uFFFD\uFFFD\uFFFD", 1), ("\uFFFD", 2)] := by
  decide

end QueryComposer.Json
