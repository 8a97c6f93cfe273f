import QueryComposer.Entries

/-!
# Entries without repeated keys

The operations on entries keep it that way that each key stands once. This is what makes a list of
entries a map: an entry is in the list exactly if a look-up under its key finds it.

## Main results

* `Entries.nodup_keys_put`, `Entries.nodup_keys_erase`: no operation repeats a key.
* `Entries.find?_eq_some_iff`: what a look-up finds, where no key is repeated.
* `Entries.exists_put_eq`: a key that is put again keeps its place and its neighbours.
* `Entries.put_put`, `Entries.put_comm`: two puts one after the other.
-/

namespace QueryComposer.Entries

variable {κ α : Type} [DecidableEq κ] {key : κ} {a : α} {es : List (κ × α)}

theorem mem_of_find? (h : find? key es = some a) : (key, a) ∈ es := by
  induction es with
  | nil => cases h
  | cons e es ih =>
    obtain ⟨k, b⟩ := e
    rw [find?] at h
    split at h
    · next hk =>
      cases h
      exact hk ▸ List.mem_cons_self
    · exact List.mem_cons_of_mem _ (ih h)

theorem find?_eq_some_iff (h : (keys es).Nodup) : find? key es = some a ↔ (key, a) ∈ es := by
  refine ⟨mem_of_find?, ?_⟩
  intro hmem
  induction es with
  | nil => cases hmem
  | cons e es ih =>
    obtain ⟨k, b⟩ := e
    obtain ⟨hk, hes⟩ := List.nodup_cons.mp h
    rw [find?]
    rcases List.mem_cons.mp hmem with heq | hmem
    · cases heq
      rw [if_pos rfl]
    · have hne : k ≠ key := by
        rintro rfl
        exact hk (List.mem_map.mpr ⟨_, hmem, rfl⟩)
      rw [if_neg hne]
      exact ih hes hmem

theorem find?_eq_none_iff : find? key es = none ↔ key ∉ keys es := by
  rw [mem_keys_iff, Bool.not_eq_true, Option.isSome_eq_false_iff, Option.isNone_iff_eq_none]

theorem mem_keys_of_find? (h : find? key es = some a) : key ∈ keys es :=
  List.mem_map_of_mem (mem_of_find? h)

theorem find?_map {β : Type} (key : κ) (f : α → β) (es : List (κ × α)) :
    find? key (es.map fun e => (e.1, f e.2)) = (find? key es).map f := by
  induction es with
  | nil => rfl
  | cons e es ih =>
    rw [List.map_cons, find?, find?, ih]
    split <;> rfl

/-! ### Putting -/

/-- A new key goes to the end. -/
theorem put_of_not_mem (h : key ∉ keys es) : put key a es = es ++ [(key, a)] := by
  induction es with
  | nil => rfl
  | cons e es ih =>
    obtain ⟨k, b⟩ := e
    obtain ⟨hk, hes⟩ : key ≠ k ∧ key ∉ keys es := by
      simpa only [keys, List.map_cons, List.mem_cons, not_or] using h
    rw [put, if_neg (Ne.symm hk), ih hes, List.cons_append]

/-- A key that is there keeps its place. -/
theorem keys_put_of_mem (h : key ∈ keys es) : keys (put key a es) = keys es := by
  induction es with
  | nil => cases h
  | cons e es ih =>
    obtain ⟨k, b⟩ := e
    rw [put]
    split
    · next hk => rw [keys, keys, List.map_cons, List.map_cons, hk]
    · next hk =>
      have hes : key ∈ keys es := (List.mem_cons.mp h).resolve_left (Ne.symm hk)
      have htail := ih hes
      simp only [keys, List.map_cons] at htail ⊢
      rw [htail]

/-- Only the value under the key changes. -/
theorem exists_put_eq (h : find? key es = some a) :
    ∃ before after, es = before ++ (key, a) :: after ∧
      ∀ b, put key b es = before ++ (key, b) :: after := by
  induction es with
  | nil => cases h
  | cons e es ih =>
    obtain ⟨k, c⟩ := e
    rw [find?] at h
    split at h
    · next hk =>
      cases h
      subst hk
      exact ⟨[], es, rfl, fun b => by rw [put, if_pos rfl, List.nil_append]⟩
    · next hk =>
      obtain ⟨before, after, rfl, hput⟩ := ih h
      exact ⟨(k, c) :: before, after, rfl, fun b => by rw [put, if_neg hk, hput, List.cons_append]⟩

/-- What is put last under a key is what stays. -/
theorem put_put (key : κ) (a b : α) (es : List (κ × α)) :
    put key b (put key a es) = put key b es := by
  induction es with
  | nil => simp only [put, if_pos]
  | cons e es ih =>
    obtain ⟨k, c⟩ := e
    by_cases hk : k = key
    · rw [put, if_pos hk, put, if_pos rfl, put, if_pos hk]
    · rw [put, if_neg hk, put, if_neg hk, put, if_neg hk, ih]

/-- Keys that are there keep their places, in whatever order their values come. -/
theorem put_comm {other : κ} {b : α} (hne : key ≠ other) (hkey : key ∈ keys es)
    (hother : other ∈ keys es) : put key a (put other b es) = put other b (put key a es) := by
  induction es with
  | nil => cases hkey
  | cons e es ih =>
    obtain ⟨k, c⟩ := e
    by_cases hk : k = key
    · subst hk
      rw [put, if_neg hne, put, if_pos rfl, put, if_pos rfl, put, if_neg hne]
    · by_cases ho : k = other
      · subst ho
        rw [put, if_pos rfl, put, if_neg hk, put, if_neg hk, put, if_pos rfl]
      · have hkey' : key ∈ keys es := (List.mem_cons.mp hkey).resolve_left (Ne.symm hk)
        have hother' : other ∈ keys es := (List.mem_cons.mp hother).resolve_left (Ne.symm ho)
        rw [put, if_neg ho, put, if_neg hk, put, if_neg hk, put, if_neg ho, ih hkey' hother']

theorem mem_keys_put_iff {k : κ} : k ∈ keys (put key a es) ↔ k = key ∨ k ∈ keys es := by
  by_cases hkey : key ∈ keys es
  · rw [keys_put_of_mem hkey, iff_or_self]
    rintro rfl
    exact hkey
  · rw [put_of_not_mem hkey, keys, List.map_append, List.mem_append, List.map_singleton,
      List.mem_singleton, or_comm, keys]

theorem nodup_keys_put (h : (keys es).Nodup) : (keys (put key a es)).Nodup := by
  by_cases hk : key ∈ keys es
  · rw [keys_put_of_mem hk]
    exact h
  · rw [put_of_not_mem hk, keys, List.map_append, List.map_singleton, List.nodup_append]
    refine ⟨h, by simp, ?_⟩
    rintro k hmem _ hlast rfl
    cases List.mem_singleton.mp hlast
    exact hk hmem

theorem mem_put {e : κ × α} (h : e ∈ put key a es) : e = (key, a) ∨ e ∈ es := by
  induction es with
  | nil => exact .inl (List.mem_singleton.mp h)
  | cons e' es ih =>
    obtain ⟨k, b⟩ := e'
    rw [put] at h
    split at h
    · exact (List.mem_cons.mp h).imp_right (List.mem_cons_of_mem _)
    · rcases List.mem_cons.mp h with rfl | h
      · exact .inr List.mem_cons_self
      · exact (ih h).imp_right (List.mem_cons_of_mem _)

/-! ### Erasing -/

theorem keys_erase (key : κ) (es : List (κ × α)) :
    keys (erase key es) = (keys es).filter (· ≠ key) := by
  rw [keys, keys, erase, List.filter_map]
  rfl

theorem nodup_keys_erase (h : (keys es).Nodup) : (keys (erase key es)).Nodup := by
  rw [keys_erase]
  exact h.filter _

end QueryComposer.Entries
