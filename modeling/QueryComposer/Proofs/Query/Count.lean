import Mathlib.Algebra.BigOperators.Group.List.Basic
import Mathlib.Algebra.GroupWithZero.Nat
import QueryComposer.Proofs.Entries
import QueryComposer.Query.Basic

/-!
# Counting subqueries

A query is counted once for each entry that it stands in, whether or not a condition leads to it.
What is counted along the conditions meets this number only through look-ups, so the second half of
this module compares a sum over look-ups with the sum over all entries. The comparison needs that
no key is looked up twice, and becomes an equality where every key is looked up once and none is
repeated in the entries.

## Main results

* `Query.countAll_put_of_find?`, `Query.countAll_put_of_not_mem`, `Query.countAll_erase`: how the
  number changes with the entries.
* `Entries.sum_weightUnder_le`, `Entries.sum_weightUnder_eq`: sums over look-ups.
-/

namespace QueryComposer

namespace Query

variable {key : String} {old child : Query} {es : List (String × Query)}

theorem count_eq_countAll (q : Query) : q.count = countAll q.subqueries := by
  cases q
  rfl

theorem countAll_eq_sum (es : List (String × Query)) :
    countAll es = (es.map fun e => 1 + e.2.count).sum := by
  induction es with
  | nil => rfl
  | cons e es ih => rw [countAll, ih, List.map_cons, List.sum_cons]

theorem countAll_append (es ds : List (String × Query)) :
    countAll (es ++ ds) = countAll es + countAll ds := by
  rw [countAll_eq_sum, countAll_eq_sum, countAll_eq_sum, List.map_append, List.sum_append]

/-- A subquery and the one in its place change places. -/
theorem countAll_put_of_find? (h : Entries.find? key es = some old) (child : Query) :
    countAll (Entries.put key child es) + old.count = countAll es + child.count := by
  obtain ⟨before, after, rfl, hput⟩ := Entries.exists_put_eq h
  rw [hput, countAll_append, countAll_append, countAll, countAll]
  omega

theorem countAll_put_of_not_mem (h : key ∉ Entries.keys es) (child : Query) :
    countAll (Entries.put key child es) = countAll es + 1 + child.count := by
  rw [Entries.put_of_not_mem h, countAll_append, countAll, countAll]
  omega

/-- The subquery under a key that is not repeated goes with all that is below it. -/
theorem countAll_erase (hkeys : (Entries.keys es).Nodup) :
    countAll (Entries.erase key es) +
      ((Entries.find? key es).map fun child => 1 + child.count).getD 0 = countAll es := by
  induction es with
  | nil => rfl
  | cons e es ih =>
    obtain ⟨k, child⟩ := e
    obtain ⟨hk, hes⟩ := List.nodup_cons.mp hkeys
    have htail := ih hes
    by_cases hkey : k = key
    · subst hkey
      rw [Entries.find?_eq_none_iff.mpr hk] at htail
      rw [Entries.erase, List.filter_cons_of_neg (by simp), ← Entries.erase, Entries.find?,
        if_pos rfl, countAll, ← htail]
      simp only [Option.map_some, Option.map_none, Option.getD_some, Option.getD_none]
      omega
    · rw [Entries.erase, List.filter_cons_of_pos (by simpa using hkey), ← Entries.erase,
        Entries.find?, if_neg hkey, countAll, countAll, ← htail]
      omega

end Query

/-! ### Sums over look-ups -/

namespace Entries

variable {α : Type} {es : Entries α} {ks : List String}

/-- What the value under a key weighs, nothing if there is none. -/
def weightUnder (weight : α → Nat) (es : Entries α) (key : String) : Nat :=
  ((find? key es).map weight).getD 0

theorem weightUnder_cons (weight : α → Nat) (k : String) (a : α) (es : Entries α)
    (key : String) : weightUnder weight ((k, a) :: es) key =
      if k = key then weight a else weightUnder weight es key := by
  rw [weightUnder, find?]
  split
  · rfl
  · rfl

theorem sum_weightUnder_nil (weight : α → Nat) (ks : List String) :
    (ks.map (weightUnder weight [])).sum = 0 :=
  List.sum_eq_zero (by simp [weightUnder, find?])

/-- The look-ups of the first key are told apart from the others. -/
theorem sum_weightUnder_cons (weight : α → Nat) (k : String) (a : α) (es : Entries α)
    (ks : List String) : (ks.map (weightUnder weight ((k, a) :: es))).sum =
      ks.count k * weight a + ((ks.filter (· ≠ k)).map (weightUnder weight es)).sum := by
  induction ks with
  | nil => simp
  | cons key ks ih =>
    rw [List.map_cons, List.sum_cons, ih, weightUnder_cons]
    by_cases hkey : k = key
    · subst hkey
      rw [if_pos rfl, List.count_cons_self, List.filter_cons_of_neg (by simp), Nat.succ_mul]
      omega
    · rw [if_neg hkey, List.count_cons_of_ne (Ne.symm hkey),
        List.filter_cons_of_pos (by simpa using Ne.symm hkey), List.map_cons, List.sum_cons]
      omega

/-- **What is looked up once at most weighs no more than all there is.** -/
theorem sum_weightUnder_le (weight : α → Nat) (h : ∀ key ∈ keys es, ks.count key ≤ 1) :
    (ks.map (weightUnder weight es)).sum ≤ (es.map fun e => weight e.2).sum := by
  induction es generalizing ks with
  | nil => exact Nat.le_of_eq (sum_weightUnder_nil weight ks)
  | cons e es ih =>
    obtain ⟨k, a⟩ := e
    obtain ⟨hk, hes⟩ := List.forall_mem_cons.mp h
    have hrest := ih fun key hkey =>
      Nat.le_trans (List.filter_sublist (p := (· ≠ k)).count_le key) (hes key hkey)
    have hfirst := Nat.mul_le_mul_right (weight a) hk
    rw [sum_weightUnder_cons, List.map_cons, List.sum_cons]
    dsimp only at hfirst ⊢
    omega

/-- **What is looked up once each weighs as much as all there is.** -/
theorem sum_weightUnder_eq (weight : α → Nat) (hkeys : (keys es).Nodup)
    (h : ∀ key ∈ keys es, ks.count key = 1) :
    (ks.map (weightUnder weight es)).sum = (es.map fun e => weight e.2).sum := by
  induction es generalizing ks with
  | nil => exact sum_weightUnder_nil weight ks
  | cons e es ih =>
    obtain ⟨k, a⟩ := e
    obtain ⟨hk, hes⟩ := List.forall_mem_cons.mp h
    obtain ⟨hnew, hkeys⟩ := List.nodup_cons.mp hkeys
    have hfiltered : ∀ key ∈ keys es, (ks.filter (· ≠ k)).count key = 1 := by
      intro key hkey
      have hne : key ≠ k := fun heq => hnew (heq ▸ hkey)
      rw [List.count_filter (by simpa using hne), hes key hkey]
    have hrest := ih hkeys hfiltered
    rw [sum_weightUnder_cons, hk, hrest, Nat.one_mul, List.map_cons, List.sum_cons]

end Entries

end QueryComposer
