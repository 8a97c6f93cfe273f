import Mathlib.Algebra.Group.Nat.Defs
import Mathlib.Data.List.Nodup
import QueryComposer.Supply

/-!
# Supplies that repeat no identifier

What is drawn from a supply between two points is the stretch of its sequence that lies between
them. Where the sequence repeats nothing, no identifier is drawn twice, and none that will be drawn
was drawn before.

## Main definitions

* `Supply.issued` lists what was drawn from a supply.
* `Supply.IsProper` says that no identifier is empty and none is repeated.

## Main results

* `Supply.IsProper.nodup_issued`: what is drawn is drawn once.
* `numbered_injective`: the numbers in base thirty-six are such a sequence.
-/

namespace QueryComposer

namespace Supply

variable {s s' : Supply} {x : String}

/-- The identifiers drawn on the way from one supply to another. -/
def issued (s s' : Supply) : List String :=
  (List.range' s.drawn (s'.drawn - s.drawn)).map s.source

theorem mem_issued_iff :
    x ∈ s.issued s' ↔ ∃ n, s.drawn ≤ n ∧ n < s'.drawn ∧ s.source n = x := by
  simp only [issued, List.mem_map, List.mem_range'_1]
  constructor
  · rintro ⟨n, ⟨hle, hlt⟩, rfl⟩
    exact ⟨n, hle, by omega, rfl⟩
  · rintro ⟨n, hle, hlt, rfl⟩
    exact ⟨n, ⟨hle, by omega⟩, rfl⟩

theorem issued_add (source : Nat → String) (drawn count : Nat) :
    issued ⟨source, drawn⟩ ⟨source, drawn + count⟩ = (List.range' drawn count).map source := by
  rw [issued, Nat.add_sub_cancel_left]

/-- What is drawn in two stages is drawn first and then. -/
theorem issued_append {s'' : Supply} (hsource : s'.source = s.source) (hle : s.drawn ≤ s'.drawn)
    (hle' : s'.drawn ≤ s''.drawn) : s.issued s' ++ s'.issued s'' = s.issued s'' := by
  have hmiddle : s'.drawn = s.drawn + (s'.drawn - s.drawn) := by omega
  have htotal : s''.drawn - s.drawn = s'.drawn - s.drawn + (s''.drawn - s'.drawn) := by omega
  rw [issued, issued, issued, hsource, ← List.map_append, htotal, ← List.range'_append_1,
    ← hmiddle]

/-- Nothing is repeated in the supply, and nothing in it is empty: an empty identifier could not
link a condition to a subquery. -/
structure IsProper (s : Supply) : Prop where
  injective : Function.Injective s.source
  ne_empty : ∀ n, s.source n ≠ ""

theorem IsProper.nodup_issued (hs : s.IsProper) (s' : Supply) : (s.issued s').Nodup :=
  (List.nodup_range' 1).map hs.injective

/-- What is drawn next was not drawn before. -/
theorem IsProper.ne_of_mem_issued (hs : s.IsProper) (hx : x ∈ s.issued s') {n : Nat}
    (hn : n < s.drawn) : s.source n ≠ x := by
  obtain ⟨m, hle, -, rfl⟩ := mem_issued_iff.mp hx
  intro heq
  have hnm : n = m := hs.injective heq
  omega

end Supply

/-! ### Numbers as identifiers -/

namespace Text

theorem digit_inj {m n : Nat} (hm : m < 36) (hn : n < 36) (h : digit m = digit n) : m = n := by
  have hall : ∀ a b : Fin 36, digit a = digit b → a = b := by decide +kernel
  exact Fin.mk.inj (hall ⟨m, hm⟩ ⟨n, hn⟩ h)

/-- Two numbers with the same last digits agree as far as these digits go. -/
theorem mod_eq_of_digits_eq {base width m n : Nat} (hpos : 0 < base) (hbase : base ≤ 36)
    (h : digits base width m = digits base width n) : m % base ^ width = n % base ^ width := by
  induction width generalizing m n with
  | zero => rw [Nat.pow_zero, Nat.mod_one, Nat.mod_one]
  | succ width ih =>
    obtain ⟨hinit, hlast⟩ := List.append_inj' h rfl
    have hdigit : m % base = n % base :=
      digit_inj (Nat.lt_of_lt_of_le (Nat.mod_lt _ hpos) hbase)
        (Nat.lt_of_lt_of_le (Nat.mod_lt _ hpos) hbase) (List.singleton_inj.mp hlast)
    rw [Nat.pow_succ', Nat.mod_mul, Nat.mod_mul, hdigit, ih hinit]

end Text

/-- The width of an identifier is enough for its number. -/
theorem lt_pow_width (n : Nat) : n < 36 ^ max 7 (Nat.log2 n / 5 + 1) := by
  have hwidth : Nat.log2 n + 1 ≤ 5 * max 7 (Nat.log2 n / 5 + 1) := by omega
  calc n < 2 ^ (Nat.log2 n + 1) := Nat.lt_log2_self
    _ ≤ 2 ^ (5 * max 7 (Nat.log2 n / 5 + 1)) := Nat.pow_le_pow_right (by decide) hwidth
    _ = 32 ^ max 7 (Nat.log2 n / 5 + 1) := Nat.pow_mul 2 5 _
    _ ≤ 36 ^ max 7 (Nat.log2 n / 5 + 1) := Nat.pow_le_pow_left (by decide) _

theorem numbered_injective : Function.Injective numbered := by
  intro m n h
  have hdigits := String.ofList_injective h
  have hwidth := congrArg List.length hdigits
  rw [Text.length_digits, Text.length_digits] at hwidth
  rw [hwidth] at hdigits
  have hmod := Text.mod_eq_of_digits_eq (by decide) (by decide) hdigits
  rwa [Nat.mod_eq_of_lt (lt_pow_width n), ← hwidth, Nat.mod_eq_of_lt (lt_pow_width m)] at hmod

theorem numbered_ne_empty (n : Nat) : numbered n ≠ "" := by
  intro h
  have hlength := congrArg String.length h
  rw [numbered, String.length_ofList, Text.length_digits] at hlength
  have hwidth : 7 ≤ max 7 (Nat.log2 n / 5 + 1) := Nat.le_max_left _ _
  rw [hlength] at hwidth
  cases hwidth

theorem Supply.isProper_numbered : (ofSource numbered).IsProper :=
  ⟨numbered_injective, numbered_ne_empty⟩

end QueryComposer
