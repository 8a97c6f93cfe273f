import Mathlib.Algebra.GroupWithZero.Nat
import Mathlib.Data.List.Lex
import Mathlib.Data.String.Basic
import Mathlib.Order.Monotone.Defs
import QueryComposer.Text.Digits

/-!
# The order of written numbers

Numbers with the same number of digits are ordered as texts in the way they are as numbers, and so
are rows of such numbers, where the first difference decides. Digits are compared by their
characters, which stand in the order of their values: small letters after the ten digits.

## Main results

* `Text.digits_eq_leftpad`: the digits are the decimal notation, filled up with zeros.
* `Text.digits_lt_digits`: the order of numbers with one width.
* `Text.strictMonoOn_fields`: the order of rows with one layout.
-/

namespace QueryComposer.Text

/-! ### One number -/

theorem digit_lt_digit {m n : Nat} (h : m < n) (hn : n < 36) : digit m < digit n := by
  have hall : ∀ a b : Fin 36, a < b → digit a < digit b := by decide +kernel
  exact hall ⟨m, Nat.lt_trans h hn⟩ ⟨n, hn⟩ h

theorem digit_eq_digitChar {n : Nat} (hn : n < 10) : digit n = Nat.digitChar n := by
  have hall : ∀ a : Fin 10, digit a = Nat.digitChar a := by decide
  exact hall ⟨n, hn⟩

/-- Texts of one length that differ stay in their order, whatever is written behind them. -/
theorem append_lt_append {as bs : List Char} (hlength : as.length = bs.length) (h : as < bs)
    (cs ds : List Char) : as ++ cs < bs ++ ds := by
  induction as generalizing bs with
  | nil =>
    rw [List.eq_nil_of_length_eq_zero hlength.symm] at h
    exact absurd h (List.lt_irrefl [])
  | cons a as ih =>
    cases bs with
    | nil => cases hlength
    | cons b bs =>
      rw [List.cons_append, List.cons_append, List.cons_lt_cons_iff]
      rcases List.cons_lt_cons_iff.mp h with hlt | ⟨heq, hlt⟩
      · exact .inl hlt
      · exact .inr ⟨heq, ih (Nat.succ.inj hlength) hlt⟩

theorem digits_lt_digits {base width m n : Nat} (hbase : base ≤ 36) (h : m < n)
    (hn : n < base ^ width) : digits base width m < digits base width n := by
  induction width generalizing m n with
  | zero => exact absurd (Nat.lt_one_iff.mp hn ▸ h) (Nat.not_lt_zero m)
  | succ width ih =>
    have hpos : 0 < base := Nat.pos_of_ne_zero fun hzero => by simp [hzero] at hn
    have hlt : n / base < base ^ width := Nat.div_lt_of_lt_mul (by rwa [← Nat.pow_succ'])
    -- The digits in front decide, or they are the same and the last one decides.
    rcases Nat.lt_or_eq_of_le (Nat.div_le_div_right (c := base) h.le) with hfront | hfront
    · exact append_lt_append (by rw [length_digits, length_digits]) (ih hfront hlt) _ _
    · have hlast : m % base < n % base := by
        have hm := Nat.div_add_mod m base
        have hn := Nat.div_add_mod n base
        rw [hfront] at hm
        omega
      have hdigit := digit_lt_digit hlast (Nat.lt_of_lt_of_le (Nat.mod_lt _ hpos) hbase)
      rw [digits, digits, hfront]
      exact List.append_left_lt (List.cons_lt_cons_iff.mpr (.inl hdigit))

theorem digits_zero (width : Nat) : digits 10 width 0 = List.replicate width '0' := by
  induction width with
  | zero => rfl
  | succ width ih =>
    rw [digits, Nat.zero_div, ih, List.replicate_succ']
    rfl

/-- A number that fits is written in decimal notation, with zeros in front to fill its place. -/
theorem digits_eq_leftpad {width n : Nat} (hn : n < 10 ^ (width + 1)) :
    digits 10 (width + 1) n = (Nat.toDigits 10 n).leftpad (width + 1) '0' := by
  induction width generalizing n with
  | zero =>
    have hlt : n < 10 := hn
    rw [Nat.toDigits_of_lt_base hlt, digits, Nat.mod_eq_of_lt hlt, digit_eq_digitChar hlt]
    rfl
  | succ width ih =>
    have hmod : n % 10 < 10 := Nat.mod_lt _ (by decide)
    rw [digits, digit_eq_digitChar hmod]
    by_cases hlt : n < 10
    · rw [Nat.div_eq_of_lt hlt, digits_zero, Nat.mod_eq_of_lt hlt, Nat.toDigits_of_lt_base hlt]
      rfl
    · have hle : 10 ≤ n := Nat.not_lt.mp hlt
      have hdiv : n / 10 < 10 ^ (width + 1) := Nat.div_lt_of_lt_mul (by rwa [← Nat.pow_succ'])
      rw [ih hdiv, Nat.toDigits_of_base_le (by decide) hle, List.leftpad, List.leftpad,
        List.length_append, List.length_singleton, Nat.add_sub_add_right, List.append_assoc]

/-- The decimal notation of a number, filled up with zeros in front. -/
def padded (width n : Nat) : String := String.ofList ((Nat.toDigits 10 n).leftpad width '0')

/-! ### Numbers in a row -/

/-- Every number has as many digits as there is room for. -/
def Fits : List (Nat × Char) → List Nat → Prop :=
  List.Forall₂ fun field n => n < 10 ^ field.1

variable {layout : List (Nat × Char)} {ns : List Nat}

theorem Fits.length_fields (h : Fits layout ns) :
    (fields layout ns).length = (layout.map fun field => field.1 + 1).sum := by
  induction h with
  | nil => rfl
  | cons _ _ ih =>
    rw [fields, List.length_append, length_digits, List.length_cons, ih, List.map_cons,
      List.sum_cons]
    omega

theorem ofList_fields_cons {width n : Nat} (hn : n < 10 ^ (width + 1)) (mark : Char) :
    String.ofList (fields ((width + 1, mark) :: layout) (n :: ns)) =
      padded (width + 1) n ++ (String.singleton mark ++ String.ofList (fields layout ns)) := by
  rw [fields, digits_eq_leftpad hn, padded]
  apply String.toList_injective
  simp

/-- Rows of numbers are ordered as texts by the first number in which they differ. -/
theorem strictMonoOn_fields (layout : List (Nat × Char)) :
    StrictMonoOn (fields layout) {ns | Fits layout ns} := by
  intro ms hms ns hns h
  replace hms : Fits layout ms := hms
  induction hms generalizing ns with
  | nil =>
    cases hns
    exact absurd h (List.lt_irrefl [])
  | @cons field m layout ms hm hms ih =>
    cases hns with
    | cons hn hns =>
      rcases List.cons_lt_cons_iff.mp h with hlt | ⟨rfl, hlt⟩
      · exact append_lt_append (by rw [length_digits, length_digits])
          (digits_lt_digits (by decide) hlt hn) _ _
      · exact List.append_left_lt (List.cons_lt_cons_iff.mpr (.inr ⟨rfl, ih hns hlt⟩))

end QueryComposer.Text
