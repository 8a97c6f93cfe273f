import Mathlib.Data.List.TakeWhile
import QueryComposer.Json.Token

/-!
# How numbers are written

A number is written as digits without an idle zero in front, perhaps with a sign, a fraction and a
power of ten, or as one of three names. This module says so without a reader, and shows that the
reader of numbers takes these texts and no others.

## Main definitions

* `Number.Spells` relates a text to the number that it spells, with `Number.SpellsUnsigned`,
  `Number.SpellsFraction` and `Number.SpellsPower` for its parts.

## Main results

* `Number.read?_eq_some_iff`: the reader takes exactly what spells a number.
* `Number.overlong?_eq_some_iff`: which texts begin with an integer that has too many digits.
* `Number.Spells.isWord`: a number is written in one word.
-/

namespace QueryComposer.Json.Number

/-- One or more digits. -/
def IsDigits (cs : List Char) : Prop := cs ≠ [] ∧ ∀ c ∈ cs, c.isDigit = true

/-- Digits of which the first is a zero only if it stands alone. -/
def IsWhole (cs : List Char) : Prop := IsDigits cs ∧ ∀ d ds, cs ≠ '0' :: d :: ds

/-- A point and digits, or nothing. -/
inductive SpellsFraction : List Char → Option (List Char) → Prop where
  | none : SpellsFraction [] none
  | some {ds : List Char} : IsDigits ds → SpellsFraction ('.' :: ds) (some ds)

/-- A letter, perhaps a sign, and digits, or nothing. -/
inductive SpellsPower : List Char → Option Int → Prop where
  | none : SpellsPower [] none
  | plain {e : Char} {ds : List Char} : e = 'e' ∨ e = 'E' → IsDigits ds →
      SpellsPower (e :: ds) (some (Int.ofNat (ofDigits ds)))
  | plus {e : Char} {ds : List Char} : e = 'e' ∨ e = 'E' → IsDigits ds →
      SpellsPower (e :: '+' :: ds) (some (Int.ofNat (ofDigits ds)))
  | minus {e : Char} {ds : List Char} : e = 'e' ∨ e = 'E' → IsDigits ds →
      SpellsPower (e :: '-' :: ds) (some (-Int.ofNat (ofDigits ds)))

/-- What follows the sign. With neither a fraction nor a power it is an integer, which must not have
too many digits. -/
inductive SpellsUnsigned (negative : Bool) : List Char → Number → Prop where
  | integer {ds : List Char} : IsWhole ds → ds.length ≤ longest → SpellsUnsigned negative ds
      (.integer (if negative then -Int.ofNat (ofDigits ds) else Int.ofNat (ofDigits ds)))
  | decimal {ds fs ps : List Char} {f : Option (List Char)} {p : Option Int} : IsWhole ds →
      SpellsFraction fs f → SpellsPower ps p → f ≠ none ∨ p ≠ none →
      SpellsUnsigned negative (ds ++ (fs ++ ps))
        (.decimal negative (ofDigits (ds ++ f.getD [])) (p.getD 0 - (f.getD []).length))

/-- A number, with a sign if it is negative. The numbers that are not finite have names. -/
inductive Spells : List Char → Number → Prop where
  | notANumber : Spells "NaN".toList .notANumber
  | infinite : Spells "Infinity".toList (.infinite false)
  | negativeInfinite : Spells ('-' :: "Infinity".toList) (.infinite true)
  | plain {cs : List Char} {n : Number} : SpellsUnsigned false cs n → Spells cs n
  | negative {cs : List Char} {n : Number} : SpellsUnsigned true cs n → Spells ('-' :: cs) n

variable {cs ds fs ps r : List Char} {f : Option (List Char)} {p : Option Int} {n : Number}
  {negative : Bool}

/-! ### Digits -/

theorem IsDigits.exists_cons (h : IsDigits cs) : ∃ d ds, cs = d :: ds ∧ d.isDigit = true := by
  cases cs with
  | nil => exact absurd rfl h.1
  | cons d ds => exact ⟨d, ds, rfl, h.2 d List.mem_cons_self⟩

/-- A sign is no digit. -/
theorem ne_sign_of_isDigit {d : Char} (hd : d.isDigit = true) : d ≠ '+' ∧ d ≠ '-' := by
  constructor <;> rintro rfl <;> cases hd

/-- The digits end where no digit follows. -/
theorem digits?_append (hds : IsDigits ds) (hr : ∀ c ∈ r.head?, c.isDigit = false) :
    digits? (ds ++ r) = some (ds, r) := by
  have htake : r.takeWhile Char.isDigit = [] ∧ r.dropWhile Char.isDigit = r := by
    cases r with
    | nil => exact ⟨rfl, rfl⟩
    | cons c r =>
      have hc := hr c rfl
      simp [hc]
  obtain ⟨d, ds, rfl, -⟩ := hds.exists_cons
  rw [digits?, List.takeWhile_append_of_pos hds.2, List.dropWhile_append_of_pos hds.2, htake.1,
    htake.2, List.append_nil]

theorem of_digits? (h : digits? cs = some (ds, r)) :
    cs = ds ++ r ∧ IsDigits ds ∧ ∀ c ∈ r.head?, c.isDigit = false := by
  rw [digits?] at h
  split at h
  · cases h
  · next hne =>
    cases h
    refine ⟨List.takeWhile_append_dropWhile.symm, ⟨hne, fun c hc => ?_⟩, fun c hc => ?_⟩
    · exact List.mem_takeWhile_imp hc
    · have := List.head?_dropWhile_not Char.isDigit cs
      rw [hc] at this
      simpa using this

theorem whole_append (hds : IsWhole ds) (hr : ∀ c ∈ r.head?, c.isDigit = false) :
    whole (ds ++ r) = some (ds, r) := by
  rw [whole, digits?_append hds.1 hr]
  split
  · next heq =>
    cases heq
    exact absurd rfl (hds.2 _ _)
  · rfl

theorem of_whole (h : whole cs = some (ds, r)) :
    cs = ds ++ r ∧ IsWhole ds ∧ ∀ c ∈ r.head?, c.isDigit = false := by
  rw [whole] at h
  split at h
  · cases h
  · next hne =>
    obtain ⟨hcs, hds, hr⟩ := of_digits? h
    refine ⟨hcs, ⟨hds, ?_⟩, hr⟩
    rintro d ds rfl
    exact hne _ _ _ h

/-! ### Fractions and powers -/

theorem fraction_append (h : SpellsFraction fs f)
    (hr : ∀ c ∈ r.head?, c.isDigit = false ∧ c ≠ '.') : fraction (fs ++ r) = some (f, r) := by
  cases h with
  | none =>
    rw [List.nil_append, fraction]
    rintro r rfl
    exact (hr '.' rfl).2 rfl
  | some hds =>
    rw [List.cons_append, fraction, digits?_append hds fun c hc => (hr c hc).1]
    rfl

theorem of_fraction (h : fraction cs = some (f, r)) :
    ∃ fs, cs = fs ++ r ∧ SpellsFraction fs f := by
  rw [fraction.eq_def] at h
  split at h
  · obtain ⟨⟨ds, r'⟩, hds, heq⟩ := Option.map_eq_some_iff.mp h
    cases heq
    obtain ⟨rfl, hds, -⟩ := of_digits? hds
    exact ⟨'.' :: ds, rfl, .some hds⟩
  · cases h
    exact ⟨[], rfl, .none⟩

theorem digits?_all (h : IsDigits ds) : digits? ds = some (ds, []) := by
  have happend := digits?_append (r := []) h nofun
  rwa [List.append_nil] at happend

theorem power_of_spells (h : SpellsPower ps p) : power ps = some (p, []) := by
  cases h with
  | none => rfl
  | plain he hds =>
    obtain ⟨d, ds, rfl, hd⟩ := hds.exists_cons
    obtain ⟨hplus, hminus⟩ := ne_sign_of_isDigit hd
    rcases he with rfl | rfl <;> simp [power, digits?_all hds, hplus, hminus]
  | plus he hds => rcases he with rfl | rfl <;> simp [power, digits?_all hds]
  | minus he hds => rcases he with rfl | rfl <;> simp [power, digits?_all hds]

theorem of_power (h : power cs = some (p, r)) : ∃ ps, cs = ps ++ r ∧ SpellsPower ps p := by
  have hdigits : ∀ {r' : List Char} {g : List Char → Int},
      (digits? r').map (fun r => (some (g r.1), r.2)) = some (p, r) →
        ∃ ds, r' = ds ++ r ∧ IsDigits ds ∧ p = some (g ds) := by
    intro r' g hr
    obtain ⟨⟨ds, r''⟩, hds, heq⟩ := Option.map_eq_some_iff.mp hr
    cases heq
    obtain ⟨hcs, hds, -⟩ := of_digits? hds
    exact ⟨ds, hcs, hds, rfl⟩
  revert h
  fun_cases power cs with
  | case1 r' | case4 r' =>
    intro h
    obtain ⟨ds, rfl, hds, rfl⟩ := hdigits (g := fun ds => -Int.ofNat (ofDigits ds)) h
    exact ⟨_ :: '-' :: ds, rfl, .minus (by decide) hds⟩
  | case2 r' | case5 r' =>
    intro h
    obtain ⟨ds, rfl, hds, rfl⟩ := hdigits (g := fun ds => Int.ofNat (ofDigits ds)) h
    exact ⟨_ :: '+' :: ds, rfl, .plus (by decide) hds⟩
  | case3 r' | case6 r' =>
    intro h
    obtain ⟨ds, rfl, hds, rfl⟩ := hdigits (g := fun ds => Int.ofNat (ofDigits ds)) h
    exact ⟨_ :: ds, rfl, .plain (by decide) hds⟩
  | case7 =>
    intro h
    cases h
    exact ⟨[], rfl, .none⟩

/-- A power begins with a letter. -/
theorem SpellsPower.head (h : SpellsPower ps p) : ∀ c ∈ ps.head?, c.isDigit = false ∧ c ≠ '.' := by
  have hletter : ∀ {e : Char}, e = 'e' ∨ e = 'E' → e.isDigit = false ∧ e ≠ '.' := by
    rintro e (rfl | rfl) <;> decide
  cases h with
  | none => exact nofun
  | plain he _ | plus he _ | minus he _ =>
    intro c hc
    cases hc
    exact hletter he

/-- The digits in front end where the fraction or the power begins. -/
theorem head_append (hf : SpellsFraction fs f) (hp : SpellsPower ps p) :
    ∀ c ∈ (fs ++ ps).head?, c.isDigit = false := by
  cases hf with
  | none => exact fun c hc => (hp.head c hc).1
  | some _ =>
    intro c hc
    cases hc
    rfl

/-! ### Numbers -/

theorem spells_of_unsigned? (h : unsigned? negative cs = some n) :
    SpellsUnsigned negative cs n := by
  obtain ⟨⟨ds, r⟩, hwhole, hrest⟩ := Option.bind_eq_some_iff.mp h
  obtain ⟨⟨f, r'⟩, hfraction, hrest⟩ := Option.bind_eq_some_iff.mp hrest
  obtain ⟨⟨p, r''⟩, hpower, hnumber⟩ := Option.bind_eq_some_iff.mp hrest
  clear h hrest
  dsimp only at hwhole hfraction hpower hnumber
  split at hnumber
  · cases hnumber
  · next hr =>
    obtain rfl := Decidable.not_not.mp hr
    obtain ⟨rfl, hds, -⟩ := of_whole hwhole
    obtain ⟨fs, rfl, hf⟩ := of_fraction hfraction
    obtain ⟨ps, rfl, hp⟩ := of_power hpower
    rw [List.append_nil]
    cases f with
    | none =>
      cases p with
      | none =>
        obtain ⟨hlength, heq⟩ := Option.ite_none_right_eq_some.mp hnumber
        cases heq
        cases hf
        cases hp
        rw [List.append_nil, List.append_nil]
        exact .integer hds hlength
      | some p =>
        cases hnumber
        exact .decimal hds hf hp (.inr nofun)
    | some f =>
      cases hnumber
      exact .decimal hds hf hp (.inl nofun)

theorem SpellsUnsigned.unsigned? (h : SpellsUnsigned negative cs n) :
    unsigned? negative cs = some n := by
  cases h with
  | integer hds hlength =>
    have hwhole := whole_append (r := []) hds nofun
    rw [List.append_nil] at hwhole
    simp [Number.unsigned?, hwhole, fraction, power, hlength]
  | @decimal ds fs ps f p hds hf hp hne =>
    have hwhole := whole_append hds (head_append hf hp)
    have hfraction := fraction_append hf hp.head
    have hpower := power_of_spells hp
    simp only [Number.unsigned?, hwhole, hfraction, hpower, Option.bind_eq_bind, Option.bind_some]
    cases f with
    | some f => rfl
    | none =>
      cases p with
      | some p => rfl
      | none => exact hne.elim (absurd rfl) (absurd rfl)

/-- A number without a sign begins with a digit. -/
theorem SpellsUnsigned.exists_cons (h : SpellsUnsigned negative cs n) :
    ∃ d ds, cs = d :: ds ∧ d.isDigit = true := by
  cases h with
  | integer hds _ => exact hds.1.exists_cons
  | decimal hds _ _ _ =>
    obtain ⟨d, ds, rfl, hd⟩ := hds.1.exists_cons
    exact ⟨d, _, rfl, hd⟩

/-- **The reader takes what spells a number**, and nothing else. -/
theorem read?_eq_some_iff : read? cs = some n ↔ Spells cs n := by
  constructor
  · intro h
    rw [read?.eq_def] at h
    split at h
    · split at h
      · next hr =>
        cases h
        exact hr ▸ .negativeInfinite
      · exact .negative (spells_of_unsigned? h)
    · split at h
      · next hr =>
        cases h
        exact hr ▸ .notANumber
      split at h
      · next hr =>
        cases h
        exact hr ▸ .infinite
      · exact .plain (spells_of_unsigned? h)
  · intro h
    cases h with
    | notANumber | infinite | negativeInfinite => rfl
    | plain hcs =>
      obtain ⟨d, ds, rfl, hd⟩ := hcs.exists_cons
      rw [read?, if_neg, if_neg]
      · exact hcs.unsigned?
      · rintro heq
        cases heq
        cases hd
      · rintro heq
        cases heq
        cases hd
      · rintro r heq
        cases heq
        cases hd
    | negative hcs =>
      obtain ⟨d, ds, rfl, hd⟩ := hcs.exists_cons
      rw [read?, if_neg]
      · exact hcs.unsigned?
      · rintro heq
        cases heq
        cases hd

/-! ### Integers with too many digits -/

/-- An integer ends here: it goes on neither with a digit nor with a fraction or a power. -/
structure EndsInteger (r : List Char) : Prop where
  digit : ∀ c ∈ r.head?, c.isDigit = false
  fraction : ∀ fs ds r', r = fs ++ r' → ¬SpellsFraction fs (some ds)
  power : ∀ ps p r', r = ps ++ r' → ¬SpellsPower ps (some p)

/-- The number at the front of the text is an integer with too many digits, as long as it is. -/
inductive BeginsOverlong : List Char → Nat → Prop where
  | plain {ds r : List Char} : IsWhole ds → longest < ds.length → EndsInteger r →
      BeginsOverlong (ds ++ r) ds.length
  | negative {ds r : List Char} : IsWhole ds → longest < ds.length → EndsInteger r →
      BeginsOverlong ('-' :: (ds ++ r)) ds.length

theorem isSome_digits?_append (hds : IsDigits ds) (r : List Char) : (digits? (ds ++ r)).isSome := by
  obtain ⟨d, ds, rfl, hd⟩ := hds.exists_cons
  simp [digits?, hd]

theorem isSome_fraction_iff : ((fraction cs).bind Prod.fst).isSome = true ↔
    ∃ fs ds r, cs = fs ++ r ∧ SpellsFraction fs (some ds) := by
  constructor
  · intro h
    obtain ⟨ds, hds⟩ := Option.isSome_iff_exists.mp h
    obtain ⟨⟨f, r⟩, hfraction, rfl⟩ := Option.bind_eq_some_iff.mp hds
    obtain ⟨fs, rfl, hfs⟩ := of_fraction hfraction
    exact ⟨fs, ds, r, rfl, hfs⟩
  · rintro ⟨fs, ds, r, rfl, hfs⟩
    cases hfs with
    | some hds =>
      obtain ⟨r', hr'⟩ := Option.isSome_iff_exists.mp (isSome_digits?_append hds r)
      rw [List.cons_append, fraction, hr']
      rfl

theorem isSome_power_iff : ((power cs).bind Prod.fst).isSome = true ↔
    ∃ ps p r, cs = ps ++ r ∧ SpellsPower ps (some p) := by
  constructor
  · intro h
    obtain ⟨p, hp⟩ := Option.isSome_iff_exists.mp h
    obtain ⟨⟨p', r⟩, hpower, rfl⟩ := Option.bind_eq_some_iff.mp hp
    obtain ⟨ps, rfl, hps⟩ := of_power hpower
    exact ⟨ps, p, r, rfl, hps⟩
  · rintro ⟨ps, p, r, rfl, hps⟩
    have hdigits : ∀ {ds : List Char}, IsDigits ds → ∃ r', digits? (ds ++ r) = some r' :=
      fun hds => Option.isSome_iff_exists.mp (isSome_digits?_append hds r)
    cases hps with
    | @plain e ds he hds =>
      obtain ⟨r', hr'⟩ := hdigits hds
      obtain ⟨d, ds, rfl, hd⟩ := hds.exists_cons
      obtain ⟨hplus, hminus⟩ := ne_sign_of_isDigit hd
      rw [List.cons_append] at hr'
      rcases he with rfl | rfl <;> simp [power, hr', hplus, hminus]
    | plus he hds | minus he hds =>
      obtain ⟨r', hr'⟩ := hdigits hds
      rcases he with rfl | rfl <;> simp [power, hr']

theorem endsInteger_iff (hr : ∀ c ∈ r.head?, c.isDigit = false) :
    EndsInteger r ↔ goesOn r = false := by
  rw [goesOn, Bool.or_eq_false_iff, ← Bool.not_eq_true, ← Bool.not_eq_true, isSome_fraction_iff,
    isSome_power_iff]
  constructor
  · refine fun h => ⟨?_, ?_⟩
    · rintro ⟨fs, ds, r', hcs, hfs⟩
      exact h.fraction fs ds r' hcs hfs
    · rintro ⟨ps, p, r', hcs, hps⟩
      exact h.power ps p r' hcs hps
  · exact fun h => ⟨hr, fun fs ds r' hcs hfs => h.1 ⟨fs, ds, r', hcs, hfs⟩,
      fun ps p r' hcs hps => h.2 ⟨ps, p, r', hcs, hps⟩⟩

theorem overlongUnsigned?_eq_some_iff {n : Nat} : overlongUnsigned? cs = some n ↔
    ∃ ds r, cs = ds ++ r ∧ IsWhole ds ∧ longest < ds.length ∧ EndsInteger r ∧ n = ds.length := by
  constructor
  · intro h
    rw [overlongUnsigned?] at h
    split at h
    · next ds r hwhole =>
      obtain ⟨rfl, hds, hr⟩ := of_whole hwhole
      obtain ⟨hlong, heq⟩ := Option.ite_none_right_eq_some.mp h
      obtain ⟨hlength, hends⟩ := Bool.and_eq_true_iff.mp hlong
      rw [Bool.not_eq_true'] at hends
      exact ⟨ds, r, rfl, hds, of_decide_eq_true hlength, (endsInteger_iff hr).mpr hends,
        (Option.some.inj heq).symm⟩
    · cases h
  · rintro ⟨ds, r, rfl, hds, hlength, hends, rfl⟩
    have hgoesOn := (endsInteger_iff hends.digit).mp hends
    simp [overlongUnsigned?, whole_append hds hends.digit, hlength, hgoesOn]

/-- **The integers with too many digits** are found where they begin. -/
theorem overlong?_eq_some_iff {n : Nat} : overlong? cs = some n ↔ BeginsOverlong cs n := by
  constructor
  · intro h
    rw [overlong?.eq_def] at h
    split at h
    · obtain ⟨ds, r, rfl, hds, hlength, hends, rfl⟩ := overlongUnsigned?_eq_some_iff.mp h
      exact .negative hds hlength hends
    · obtain ⟨ds, r, rfl, hds, hlength, hends, rfl⟩ := overlongUnsigned?_eq_some_iff.mp h
      exact .plain hds hlength hends
  · intro h
    cases h with
    | @plain ds r hds hlength hends =>
      have hunsigned : overlongUnsigned? (ds ++ r) = some ds.length :=
        overlongUnsigned?_eq_some_iff.mpr ⟨ds, r, rfl, hds, hlength, hends, rfl⟩
      obtain ⟨d, ds, rfl, hd⟩ := hds.1.exists_cons
      rw [List.cons_append, overlong?]
      · exact hunsigned
      · rintro r' heq
        cases heq
        cases hd
    | @negative ds r hds hlength hends =>
      exact overlongUnsigned?_eq_some_iff.mpr ⟨ds, r, rfl, hds, hlength, hends, rfl⟩

/-- Where a number is spelled to its end, the digits at its front are an integer that is not too
long, or else they go on. -/
theorem SpellsUnsigned.not_overlong (h : SpellsUnsigned negative cs n) {r' : List Char}
    (hr' : ∀ c ∈ r'.head?, c.isDigit = false) (hcs : cs ++ r' = ds ++ r) (hds : IsWhole ds)
    (hlength : longest < ds.length) : ¬EndsInteger r := by
  intro hends
  have hwhole := whole_append hds hends.digit
  cases h with
  | @integer ds' hds' hlength' =>
    rw [← hcs, whole_append hds' hr'] at hwhole
    cases hwhole
    exact Nat.not_le.mpr hlength hlength'
  | @decimal ds' fs ps f p hds' hf hp hne =>
    have hhead : ∀ c ∈ (fs ++ (ps ++ r')).head?, c.isDigit = false := by
      cases hf with
      | some _ =>
        intro c hc
        cases hc
        rfl
      | none =>
        cases hp with
        | none => exact hne.elim (absurd rfl) (absurd rfl)
        | plain he _ | plus he _ | minus he _ =>
          intro c hc
          cases hc
          rcases he with rfl | rfl <;> rfl
    rw [← hcs, List.append_assoc, List.append_assoc, whole_append hds' hhead] at hwhole
    cases hwhole
    cases f with
    | some f => exact hends.fraction fs f _ rfl hf
    | none =>
      cases hf
      cases p with
      | some p => exact hends.power ps p r' rfl hp
      | none => exact hne.elim (absurd rfl) (absurd rfl)

/-- **A number that is spelled is not too long.** -/
theorem Spells.not_beginsOverlong (h : Spells cs n) {r' : List Char}
    (hr' : ∀ c ∈ r'.head?, c.isDigit = false) (k : Nat) : ¬BeginsOverlong (cs ++ r') k := by
  cases h with
  | notANumber | infinite | negativeInfinite =>
    rw [← overlong?_eq_some_iff]
    exact nofun
  | plain hcs =>
    obtain ⟨d', cs', hcons, hd'⟩ := hcs.exists_cons
    generalize htext : cs ++ r' = text
    rintro (⟨hds, hlength, hends⟩ | ⟨-, -, -⟩)
    · exact hcs.not_overlong hr' htext hds hlength hends
    · rw [hcons] at htext
      obtain ⟨rfl, -⟩ := List.cons.inj htext
      cases hd'
  | @negative cs _ hcs =>
    generalize htext : '-' :: cs ++ r' = text
    rintro (⟨hds, -, -⟩ | ⟨hds, hlength, hends⟩)
    · obtain ⟨d, ds', rfl, hd⟩ := hds.1.exists_cons
      obtain ⟨rfl, -⟩ := List.cons.inj htext
      cases hd
    · exact hcs.not_overlong hr' (List.tail_eq_of_cons_eq htext) hds hlength hends

/-! ### Words -/

theorem IsDigits.isWord (h : IsDigits cs) : ∀ c ∈ cs, Token.isWordChar c = true := by
  intro c hc
  simp [Token.isWordChar, Char.isAlphanum, h.2 c hc]

theorem SpellsUnsigned.isWord (h : SpellsUnsigned negative cs n) :
    ∀ c ∈ cs, Token.isWordChar c = true := by
  have hletter : ∀ {e : Char}, e = 'e' ∨ e = 'E' → Token.isWordChar e = true := by
    rintro e (rfl | rfl) <;> decide
  cases h with
  | integer hds _ => exact hds.1.isWord
  | decimal hds hf hp _ =>
    rw [List.forall_mem_append, List.forall_mem_append]
    refine ⟨hds.1.isWord, ?_, ?_⟩
    · cases hf with
      | none => exact nofun
      | some hfs => exact List.forall_mem_cons.mpr ⟨by decide, hfs.isWord⟩
    · cases hp with
      | none => exact nofun
      | plain he hps => exact List.forall_mem_cons.mpr ⟨hletter he, hps.isWord⟩
      | plus he hps | minus he hps =>
        rw [List.forall_mem_cons, List.forall_mem_cons]
        exact ⟨hletter he, by decide, hps.isWord⟩

/-- **A number is one word.** -/
theorem Spells.isWord (h : Spells cs n) : cs ≠ [] ∧ ∀ c ∈ cs, Token.isWordChar c = true := by
  cases h with
  | notANumber | infinite | negativeInfinite => exact ⟨by decide, List.all_eq_true.mp rfl⟩
  | plain hcs =>
    refine ⟨?_, hcs.isWord⟩
    obtain ⟨d, ds, rfl, -⟩ := hcs.exists_cons
    exact nofun
  | negative hcs => exact ⟨nofun, List.forall_mem_cons.mpr ⟨by decide, hcs.isWord⟩⟩

end QueryComposer.Json.Number
