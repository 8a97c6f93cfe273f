import QueryComposer.Document.Basic
import QueryComposer.Proofs.Calendar.Date
import QueryComposer.Proofs.Text.Digits

/-!
# The stamps of documents

A clock with an offset and the clock of universal time show one moment differently, and the stamp is
what the latter shows. It shows every moment of the years 1 to 9999 in exactly one way
(`LocalTime.universal_instant`, `LocalTime.instant_universal`), so there is a stamp for just these
moments, and it depends on the moment only.

Stamps are ordered as texts in the way the moments are to the millisecond. This goes in two steps: a
stamp is a row of numbers of fixed widths, ordered as the row is (`Text.strictMonoOn_fields`), and
the first number in which two rows differ decides which moment is the earlier one, as each number is
worth more than all that stands behind it.

## Main definitions

* `LocalTime.IsUniversal` says what the clock of universal time can show.

## Main results

* `LocalTime.text_lt_iff`: the order of stamps.
* `Document.ofQueryAt?_faithful`: the stamps of documents.
-/

namespace QueryComposer

namespace Calendar

theorem Date.dayNumber_lt_dayLimit_iff {d : Date} (h : d.IsValid) :
    d.dayNumber < dayLimit ↔ d.year ≤ 9999 :=
  (Date.dayNumber_lt_daysBeforeYear_iff h).trans Nat.lt_succ_iff

namespace LocalTime

variable {t u v : LocalTime} {n : Nat}

/-- A reading of the clock of universal time in the years 1 to 9999. -/
structure IsUniversal (u : LocalTime) : Prop where
  date : u.date.IsValid
  year_le : u.date.year ≤ 9999
  hour_lt : u.hour < 24
  minute_lt : u.minute < 60
  second_lt : u.second < 60
  microsecond_lt : u.microsecond < 1000000
  offset : u.offset = ⟨0⟩

/-! ### Readings and moments -/

theorem IsUniversal.instant_eq (hu : u.IsUniversal) :
    u.instant = ((1000000 * u.seconds + u.microsecond : Nat) : Int) := by
  rw [instant, hu.offset]
  exact Int.sub_zero _

theorem IsUniversal.instant_lt (hu : u.IsUniversal) :
    u.instant < Int.ofNat (microsecondsPerSecond * (secondsPerDay * dayLimit)) := by
  have hday := (Date.dayNumber_lt_dayLimit_iff hu.date).mpr hu.year_le
  obtain ⟨-, -, hhour, hminute, hsecond, hmicrosecond, -⟩ := id hu
  rw [hu.instant_eq, seconds]
  refine Int.ofNat_lt.mpr ?_
  generalize dayLimit = limit at *
  rw [microsecondsPerSecond, secondsPerDay]
  omega

/-- A reading is found again from its moment. -/
theorem universal_instant (hu : u.IsUniversal) : universal u.instant.toNat = u := by
  obtain ⟨hdate, -, hhour, hminute, hsecond, hmicrosecond, hoffset⟩ := id hu
  have hseconds : (1000000 * u.seconds + u.microsecond) / 1000000 = u.seconds := by omega
  have hlast : (1000000 * u.seconds + u.microsecond) % 1000000 = u.microsecond := by omega
  have hday : u.seconds / 86400 = u.date.dayNumber := by
    rw [seconds, secondsPerDay]
    omega
  have hrest : u.seconds % 86400 = 3600 * u.hour + 60 * u.minute + u.second := by
    rw [seconds, secondsPerDay]
    omega
  rw [hu.instant_eq]
  change universal (1000000 * u.seconds + u.microsecond) = u
  have hhours : (3600 * u.hour + 60 * u.minute + u.second) / 3600 = u.hour := by omega
  have hminutes : (3600 * u.hour + 60 * u.minute + u.second) / 60 % 60 = u.minute := by omega
  have hlastMinute : (3600 * u.hour + 60 * u.minute + u.second) % 60 = u.second := by omega
  rw [universal, microsecondsPerSecond, secondsPerDay, hseconds, hlast, hday, hrest, hhours,
    hminutes, hlastMinute, Date.ofDayNumber_dayNumber hdate, ← hoffset]

theorem instant_universal (n : Nat) : (universal n).instant = n := by
  have hday := (Date.ofDayNumber_spec (n / 1000000 / 86400)).2
  rw [instant, universal, seconds, microsecondsPerSecond, secondsPerDay]
  dsimp only
  rw [hday, Int.sub_zero]
  refine congrArg Int.ofNat ?_
  omega

theorem isUniversal_universal (hn : n < microsecondsPerSecond * (secondsPerDay * dayLimit)) :
    (universal n).IsUniversal := by
  obtain ⟨hdate, hday⟩ := Date.ofDayNumber_spec (n / 1000000 / 86400)
  have hlimit : n / 1000000 / 86400 < dayLimit := by
    rw [microsecondsPerSecond, secondsPerDay] at hn
    generalize dayLimit = limit at *
    omega
  rw [← hday, Date.dayNumber_lt_dayLimit_iff hdate] at hlimit
  have hrest : n / 1000000 % 86400 < 86400 := Nat.mod_lt _ (by decide)
  rw [universal, microsecondsPerSecond, secondsPerDay]
  refine ⟨hdate, hlimit, ?_, ?_, ?_, Nat.mod_lt _ (by decide), rfl⟩
  all_goals
    dsimp only
    omega

/-- The clock of universal time shows the moments that have a stamp. -/
theorem exists_isUniversal_iff {i : Int} : (∃ u : LocalTime, u.IsUniversal ∧ u.instant = i) ↔
    0 ≤ i ∧ i < Int.ofNat (microsecondsPerSecond * (secondsPerDay * dayLimit)) := by
  constructor
  · rintro ⟨u, hu, rfl⟩
    exact ⟨hu.instant_eq ▸ Int.natCast_nonneg _, hu.instant_lt⟩
  · rintro ⟨hpos, hlt⟩
    obtain ⟨n, rfl⟩ := Int.eq_ofNat_of_zero_le hpos
    exact ⟨universal n, isUniversal_universal (Int.ofNat_lt.mp hlt), instant_universal n⟩

theorem stamp?_of_isUniversal (hu : u.IsUniversal) (h : u.instant = t.instant) :
    t.stamp? = some u.text := by
  rw [stamp?, if_pos (exists_isUniversal_iff.mp ⟨u, hu, h⟩), ← h, universal_instant hu]

theorem stamp?_eq_none_iff :
    t.stamp? = none ↔ ¬∃ u : LocalTime, u.IsUniversal ∧ u.instant = t.instant := by
  rw [exists_isUniversal_iff, stamp?]
  split
  · next h => exact ⟨nofun, fun hnot => absurd h hnot⟩
  · next h => exact ⟨fun _ => h, fun _ => rfl⟩

/-! ### The text of a reading -/

theorem IsUniversal.fits (hu : u.IsUniversal) : Text.Fits layout u.numbers := by
  obtain ⟨hdate, hyear, hhour, hminute, hsecond, hmicrosecond, -⟩ := hu
  have hmonth := hdate.month_le
  have hday := hdate.day_le
  refine .cons ?_ (.cons ?_ (.cons ?_ (.cons ?_ (.cons ?_ (.cons ?_ (.cons ?_ .nil))))))
  all_goals
    dsimp only
    omega

/-- The first number that differs decides which of two readings is the earlier one. -/
theorem IsUniversal.instant_lt_of_numbers_lt (hu : u.IsUniversal) (hv : v.IsUniversal)
    (h : u.numbers < v.numbers) : u.instant / 1000 < v.instant / 1000 := by
  obtain ⟨hdate, -, hhour, hminute, hsecond, hmicrosecond, -⟩ := id hu
  simp only [numbers, List.cons_lt_cons_iff, List.not_lt_nil, and_false, or_false] at h
  have hday : u.date.dayNumber < v.date.dayNumber ∨ u.date.dayNumber = v.date.dayNumber ∧
      (u.hour < v.hour ∨ u.hour = v.hour ∧ (u.minute < v.minute ∨ u.minute = v.minute ∧
        (u.second < v.second ∨ u.second = v.second ∧
          u.microsecond / 1000 < v.microsecond / 1000))) := by
    rcases h with hyear | ⟨hyear, hmonth | ⟨hmonth, hday | ⟨hday, hrest⟩⟩⟩
    · exact .inl (Date.dayNumber_lt hdate (.inl hyear))
    · exact .inl (Date.dayNumber_lt hdate (.inr ⟨hyear, .inl hmonth⟩))
    · exact .inl (Date.dayNumber_lt hdate (.inr ⟨hyear, .inr ⟨hmonth, hday⟩⟩))
    · refine .inr ⟨?_, hrest⟩
      rw [Date.dayNumber, Date.dayNumber, hyear, hmonth, hday]
  rw [hu.instant_eq, hv.instant_eq, seconds, seconds, secondsPerDay]
  omega

theorem IsUniversal.instant_eq_of_numbers_eq (hu : u.IsUniversal) (hv : v.IsUniversal)
    (h : u.numbers = v.numbers) : u.instant / 1000 = v.instant / 1000 := by
  simp only [numbers, List.cons.injEq, and_true] at h
  obtain ⟨hyear, hmonth, hday, hhour, hminute, hsecond, hmillisecond⟩ := h
  rw [hu.instant_eq, hv.instant_eq, seconds, seconds, Date.dayNumber, Date.dayNumber, hyear, hmonth,
    hday, hhour, hminute, hsecond]
  omega

theorem text_lt_iff (hu : u.IsUniversal) (hv : v.IsUniversal) :
    u.text < v.text ↔ u.instant / 1000 < v.instant / 1000 := by
  rw [String.lt_iff_toList_lt, text, text, String.toList_ofList, String.toList_ofList,
    (Text.strictMonoOn_fields layout).lt_iff_lt hu.fits hv.fits]
  refine ⟨hu.instant_lt_of_numbers_lt hv, fun h => ?_⟩
  rcases lt_trichotomy u.numbers v.numbers with hlt | heq | hgt
  · exact hlt
  · exact absurd (hu.instant_eq_of_numbers_eq hv heq) h.ne
  · exact absurd (hv.instant_lt_of_numbers_lt hu hgt) h.asymm

theorem text_eq_iff (hu : u.IsUniversal) (hv : v.IsUniversal) :
    u.text = v.text ↔ u.instant / 1000 = v.instant / 1000 := by
  have hlt := text_lt_iff hu hv
  have hgt := text_lt_iff hv hu
  constructor
  · intro heq
    have hnot := mt hlt.mpr heq.not_lt
    have hnot' := mt hgt.mpr heq.not_gt
    omega
  · intro heq
    have hle := not_lt.mp (mt hgt.mp heq.not_gt)
    have hge := not_lt.mp (mt hlt.mp heq.not_lt)
    exact le_antisymm hle hge

theorem IsUniversal.length_text (hu : u.IsUniversal) : u.text.length = 24 := by
  rw [text, String.length_ofList, hu.fits.length_fields]
  rfl

/-- The text of a reading, written out. -/
theorem IsUniversal.text_eq (hu : u.IsUniversal) : u.text =
    Text.padded 4 u.date.year ++ "-" ++ Text.padded 2 u.date.month ++ "-" ++
      Text.padded 2 u.date.day ++ "T" ++ Text.padded 2 u.hour ++ ":" ++
      Text.padded 2 u.minute ++ ":" ++ Text.padded 2 u.second ++ "." ++
      Text.padded 3 (u.microsecond / 1000) ++ "Z" := by
  obtain ⟨hdate, hyear, hhour, hminute, hsecond, hmicrosecond, -⟩ := hu
  have hmonth := hdate.month_le
  have hday := hdate.day_le
  rw [text, layout, numbers, Text.ofList_fields_cons, Text.ofList_fields_cons,
    Text.ofList_fields_cons, Text.ofList_fields_cons, Text.ofList_fields_cons,
    Text.ofList_fields_cons, Text.ofList_fields_cons]
  · simp only [String.append_assoc]
    rfl
  all_goals omega

end LocalTime

end Calendar

/-! ### The stamps of documents -/

namespace Document

open Calendar (LocalTime)

theorem ofQueryAt?_eq_some_iff {root : Query} {name : String} {t : LocalTime} {d : Document} :
    ofQueryAt? root name t = some d ↔ ∃ u : LocalTime, u.IsUniversal ∧ u.instant = t.instant ∧
      d = ofQuery root name u.text := by
  rw [ofQueryAt?]
  constructor
  · intro h
    have hstamp : t.stamp? ≠ none := fun hnone => by rw [hnone] at h; cases h
    obtain ⟨u, hu, hinstant⟩ := not_not.mp (mt LocalTime.stamp?_eq_none_iff.mpr hstamp)
    rw [LocalTime.stamp?_of_isUniversal hu hinstant] at h
    exact ⟨u, hu, hinstant, (Option.some.inj h).symm⟩
  · rintro ⟨u, hu, hinstant, rfl⟩
    rw [LocalTime.stamp?_of_isUniversal hu hinstant]
    rfl

/-- **Stamps are faithful and ordered.** A document can be made at the time that a clock shows if
and only if universal time then is in the years 1 to 9999. Both of its stamps are universal time in
24 characters, with what is less than a millisecond cut off. So clocks that show one moment with
different offsets give one document, and stamps compare as texts in the way the moments compare to
the millisecond. -/
theorem ofQueryAt?_faithful :
    (∀ (root : Query) (name : String) (t : LocalTime),
      (ofQueryAt? root name t = none ↔ ¬∃ u : LocalTime, u.IsUniversal ∧ u.instant = t.instant) ∧
      ∀ u : LocalTime, u.IsUniversal → u.instant = t.instant →
        ∃ d, ofQueryAt? root name t = some d ∧ d.info.updatedAt = d.info.createdAt ∧
          d.info.createdAt.length = 24 ∧ d.info.createdAt =
            Text.padded 4 u.date.year ++ "-" ++ Text.padded 2 u.date.month ++ "-" ++
              Text.padded 2 u.date.day ++ "T" ++ Text.padded 2 u.hour ++ ":" ++
              Text.padded 2 u.minute ++ ":" ++ Text.padded 2 u.second ++ "." ++
              Text.padded 3 (u.microsecond / 1000) ++ "Z") ∧
    (∀ (root : Query) (name : String) (t t' : LocalTime), t.instant = t'.instant →
      ofQueryAt? root name t = ofQueryAt? root name t') ∧
    ∀ (root root' : Query) (name name' : String) (t t' : LocalTime) (d d' : Document),
      ofQueryAt? root name t = some d → ofQueryAt? root' name' t' = some d' →
        (d.info.createdAt < d'.info.createdAt ↔ t.instant / 1000 < t'.instant / 1000) ∧
        (d.info.createdAt = d'.info.createdAt ↔ t.instant / 1000 = t'.instant / 1000) := by
  refine ⟨fun root name t => ⟨?_, fun u hu h => ?_⟩, fun root name t t' h => ?_, ?_⟩
  · rw [ofQueryAt?, Option.map_eq_none_iff, LocalTime.stamp?_eq_none_iff]
  · exact ⟨_, ofQueryAt?_eq_some_iff.mpr ⟨u, hu, h, rfl⟩, rfl, hu.length_text, hu.text_eq⟩
  · rw [ofQueryAt?, ofQueryAt?, LocalTime.stamp?, LocalTime.stamp?, h]
  · intro root root' name name' t t' d d' hd hd'
    obtain ⟨u, hu, hinstant, rfl⟩ := ofQueryAt?_eq_some_iff.mp hd
    obtain ⟨v, hv, hinstant', rfl⟩ := ofQueryAt?_eq_some_iff.mp hd'
    rw [← hinstant, ← hinstant']
    exact ⟨LocalTime.text_lt_iff hu hv, LocalTime.text_eq_iff hu hv⟩

/-- A clock that is an hour ahead shows the first of March while the leap day lasts, and one that is
behind shows the leap day after its end. A microsecond of offset is one too much for the last
microsecond of all. -/
theorem ofQueryAt?_faithful_leapDay :
    let ahead : LocalTime := ⟨⟨2024, 3, 1⟩, 0, 59, 59, 999999, (3600 : Int)⟩
    let behind : LocalTime := ⟨⟨2024, 2, 29⟩, 18, 30, 0, 0, (-19800 : Int)⟩
    let last : LocalTime := ⟨⟨9999, 12, 31⟩, 23, 59, 59, 999999, ⟨-1⟩⟩
    ∃ d d', ofQueryAt? (.bare "q" .select) "" ahead = some d ∧
      ofQueryAt? (.bare "q" .select) "" behind = some d' ∧
      d.info.createdAt = "2024-02-29T23:59:59.999Z" ∧ d.info.updatedAt = d.info.createdAt ∧
      d.info.createdAt < d'.info.createdAt ∧ d'.info.createdAt ≠ d.info.createdAt ∧
      ¬∃ u : LocalTime, u.IsUniversal ∧ u.instant = last.instant := by
  intro ahead behind last
  let u : LocalTime := ⟨⟨2024, 2, 29⟩, 23, 59, 59, 999999, ⟨0⟩⟩
  let v : LocalTime := ⟨⟨2024, 3, 1⟩, 0, 0, 0, 0, ⟨0⟩⟩
  have hu : u.IsUniversal :=
    ⟨⟨by decide, by decide, by decide, 29, by decide, by decide⟩,
      by decide, by decide, by decide, by decide, by decide, rfl⟩
  have hv : v.IsUniversal :=
    ⟨⟨by decide, by decide, by decide, 31, by decide, by decide⟩,
      by decide, by decide, by decide, by decide, by decide, rfl⟩
  have hahead : u.instant = ahead.instant := by decide
  have hbehind : v.instant = behind.instant := by decide
  have hlast : ofQueryAt? (.bare "q" .select) "" last = none := by decide +kernel
  obtain ⟨hstamps, -, horder⟩ := ofQueryAt?_faithful
  obtain ⟨d, hd, hupdated, -, hcreated⟩ := (hstamps (.bare "q" .select) "" ahead).2 u hu hahead
  obtain ⟨d', hd', -⟩ := (hstamps (.bare "q" .select) "" behind).2 v hv hbehind
  obtain ⟨hlt, heq⟩ := horder _ _ _ _ _ _ d d' hd hd'
  have hearlier : ahead.instant / 1000 < behind.instant / 1000 := by decide
  refine ⟨d, d', hd, hd', hcreated.trans (by decide), hupdated, hlt.mpr hearlier, ?_,
    (hstamps _ _ last).1.mp hlast⟩
  exact fun hsame => hearlier.ne (heq.mp hsame.symm)

end Document

end QueryComposer
