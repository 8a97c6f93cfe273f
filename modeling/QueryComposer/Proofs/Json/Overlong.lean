import QueryComposer.Proofs.Json.Recognition

/-!
# Where reading breaks off

An integer with too many digits is not read, and neither is the text around it. The reader breaks
off where such an integer begins, provided that it comes there: a value has to be due, inside the
lists and objects that are open, and what stands in front must be in order. What stands behind does
not matter. All this is said here in terms of the grammar alone.

The reader asks for such an integer only where no word goes on. So the place where it breaks off is
the first one of its kind, because a word that it has put behind it spells a value, and no such word
begins with an integer that is too long (`SpellsWord.not_beginsOverlong`).

## Main definitions

* `Json.IsDue` holds of what may stand in front of a value.
* `Json.StopsAt` says that an integer with too many digits stands where a value is due.

## Main results

* `IsDue.exists_spells`: what stands in front of a value is the beginning of a text that spells one,
  whichever value comes next.
* `Reader.isDue_iff`: the reader knows where a value is due.
* `overlong?_eq_some_iff`: reading breaks off where an integer has too many digits.
* `StopsAt.read?_eq_none`: such a text is not read.
-/

namespace QueryComposer.Json

open Token

/-! ### What stands in front of a value -/

/-- What stands in front of a value: nothing but separators, or what is around the list or object
that the value is in, its bracket, and all in it that comes before. -/
inductive IsDue : List Char → Prop where
  | start {xs : List Char} : IsGap xs → IsDue xs
  | firstItem {xs ys : List Char} : IsDue xs → IsGap ys → IsDue (xs ++ '[' :: ys)
  | item {xs ys zs : List Char} {vs : List Json} : IsDue xs → Spells ys (.items vs) → IsGap zs →
      IsDue (xs ++ '[' :: (ys ++ ',' :: zs))
  | firstEntry {xs ys zs : List Char} {k : Text.Wide} : IsDue xs → Spells ys (.text k) → IsGap zs →
      IsDue (xs ++ '\x7b' :: (ys ++ ':' :: zs))
  | entry {xs ys zs us : List Char} {es : List (Text.Wide × Json)} {k : Text.Wide} : IsDue xs →
      Spells ys (.entries es) → Spells zs (.text k) → IsGap us →
      IsDue (xs ++ '\x7b' :: (ys ++ ',' :: (zs ++ ':' :: us)))

/-- An integer with so many digits, which are too many, stands where a value is due. -/
def StopsAt (cs : List Char) (n : Nat) : Prop :=
  ∃ xs ys, cs = xs ++ ys ∧ IsDue xs ∧ Number.BeginsOverlong ys n

variable {xs ys cs : List Char} {n : Nat}

/-- **Any value may come next**, and then the brackets that are still open can be closed. -/
theorem IsDue.exists_spells (h : IsDue xs) {v : Json} (hv : Spells ys (.value v)) :
    ∃ zs w, Spells (xs ++ (ys ++ zs)) (.value w) := by
  induction h generalizing ys v with
  | start hxs =>
    refine ⟨[], v, ?_⟩
    rw [List.append_nil]
    exact hv.before hxs
  | @firstItem xs us _ hus ih =>
    obtain ⟨zs, w, hw⟩ := ih (.array (.item (hv.before hus)))
    refine ⟨']' :: zs, w, ?_⟩
    simpa only [List.append_assoc, List.cons_append, List.nil_append] using hw
  | @item xs us gs vs _ hus hgs ih =>
    obtain ⟨zs, w, hw⟩ := ih (.array (.items hus (hv.before hgs)))
    refine ⟨']' :: zs, w, ?_⟩
    simpa only [List.append_assoc, List.cons_append, List.nil_append] using hw
  | @firstEntry xs us gs k _ hus hgs ih =>
    obtain ⟨zs, w, hw⟩ := ih (.object (.single (.entry hus (hv.before hgs))))
    refine ⟨'\x7d' :: zs, w, ?_⟩
    simpa only [List.append_assoc, List.cons_append, List.nil_append] using hw
  | @entry xs us ks gs es k _ hus hks hgs ih =>
    obtain ⟨zs, w, hw⟩ := ih (.object (.entries hus (.entry hks (hv.before hgs))))
    refine ⟨'\x7d' :: zs, w, ?_⟩
    simpa only [List.append_assoc, List.cons_append, List.nil_append] using hw

/-! ### Words -/

/-- A word that spells a value does not begin with an integer that is too long. -/
theorem SpellsWord.not_beginsOverlong {v : Json} (h : SpellsWord xs v) (hys : Reader.IsFresh ys)
    (n : Nat) : ¬Number.BeginsOverlong (xs ++ ys) n := by
  cases h with
  | null | yes | no =>
    rw [← Number.overlong?_eq_some_iff]
    exact nofun
  | number hxs =>
    refine hxs.not_beginsOverlong (fun c hc => Bool.eq_false_iff.mpr fun hdigit => ?_) n
    have hword : isWordChar c = true := by simp [isWordChar, Char.isAlphanum, hdigit]
    exact Bool.false_ne_true ((hys c hc).symm.trans hword)

/-- An integer is a word. -/
theorem isWordChar_of_beginsOverlong {c : Char} (h : Number.BeginsOverlong (c :: cs) n) :
    isWordChar c = true := by
  generalize htext : c :: cs = text at h
  rcases h with ⟨hds, -, -⟩ | ⟨-, -, -⟩
  · obtain ⟨d, ds, rfl, hd⟩ := hds.1.exists_cons
    obtain ⟨rfl, -⟩ := List.cons.inj htext
    simp [isWordChar, Char.isAlphanum, hd]
  · obtain ⟨rfl, -⟩ := List.cons.inj htext
    rfl

/-- A scanner that has got out of a word, or may stop in it, has seen a word that spells a value. -/
theorem exists_spellsWord_of_run {w : List Char} {ts us : List Token} {m : Mode}
    (hrun : scanner.run (.word w) xs = some (ts, m)) (hm : finish m = some us) :
    ∃ ws rs v, xs = ws ++ rs ∧ SpellsWord (w.reverse ++ ws) v ∧ Reader.IsFresh rs ∧
      (m = .between → rs ≠ []) := by
  induction xs generalizing w ts with
  | nil =>
    cases hrun
    obtain ⟨v, hv, -⟩ := Option.map_eq_some_iff.mp hm
    refine ⟨[], [], v, rfl, ?_, nofun, nofun⟩
    rw [List.append_nil]
    exact atom?_eq_some_iff.mp hv
  | cons c xs ih =>
    rw [Text.Scanner.run_cons] at hrun
    obtain ⟨⟨ts₁, m₁⟩, hstep, hmap⟩ := Option.bind_eq_some_iff.mp hrun
    obtain ⟨⟨ts₂, m₂⟩, hrest, heq⟩ := Option.map_eq_some_iff.mp hmap
    cases heq
    have hstep : Token.step (.word w) c = some (ts₁, m₁) := hstep
    rw [Token.step] at hstep
    split at hstep
    · cases hstep
      obtain ⟨ws, rs, v, rfl, hword, hrest⟩ := ih hrest
      refine ⟨c :: ws, rs, v, rfl, ?_, hrest⟩
      rwa [List.reverse_cons, List.append_assoc] at hword
    · next hc =>
      obtain ⟨v, hv, -⟩ := Option.bind_eq_some_iff.mp hstep
      refine ⟨[], c :: xs, v, rfl, ?_, ?_, fun _ => List.cons_ne_nil c xs⟩
      · rw [List.append_nil]
        exact atom?_eq_some_iff.mp hv
      · intro c' hc'
        cases hc'
        exact Bool.eq_false_iff.mpr hc

/-- **No integer that is too long is passed by.** -/
theorem not_beginsOverlong_of_run {c : Char} {ts us : List Token} {m : Mode}
    (hrun : scanner.run .between (c :: xs) = some (ts, m)) (hm : finish m = some us)
    (hys : m = .between ∨ ys = []) (n : Nat) : ¬Number.BeginsOverlong (c :: (xs ++ ys)) n := by
  intro hoverlong
  have hbegin : scanner.step .between c = some ([], .word [c]) :=
    begin?_word (isWordChar_of_beginsOverlong hoverlong)
  rw [Text.Scanner.run_cons, hbegin, Option.bind_some] at hrun
  obtain ⟨⟨ts', m'⟩, hrest, heq⟩ := Option.map_eq_some_iff.mp hrun
  cases heq
  obtain ⟨ws, rs, v, rfl, hword, hrs, hne⟩ := exists_spellsWord_of_run hrest hm
  have hfresh : Reader.IsFresh (rs ++ ys) := by
    cases rs with
    | nil =>
      rcases hys with hbetween | rfl
      · exact absurd rfl (hne hbetween)
      · exact nofun
    | cons r rs => exact hrs
  rw [List.append_assoc] at hoverlong
  exact hword.not_beginsOverlong hfresh n hoverlong

namespace Reader

/-! ### Where a value is due -/

variable {st st' : State} {fs : List Frame}

theorem isDue_of_opens (h : Opens fs xs) : IsDue xs := by
  induction fs generalizing xs with
  | nil => exact .start h
  | cons f fs ih =>
    cases f with
    | items reversed =>
      obtain ⟨before, ys, rfl, hbefore, ⟨-, hys⟩ | ⟨us, gs, rfl, hus, hgs⟩⟩ := h
      · exact .firstItem (ih hbefore) hys
      · exact .item (ih hbefore) hus hgs
    | entries done key =>
      obtain ⟨before, _, rfl, hbefore, _, zs, rfl, ⟨as, ks, rfl, hdue, hks⟩, hzs⟩ := h
      rcases hdue with ⟨-, has⟩ | ⟨us, gs, rfl, hus, hgs⟩
      · exact .firstEntry (ih hbefore) (hks.before has) hzs
      · rw [List.append_assoc, List.append_assoc, List.cons_append, ← List.append_assoc gs]
        exact .entry (ih hbefore) hus (hks.before hgs) hzs

/-- What stands in front of a value leads the reader to where it waits for one. -/
theorem exists_passes_of_isDue (h : IsDue xs) :
    ∃ st fs, Awaits st fs ∧ st.isDue = true ∧ Passes xs (.value []) st := by
  induction h with
  | start hxs => exact ⟨.value [], [], awaits_value [], rfl, passes_gap hxs _⟩
  | firstItem _ hys ih =>
    obtain ⟨st, fs, hst, -, hxs⟩ := ih
    exact ⟨.firstItem fs, _, awaits_firstItem fs, rfl,
      hxs.mark rfl rfl hst.openBracket (passes_gap hys _)⟩
  | @item xs ys zs vs _ hys hzs ih =>
    obtain ⟨st, fs, hst, -, hxs⟩ := ih
    have hitems := hys.passes ⟨fs, awaits_firstItem fs, rfl⟩
    exact ⟨.value (.items vs.reverse :: fs), _, awaits_value _, rfl,
      hxs.mark rfl rfl hst.openBracket (hitems.mark rfl rfl rfl (passes_gap hzs _))⟩
  | @firstEntry xs ys zs k _ hys hzs ih =>
    obtain ⟨st, fs, hst, -, hxs⟩ := ih
    have hkey : Passes ys (.firstKey fs) (.colon [] k fs) := hys.passes rfl
    exact ⟨.value (.entries [] k :: fs), _, awaits_value _, rfl,
      hxs.mark rfl rfl hst.openBrace (hkey.mark rfl rfl rfl (passes_gap hzs _))⟩
  | @entry xs ys zs us es k _ hys hzs hus ih =>
    obtain ⟨st, fs, hst, -, hxs⟩ := ih
    have hfirst : AwaitsKey (.firstKey fs) [] fs := fun _ => rfl
    have hentries := hys.passes ⟨fs, hfirst, rfl⟩
    have hkey : Passes zs (.key es fs) (.colon es k fs) := hzs.passes rfl
    exact ⟨.value (.entries es k :: fs), _, awaits_value _, rfl,
      hxs.mark rfl rfl hst.openBrace (hentries.mark rfl rfl rfl
        (hkey.mark rfl rfl rfl (passes_gap hus _)))⟩

/-- No value is due behind a word. -/
theorem isDue_of_step_atom {v : Json} (h : step st (.atom v) = some st') : st'.isDue = false := by
  have hcomplete : ∀ fs, (complete v fs).isDue = false := by
    rintro (_ | ⟨_ | _, fs⟩) <;> rfl
  cases st with
  | value fs | firstItem fs =>
    cases h
    exact hcomplete _
  | _ => cases h

/-- Where a value is due, no word goes on. -/
theorem Passes.leads (h : Passes xs st st') (hdue : st'.isDue = true) : Leads xs st st' := by
  have hend := h [] nofun
  have hstay : rest? .between st' [] = some st' := rfl
  rw [List.append_nil, hstay] at hend
  obtain ⟨⟨ts, m⟩, hrun, hend⟩ := Option.bind_eq_some_iff.mp hend
  obtain ⟨us, hfinish, hfold⟩ := Option.bind_eq_some_iff.mp hend
  cases m with
  | between =>
    cases hfinish
    rw [List.append_nil] at hfold
    exact ⟨ts, hrun, hfold⟩
  | word w =>
    obtain ⟨v, -, rfl⟩ := Option.map_eq_some_iff.mp hfinish
    rw [List.foldlM_append] at hfold
    obtain ⟨st₁, -, hlast⟩ := Option.bind_eq_some_iff.mp hfold
    obtain ⟨st₂, hlast, heq⟩ := Option.bind_eq_some_iff.mp hlast
    cases heq
    cases (isDue_of_step_atom hlast).symm.trans hdue
  | _ => cases hfinish

/-- **The reader knows where a value is due.** -/
theorem isDue_iff : IsDue xs ↔ ∃ st, Leads xs (.value []) st ∧ st.isDue = true := by
  constructor
  · intro h
    obtain ⟨st, fs, -, hdue, hpasses⟩ := exists_passes_of_isDue h
    exact ⟨st, hpasses.leads hdue, hdue⟩
  · rintro ⟨st, ⟨ts, hrun, hfold⟩, hdue⟩
    obtain ⟨cs, rs, heq, hcut, hrs⟩ := Token.IsCut.nil.run (m := .between) rfl hrun
    obtain rfl : rs = [] := hrs
    obtain rfl : xs = cs := heq.trans (List.append_nil cs)
    have hholds := holds_of_foldlM hcut hfold
    cases st with
    | value fs => exact isDue_of_opens hholds
    | firstItem fs =>
      obtain ⟨before, ys, rfl, hbefore, hys⟩ := hholds
      exact .firstItem (isDue_of_opens hbefore) hys
    | _ => cases hdue

/-! ### The integer that the reader comes to -/

theorem exists_leads_of_overlong? {m : Mode} (h : overlong? m st cs = some n) :
    ∃ xs ys ts st', cs = xs ++ ys ∧ scanner.run m xs = some (ts, .between) ∧
      ts.foldlM step st = some st' ∧ st'.isDue = true ∧ Number.overlong? ys = some n := by
  induction cs generalizing m st with
  | nil => cases h
  | cons c cs ih =>
    rw [overlong?] at h
    split at h
    · next n' hoverlong =>
      cases h
      obtain ⟨hasked, hfound⟩ := Option.ite_none_right_eq_some.mp hoverlong
      obtain ⟨hm, hdue⟩ := Bool.and_eq_true_iff.mp hasked
      obtain rfl := of_decide_eq_true hm
      exact ⟨[], c :: cs, [], st, rfl, rfl, rfl, hdue, hfound⟩
    · split at h
      · cases h
      · next ts m' hstep =>
        obtain ⟨st₁, hst₁, hrest⟩ := Option.bind_eq_some_iff.mp h
        obtain ⟨xs, ys, us, st', rfl, hrun, hst', hdue, hoverlong⟩ := ih hrest
        refine ⟨c :: xs, ys, ts ++ us, st', rfl, run_cons_of_some hstep hrun, ?_, hdue, hoverlong⟩
        rw [List.foldlM_append, hst₁]
        exact hst'

theorem overlong?_of_run {m : Mode} {ts : List Token}
    (hrun : scanner.run m xs = some (ts, .between)) (hst : ts.foldlM step st = some st')
    (hdue : st'.isDue = true) (hoverlong : Number.overlong? ys = some n) :
    overlong? m st (xs ++ ys) = some n := by
  induction xs generalizing m st ts with
  | nil =>
    cases hrun
    cases hst
    cases ys with
    | nil => cases hoverlong
    | cons y ys =>
      rw [List.nil_append, overlong?, hdue]
      simp [hoverlong]
  | cons c xs ih =>
    have hnone : (if m = .between && st.isDue then Number.overlong? (c :: (xs ++ ys)) else none) =
        none := by
      rw [Option.eq_none_iff_forall_ne_some]
      intro k hk
      obtain ⟨hasked, hfound⟩ := Option.ite_none_right_eq_some.mp hk
      obtain rfl := of_decide_eq_true (Bool.and_eq_true_iff.mp hasked).1
      exact not_beginsOverlong_of_run hrun rfl (.inl rfl) k (Number.overlong?_eq_some_iff.mp hfound)
    rw [Text.Scanner.run_cons] at hrun
    obtain ⟨⟨ts₁, m₁⟩, hstep, hmap⟩ := Option.bind_eq_some_iff.mp hrun
    obtain ⟨⟨ts₂, m₂⟩, hrest, heq⟩ := Option.map_eq_some_iff.mp hmap
    cases heq
    have hstep : Token.step m c = some (ts₁, m₁) := hstep
    rw [List.foldlM_append] at hst
    obtain ⟨st₁, hst₁, hst₂⟩ := Option.bind_eq_some_iff.mp hst
    rw [List.cons_append, overlong?, hnone, hstep]
    simp only [hst₁, Option.bind_some]
    exact ih hrest hst₂

/-- **The reader comes to every integer that is too long**, if all in front of it is in order. -/
theorem overlong?_eq_some_iff : overlong? .between st cs = some n ↔
    ∃ xs ys st', cs = xs ++ ys ∧ Leads xs st st' ∧ st'.isDue = true ∧
      Number.BeginsOverlong ys n := by
  constructor
  · intro h
    obtain ⟨xs, ys, ts, st', hcs, hrun, hst', hdue, hoverlong⟩ := exists_leads_of_overlong? h
    exact ⟨xs, ys, st', hcs, ⟨ts, hrun, hst'⟩, hdue, Number.overlong?_eq_some_iff.mp hoverlong⟩
  · rintro ⟨xs, ys, st', rfl, ⟨ts, hrun, hst'⟩, hdue, hoverlong⟩
    exact overlong?_of_run hrun hst' hdue (Number.overlong?_eq_some_iff.mpr hoverlong)

end Reader

/-- **Reading breaks off where an integer has too many digits**, and it is known how many. -/
theorem overlong?_eq_some_iff : overlong? cs = some n ↔ StopsAt cs n := by
  rw [overlong?, Reader.overlong?_eq_some_iff]
  constructor
  · rintro ⟨xs, ys, st, rfl, hleads, hdue, hoverlong⟩
    exact ⟨xs, ys, rfl, Reader.isDue_iff.mpr ⟨st, hleads, hdue⟩, hoverlong⟩
  · rintro ⟨xs, ys, rfl, hxs, hoverlong⟩
    obtain ⟨st, hleads, hdue⟩ := Reader.isDue_iff.mp hxs
    exact ⟨xs, ys, st, rfl, hleads, hdue, hoverlong⟩

/-- **A text in which an integer has too many digits is not read.** -/
theorem StopsAt.read?_eq_none (h : StopsAt cs n) : read? cs = none := by
  obtain ⟨xs, ys, rfl, hxs, hoverlong⟩ := h
  obtain ⟨st, ⟨ts, hrun, -⟩, -⟩ := Reader.isDue_iff.mp hxs
  rw [Option.eq_none_iff_forall_ne_some]
  intro v hread
  obtain ⟨us, htokens, -⟩ := Option.bind_eq_some_iff.mp hread
  have hrun' : scanner.run scanner.start xs = some (ts, .between) := hrun
  rw [Text.Scanner.tokens_eq, Text.Scanner.run_append, hrun', Option.bind_some] at htokens
  obtain ⟨_, hall, hfinish⟩ := Option.bind_eq_some_iff.mp htokens
  obtain ⟨⟨us', m⟩, hrest, rfl⟩ := Option.map_eq_some_iff.mp hall
  obtain ⟨owed, howed, -⟩ := Option.map_eq_some_iff.mp hfinish
  cases ys with
  | nil => cases Number.overlong?_eq_some_iff.mpr hoverlong
  | cons c ys =>
    have hnever := not_beginsOverlong_of_run hrest howed (.inr (Eq.refl [])) n
    rw [List.append_nil] at hnever
    exact hnever hoverlong

theorem StopsAt.not_spells (h : StopsAt cs n) : ¬∃ v, Spells cs (.value v) := by
  rintro ⟨v, hv⟩
  cases h.read?_eq_none.symm.trans hv.read?_eq_some

end QueryComposer.Json
