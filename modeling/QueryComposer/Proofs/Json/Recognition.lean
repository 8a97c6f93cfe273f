import QueryComposer.Proofs.Json.Grammar

/-!
# The reader takes nothing else

What the reader has read at any time is the beginning of a text that spells a value, and its state
says which. This holds at the start, every token keeps it, and where the reader is done it says that
the text spells the value. The scanner is followed in the same way below: what it has read is cut
into tokens, but for a piece at the end that its mode describes.

## Main definitions

* `Token.IsCut` says that a text is cut into tokens, `Token.Mode.Holds` what a mode has seen of the
  next one.
* `Reader.State.Holds` says what a reader in that state has read.

## Main results

* `Token.isCut_of_tokens`: the scanner cuts a text into tokens.
* `Reader.State.Holds.step`: what one token keeps.
* `read?_eq_some_iff`: the reader takes exactly what spells a value.
-/

namespace QueryComposer.Json

namespace Token

/-! ### Tokens -/

/-- A token as it is written. -/
inductive Spells : List Char → Token → Prop where
  | openBrace : Spells ['\x7b'] .openBrace
  | closeBrace : Spells ['\x7d'] .closeBrace
  | openBracket : Spells ['['] .openBracket
  | closeBracket : Spells [']'] .closeBracket
  | colon : Spells [':'] .colon
  | comma : Spells [','] .comma
  | text {cs : List Char} {a : Text.Assembly} : SpellsContents cs a →
      Spells ('"' :: (cs ++ ['"'])) (.text a.finish)
  | atom {cs : List Char} {v : Json} : SpellsWord cs v → Spells cs (.atom v)

/-- The text is the tokens one behind the other, with separators before, between and behind. -/
inductive IsCut : List Char → List Token → Prop where
  | nil : IsCut [] []
  | gap {cs : List Char} {ts : List Token} {c : Char} : IsCut cs ts → isSeparator c = true →
      IsCut (cs ++ [c]) ts
  | token {cs xs : List Char} {ts : List Token} {t : Token} : IsCut cs ts → t.Spells xs →
      IsCut (cs ++ xs) (ts ++ [t])

/-- What the scanner has seen of the token that it is in. -/
def Mode.Holds : Mode → List Char → Prop
  | .between, xs => xs = []
  | .word w, xs => xs = w.reverse
  | .quoted a, xs => ∃ cs, xs = '"' :: cs ∧ SpellsContents cs a
  | .escaped a, xs => ∃ cs, xs = '"' :: (cs ++ ['\\']) ∧ SpellsContents cs a
  | .unit a seen value, xs => ∃ cs ds, xs = '"' :: (cs ++ '\\' :: 'u' :: ds) ∧
      SpellsContents cs a ∧ ds.length = seen ∧ seen ≤ 3 ∧ SpellsHex ds value

variable {cs xs : List Char} {ts us : List Token} {m m' : Mode} {c : Char}

theorem spells_of_punctuation? {t : Token} (h : punctuation? c = some t) : t.Spells [c] := by
  unfold punctuation? at h
  split at h <;> cases h <;> constructor

/-- A character between tokens is one of them, or the first of one. -/
theorem IsCut.begin? (hcs : IsCut cs ts) (h : Token.begin? c = some (us, m')) :
    ∃ cs' xs', cs ++ [c] = cs' ++ xs' ∧ IsCut cs' (ts ++ us) ∧ m'.Holds xs' := by
  unfold Token.begin? at h
  split at h
  · next hc =>
    cases h
    refine ⟨cs ++ [c], [], (List.append_nil _).symm, ?_, rfl⟩
    rw [List.append_nil]
    exact hcs.gap hc
  split at h
  · cases h
    refine ⟨cs, [c], rfl, ?_, rfl⟩
    rwa [List.append_nil]
  split at h
  · next hc =>
    cases h
    refine ⟨cs, [c], rfl, ?_, [], by rw [hc], .empty⟩
    rwa [List.append_nil]
  · obtain ⟨t, ht, heq⟩ := Option.map_eq_some_iff.mp h
    cases heq
    exact ⟨cs ++ [c], [], (List.append_nil _).symm, hcs.token (spells_of_punctuation? ht), rfl⟩

/-- **One character.** The text stays cut. -/
theorem IsCut.step (hcs : IsCut cs ts) (hm : m.Holds xs) (h : Token.step m c = some (us, m')) :
    ∃ cs' xs', cs ++ (xs ++ [c]) = cs' ++ xs' ∧ IsCut cs' (ts ++ us) ∧ m'.Holds xs' := by
  -- within a token nothing is released
  have hwithin : ∀ {m' : Mode}, m'.Holds (xs ++ [c]) → ∃ cs' xs',
      cs ++ (xs ++ [c]) = cs' ++ xs' ∧ IsCut cs' (ts ++ []) ∧ m'.Holds xs' := by
    intro m' hm'
    refine ⟨cs, xs ++ [c], rfl, ?_, hm'⟩
    rwa [List.append_nil]
  cases m with
  | between =>
    cases hm
    exact hcs.begin? h
  | word w =>
    cases hm
    rw [Token.step] at h
    split at h
    · cases h
      exact hwithin List.reverse_cons.symm
    · obtain ⟨v, hv, h⟩ := Option.bind_eq_some_iff.mp h
      obtain ⟨⟨us', m''⟩, hbegin, h⟩ := Option.bind_eq_some_iff.mp h
      cases h
      have hword := hcs.token (.atom (atom?_eq_some_iff.mp hv))
      obtain ⟨cs', xs', heq, hcut, hm'⟩ := hword.begin? hbegin
      rw [List.append_assoc] at heq hcut
      exact ⟨cs', xs', heq, hcut, hm'⟩
  | quoted a =>
    obtain ⟨qs, rfl, hqs⟩ := hm
    rw [Token.step] at h
    split at h
    · next hc =>
      cases h
      subst hc
      exact ⟨_, [], (List.append_nil _).symm, hcs.token (.text hqs), rfl⟩
    split at h
    · next hc =>
      cases h
      subst hc
      exact hwithin ⟨qs, rfl, hqs⟩
    split at h
    · cases h
    · next hquote hslash hprintable =>
      cases h
      exact hwithin ⟨qs ++ [c], rfl, hqs.plain hquote hslash (Nat.le_of_not_lt hprintable)⟩
  | escaped a =>
    obtain ⟨qs, rfl, hqs⟩ := hm
    rw [Token.step] at h
    split at h
    · next hc =>
      cases h
      subst hc
      refine hwithin ⟨qs, [], ?_, hqs, rfl, by decide, .nil⟩
      rw [List.cons_append, List.append_assoc, List.singleton_append]
    · obtain ⟨c', hc', heq⟩ := Option.map_eq_some_iff.mp h
      cases heq
      refine hwithin ⟨qs ++ ['\\', c], ?_, hqs.escape hc'⟩
      rw [List.cons_append, List.append_assoc, List.singleton_append]
  | unit a seen value =>
    obtain ⟨qs, ds, rfl, hqs, hlength, hseen, hds⟩ := hm
    obtain ⟨d, hd, h⟩ := Option.bind_eq_some_iff.mp h
    have hlength' : (ds ++ [c]).length = seen + 1 := by
      rw [List.length_append, List.length_singleton, hlength]
    have hassoc : '"' :: (qs ++ '\\' :: 'u' :: ds) ++ [c] =
        '"' :: (qs ++ '\\' :: 'u' :: (ds ++ [c])) := by
      simp only [List.cons_append, List.append_assoc]
    split at h
    · next hlt =>
      cases h
      exact hwithin ⟨qs, ds ++ [c], hassoc, hqs, hlength', hlt, hds.snoc hd⟩
    · next hge =>
      cases h
      obtain rfl : seen = 3 := Nat.le_antisymm hseen (Nat.le_of_not_lt hge)
      exact hwithin ⟨_, hassoc, hqs.unit hlength' (hds.snoc hd)⟩

theorem IsCut.run {ys : List Char} (hcs : IsCut cs ts) (hm : m.Holds xs)
    (h : scanner.run m ys = some (us, m')) :
    ∃ cs' xs', cs ++ (xs ++ ys) = cs' ++ xs' ∧ IsCut cs' (ts ++ us) ∧ m'.Holds xs' := by
  induction ys generalizing cs xs ts us m with
  | nil =>
    cases h
    refine ⟨cs, xs, by rw [List.append_nil], ?_, hm⟩
    rwa [List.append_nil]
  | cons c ys ih =>
    rw [Text.Scanner.run_cons] at h
    obtain ⟨⟨us₁, m₁⟩, hstep, h⟩ := Option.bind_eq_some_iff.mp h
    obtain ⟨⟨us₂, m₂⟩, hrun, heq⟩ := Option.map_eq_some_iff.mp h
    cases heq
    obtain ⟨cs₁, xs₁, heq₁, hcut₁, hm₁⟩ := hcs.step hm hstep
    obtain ⟨cs₂, xs₂, heq₂, hcut₂, hm₂⟩ := ih hcut₁ hm₁ hrun
    refine ⟨cs₂, xs₂, ?_, ?_, hm₂⟩
    · calc
        cs ++ (xs ++ c :: ys) = cs ++ (xs ++ [c]) ++ ys := by simp
        _ = cs₁ ++ (xs₁ ++ ys) := by rw [heq₁, List.append_assoc]
        _ = cs₂ ++ xs₂ := heq₂
    · rwa [← List.append_assoc]

/-- **The scanner cuts a text into tokens.** -/
theorem isCut_of_tokens (h : scanner.tokens cs = some ts) : IsCut cs ts := by
  rw [Text.Scanner.tokens_eq] at h
  obtain ⟨⟨us, m⟩, hrun, h⟩ := Option.bind_eq_some_iff.mp h
  obtain ⟨vs, hvs, rfl⟩ := Option.map_eq_some_iff.mp h
  have hfinish : finish m = some vs := hvs
  obtain ⟨cs', xs', heq, hcut, hm⟩ := IsCut.nil.run (m := .between) rfl hrun
  obtain rfl : cs = cs' ++ xs' := heq
  cases m with
  | between =>
    cases hfinish
    cases hm
    rwa [List.append_nil, List.append_nil]
  | word w =>
    cases hm
    obtain ⟨v, hv, rfl⟩ := Option.map_eq_some_iff.mp hfinish
    exact hcut.token (.atom (atom?_eq_some_iff.mp hv))
  | _ => cases hfinish

end Token

variable {xs ys : List Char}

theorem IsGap.append (hx : IsGap xs) (hy : IsGap ys) : IsGap (xs ++ ys) :=
  List.forall_mem_append.mpr ⟨hx, hy⟩

theorem Spells.before {p : Phrase} (h : Spells ys p) (hx : IsGap xs) : Spells (xs ++ ys) p := by
  have hbetween : Spells (xs ++ (ys ++ [])) p := .between hx h nofun
  rwa [List.append_nil] at hbetween

theorem Spells.gap {p : Phrase} (h : Spells xs p) (hy : IsGap ys) : Spells (xs ++ ys) p := by
  have hbetween : Spells ([] ++ (xs ++ ys)) p := .between nofun h hy
  exact hbetween

namespace Reader

variable {cs : List Char} {st st' : State} {fs : List Frame} {v : Json} {t : Token}

/-! ### Open lists and objects -/

/-- In a list or an object, after its bracket: what was read inside, and what before. -/
def Inside (bracket : Char) (inner outer : List Char → Prop) (cs : List Char) : Prop :=
  ∃ before xs, cs = before ++ bracket :: xs ∧ outer before ∧ inner xs

/-- After the bracket or a comma: nothing was read so far, or the phrase. -/
def Due (isFirst : Prop) (p : Phrase) (xs : List Char) : Prop :=
  isFirst ∧ IsGap xs ∨ ∃ ys zs, xs = ys ++ ',' :: zs ∧ Spells ys p ∧ IsGap zs

/-- After the bracket of a list or a comma in it, where these items were read. -/
def ItemDue (reversed : List Json) : List Char → Prop :=
  Due (reversed = []) (.items reversed.reverse)

/-- After the bracket of an object or a comma in it, where these entries were read. -/
def EntryDue (done : List (Text.Wide × Json)) : List Char → Prop := Due (done = []) (.entries done)

/-- After a key. -/
def ColonDue (done : List (Text.Wide × Json)) (key : Text.Wide) (xs : List Char) : Prop :=
  ∃ ys zs, xs = ys ++ zs ∧ EntryDue done ys ∧ Spells zs (.text key)

/-- After a key and its colon. -/
def ValueDue (done : List (Text.Wide × Json)) (key : Text.Wide) (xs : List Char) : Prop :=
  ∃ ys zs, xs = ys ++ ':' :: zs ∧ ColonDue done key ys ∧ IsGap zs

/-- What was read where a value is due inside these frames. -/
def Opens : List Frame → List Char → Prop
  | [] => IsGap
  | .items reversed :: fs => Inside '[' (ItemDue reversed) (Opens fs)
  | .entries done key :: fs => Inside '\x7b' (ValueDue done key) (Opens fs)

/-- What was read in each state. -/
def State.Holds : State → List Char → Prop
  | .value fs => Opens fs
  | .firstItem fs => Inside '[' IsGap (Opens fs)
  | .afterItem reversed fs => Inside '[' (Spells · (.items reversed.reverse)) (Opens fs)
  | .firstKey fs => Inside '\x7b' IsGap (Opens fs)
  | .key done fs => Inside '\x7b' (EntryDue done) (Opens fs)
  | .colon done k fs => Inside '\x7b' (ColonDue done k) (Opens fs)
  | .afterEntry done fs => Inside '\x7b' (Spells · (.entries done)) (Opens fs)
  | .finished v => (Spells · (.value v))

/-! ### Separators -/

theorem Inside.imp {bracket : Char} {inner inner' outer : List Char → Prop}
    (h : Inside bracket inner outer cs) (hinner : ∀ xs, inner xs → inner' (xs ++ ys)) :
    Inside bracket inner' outer (cs ++ ys) := by
  obtain ⟨before, xs, rfl, houter, hxs⟩ := h
  exact ⟨before, xs ++ ys, by rw [List.append_assoc, List.cons_append], houter, hinner xs hxs⟩

theorem Due.gap {isFirst : Prop} {p : Phrase} (h : Due isFirst p xs) (hy : IsGap ys) :
    Due isFirst p (xs ++ ys) := by
  rcases h with ⟨hfirst, hxs⟩ | ⟨us, zs, rfl, hus, hzs⟩
  · exact .inl ⟨hfirst, IsGap.append hxs hy⟩
  · refine .inr ⟨us, zs ++ ys, ?_, hus, IsGap.append hzs hy⟩
    rw [List.append_assoc, List.cons_append]

theorem ColonDue.gap {done : List (Text.Wide × Json)} {key : Text.Wide} (h : ColonDue done key xs)
    (hy : IsGap ys) : ColonDue done key (xs ++ ys) := by
  obtain ⟨us, zs, rfl, hus, hzs⟩ := h
  exact ⟨us, zs ++ ys, List.append_assoc us zs ys, hus, hzs.gap hy⟩

theorem ValueDue.gap {done : List (Text.Wide × Json)} {key : Text.Wide} (h : ValueDue done key xs)
    (hy : IsGap ys) : ValueDue done key (xs ++ ys) := by
  obtain ⟨us, zs, rfl, hus, hzs⟩ := h
  refine ⟨us, zs ++ ys, ?_, hus, IsGap.append hzs hy⟩
  rw [List.append_assoc, List.cons_append]

theorem Opens.gap (h : Opens fs xs) (hy : IsGap ys) : Opens fs (xs ++ ys) := by
  cases fs with
  | nil => exact IsGap.append h hy
  | cons f fs =>
    cases f with
    | items reversed => exact Inside.imp h fun _ hxs => Due.gap hxs hy
    | entries done key => exact Inside.imp h fun _ hxs => hxs.gap hy

theorem State.Holds.gap (h : st.Holds cs) (hy : IsGap ys) : st.Holds (cs ++ ys) := by
  cases st with
  | value fs => exact Opens.gap h hy
  | firstItem fs | firstKey fs => exact Inside.imp h fun _ hxs => IsGap.append hxs hy
  | afterItem reversed fs | afterEntry done fs => exact Inside.imp h fun _ hxs => Spells.gap hxs hy
  | key done fs => exact Inside.imp h fun _ hxs => Due.gap hxs hy
  | colon done key fs => exact Inside.imp h fun _ hxs => hxs.gap hy
  | finished v => exact Spells.gap h hy

/-! ### Tokens -/

theorem ItemDue.value {reversed : List Json} (h : ItemDue reversed xs)
    (hv : Spells ys (.value v)) : Spells (xs ++ ys) (.items (v :: reversed).reverse) := by
  rw [List.reverse_cons]
  rcases h with ⟨rfl, hxs⟩ | ⟨us, zs, rfl, hus, hzs⟩
  · exact Spells.before (.item hv) hxs
  · rw [List.append_assoc, List.cons_append]
    exact .items hus (hv.before hzs)

theorem EntryDue.entry {done : List (Text.Wide × Json)} {k : Text.Wide} (h : EntryDue done xs)
    (hv : Spells ys (.entry k v)) : Spells (xs ++ ys) (.entries (Entries.put k v done)) := by
  rcases h with ⟨rfl, hxs⟩ | ⟨us, zs, rfl, hus, hzs⟩
  · exact Spells.before (.single hv) hxs
  · rw [List.append_assoc, List.cons_append]
    exact .entries hus (hv.before hzs)

theorem ValueDue.value {done : List (Text.Wide × Json)} {k : Text.Wide} (h : ValueDue done k xs)
    (hv : Spells ys (.value v)) : Spells (xs ++ ys) (.entries (Entries.put k v done)) := by
  obtain ⟨us, zs, rfl, ⟨as, ks, rfl, hdue, hk⟩, hzs⟩ := h
  rw [List.append_assoc, List.append_assoc, List.cons_append]
  exact hdue.entry (.entry hk (hv.before hzs))

/-- A value that is complete is part of what is around it. -/
theorem holds_complete (h : Opens fs cs) (hv : Spells ys (.value v)) :
    (complete v fs).Holds (cs ++ ys) := by
  cases fs with
  | nil => exact Spells.before hv h
  | cons f fs =>
    cases f with
    | items reversed => exact Inside.imp h fun _ hxs => hxs.value hv
    | entries done key => exact Inside.imp h fun _ hxs => hxs.value hv

theorem holds_enclosed {c d : Char} {inner : List Char → Prop}
    (h : Inside c inner (Opens fs) cs)
    (hv : ∀ xs, inner xs → Spells (c :: (xs ++ [d])) (.value v)) :
    (complete v fs).Holds (cs ++ [d]) := by
  obtain ⟨before, xs, rfl, hbefore, hxs⟩ := h
  rw [List.append_assoc, List.cons_append]
  exact holds_complete hbefore (hv xs hxs)

theorem holds_of_begin? (h : Opens fs cs) (ht : t.Spells ys) (hst : begin? fs t = some st) :
    st.Holds (cs ++ ys) := by
  cases ht with
  | openBrace | openBracket =>
    cases hst
    exact ⟨cs, [], rfl, h, nofun⟩
  | text hqs =>
    cases hst
    exact holds_complete h (.string (.quoted hqs))
  | atom hws =>
    cases hst
    exact holds_complete h (.word hws)
  | _ => cases hst

/-- **One token.** What was read is still the beginning of a text that spells a value. -/
theorem State.Holds.step (h : st.Holds cs) (ht : t.Spells ys)
    (hst : Reader.step st t = some st') : st'.Holds (cs ++ ys) := by
  cases st with
  | value fs => exact holds_of_begin? h ht hst
  | firstItem fs =>
    by_cases hclose : t = .closeBracket
    · subst hclose
      cases ht
      cases hst
      exact holds_enclosed h fun _ hxs => .emptyArray hxs
    · have hopens : Opens (.items [] :: fs) cs := by
        obtain ⟨before, xs, rfl, hbefore, hxs⟩ := h
        exact ⟨before, xs, rfl, hbefore, .inl ⟨rfl, hxs⟩⟩
      rw [awaits_firstItem fs t hclose] at hst
      exact holds_of_begin? hopens ht hst
  | afterItem reversed fs =>
    cases ht with
    | closeBracket =>
      cases hst
      exact holds_enclosed h fun _ hxs => .array hxs
    | comma =>
      cases hst
      exact Inside.imp h fun xs hxs => .inr ⟨xs, [], rfl, hxs, nofun⟩
    | _ => cases hst
  | firstKey fs =>
    cases ht with
    | closeBrace =>
      cases hst
      exact holds_enclosed h fun _ hxs => .emptyObject hxs
    | text hqs =>
      cases hst
      exact Inside.imp h fun xs hxs => ⟨xs, _, rfl, .inl ⟨rfl, hxs⟩, .quoted hqs⟩
    | _ => cases hst
  | key done fs =>
    cases ht with
    | text hqs =>
      cases hst
      exact Inside.imp h fun xs hxs => ⟨xs, _, rfl, hxs, .quoted hqs⟩
    | _ => cases hst
  | colon done key fs =>
    cases ht with
    | colon =>
      cases hst
      exact Inside.imp h fun xs hxs => ⟨xs, [], rfl, hxs, nofun⟩
    | _ => cases hst
  | afterEntry done fs =>
    cases ht with
    | closeBrace =>
      cases hst
      exact holds_enclosed h fun _ hxs => .object hxs
    | comma =>
      cases hst
      exact Inside.imp h fun xs hxs => .inr ⟨xs, [], rfl, hxs, nofun⟩
    | _ => cases hst
  | finished v => cases hst

/-- What the reader has read of a text that is cut into tokens. -/
theorem holds_of_foldlM {ts : List Token} (hcs : Token.IsCut cs ts)
    (h : ts.foldlM Reader.step (.value []) = some st) : st.Holds cs := by
  induction hcs generalizing st with
  | nil =>
    cases h
    exact nofun
  | gap _ hc ih => exact (ih h).gap (List.forall_mem_singleton.mpr hc)
  | token _ ht ih =>
    rw [List.foldlM_append] at h
    obtain ⟨st₁, hst₁, h⟩ := Option.bind_eq_some_iff.mp h
    obtain ⟨st₂, hst₂, h⟩ := Option.bind_eq_some_iff.mp h
    cases h
    exact (ih hst₁).step ht hst₂

end Reader

/-- **The reader takes what spells a value**, and nothing else. -/
theorem read?_eq_some_iff {cs : List Char} {v : Json} :
    read? cs = some v ↔ Spells cs (.value v) := by
  refine ⟨fun h => ?_, Spells.read?_eq_some⟩
  obtain ⟨ts, hts, h⟩ := Option.bind_eq_some_iff.mp h
  obtain ⟨st, hst, h⟩ := Option.bind_eq_some_iff.mp h
  have hholds := Reader.holds_of_foldlM (Token.isCut_of_tokens hts) hst
  cases st with
  | finished w =>
    cases h
    exact hholds
  | _ => cases h

example : Spells "\x7b\"a\": 1, \"b\": NaN, \"a\": null\x7d".toList
    (.value (.object [("a", .null), ("b", .number .notANumber)])) :=
  read?_eq_some_iff.mp rfl

/-- A text spells one value at most. -/
theorem Spells.value_unique {cs : List Char} {v w : Json} (hv : Spells cs (.value v))
    (hw : Spells cs (.value w)) : v = w :=
  Option.some.inj (hv.read?_eq_some.symm.trans hw.read?_eq_some)

end QueryComposer.Json
