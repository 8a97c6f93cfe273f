import QueryComposer.Proofs.Json.Numeral
import QueryComposer.Proofs.Json.RoundTrip

/-!
# How values are written

The grammar of the interchange format, said without a reader: which texts spell a value, and which
value they spell. It is the usual grammar of such texts, with names for the numbers that are not
finite and with repeated keys, of which the first gives the place and the last gives the value. Keys
are the same if they are written with the same characters and lone halves; an object holds them
under their names (`Json.named`).

The reader takes every text that spells a value. It looks at a text one character at a time and
knows the end of a word only by what stands behind it. So a piece is followed with all that comes
after it: reading on behind the piece is reading the rest in another state (`Reader.Passes`).

## Main definitions

* `Json.Spells` relates a text to the phrase that it spells: a value, a text between quotes, items,
  an entry or entries.
* `Reader.Takes` says which states a phrase leads the reader from and to.

## Main results

* `Json.atom?_eq_some_iff`: the words that are values.
* `Json.Spells.passes`: what spells a phrase leads the reader over it.
* `Json.Spells.read?_eq_some`: what spells a value is read as that value.
-/

namespace QueryComposer.Json

open Token

/-! ### The grammar -/

/-- Separators only. -/
def IsGap (cs : List Char) : Prop := ∀ c ∈ cs, isSeparator c = true

/-- A word, and the value that it spells. -/
inductive SpellsWord : List Char → Json → Prop where
  | null : SpellsWord "null".toList .null
  | yes : SpellsWord "true".toList (.bool true)
  | no : SpellsWord "false".toList (.bool false)
  | number {cs : List Char} {n : Number} : n.Spells cs → SpellsWord cs (.number n)

/-- Hexadecimal digits. -/
inductive SpellsHex : List Char → Nat → Prop where
  | nil : SpellsHex [] 0
  | snoc {cs : List Char} {n d : Nat} {c : Char} : SpellsHex cs n → hexValue? c = some d →
      SpellsHex (cs ++ [c]) (16 * n + d)

/-- What stands between quotes, and the text under construction that it gives. -/
inductive SpellsContents : List Char → Text.Assembly → Prop where
  | empty : SpellsContents [] .empty
  | plain {cs : List Char} {a : Text.Assembly} {c : Char} : SpellsContents cs a → c ≠ '"' →
      c ≠ '\\' → 0x20 ≤ c.toNat → SpellsContents (cs ++ [c]) (a.push c)
  | escape {cs : List Char} {a : Text.Assembly} {c c' : Char} : SpellsContents cs a →
      escape? c = some c' → SpellsContents (cs ++ ['\\', c]) (a.push c')
  | unit {cs ds : List Char} {a : Text.Assembly} {u : Nat} : SpellsContents cs a →
      ds.length = 4 → SpellsHex ds u → SpellsContents (cs ++ '\\' :: 'u' :: ds) (a.pushUnit u)

/-- What a piece of text may stand for. Items and entries are one or more. -/
inductive Phrase where
  | value (v : Json)
  | text (s : Text.Wide)
  | items (vs : List Json)
  | entry (key : Text.Wide) (v : Json)
  | entries (es : List (Text.Wide × Json))

/-- **The grammar.** Separators may stand around every phrase. -/
inductive Spells : List Char → Phrase → Prop where
  | between {xs ys zs : List Char} {p : Phrase} : IsGap xs → Spells ys p → IsGap zs →
      Spells (xs ++ (ys ++ zs)) p
  | word {cs : List Char} {v : Json} : SpellsWord cs v → Spells cs (.value v)
  | quoted {cs : List Char} {a : Text.Assembly} : SpellsContents cs a →
      Spells ('"' :: (cs ++ ['"'])) (.text a.finish)
  | string {cs : List Char} {s : Text.Wide} : Spells cs (.text s) →
      Spells cs (.value (.string s.shown))
  | emptyArray {cs : List Char} : IsGap cs → Spells ('[' :: (cs ++ [']'])) (.value (.array []))
  | array {cs : List Char} {vs : List Json} : Spells cs (.items vs) →
      Spells ('[' :: (cs ++ [']'])) (.value (.array vs))
  | item {cs : List Char} {v : Json} : Spells cs (.value v) → Spells cs (.items [v])
  | items {xs ys : List Char} {vs : List Json} {v : Json} : Spells xs (.items vs) →
      Spells ys (.value v) → Spells (xs ++ ',' :: ys) (.items (vs ++ [v]))
  | emptyObject {cs : List Char} : IsGap cs →
      Spells ('\x7b' :: (cs ++ ['\x7d'])) (.value (.object []))
  | object {cs : List Char} {es : List (Text.Wide × Json)} : Spells cs (.entries es) →
      Spells ('\x7b' :: (cs ++ ['\x7d'])) (.value (.object (named es)))
  | entry {xs ys : List Char} {k : Text.Wide} {v : Json} : Spells xs (.text k) →
      Spells ys (.value v) → Spells (xs ++ ':' :: ys) (.entry k v)
  | single {cs : List Char} {k : Text.Wide} {v : Json} : Spells cs (.entry k v) →
      Spells cs (.entries [(k, v)])
  | entries {xs ys : List Char} {es : List (Text.Wide × Json)} {k : Text.Wide} {v : Json} :
      Spells xs (.entries es) → Spells ys (.entry k v) →
      Spells (xs ++ ',' :: ys) (.entries (Entries.put k v es))

/-! ### Words -/

theorem atom?_eq_some_iff {cs : List Char} {v : Json} : atom? cs = some v ↔ SpellsWord cs v := by
  constructor
  · intro h
    rw [atom?] at h
    split at h
    · next hcs =>
      cases h
      exact hcs ▸ .null
    split at h
    · next hcs =>
      cases h
      exact hcs ▸ .yes
    split at h
    · next hcs =>
      cases h
      exact hcs ▸ .no
    · obtain ⟨n, hn, rfl⟩ := Option.map_eq_some_iff.mp h
      exact .number (Number.read?_eq_some_iff.mp hn)
  · intro h
    cases h with
    | null | yes | no => rfl
    | @number _ n hcs =>
      have hread := Number.read?_eq_some_iff.mpr hcs
      have hne : ∀ {word : String}, Number.read? word.toList = none → cs ≠ word.toList := by
        rintro word hnone rfl
        cases hnone.symm.trans hread
      rw [atom?, if_neg (hne rfl), if_neg (hne rfl), if_neg (hne rfl), hread, Option.map_some]

theorem SpellsWord.isWord {cs : List Char} {v : Json} (h : SpellsWord cs v) :
    cs ≠ [] ∧ ∀ c ∈ cs, isWordChar c = true := by
  cases h with
  | null | yes | no => exact ⟨by decide, List.all_eq_true.mp rfl⟩
  | number hcs => exact hcs.isWord

/-- The scanner is in a word as long as characters of words follow. -/
theorem run_word {cs w : List Char} (h : ∀ c ∈ cs, isWordChar c = true) :
    scanner.run (.word w) cs = some ([], .word (cs.reverse ++ w)) := by
  induction cs generalizing w with
  | nil => rfl
  | cons c cs ih =>
    obtain ⟨hc, hcs⟩ := List.forall_mem_cons.mp h
    have hstep : step (.word w) c = some ([], .word (c :: w)) := by rw [step, if_pos hc]
    rw [List.reverse_cons, List.append_assoc]
    exact run_cons_of_some hstep (ih hcs)

theorem begin?_word {c : Char} (h : isWordChar c = true) : begin? c = some ([], .word [c]) := by
  have hseparator : isSeparator c = false := by
    by_contra hc
    simp only [isSeparator, Bool.not_eq_false, Bool.or_eq_true, decide_eq_true_eq] at hc
    rcases hc with ((rfl | rfl) | rfl) | rfl <;> cases h
  rw [begin?, hseparator, if_neg Bool.false_ne_true, if_pos h]

theorem SpellsWord.run {cs : List Char} {v : Json} (h : SpellsWord cs v) :
    scanner.run .between cs = some ([], .word cs.reverse) := by
  obtain ⟨hne, hcs⟩ := h.isWord
  cases cs with
  | nil => exact absurd rfl hne
  | cons c cs =>
    obtain ⟨hc, hcs⟩ := List.forall_mem_cons.mp hcs
    have hstep : step .between c = some ([], .word [c]) := begin?_word hc
    rw [List.reverse_cons]
    exact run_cons_of_some hstep (run_word hcs)

/-! ### Texts between quotes -/

theorem run_snoc_of_some {m m' m'' : Mode} {xs : List Char} {ts us : List Token} {c : Char}
    (hx : scanner.run m xs = some (ts, m')) (hc : step m' c = some (us, m'')) :
    scanner.run m (xs ++ [c]) = some (ts ++ us, m'') := by
  have hlast := run_cons_of_some hc (Text.Scanner.run.eq_1 scanner m'')
  rw [List.append_nil] at hlast
  exact run_append_of_some hx hlast

theorem SpellsHex.run {ds : List Char} {u : Nat} (h : SpellsHex ds u) (hds : ds.length ≤ 3)
    (a : Text.Assembly) : scanner.run (.unit a 0 0) ds = some ([], .unit a ds.length u) := by
  induction h with
  | nil => rfl
  | @snoc cs n d c hcs hd ih =>
    rw [List.length_append, List.length_singleton] at hds ⊢
    have hstep :
        step (.unit a cs.length n) c = some ([], .unit a (cs.length + 1) (16 * n + d)) := by
      simp [step, hd, Nat.lt_of_succ_le hds]
    exact run_snoc_of_some (ih (Nat.le_of_succ_le hds)) hstep

theorem SpellsHex.run_four {ds : List Char} {u : Nat} (h : SpellsHex ds u) (hds : ds.length = 4)
    (a : Text.Assembly) :
    scanner.run (.unit a 0 0) ds = some ([], .quoted (a.pushUnit u)) := by
  cases h with
  | nil => cases hds
  | @snoc cs n d c hcs hd =>
    have hlength : cs.length = 3 := by
      rwa [List.length_append, List.length_singleton, Nat.add_right_cancel_iff] at hds
    have hrun := hcs.run hlength.le a
    rw [hlength] at hrun
    exact run_snoc_of_some hrun (by simp [step, hd])

theorem SpellsContents.run {cs : List Char} {a : Text.Assembly} (h : SpellsContents cs a) :
    scanner.run (.quoted .empty) cs = some ([], .quoted a) := by
  induction h with
  | empty => rfl
  | @plain cs a c _ hquote hslash hprintable ih =>
    refine run_snoc_of_some ih ?_
    rw [step, if_neg hquote, if_neg hslash, if_neg (Nat.not_lt.mpr hprintable)]
  | @escape cs a c c' _ hc ih =>
    have hslash : step (.quoted a) '\\' = some ([], .escaped a) := rfl
    have hne : c ≠ 'u' := by
      rintro rfl
      cases hc
    have hescape : step (.escaped a) c = some ([], .quoted (a.push c')) := by
      rw [step, if_neg hne, hc, Option.map_some]
    exact run_append_of_some ih (run_cons_of_some hslash (run_cons_of_some hescape rfl))
  | @unit cs ds a u _ hlength hds ih =>
    have hslash : step (.quoted a) '\\' = some ([], .escaped a) := rfl
    have hmark : step (.escaped a) 'u' = some ([], .unit a 0 0) := rfl
    exact run_append_of_some ih
      (run_cons_of_some hslash (run_cons_of_some hmark (hds.run_four hlength a)))

theorem SpellsContents.run_quoted {cs : List Char} {a : Text.Assembly} (h : SpellsContents cs a) :
    scanner.run .between ('"' :: (cs ++ ['"'])) = some ([.text a.finish], .between) := by
  have hopen : step .between '"' = some ([], .quoted .empty) := rfl
  have hclose : step (.quoted a) '"' = some ([.text a.finish], .between) := rfl
  exact run_cons_of_some hopen (run_snoc_of_some h.run hclose)

namespace Reader

/-! ### Reading on -/

/-- The state that the reader ends in, from between the characters of a text to its end. -/
def rest? (m : Mode) (st : State) (cs : List Char) : Option State :=
  (scanner.run m cs).bind fun r => (finish r.2).bind fun ts => (r.1 ++ ts).foldlM step st

/-- No word goes on. -/
def IsFresh (cs : List Char) : Prop := ∀ c ∈ cs.head?, isWordChar c = false

theorem IsFresh.gap {xs ys : List Char} (hx : IsGap xs) (hy : IsFresh ys) : IsFresh (xs ++ ys) := by
  cases xs with
  | nil => exact hy
  | cons c xs =>
    intro c' hc'
    cases hc'
    refine Bool.eq_false_iff.mpr fun hword => ?_
    have hbegin := begin?_word hword
    rw [Token.begin?, if_pos (hx c List.mem_cons_self)] at hbegin
    cases hbegin

variable {m m' : Mode} {st st' st'' : State} {xs ys cs : List Char} {ts : List Token} {t : Token}

theorem rest?_append (hx : scanner.run m xs = some (ts, m')) (h : ts.foldlM step st = some st') :
    rest? m st (xs ++ ys) = rest? m' st' ys := by
  rw [rest?, rest?, Text.Scanner.run_append, hx, Option.bind_some]
  cases scanner.run m' ys with
  | none => rfl
  | some r => simp [List.foldlM_append, h]

theorem rest?_token (hx : scanner.run .between xs = some ([t], .between))
    (h : step st t = some st') : rest? .between st (xs ++ ys) = rest? .between st' ys :=
  rest?_append hx (by simp [h])

theorem rest?_gap (hx : IsGap xs) : rest? .between st (xs ++ ys) = rest? .between st ys := by
  induction xs with
  | nil => rfl
  | cons c xs ih =>
    obtain ⟨hc, hxs⟩ := List.forall_mem_cons.mp hx
    have hstep : Token.step .between c = some ([], .between) := by
      rw [Token.step, Token.begin?, if_pos hc]
    have hrun := run_cons_of_some hstep (Text.Scanner.run.eq_1 scanner .between)
    rw [List.cons_append, ← List.singleton_append, rest?_append hrun rfl]
    exact ih hxs

/-- A word ends where the rest begins afresh. -/
theorem rest?_word {w : List Char} {v : Json} (hw : atom? w.reverse = some v)
    (h : step st (.atom v) = some st') (hr : IsFresh ys) :
    rest? (.word w) st ys = rest? .between st' ys := by
  cases ys with
  | nil =>
    simp [rest?, Text.Scanner.run, finish, hw, h]
  | cons c ys =>
    have hstep : scanner.step (.word w) c =
        (Token.begin? c).map fun r => (.atom v :: r.1, r.2) := by
      change Token.step (.word w) c = _
      rw [Token.step, hr c rfl, if_neg Bool.false_ne_true, hw]
      cases Token.begin? c <;> rfl
    have hbetween : scanner.step .between c = Token.begin? c := rfl
    rw [rest?, rest?, Text.Scanner.run_cons, Text.Scanner.run_cons, hstep, hbetween]
    cases Token.begin? c with
    | none => rfl
    | some r =>
      cases hrun : scanner.run r.2 ys with
      | none => simp [hrun]
      | some r' => simp [hrun, h]

/-- **Reading on.** Whatever comes behind the text, the reader gets over the text from the one state
to the other. -/
def Passes (xs : List Char) (st st' : State) : Prop :=
  ∀ ys, IsFresh ys → rest? .between st (xs ++ ys) = rest? .between st' ys

theorem passes_gap (hx : IsGap xs) (st : State) : Passes xs st st := fun _ _ => rest?_gap hx

theorem passes_token (hx : scanner.run .between xs = some ([t], .between))
    (h : step st t = some st') : Passes xs st st' := fun _ _ => rest?_token hx h

theorem passes_word {v : Json} (hx : SpellsWord xs v) (h : step st (.atom v) = some st') :
    Passes xs st st' := by
  intro ys hys
  rw [rest?_append hx.run rfl]
  refine rest?_word ?_ h hys
  rw [List.reverse_reverse]
  exact atom?_eq_some_iff.mpr hx

/-- A piece, a mark and another piece. -/
theorem Passes.mark {c : Char} (hx : Passes xs st st')
    (hc : scanner.run .between [c] = some ([t], .between)) (hfresh : isWordChar c = false)
    {st₁ st₂ : State} (h : step st' t = some st₁) (hy : Passes ys st₁ st₂) :
    Passes (xs ++ c :: ys) st st₂ := by
  intro zs hzs
  have hc' : IsFresh (c :: (ys ++ zs)) := by
    intro c' hc'
    cases hc'
    exact hfresh
  rw [List.append_assoc, List.cons_append, hx _ hc', ← List.singleton_append, rest?_token hc h]
  exact hy zs hzs

/-- A piece between two marks. -/
theorem Passes.enclosed {c d : Char} {t u : Token} {st₁ st₂ st₃ : State}
    (hc : scanner.run .between [c] = some ([t], .between))
    (hd : scanner.run .between [d] = some ([u], .between)) (hfresh : isWordChar d = false)
    (hst : step st t = some st₁) (hx : Passes xs st₁ st₂) (hst' : step st₂ u = some st₃) :
    Passes (c :: (xs ++ [d])) st st₃ := by
  intro zs hzs
  have hd' : IsFresh (d :: zs) := by
    intro c' hc'
    cases hc'
    exact hfresh
  rw [List.cons_append, ← List.singleton_append, rest?_token hc hst, List.append_assoc,
    List.singleton_append, hx _ hd', ← List.singleton_append]
  exact rest?_token hd hst'

/-! ### Phrases -/

section

variable {fs : List Frame} (hst : Awaits st fs)

include hst

theorem Awaits.atom (v : Json) : step st (.atom v) = some (complete v fs) := hst _ (by simp)

theorem Awaits.text (s : Text.Wide) : step st (.text s) = some (complete (.string s.shown) fs) :=
  hst _ (by simp)

theorem Awaits.openBracket : step st .openBracket = some (.firstItem fs) := hst _ (by simp)

theorem Awaits.openBrace : step st .openBrace = some (.firstKey fs) := hst _ (by simp)

end

/-- The reader waits for a key. -/
def AwaitsKey (st : State) (done : List (Text.Wide × Json)) (fs : List Frame) : Prop :=
  ∀ k, step st (.text k) = some (.colon done k fs)

/-- The state that the reader is in before the phrase, and the state after it. -/
def Takes : Phrase → State → State → Prop
  | .value v, st, st' => ∃ fs, Awaits st fs ∧ st' = complete v fs
  | .text s, st, st' => step st (.text s) = some st'
  | .items vs, st, st' => ∃ fs, Awaits st (.items [] :: fs) ∧ st' = .afterItem vs.reverse fs
  | .entry k v, st, st' => ∃ done fs, AwaitsKey st done fs ∧
      st' = .afterEntry (Entries.put k v done) fs
  | .entries es, st, st' => ∃ fs, AwaitsKey st [] fs ∧ st' = .afterEntry es fs

end Reader

open Reader

/-- **What spells a phrase leads the reader over it.** -/
theorem Spells.passes {cs : List Char} {p : Phrase} (h : Spells cs p) {st st' : State}
    (hp : Takes p st st') : Passes cs st st' := by
  induction h generalizing st st' with
  | between hxs _ hzs ih =>
    intro rs hrs
    rw [List.append_assoc, List.append_assoc, rest?_gap hxs, ih hp _ (hrs.gap hzs), rest?_gap hzs]
  | word hcs =>
    obtain ⟨fs, hst, rfl⟩ := hp
    exact passes_word hcs (hst.atom _)
  | quoted hcs => exact passes_token hcs.run_quoted hp
  | string _ ih =>
    obtain ⟨fs, hst, rfl⟩ := hp
    exact ih (hst.text _)
  | emptyArray hcs =>
    obtain ⟨fs, hst, rfl⟩ := hp
    exact .enclosed rfl rfl rfl hst.openBracket (passes_gap hcs (.firstItem fs)) rfl
  | @array cs vs _ ih =>
    obtain ⟨fs, hst, rfl⟩ := hp
    have hitems := ih ⟨fs, awaits_firstItem fs, rfl⟩
    refine .enclosed rfl rfl rfl hst.openBracket hitems ?_
    rw [Reader.step, List.reverse_reverse]
  | item _ ih =>
    obtain ⟨fs, hst, rfl⟩ := hp
    exact ih ⟨_, hst, rfl⟩
  | @items xs ys vs v _ _ ih ih' =>
    obtain ⟨fs, hst, rfl⟩ := hp
    rw [List.reverse_append, List.reverse_singleton, List.singleton_append]
    exact (ih ⟨fs, hst, rfl⟩).mark rfl rfl rfl
      (ih' ⟨.items vs.reverse :: fs, awaits_value _, rfl⟩)
  | emptyObject hcs =>
    obtain ⟨fs, hst, rfl⟩ := hp
    exact .enclosed rfl rfl rfl hst.openBrace (passes_gap hcs (.firstKey fs)) rfl
  | @object cs es _ ih =>
    obtain ⟨fs, hst, rfl⟩ := hp
    have hkey : AwaitsKey (.firstKey fs) [] fs := fun _ => rfl
    have hentries := ih ⟨fs, hkey, rfl⟩
    exact .enclosed rfl rfl rfl hst.openBrace hentries rfl
  | @entry xs ys k v _ _ ih ih' =>
    obtain ⟨done, fs, hst, rfl⟩ := hp
    exact (ih (hst k)).mark rfl rfl rfl (ih' ⟨.entries done k :: fs, awaits_value _, rfl⟩)
  | single _ ih =>
    obtain ⟨fs, hst, rfl⟩ := hp
    exact ih ⟨[], fs, hst, rfl⟩
  | @entries xs ys es k v _ _ ih ih' =>
    obtain ⟨fs, hst, rfl⟩ := hp
    have hkey : AwaitsKey (.key es fs) es fs := fun _ => rfl
    exact (ih ⟨fs, hst, rfl⟩).mark rfl rfl rfl (ih' ⟨es, fs, hkey, rfl⟩)

/-- **What spells a value is read as that value.** -/
theorem Spells.read?_eq_some {cs : List Char} {v : Json} (h : Spells cs (.value v)) :
    read? cs = some v := by
  have hpasses := h.passes ⟨[], awaits_value [], rfl⟩ [] nofun
  rw [List.append_nil] at hpasses
  have hend : rest? .between (complete v []) [] = some (.finished v) := rfl
  rw [hend, rest?] at hpasses
  obtain ⟨⟨ts, m⟩, hrun, hpasses⟩ := Option.bind_eq_some_iff.mp hpasses
  obtain ⟨us, hfinish, hfold⟩ := Option.bind_eq_some_iff.mp hpasses
  have htokens : scanner.tokens cs = some (ts ++ us) := by
    have hrun' : scanner.run scanner.start cs = some (ts, m) := hrun
    have hfinish' : scanner.finish m = some us := hfinish
    rw [Text.Scanner.tokens_eq, hrun', Option.bind_some, hfinish', Option.map_some]
  rw [read?, htokens, Option.bind_some, ofTokens?, hfold]
  rfl

end QueryComposer.Json
