import Mathlib.Data.List.Forall2
import Mathlib.Data.List.Nodup
import QueryComposer.Proofs.Sql.Indents
import QueryComposer.Proofs.Sql.Wording

/-!
# Texts that tell what is in them

No statement stores where its pieces end. Still a piece can be told from what stands behind it,
since that begins in a way in which the piece cannot go on: a name ends before a character that no
name has, a literal before the first quote that has no partner, and a clause that may be left out
before a word that begins another one.

To show this of two layouts at once, they are read side by side. `Tells` says that two pieces can be
the beginnings of the same text only if they agree in what they show, and that what stands behind
them is then the same as well. The second half is what makes it compose.

## Main definitions

* `Tells` reads two texts side by side.
* `StopsAt` and `Follows` say what may stand behind a piece: no character of a class, and a line end
  or the end of the statement before one of some words.
* `IsLine` and `Opens` say what a clause begins with, if it is there.

## Main results

* `Tells.append` and `Tells.flatMap`: pieces one behind the other, and chains of them.
* `Tells.span`: a run of characters of a class is told where the class stops.
* `Opens.tells` and `Tells.lines`: clauses are told by the words that they begin with.
* `HasPairedQuotes.tells_literal`: a literal is told where no quote follows.
-/

namespace QueryComposer.Sql

open Token

/-- Two lists whose elements agree pairwise in what is read off them. -/
theorem map_eq_of_forall₂ {α β : Type} {k : α → β} {l l' : List α}
    (h : List.Forall₂ (fun a b => k a = k b) l l') : l.map k = l'.map k := by
  induction h with
  | nil => rfl
  | cons h _ ih => rw [List.map_cons, List.map_cons, h, ih]

/-- With something behind each that may stand there, the two texts are the same only if the
proposition holds, and then the same stands behind both. -/
def Tells (B : List Char → Prop) (xs ys : List Char) (P : Prop) : Prop :=
  ∀ r s, B r → B s → xs ++ r = ys ++ s → P ∧ r = s

namespace Tells

variable {A B : List Char → Prop} {xs xs' ys ys' : List Char} {P Q : Prop}

theorem refl (B : List Char → Prop) (xs : List Char) : Tells B xs xs True :=
  fun _ _ _ _ h => ⟨trivial, List.append_cancel_left h⟩

theorem of_ne (h : ∀ r s, B r → B s → xs ++ r ≠ ys ++ s) : Tells B xs ys P :=
  fun r s hr hs heq => absurd heq (h r s hr hs)

theorem symm (h : Tells B xs ys P) : Tells B ys xs P := by
  intro r s hr hs heq
  obtain ⟨hP, hrs⟩ := h s r hs hr heq.symm
  exact ⟨hP, hrs.symm⟩

theorem imp (h : Tells B xs ys P) (hPQ : P → Q) : Tells B xs ys Q :=
  fun r s hr hs heq => (h r s hr hs heq).imp_left hPQ

theorem before (h : Tells A xs ys P) (hBA : ∀ r, B r → A r) : Tells B xs ys P :=
  fun r s hr hs heq => h r s (hBA r hr) (hBA s hs) heq

/-- What is seen at the beginning may be used from there on. -/
theorem learn (hP : ∀ r s, xs ++ r = ys ++ s → P) (h : P → Tells B xs ys Q) : Tells B xs ys Q :=
  fun r s hr hs heq => h (hP r s heq) r s hr hs heq

/-- Pieces one behind the other. The second pair is read with what the first has told. -/
theorem append (hx : Tells A xs ys P) (hxs : ∀ r, B r → A (xs' ++ r))
    (hys : ∀ r, B r → A (ys' ++ r)) (hrest : P → Tells B xs' ys' Q) :
    Tells B (xs ++ xs') (ys ++ ys') (P ∧ Q) := by
  intro r s hr hs heq
  rw [List.append_assoc, List.append_assoc] at heq
  obtain ⟨hP, hmiddle⟩ := hx _ _ (hxs r hr) (hys s hs) heq
  obtain ⟨hQ, hrs⟩ := hrest hP r s hr hs hmiddle
  exact ⟨⟨hP, hQ⟩, hrs⟩

/-- Behind a text that both begin with. -/
theorem append_left (zs : List Char) (h : Tells B xs ys P) : Tells B (zs ++ xs) (zs ++ ys) P := by
  intro r s hr hs heq
  rw [List.append_assoc, List.append_assoc] at heq
  exact h r s hr hs (List.append_cancel_left heq)

/-- Before a text that both end with. Then anything may stand behind. -/
theorem append_right (zs : List Char) (h : Tells A xs ys P) (hzs : ∀ r, A (zs ++ r)) :
    Tells (fun _ => True) (xs ++ zs) (ys ++ zs) P :=
  (h.append (fun r _ => hzs r) (fun r _ => hzs r) fun _ => refl _ zs).imp And.left

/-- Pieces with a text between them that stands on both sides. -/
theorem between (zs : List Char) (hx : Tells A xs ys P) (hzs : ∀ r, A (zs ++ r))
    (hrest : Tells B xs' ys' Q) : Tells B (xs ++ zs ++ xs') (ys ++ zs ++ ys') (P ∧ Q) :=
  (hx.append_right zs hzs).append (fun _ _ => trivial) (fun _ _ => trivial) fun _ => hrest

theorem append_cons (c : Char) (hx : Tells A xs ys P) (hc : ∀ r, A (c :: r))
    (hrest : Tells B xs' ys' Q) : Tells B (xs ++ c :: xs') (ys ++ c :: ys') (P ∧ Q) :=
  hx.append (fun _ _ => hc _) (fun _ _ => hc _) fun _ => hrest.append_left [c]

variable {α : Type} {f g : α → List Char} {R : α → α → Prop} {l l' : List α}

/-- What may stand behind a piece of a chain: the next piece, or what stands behind the chain. -/
theorem follows_flatMap (hend : ∀ r, B r → A r) (hf : ∀ a ∈ l, ∀ r, A (f a ++ r)) (r : List Char)
    (hr : B r) : A (l.flatMap f ++ r) := by
  cases l with
  | nil => exact hend r hr
  | cons a l =>
    rw [List.flatMap_cons, List.append_assoc]
    exact hf a List.mem_cons_self _

/-- Chains of pieces. What stands behind a chain does not begin as a piece of it does. -/
theorem flatMap (hend : ∀ r, B r → A r) (hf : ∀ a ∈ l, ∀ r, A (f a ++ r) ∧ ¬B (f a ++ r))
    (hg : ∀ b ∈ l', ∀ r, A (g b ++ r) ∧ ¬B (g b ++ r))
    (h : ∀ a ∈ l, ∀ b ∈ l', Tells A (f a) (g b) (R a b)) :
    Tells B (l.flatMap f) (l'.flatMap g) (List.Forall₂ R l l') := by
  -- A chain that is over is told from one that goes on by what comes next.
  have hne : ∀ {k : α → List Char} {a : α} {m : List α} {P : Prop},
      (∀ r, A (k a ++ r) ∧ ¬B (k a ++ r)) → Tells B [] ((a :: m).flatMap k) P := by
    intro k a m P hk
    refine of_ne fun r s hr _ heq => ?_
    rw [List.nil_append, List.flatMap_cons, List.append_assoc] at heq
    rw [heq] at hr
    exact (hk _).2 hr
  induction l generalizing l' with
  | nil =>
    cases l' with
    | nil => exact (refl B []).imp fun _ => .nil
    | cons b l' => exact hne (hg b List.mem_cons_self)
  | cons a l ih =>
    cases l' with
    | nil => exact (hne (hf a List.mem_cons_self)).symm
    | cons b l' =>
      have hf' := fun c hc => hf c (List.mem_cons_of_mem a hc)
      have hg' := fun c hc => hg c (List.mem_cons_of_mem b hc)
      have hrest := ih hf' hg' fun c hc d hd =>
        h c (List.mem_cons_of_mem a hc) d (List.mem_cons_of_mem b hd)
      have hfirst := h a List.mem_cons_self b List.mem_cons_self
      have hboth := hfirst.append (follows_flatMap hend fun c hc r => (hf' c hc r).1)
        (follows_flatMap hend fun c hc r => (hg' c hc r).1) fun _ => hrest
      exact hboth.imp fun h => .cons h.1 h.2

theorem intercalate_cons (sep xs : List Char) (l : List (List Char)) :
    List.intercalate sep (xs :: l) = xs ++ l.flatMap fun ys => sep ++ ys := by
  induction l generalizing xs with
  | nil => simp
  | cons ys l ih =>
    rw [List.intercalate_cons_cons, ih, List.flatMap_cons]
    simp only [List.append_assoc]

/-- Pieces with separators between them. What stands behind them does not begin with one. -/
theorem intercalate (sep : List Char) (hl : l ≠ []) (hl' : l' ≠ []) (hend : ∀ r, B r → A r)
    (hsep : ∀ r, A (sep ++ r) ∧ ¬B (sep ++ r))
    (h : ∀ a ∈ l, ∀ b ∈ l', Tells A (f a) (f b) (R a b)) :
    Tells B (List.intercalate sep (l.map f)) (List.intercalate sep (l'.map f))
      (List.Forall₂ R l l') := by
  obtain ⟨a, l, rfl⟩ := List.exists_cons_of_ne_nil hl
  obtain ⟨b, l', rfl⟩ := List.exists_cons_of_ne_nil hl'
  have hsep' : ∀ (m : List α), ∀ c ∈ m, ∀ r, A (sep ++ f c ++ r) ∧ ¬B (sep ++ f c ++ r) := by
    intro m c _ r
    rw [List.append_assoc]
    exact hsep _
  have hrest := flatMap hend (hsep' l) (hsep' l') fun c hc d hd =>
    (h c (List.mem_cons_of_mem a hc) d (List.mem_cons_of_mem b hd)).append_left sep
  have hfirst := h a List.mem_cons_self b List.mem_cons_self
  have hboth := hfirst.append (follows_flatMap hend fun c hc r => (hsep' l c hc r).1)
    (follows_flatMap hend fun c hc r => (hsep' l' c hc r).1) fun _ => hrest
  rw [List.map_cons, List.map_cons, intercalate_cons, intercalate_cons, List.flatMap_map,
    List.flatMap_map]
  exact hboth.imp fun h => .cons h.1 h.2

end Tells

/-! ### Runs of a class of characters -/

/-- The text does not begin with a character of the class. -/
def StopsAt (p : Char → Bool) (r : List Char) : Prop := ∀ c ∈ r.head?, p c = false

variable {p : Char → Bool} {xs ys r : List Char}

theorem stopsAt_cons {c : Char} (h : p c = false) (r : List Char) : StopsAt p (c :: r) := by
  simpa [StopsAt] using h

theorem takeWhile_append_of_stopsAt (hx : ∀ c ∈ xs, p c = true) (hr : StopsAt p r) :
    (xs ++ r).takeWhile p = xs := by
  rw [List.takeWhile_append_of_pos hx]
  cases r with
  | nil => simp
  | cons c r =>
    have hc : p c = false := hr c rfl
    simp [hc]

theorem Tells.span (hx : ∀ c ∈ xs, p c = true) (hy : ∀ c ∈ ys, p c = true) :
    Tells (StopsAt p) xs ys (xs = ys) := by
  intro r s hr hs heq
  have htake := congrArg (List.takeWhile p) heq
  rw [takeWhile_append_of_stopsAt hx hr, takeWhile_append_of_stopsAt hy hs] at htake
  subst htake
  exact ⟨rfl, List.append_cancel_left heq⟩

/-- Pieces with commas between them, told where neither a piece nor the list goes on. -/
theorem Tells.commaList {α : Type} {f : α → List Char} {R : α → α → Prop} {l l' : List α}
    (hp : p ',' = false) (hl : l ≠ []) (hl' : l' ≠ [])
    (h : ∀ a ∈ l, ∀ b ∈ l', Tells (StopsAt p) (f a) (f b) (R a b)) :
    Tells (StopsAt fun c => p c || c = ',') (commaList (l.map f)) (commaList (l'.map f))
      (List.Forall₂ R l l') := by
  refine .intercalate ", ".toList hl hl' (fun r hr c hc => ?_) (fun r => ⟨stopsAt_cons hp _, ?_⟩) h
  · exact (Bool.or_eq_false_iff.mp (hr c hc)).1
  · exact fun h => absurd (h ',' rfl) (by simp)

/-! ### The next word -/

/-- The word that the text begins with, after blanks. -/
def nextWord (r : List Char) : List Char := (r.dropWhile Text.isBlank).takeWhile isWordChar

theorem nextWord_newLine_append (level : Int) (r : List Char) :
    nextWord (newLine level ++ r) = nextWord r := by
  rw [nextWord, newLine, List.cons_append, List.dropWhile_cons_of_pos (by decide),
    dropWhile_indent, nextWord]

theorem IsIdentifier.nextWord_append (hx : IsIdentifier xs) (hr : StopsAt isWordChar r) :
    nextWord (xs ++ r) = xs := by
  obtain ⟨c, rest, hstart, rfl⟩ := hx.exists_eq_cons
  have hblank : ¬Text.isBlank c = true := by simp [isBlank_of_isWordStart hstart]
  rw [nextWord, List.cons_append, List.dropWhile_cons_of_neg hblank, ← List.cons_append,
    takeWhile_append_of_stopsAt hx.chars hr]

/-- The characters inside a line of a statement. -/
def isInLine (c : Char) : Bool := c ≠ '\n' && c ≠ ';'

/-- The line or the statement ends, and one of the words comes next. -/
structure Follows (words : List (List Char)) (r : List Char) : Prop where
  stops : StopsAt isInLine r
  word : nextWord r ∈ words

theorem follows_newLine_append {words : List (List Char)} (level : Int)
    (h : nextWord r ∈ words) : Follows words (newLine level ++ r) :=
  ⟨stopsAt_cons (by decide) _, by rwa [nextWord_newLine_append]⟩

theorem Follows.mono {words words' : List (List Char)} (h : Follows words r)
    (hw : words ⊆ words') : Follows words' r :=
  ⟨h.stops, hw h.word⟩

/-- A line that begins with the word. -/
def IsLine (word xs : List Char) : Prop :=
  ∃ level rest, xs = newLine level ++ rest ∧ ∀ r, nextWord (rest ++ r) = word

section Lines

variable {word : List Char} {words : List (List Char)} {P : Prop}

theorem IsLine.stopsAt (h : IsLine word xs) (r : List Char) : StopsAt isInLine (xs ++ r) := by
  obtain ⟨level, rest, rfl, -⟩ := h
  exact stopsAt_cons (by decide) _

theorem IsLine.nextWord_append (h : IsLine word xs) (r : List Char) :
    nextWord (xs ++ r) = word := by
  obtain ⟨level, rest, rfl, hword⟩ := h
  rw [List.append_assoc, nextWord_newLine_append, hword]

theorem IsLine.not_follows (h : IsLine word xs) (hword : word ∉ words) (r : List Char) :
    ¬Follows words (xs ++ r) :=
  fun hr => hword (h.nextWord_append r ▸ hr.word)

/-- A clause that may be left out: nothing, or a line that begins with the word. -/
def Opens (word xs : List Char) : Prop := xs = [] ∨ IsLine word xs

theorem Opens.follows (hx : Opens word xs) (hr : Follows words r) :
    Follows (word :: words) (xs ++ r) := by
  rcases hx with rfl | h
  · exact hr.mono (List.subset_cons_self _ _)
  · exact ⟨h.stopsAt r, h.nextWord_append r ▸ List.mem_cons_self⟩

/-- A clause that is left out on one side only is told by its word. -/
theorem IsLine.tells_nil (h : IsLine word ys) (hword : word ∉ words) :
    Tells (Follows words) [] ys P :=
  .of_ne fun _ s hr _ heq => h.not_follows hword s (heq ▸ hr)

theorem Opens.tells (hx : Opens word xs) (hy : Opens word ys) (hword : word ∉ words)
    (hnone : xs = [] → ys = [] → P)
    (hboth : xs ≠ [] → ys ≠ [] → Tells (Follows words) xs ys P) :
    Tells (Follows words) xs ys P := by
  by_cases hxs : xs = []
  · by_cases hys : ys = []
    · rw [hxs, hys]
      exact (Tells.refl _ []).imp fun _ => hnone hxs hys
    · rw [hxs]
      exact (hy.resolve_left hys).tells_nil hword
  · by_cases hys : ys = []
    · rw [hys]
      exact ((hx.resolve_left hxs).tells_nil hword).symm
    · exact hboth hxs hys

variable {α : Type} {f g w : α → List Char} {R : α → α → Prop} {l l' : List α}

theorem stopsAt_lines (hf : ∀ a, IsLine (w a) (f a)) (hr : Follows words r) :
    StopsAt isInLine (l.flatMap f ++ r) :=
  Tells.follows_flatMap (B := Follows words) (fun _ hr => hr.stops) (fun a _ => (hf a).stopsAt) r hr

/-- Chains of lines, told from what comes next by the words that they begin with. -/
theorem Tells.lines (hf : ∀ a, IsLine (w a) (f a)) (hg : ∀ a, IsLine (w a) (g a))
    (hw : ∀ a, w a ∉ words)
    (h : ∀ a ∈ l, ∀ b ∈ l', Tells (StopsAt isInLine) (f a) (g b) (R a b)) :
    Tells (Follows words) (l.flatMap f) (l'.flatMap g) (List.Forall₂ R l l') :=
  .flatMap (fun _ hr => hr.stops) (fun a _ r => ⟨(hf a).stopsAt r, (hf a).not_follows (hw a) r⟩)
    (fun a _ r => ⟨(hg a).stopsAt r, (hg a).not_follows (hw a) r⟩) h

end Lines

/-- A class without the two characters that end a line or a statement stops there. -/
theorem StopsAt.of_inLine (h : StopsAt isInLine r) (hline : p '\n' = false)
    (hend : p ';' = false) : StopsAt p r := by
  intro c hc
  have hin := h c hc
  by_cases hn : c = '\n'
  · rw [hn, hline]
  · have hs : c = ';' := by simpa [isInLine, hn] using hin
    rw [hs, hend]

/-! ### Names -/

/-- The characters of names, points included. -/
def isNameChar (c : Char) : Bool := isWordChar c || c = '.'

theorem IsName.isNameChar (h : IsName xs) : ∀ c ∈ xs, isNameChar c = true := by
  obtain ⟨x, l, hall, rfl⟩ := h
  have hword : ∀ y ∈ x :: l, ∀ c ∈ y, Sql.isNameChar c = true := by
    intro y hy c hc
    rw [Sql.isNameChar, (hall y hy).chars c hc, Bool.true_or]
  intro c hc
  rcases List.mem_append.mp hc with hc | hc
  · exact hword x List.mem_cons_self c hc
  · obtain ⟨y, hy, hc⟩ := List.mem_flatMap.mp hc
    rcases List.mem_cons.mp hc with rfl | hc
    · rfl
    · exact hword y (List.mem_cons_of_mem x hy) c hc

theorem IsName.tells (hx : IsName xs) (hy : IsName ys) :
    Tells (StopsAt Sql.isNameChar) xs ys (xs = ys) :=
  .span hx.isNameChar hy.isNameChar

/-- A name begins with an identifier. -/
theorem IsName.exists_nextWord (h : IsName xs) :
    ∃ x, IsIdentifier x ∧ ∀ r, nextWord (xs ++ ' ' :: r) = x := by
  obtain ⟨x, l, hall, rfl⟩ := h
  have hx := hall x List.mem_cons_self
  refine ⟨x, hx, fun r => ?_⟩
  rw [dotted, List.append_assoc]
  refine hx.nextWord_append ?_
  cases l with
  | nil => exact stopsAt_cons (by decide) _
  | cons y l => exact stopsAt_cons (by decide) _

/-- A name at the end of a text is told where a space stands before it. -/
theorem IsName.append_inj {name name' : List Char} (h : IsName name) (h' : IsName name')
    (heq : xs ++ ' ' :: name = ys ++ ' ' :: name') : xs = ys ∧ name = name' := by
  -- Read from the end, the name is a run that stops at the space.
  have hreverse : name.reverse ++ ' ' :: xs.reverse = name'.reverse ++ ' ' :: ys.reverse := by
    simpa using congrArg List.reverse heq
  have hchars : ∀ {n}, IsName n → ∀ c ∈ n.reverse, Sql.isNameChar c = true :=
    fun hn c hc => hn.isNameChar c (List.mem_reverse.mp hc)
  have htells := Tells.span (hchars h) (hchars h')
  obtain ⟨hname, hrest⟩ := htells _ _ (stopsAt_cons (by decide) _) (stopsAt_cons (by decide) _)
    hreverse
  exact ⟨List.reverse_inj.mp (List.cons.inj hrest).2, List.reverse_inj.mp hname⟩

theorem IsIdentifier.tells (hx : IsIdentifier xs) (hy : IsIdentifier ys) :
    Tells (StopsAt isWordChar) xs ys (xs = ys) :=
  .span hx.chars hy.chars

theorem IsName.isTable (h : IsName xs) : IsTable xs := ⟨xs, h, .inl rfl⟩

/-- The characters of a name and of what may stand behind it. -/
def isTableChar (c : Char) : Bool := isNameChar c || c = ' '

theorem IsTable.isTableChar (h : IsTable xs) : ∀ c ∈ xs, isTableChar c = true := by
  obtain ⟨name, hname, hxs⟩ := h
  have hchars : ∀ c ∈ name, Sql.isTableChar c = true :=
    fun c hc => by rw [Sql.isTableChar, hname.isNameChar c hc, Bool.true_or]
  have hword : ∀ {y}, IsIdentifier y → ∀ c ∈ y, Sql.isTableChar c = true :=
    fun hy c hc => by rw [Sql.isTableChar, isNameChar, hy.chars c hc, Bool.true_or, Bool.true_or]
  rcases hxs with rfl | ⟨y, hy, rfl | rfl⟩
  · exact hchars
  · intro c hc
    rcases List.mem_append.mp hc with hc | hc
    · exact hchars c hc
    · rcases List.mem_cons.mp hc with rfl | hc
      · rfl
      · exact hword hy c hc
  · intro c hc
    rcases List.mem_append.mp hc with hc | hc
    · rcases List.mem_append.mp hc with hc | hc
      · exact hchars c hc
      · exact List.all_eq_true.mp (rfl : " AS ".toList.all Sql.isTableChar = true) c hc
    · exact hword hy c hc

theorem isInLine_of_isTableChar {c : Char} (h : isTableChar c = true) : isInLine c = true := by
  by_contra hline
  have hc : c = '\n' ∨ c = ';' := by
    by_contra hne
    simp_all [isInLine]
  rcases hc with rfl | rfl <;> exact absurd h (by decide)

theorem IsTable.tells (hx : IsTable xs) (hy : IsTable ys) :
    Tells (StopsAt isInLine) xs ys (xs = ys) :=
  .span (fun c hc => isInLine_of_isTableChar (hx.isTableChar c hc))
    fun c hc => isInLine_of_isTableChar (hy.isTableChar c hc)

/-! ### Values -/

/-- A quote with a partner never ends a value, and one without does. -/
theorem doubled_append_inj {cs ds r s : List Char} (hr : StopsAt (· = '\x27') r)
    (hs : StopsAt (· = '\x27') s) (h : doubled cs ++ '\x27' :: r = doubled ds ++ '\x27' :: s) :
    cs = ds ∧ r = s := by
  induction cs generalizing ds with
  | nil =>
    cases ds with
    | nil => exact ⟨rfl, (List.cons.inj h).2⟩
    | cons d ds =>
      rw [doubled_cons] at h
      split at h
      · cases (List.cons.inj h).2
        cases hr '\x27' rfl
      · next hd => exact absurd (List.cons.inj h).1.symm hd
  | cons c cs ih =>
    cases ds with
    | nil =>
      rw [doubled_cons] at h
      split at h
      · cases (List.cons.inj h).2
        cases hs '\x27' rfl
      · next hc => exact absurd (List.cons.inj h).1 hc
    | cons d ds =>
      rw [doubled_cons, doubled_cons] at h
      split at h
      · next hc =>
        split at h
        · next hd =>
          rw [List.append_assoc, List.append_assoc] at h
          obtain ⟨rfl, rfl⟩ := ih (List.append_cancel_left h)
          exact ⟨by rw [hc, hd], rfl⟩
        · next hd => exact absurd (List.cons.inj h).1.symm hd
      · next hc =>
        split at h
        · exact absurd (List.cons.inj h).1 hc
        · obtain ⟨rfl, hrest⟩ := List.cons.inj h
          obtain ⟨rfl, rfl⟩ := ih hrest
          exact ⟨rfl, rfl⟩

theorem HasPairedQuotes.tells_literal {v w : String} (hv : HasPairedQuotes v)
    (hw : HasPairedQuotes w) : Tells (StopsAt (· = '\x27')) (literal v) (literal w) (v = w) := by
  obtain ⟨cs, hcs⟩ := hv
  obtain ⟨ds, hds⟩ := hw
  intro r s hr hs heq
  rw [literal, literal, hcs, hds, List.append_assoc, List.append_assoc] at heq
  obtain ⟨rfl, rfl⟩ := doubled_append_inj hr hs (List.cons.inj heq).2
  exact ⟨String.toList_inj.mp (hcs.trans hds.symm), rfl⟩

end QueryComposer.Sql
