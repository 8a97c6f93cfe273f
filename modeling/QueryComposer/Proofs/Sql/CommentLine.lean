import Mathlib.Data.List.TakeWhile
import QueryComposer.Sql.Complete
import QueryComposer.Sql.Render

/-!
# Comment lines, one character at a time

`hasCommentLine` first cuts a text into lines and then looks at each of them. A text that is put
together from pieces is not easily cut, since a line may begin in one piece and end in another. Here
the same question is put to a machine that reads the text from left to right and knows only what
the current line looks like so far. Runs of the machine over a concatenation split
(`LineState.run_append`), so what a piece does is settled once and for all.

## Main definitions

* `LineState` is what is known of the current line.
* `LineState.run` reads a text and refuses it where a comment line shows.

## Main results

* `hasCommentLine_eq`: the machine refuses exactly the texts with a comment line.
* `hasCommentLine_of_isInfix`: a comment line is never lost, whatever stands around it.
* `hasCommentLine_trim`: blanks at the ends of a text do not matter.
-/

namespace QueryComposer

/-! ### Trimmed texts -/

/-- What is stripped off at the two ends is of the class. -/
theorem Text.exists_stripWhere_eq (p : Char → Bool) (cs : List Char) :
    ∃ xs ys, cs = xs ++ stripWhere p cs ++ ys ∧ (∀ c ∈ xs, p c = true) ∧ ∀ c ∈ ys, p c = true := by
  refine ⟨cs.takeWhile p, ((cs.dropWhile p).reverse.takeWhile p).reverse, ?_,
    fun c hc => List.mem_takeWhile_imp hc, fun c hc => ?_⟩
  · rw [stripWhere, List.append_assoc, ← List.reverse_append, List.takeWhile_append_dropWhile,
      List.reverse_reverse, List.takeWhile_append_dropWhile]
  · exact List.mem_takeWhile_imp (List.mem_reverse.mp hc)

theorem Text.stripWhere_eq_self {p : Char → Bool} {cs : List Char}
    (hhead : ∀ c ∈ cs.head?, p c = false) (hlast : ∀ c ∈ cs.getLast?, p c = false) :
    stripWhere p cs = cs := by
  have hdrop : ∀ {ds : List Char}, (∀ c ∈ ds.head?, p c = false) → ds.dropWhile p = ds := by
    intro ds hds
    cases ds with
    | nil => rfl
    | cons d ds => rw [List.dropWhile_cons_of_neg (Bool.not_eq_true _ ▸ hds d rfl)]
  rw [stripWhere, hdrop hhead, hdrop (by rwa [List.head?_reverse]), List.reverse_reverse]

namespace Sql

/-- What is known of a line so far: it holds blanks only, blanks and one hyphen, or it has begun
with something else. -/
inductive LineState where
  | start
  | hyphen
  | inside
deriving DecidableEq, Repr

namespace LineState

/-- The state after a character. The second hyphen of a comment line is refused. -/
def step : LineState → Char → Option LineState
  | s, c =>
    if Text.isLineBreak c then some .start
    else
      match s with
      | .start =>
        if Text.isBlank c then some .start else if c = '-' then some .hyphen else some .inside
      | .hyphen => if c = '-' then none else some .inside
      | .inside => some .inside

/-- The state after a text, if no line of it is a comment. -/
def run (s : LineState) (cs : List Char) : Option LineState := cs.foldlM step s

@[simp] theorem run_nil (s : LineState) : s.run [] = some s := rfl

theorem run_cons (s : LineState) (c : Char) (cs : List Char) :
    s.run (c :: cs) = (s.step c).bind fun s' => s'.run cs := by
  simp [run, List.foldlM_cons]

theorem run_append (s : LineState) (xs ys : List Char) :
    s.run (xs ++ ys) = (s.run xs).bind fun s' => s'.run ys := by
  simp [run, List.foldlM_append]

theorem step_of_isLineBreak {c : Char} (h : Text.isLineBreak c = true) (s : LineState) :
    s.step c = some .start := by
  simp [step, h]

/-! ### The lines of a text -/

/-- The line that is being read counts as a comment line if the rest of it makes it one. -/
def isComment (s : LineState) (rest : List Char) : Bool :=
  match s with
  | .start => isCommentLine rest
  | .hyphen => rest.head? = some '-'
  | .inside => false

@[simp] theorem isComment_nil (s : LineState) : s.isComment [] = false := by
  cases s <;> rfl

theorem isCommentLine_cons_blank {c : Char} (h : Text.isBlank c = true) (cs : List Char) :
    isCommentLine (c :: cs) = isCommentLine cs := by
  simp [isCommentLine, h]

theorem isCommentLine_cons {c : Char} (h : Text.isBlank c = false) (cs : List Char) :
    isCommentLine (c :: cs) = (c = '-' && cs.head? = some '-') := by
  have hdrop : (c :: cs).dropWhile Text.isBlank = c :: cs := by simp [h]
  rw [isCommentLine, hdrop, Bool.eq_iff_iff, List.isPrefixOf_iff_prefix]
  cases cs <;> simp [@eq_comm _ '-']

theorem isComment_cons {c : Char} (h : Text.isLineBreak c = false) (s : LineState)
    (cs : List Char) :
    s.isComment (c :: cs) =
      match s.step c with
      | none => true
      | some s' => s'.isComment cs := by
  cases s with
  | start =>
    by_cases hb : Text.isBlank c = true
    · simp [step, h, hb, isComment, isCommentLine_cons_blank hb]
    · rw [Bool.not_eq_true] at hb
      simp only [isComment, isCommentLine_cons hb, step, h, hb]
      by_cases hc : c = '-' <;> simp [hc]
  | hyphen =>
    simp only [isComment, step, h]
    by_cases hc : c = '-' <;> simp [hc]
  | inside => simp [step, h, isComment]

/-- The machine refuses a text if the line it begins in, or any line after that, is a comment. -/
theorem isNone_run (s : LineState) (cs : List Char) :
    (s.run cs).isNone =
      (s.isComment ((Text.lines cs).headD []) || (Text.lines cs).tail.any isCommentLine) := by
  induction cs generalizing s with
  | nil => simp [Text.lines, isComment_nil]
  | cons c cs ih =>
    obtain ⟨l, ls, hl⟩ := List.exists_cons_of_ne_nil (Text.splitAt_ne_nil Text.isLineBreak cs)
    rw [run_cons, Text.lines, Text.splitAt_cons]
    simp only [Text.lines, hl] at ih ⊢
    by_cases hc : Text.isLineBreak c = true
    · rw [step_of_isLineBreak hc, if_pos hc, Option.bind_some, ih, List.headD_cons,
        List.headD_cons, isComment_nil]
      rfl
    · rw [Bool.not_eq_true] at hc
      simp only [hc, Bool.false_eq_true, if_false, List.headD_cons, List.tail_cons]
      rw [isComment_cons hc]
      cases hs : s.step c with
      | none => simp
      | some s' => simpa using ih s'

end LineState

/-- **The machine decides comment lines.** -/
theorem hasCommentLine_eq (cs : List Char) :
    hasCommentLine cs = (LineState.start.run cs).isNone := by
  obtain ⟨l, ls, hl⟩ := List.exists_cons_of_ne_nil (Text.splitAt_ne_nil Text.isLineBreak cs)
  rw [LineState.isNone_run, hasCommentLine, Text.lines, hl]
  rfl

namespace LineState

/-! ### Line ends and indents -/

theorem run_replicate_space (s : LineState) (hs : s ≠ .hyphen) (n : Nat) :
    s.run (List.replicate n ' ') = some s := by
  have hstep : s.step ' ' = some s := by
    cases s with
    | start => rfl
    | hyphen => exact absurd rfl hs
    | inside => rfl
  induction n with
  | zero => rfl
  | succ n ih => rw [List.replicate_succ, run_cons, hstep, Option.bind_some, ih]

@[simp] theorem run_start_indent (level : Int) : start.run (indent level) = some .start :=
  run_replicate_space _ (by decide) _

@[simp] theorem run_newLine (s : LineState) (level : Int) :
    s.run (newLine level) = some .start := by
  rw [newLine, run_cons, step_of_isLineBreak (by decide), Option.bind_some, run_start_indent]

/-! ### Blanks -/

theorem run_start_blanks {cs : List Char} (h : ∀ c ∈ cs, Text.isBlank c = true) :
    start.run cs = some .start := by
  induction cs with
  | nil => rfl
  | cons c cs ih =>
    obtain ⟨hc, hcs⟩ := List.forall_mem_cons.mp h
    have hstep : start.step c = some .start := by simp [step, hc]
    rw [run_cons, hstep, Option.bind_some, ih hcs]

/-- Blanks make no line a comment. -/
theorem run_blanks_ne_none {cs : List Char} (h : ∀ c ∈ cs, Text.isBlank c = true)
    (s : LineState) : s.run cs ≠ none := by
  induction cs generalizing s with
  | nil => exact Option.some_ne_none s
  | cons c cs ih =>
    obtain ⟨hc, hcs⟩ := List.forall_mem_cons.mp h
    have hne : c ≠ '-' := by
      rintro rfl
      cases hc
    have hstep : ∃ s', s.step c = some s' := by
      cases s <;> by_cases hbreak : Text.isLineBreak c = true <;> simp [step, hbreak, hc, hne]
    obtain ⟨s', hs'⟩ := hstep
    rw [run_cons, hs', Option.bind_some]
    exact ih hcs s'

end LineState

/-- Trimming a text does not change whether it has a comment line. -/
theorem hasCommentLine_trim (cs : List Char) :
    hasCommentLine (Text.trim cs) = hasCommentLine cs := by
  obtain ⟨xs, ys, hcs, hxs, hys⟩ := Text.exists_stripWhere_eq Text.isBlank cs
  have hrun : LineState.start.run cs =
      (LineState.start.run (Text.trim cs)).bind fun s => s.run ys := by
    rw [List.append_assoc] at hcs
    have hparts := congrArg LineState.start.run hcs
    rwa [LineState.run_append, LineState.run_start_blanks hxs, Option.bind_some,
      LineState.run_append] at hparts
  rw [hasCommentLine_eq, hasCommentLine_eq, hrun]
  cases LineState.start.run (Text.trim cs) with
  | none => rfl
  | some s =>
    rw [Option.bind_some, Option.isNone_eq_false_iff.mpr rfl]
    exact (Option.isNone_eq_false_iff.mpr
      (Option.isSome_iff_ne_none.mpr (LineState.run_blanks_ne_none hys s))).symm

/-! ### Texts around a comment line -/

theorem hasCommentLine_of_hyphens {text : List Char} (h : "--".toList <+: text) :
    hasCommentLine text = true := by
  obtain ⟨after, rfl⟩ := h
  rw [hasCommentLine_eq]
  rfl

@[simp] theorem hasCommentLine_indent_append (level : Int) (cs : List Char) :
    hasCommentLine (indent level ++ cs) = hasCommentLine cs := by
  rw [hasCommentLine_eq, LineState.run_append, LineState.run_start_indent, Option.bind_some,
    hasCommentLine_eq]

theorem hasCommentLine_append_of_left {xs : List Char} (h : hasCommentLine xs = true)
    (ys : List Char) : hasCommentLine (xs ++ ys) = true := by
  rw [hasCommentLine_eq, Option.isNone_iff_eq_none] at h ⊢
  rw [LineState.run_append, h, Option.bind_none]

/-- **A comment line is never lost.** A text with a comment line keeps it inside any other text, as
long as it stands on lines of its own. Only the line end before it matters: nothing that comes
earlier takes back that a line starts there, and nothing that comes later takes back two hyphens. -/
theorem hasCommentLine_of_isInfix {level : Int} {xs text : List Char} (h : hasCommentLine xs = true)
    (hmid : newLine level ++ xs <:+: text) : hasCommentLine text = true := by
  obtain ⟨before, after, rfl⟩ := hmid
  refine hasCommentLine_append_of_left ?_ after
  rw [hasCommentLine_eq, Option.isNone_iff_eq_none] at h ⊢
  rw [LineState.run_append]
  cases LineState.start.run before with
  | none => rfl
  | some s =>
    rw [Option.bind_some, LineState.run_append, LineState.run_newLine, Option.bind_some, h]

end Sql

end QueryComposer
