import QueryComposer.Proofs.Sql.Indents
import QueryComposer.Proofs.Sql.Lexing

/-!
# The verdict does not see indents

Whether a text is complete does not depend on the level at which a query is laid out, and this for
every query, also for one whose texts leave a quote open. Such a quote puts what follows into a
literal, and then indents are no longer blanks between tokens but become part of what the literal
holds. They change the tokens of the text, though never where a token begins or ends, and the
grammar asks a literal for nothing.

So tokens are compared up to the content of literals (`Token.hollow`), and modes of the scanner
likewise. Behind a line end the scanner stands either between tokens or in a literal, and in neither
does a space make a difference that is left.

## Main definitions

* `Token.hollow` and `Token.Mode.hollow` forget what a literal holds.

## Main results

* `accepts_map_hollow`: the grammar does not look into literals.
* `Token.map_hollow_tokens`: indents change nothing but the content of literals.
* `Query.isComplete_sql_level`: the verdict is the same at all levels.
-/

namespace QueryComposer

namespace Sql

namespace Token

/-- The token, with nothing in it if it is a literal. -/
def hollow : Token → Token
  | .literal _ => .literal []
  | t => t

/-- The mode, with nothing read yet if it is in a literal. -/
def Mode.hollow : Mode → Mode
  | .literal _ => .literal []
  | .quote _ => .quote []
  | m => m

end Token

/-! ### The grammar does not look into literals -/

theorem Goal.take?_hollow (g : Goal) (t : Token) : g.take? t.hollow = g.take? t := by
  cases t with
  | literal content => cases g <;> rfl
  | _ => rfl

theorem advance_hollow (gs : List Goal) (t : Token) : advance gs t.hollow = advance gs t := by
  induction gs with
  | nil => rfl
  | cons g gs ih => rw [advance, advance, g.take?_hollow, ih]

theorem accepts_map_hollow (ts : List Token) : accepts (ts.map Token.hollow) = accepts ts := by
  have hadvance : (fun gs t => advance gs (Token.hollow t)) = advance := funext₂ advance_hollow
  rw [accepts, accepts, reach, reach, List.foldlM_map, hadvance]

namespace Token

/-! ### The scanner and literals -/

/-- What a run gives, up to the content of literals. -/
def hollowRun (r : List Token × Mode) : List Token × Mode := (r.1.map hollow, r.2.hollow)

theorem map_hollow_endBefore (t : Token) (c : Char) :
    (endBefore t.hollow c).map hollowRun = (endBefore t c).map hollowRun := by
  have hhollow : t.hollow.hollow = t.hollow := by cases t <;> rfl
  cases hb : begin? c <;> simp [endBefore, hb, hollowRun, hhollow]

theorem map_hollow_step (m : Mode) (c : Char) :
    (step m.hollow c).map hollowRun = (step m c).map hollowRun := by
  cases m with
  | literal w =>
    simp only [Mode.hollow, step]
    split <;> rfl
  | quote w =>
    simp only [Mode.hollow, step]
    split
    · rfl
    · exact map_hollow_endBefore (.literal w.reverse) c
  | _ => rfl

theorem map_hollow_finish (m : Mode) :
    (finish m.hollow).map (List.map hollow) = (finish m).map (List.map hollow) := by
  cases m <;> rfl

variable {m m' : Mode} {xs ys : List Char}

/-- Two runs that agree so far agree to the end, if those from the modes that they have reached
do. -/
theorem map_hollow_bind_run {o o' : Option (List Token × Mode)}
    (ho : o.map hollowRun = o'.map hollowRun)
    (hrest : ∀ {n n' : Mode}, n.hollow = n'.hollow →
      (scanner.run n xs).map hollowRun = (scanner.run n' ys).map hollowRun) :
    (o.bind fun r => (scanner.run r.2 xs).map fun p => (r.1 ++ p.1, p.2)).map hollowRun =
      (o'.bind fun r => (scanner.run r.2 ys).map fun p => (r.1 ++ p.1, p.2)).map hollowRun := by
  cases o with
  | none =>
    rw [Option.map_none, eq_comm, Option.map_eq_none_iff] at ho
    rw [ho]
    rfl
  | some r =>
    rw [Option.map_some, eq_comm] at ho
    obtain ⟨r', rfl, hr⟩ := Option.map_eq_some_iff.mp ho
    obtain ⟨htokens, hmode⟩ := Prod.mk.inj hr
    have hrun := congrArg (Option.map fun p : List Token × Mode => (r.1.map hollow ++ p.1, p.2))
      (hrest hmode.symm)
    rw [Option.bind_some, Option.bind_some]
    simpa [Option.map_map, Function.comp_def, hollowRun, htokens] using hrun

/-! ### Line ends -/

/-- Behind a line end the scanner stands between tokens or in a literal. -/
theorem between_or_literal_of_step {r : List Token × Mode} (h : step m '\n' = some r) :
    r.2 = .between ∨ ∃ w, r.2 = .literal w := by
  cases m with
  | literal w =>
    cases h
    exact .inr ⟨_, rfl⟩
  | bang => cases h
  | _ =>
    cases h
    exact .inl rfl

theorem run_replicate_space (hm : m = .between ∨ ∃ w, m = .literal w) (n : Nat) :
    (scanner.run m (List.replicate n ' ')).map hollowRun = some ([], m.hollow) := by
  induction n generalizing m with
  | zero => rfl
  | succ n ih =>
    rw [List.replicate_succ, Text.Scanner.run_cons, scanner_step]
    rcases hm with rfl | ⟨w, rfl⟩
    · have hrest := ih (.inl rfl)
      simpa [step, begin?, show Text.isBlank ' ' = true from rfl] using hrest
    · have hrest := ih (m := .literal (' ' :: w)) (.inr ⟨_, rfl⟩)
      simpa [step, Mode.hollow] using hrest

/-- The indent behind a line end adds nothing. -/
theorem map_hollow_run_newLine (m : Mode) (level : Int) :
    (scanner.run m (newLine level)).map hollowRun = (step m '\n').map hollowRun := by
  rw [newLine, Text.Scanner.run_cons, scanner_step]
  cases h : step m '\n' with
  | none => rfl
  | some r =>
    obtain ⟨r', hrun, hr⟩ := Option.map_eq_some_iff.mp
      (run_replicate_space (between_or_literal_of_step h) (2 * level.toNat))
    obtain ⟨htokens, hmode⟩ := Prod.mk.inj hr
    rw [Option.bind_some, indent, hrun]
    simp [hollowRun, List.map_eq_nil_iff.mp htokens, hmode]

theorem map_hollow_run (h : Reindented xs ys) (hm : m.hollow = m'.hollow) :
    (scanner.run m xs).map hollowRun = (scanner.run m' ys).map hollowRun := by
  have hstep : ∀ {n n' : Mode} (c : Char), n.hollow = n'.hollow →
      (step n c).map hollowRun = (step n' c).map hollowRun := by
    intro n n' c hn
    rw [← map_hollow_step, hn, map_hollow_step]
  induction h generalizing m m' with
  | nil => simp [Text.Scanner.run, hollowRun, hm]
  | cons c _ ih =>
    rw [Text.Scanner.run_cons, Text.Scanner.run_cons]
    exact map_hollow_bind_run (hstep c hm) ih
  | newLine d e _ ih =>
    rw [Text.Scanner.run_append, Text.Scanner.run_append]
    refine map_hollow_bind_run ?_ ih
    rw [map_hollow_run_newLine, map_hollow_run_newLine, hstep '\n' hm]

/-- **Indents change nothing but the content of literals.** -/
theorem map_hollow_tokens (h : Reindented xs ys) :
    (tokens xs).map (List.map hollow) = (tokens ys).map (List.map hollow) := by
  have hruns := map_hollow_run h (m := .between) rfl
  have htokens : ∀ cs, (tokens cs).map (List.map hollow) =
      ((scanner.run .between cs).map hollowRun).bind fun r =>
        ((finish r.2).map (List.map hollow)).map fun ts => r.1 ++ ts := by
    intro cs
    rw [tokens_eq_tokensFrom, tokensFrom]
    cases scanner.run .between cs with
    | none => rfl
    | some r =>
      rw [Option.map_some, Option.bind_some, Option.bind_some, hollowRun, map_hollow_finish]
      simp [Option.map_map, Function.comp_def]
  rw [htokens, htokens, hruns]

end Token

/-! ### The verdict -/

theorem LineState.run_eq_of_reindented {xs ys : List Char} (h : Reindented xs ys) (s : LineState) :
    s.run xs = s.run ys := by
  induction h generalizing s with
  | nil => rfl
  | cons c _ ih =>
    rw [run_cons, run_cons]
    cases s.step c with
    | none => rfl
    | some s' => exact ih s'
  | newLine d e _ ih =>
    rw [run_append, run_append, run_newLine, run_newLine]
    exact ih .start

theorem isScript_eq_of_reindented {xs ys : List Char} (h : Reindented xs ys) :
    isScript xs = isScript ys := by
  have hscript : ∀ cs, isScript cs =
      (((Token.tokens cs).map (List.map Token.hollow)).map accepts).getD false := by
    intro cs
    rw [isScript, Token.tokens]
    cases Token.scanner.tokens cs with
    | none => rfl
    | some ts => exact (accepts_map_hollow ts).symm
  rw [hscript, hscript, Token.map_hollow_tokens h]

theorem hasCommentLine_eq_of_reindented {xs ys : List Char} (h : Reindented xs ys) :
    hasCommentLine xs = hasCommentLine ys := by
  rw [hasCommentLine_eq, hasCommentLine_eq, LineState.run_eq_of_reindented h]

end Sql

/-- **The verdict is the same at all levels**, whatever was typed in, if the parser follows the
grammar. -/
theorem Query.isComplete_sql_level {parses : List Char → Bool} (h : Sql.FollowsGrammar parses)
    (q : Query) (d e : Int) :
    Sql.isComplete parses (q.sql d) = Sql.isComplete parses (q.sql e) := by
  rw [isComplete_sql_eq, isComplete_sql_eq, h, h]
  by_cases hp : q.placeholder? = none
  · rw [sql, sql, hp]
    have hlevels := (q.reindented_body d e).append_right [';']
    rw [Sql.hasCommentLine_eq_of_reindented hlevels, Sql.isScript_eq_of_reindented hlevels]
  · -- The indent of a placeholder stands behind no line end, but its comment settles the matter.
    have hshows := ShowsPlaceholder.of_placeholder?_ne_none hp
    rw [hshows.hasCommentLine_sql, hshows.hasCommentLine_sql]
    rfl

/-- A selection whose only value ends its literal at a line end and takes up the condition on the
next line, where another indent comes in. -/
def Query.severed : Query :=
  { bare "root" .delete with
    table := "users"
    conditions := [⟨"c1", "id", .among, "", .and, some "s1"⟩]
    subqueries := [("s1", { bare "s1" .select with
      table := "orders"
      conditions := [⟨"c1", "name", .equal, "x\x27\nOR name = \x27y", .and, none⟩] })] }

theorem Query.isComplete_sql_level_severed : Sql.FollowsGrammar Sql.isScript ∧
    Sql.isComplete Sql.isScript (severed.sql 7) = true := by
  have hcomplete : Sql.isComplete Sql.isScript (severed.sql (-1)) = true := by decide +kernel
  have hlevel := isComplete_sql_level Sql.followsGrammar_isScript severed 7 (-1)
  exact ⟨Sql.followsGrammar_isScript, hlevel.trans hcomplete⟩

end QueryComposer
