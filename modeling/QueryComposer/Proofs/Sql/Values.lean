import QueryComposer.Proofs.Sql.CommentLine
import QueryComposer.Proofs.Sql.Placeholder
import QueryComposer.Proofs.Sql.Wording

/-!
# Comment lines inside values

A value may hold line ends, and a line of it that starts with two hyphens looks like a comment from
outside, quotes or not. In a clean query that shows no placeholder this is the only way in which a
line can be a comment. The first line of a value is exempt, since the quote and the clause stand
before it.

The machine of `CommentLine` is run over the layout piece by piece. A piece either takes it from
one state to the next in any case, or does so under a condition on the values in it and is refused
otherwise (`LineState.Runs`).

## Main definitions

* `Query.values` lists the values that the text of a query shows.
* `IsQuiet` says that a value has no comment line behind its first line.
* `LineState.Runs` is a run under a condition.

## Main results

* `Query.IsClean.hasCommentLine_sql`: a clean query has a comment line exactly if one of the values
  that it shows is not quiet.
-/

namespace QueryComposer

open Sql LineState
open Token hiding step

/-! ### The values of a query -/

/-- The values that a condition shows: its own, or those of the subquery behind it. -/
def Condition.values (values? : String → Option (List String)) (c : Condition) : List String :=
  if c.operator.isNullTest then [] else (c.link?.bind values?).getD [c.value]

namespace Query

/-- The values that a statement shows, given those of its subqueries. -/
def statementValues (q : Query) (values? : String → Option (List String)) : List String :=
  match q.placeholder? with
  | some _ => []
  | none =>
    match q.operation with
    | .select => q.conditions.flatMap (Condition.values values?)
    | .insert => q.filledPairs.map Pair.value
    | .update => q.filledPairs.map Pair.value ++ q.conditions.flatMap (Condition.values values?)
    | .delete => q.conditions.flatMap (Condition.values values?)

mutual

/-- The values that the text of the query shows, in order. -/
def values : Query → List String
  | q@⟨_, _, _, _, _, _, _, _, _, subqueries⟩ =>
    statementValues q fun key => valuesUnder? key subqueries

/-- The values of the subquery under a key. -/
def valuesUnder? (key : String) : List (String × Query) → Option (List String)
  | [] => none
  | (k, q) :: es => if k = key then some (values q) else valuesUnder? key es

end

theorem valuesUnder?_eq (key : String) (es : List (String × Query)) :
    valuesUnder? key es = (Entries.find? key es).map values := by
  induction es with
  | nil => rfl
  | cons e es ih =>
    obtain ⟨k, q⟩ := e
    by_cases h : k = key <;> simp [valuesUnder?, Entries.find?, h, ih]

theorem values_eq (q : Query) :
    q.values = q.statementValues fun key => (Entries.find? key q.subqueries).map values := by
  cases q
  simp only [values, valuesUnder?_eq]

end Query

theorem Query.condition_values (q : Query) {c : Condition} (hn : c.operator.isNullTest = false) :
    (c.values fun key => (Entries.find? key q.subqueries).map values) =
      match q.operand? c with
      | some child => child.values
      | none => [c.value] := by
  rw [Condition.values, hn, operand?]
  cases c.link? with
  | none => rfl
  | some key => cases hf : Entries.find? key q.subqueries <;> simp [hf]

namespace Sql

/-- No line of the value but perhaps the first is a comment. -/
def IsQuiet (value : String) : Prop :=
  ∀ line ∈ (Text.lines value.toList).tail, isCommentLine line = false

instance (value : String) : Decidable (IsQuiet value) :=
  inferInstanceAs (Decidable (∀ line ∈ (Text.lines value.toList).tail, isCommentLine line = false))

namespace LineState

/-! ### Runs under a condition -/

/-- The text takes the machine from one state to another if the condition holds, and is refused if
it does not. -/
structure Runs (s : LineState) (xs : List Char) (P : Prop) (t : LineState) : Prop where
  pass : P → s.run xs = some t
  stop : ¬P → s.run xs = none

variable {s t u : LineState} {xs ys : List Char} {P Q : Prop}

theorem run_append_of_some (h : s.run xs = some t) (ys : List Char) :
    s.run (xs ++ ys) = t.run ys := by
  rw [run_append, h, Option.bind_some]

theorem run_trans (hx : s.run xs = some t) (hy : t.run ys = some u) :
    s.run (xs ++ ys) = some u := by
  rw [run_append_of_some hx, hy]

theorem Runs.of_run (h : s.run xs = some t) : s.Runs xs True t :=
  ⟨fun _ => h, fun hn => absurd trivial hn⟩

theorem Runs.congr (h : s.Runs xs P t) (hPQ : P ↔ Q) : s.Runs xs Q t :=
  ⟨fun hq => h.pass (hPQ.mpr hq), fun hq => h.stop (mt hPQ.mp hq)⟩

theorem Runs.isSome_iff (h : s.Runs xs P t) : (s.run xs).isSome = true ↔ P := by
  by_cases hp : P
  · simp [h.pass hp, hp]
  · simp [h.stop hp, hp]

theorem Runs.append (hx : s.Runs xs P t) (hy : t.Runs ys Q u) : s.Runs (xs ++ ys) (P ∧ Q) u := by
  constructor
  · rintro ⟨hp, hq⟩
    rw [run_append_of_some (hx.pass hp), hy.pass hq]
  · intro hpq
    rw [run_append]
    by_cases hp : P
    · rw [hx.pass hp, Option.bind_some, hy.stop fun hq => hpq ⟨hp, hq⟩]
    · rw [hx.stop hp, Option.bind_none]

/-- Pieces that always pass do not add to the condition. -/
theorem Runs.run_append (hx : s.run xs = some t) (hy : t.Runs ys Q u) : s.Runs (xs ++ ys) Q u := by
  constructor
  · intro hq
    rw [run_append_of_some hx, hy.pass hq]
  · intro hq
    rw [run_append_of_some hx, hy.stop hq]

theorem Runs.append_run (hx : s.Runs xs P t) (hy : t.run ys = some u) : s.Runs (xs ++ ys) P u := by
  constructor
  · intro hp
    rw [run_append_of_some (hx.pass hp), hy]
  · intro hp
    rw [LineState.run_append, hx.stop hp, Option.bind_none]

variable {α : Type} {f : α → List Char} {l : List α}

theorem Runs.flatMap {P : α → Prop} (h : ∀ a ∈ l, s.Runs (f a) (P a) s) :
    s.Runs (l.flatMap f) (∀ a ∈ l, P a) s := by
  induction l with
  | nil => exact ⟨fun _ => rfl, fun hn => absurd (by simp) hn⟩
  | cons a l ih =>
    have hrest := ih fun b hb => h b (List.mem_cons_of_mem _ hb)
    rw [List.flatMap_cons]
    exact ((h a List.mem_cons_self).append hrest).congr List.forall_mem_cons.symm

theorem Runs.intercalate {P : α → Prop} {sep : List Char} (hsep : s.run sep = some s)
    (h : ∀ a ∈ l, s.Runs (f a) (P a) s) :
    s.Runs (List.intercalate sep (l.map f)) (∀ a ∈ l, P a) s := by
  induction l with
  | nil => exact ⟨fun _ => rfl, fun hn => absurd (by simp) hn⟩
  | cons a l ih =>
    have ha := h a List.mem_cons_self
    cases l with
    | nil => simpa using ha
    | cons b l =>
      have hrest := ih fun c hc => h c (List.mem_cons_of_mem _ hc)
      have hcons := (ha.append_run hsep).append hrest
      rw [List.map_cons, List.map_cons, List.intercalate_cons_cons]
      exact hcons.congr List.forall_mem_cons.symm

theorem run_flatMap (h : ∀ a ∈ l, s.run (f a) = some s) : s.run (l.flatMap f) = some s :=
  (Runs.flatMap fun a ha => .of_run (h a ha)).pass fun _ _ => trivial

theorem run_intercalate {sep : List Char} (hsep : s.run sep = some s)
    (h : ∀ a ∈ l, s.run (f a) = some s) : s.run (List.intercalate sep (l.map f)) = some s :=
  (Runs.intercalate hsep fun a ha => .of_run (h a ha)).pass fun _ _ => trivial

/-! ### Texts of one line -/

theorem run_inside {cs : List Char} (h : ∀ c ∈ cs, Text.isLineBreak c = false) :
    inside.run cs = some .inside := by
  induction cs with
  | nil => rfl
  | cons c cs ih =>
    have hstep : inside.step c = some .inside := by simp [step, h c List.mem_cons_self]
    rw [run_cons, hstep, Option.bind_some]
    exact ih fun d hd => h d (List.mem_cons_of_mem _ hd)

/-- A value between its quotes, where only the lines behind the first matter. -/
theorem runs_literal (value : String) :
    inside.Runs (literal value) (IsQuiet value) .inside := by
  have hquote : ∀ s : LineState, s.run ['\x27'] = some .inside := by
    intro s
    cases s <;> rfl
  have hlines := isNone_run inside value.toList
  have hrun : inside.run (literal value) =
      (inside.run value.toList).bind fun s => s.run ['\x27'] := by
    have hopen : inside.step '\x27' = some .inside := rfl
    rw [literal, List.cons_append, run_cons, hopen, Option.bind_some, LineState.run_append]
  rw [isComment, Bool.false_or] at hlines
  constructor
  · intro hquiet
    have hany : (Text.lines value.toList).tail.any isCommentLine = false := by
      simpa [IsQuiet] using hquiet
    obtain ⟨s, hs⟩ : ∃ s, inside.run value.toList = some s := by
      rwa [hany, Option.isNone_eq_false_iff, Option.isSome_iff_exists] at hlines
    rw [hrun, hs, Option.bind_some, hquote]
  · intro hquiet
    have hany : (Text.lines value.toList).tail.any isCommentLine = true := by
      simpa [IsQuiet] using hquiet
    rw [hany, Option.isNone_iff_eq_none] at hlines
    rw [hrun, hlines, Option.bind_none]

end LineState

variable {cs : List Char}

theorem isLineBreak_of_isWordChar {c : Char} (h : isWordChar c = true) :
    Text.isLineBreak c = false := by
  have hblank : Text.isBlank c = false := by
    rw [isWordChar, Bool.or_eq_true, isDigit_iff] at h
    rcases h with h | h
    · exact isBlank_of_isWordStart h
    · exact isBlank_of_printable (by omega) (by omega)
  rw [← Bool.not_eq_true] at hblank ⊢
  exact fun hbreak => hblank (Text.isBlank_of_isLineBreak hbreak)

theorem IsIdentifier.run_inside (h : IsIdentifier cs) : inside.run cs = some .inside :=
  LineState.run_inside fun c hc => isLineBreak_of_isWordChar (h.chars c hc)

/-- An identifier at the start of a line is enough for the line not to be a comment. -/
theorem IsIdentifier.run_start (h : IsIdentifier cs) : LineState.start.run cs = some .inside := by
  obtain ⟨c, rest, hstart, rfl⟩ := h.exists_eq_cons
  have hhyphen : c ≠ '-' := by
    rintro rfl
    exact absurd hstart (by decide)
  have hstep : ∀ s : LineState, s ≠ .hyphen → s.step c = some .inside := by
    intro s hs
    have hbreak := isLineBreak_of_isWordChar (h.chars c List.mem_cons_self)
    cases s with
    | start => simp [step, hbreak, isBlank_of_isWordStart hstart, hhyphen]
    | hyphen => exact absurd rfl hs
    | inside => simp [step, hbreak]
  have hinside := h.run_inside
  rw [run_cons, hstep _ (by decide)] at hinside ⊢
  exact hinside

theorem IsName.run_inside (h : IsName cs) : inside.run cs = some .inside := by
  obtain ⟨x, xs, hall, rfl⟩ := h
  refine run_trans (hall x List.mem_cons_self).run_inside (run_flatMap fun y hy => ?_)
  have hdot : inside.run ['.'] = some .inside := rfl
  exact run_trans hdot (hall y (List.mem_cons_of_mem _ hy)).run_inside

theorem IsTable.run_inside (h : IsTable cs) : inside.run cs = some .inside := by
  obtain ⟨name, hname, hcs⟩ := h
  have hspace : inside.run [' '] = some .inside := rfl
  have has : inside.run " AS ".toList = some .inside := rfl
  rcases hcs with rfl | ⟨y, hy, rfl | rfl⟩
  · exact hname.run_inside
  · exact run_trans hname.run_inside (run_trans hspace hy.run_inside)
  · exact run_trans (run_trans hname.run_inside has) hy.run_inside

theorem run_digits (h : ∀ c ∈ cs, c.isDigit = true) : inside.run cs = some .inside :=
  LineState.run_inside fun c hc =>
    isLineBreak_of_isWordChar (by rw [isWordChar, h c hc, Bool.or_true])

/-! ### Clauses -/

theorem run_named_operator (o : Operator) : inside.run (named o) = some .inside := by
  cases o <;> rfl

theorem run_named_gate (g : Gate) : LineState.start.run (named g) = some .inside := by
  cases g <;> rfl

theorem run_joinClause {j : Join} (ht : IsTable j.table.toList) (hl : IsName j.left.toList)
    (hr : IsName j.right.toList) (level : Int) :
    inside.run (j.clause level) = some .inside := by
  have hkind : LineState.start.run (named j.kind) = some .inside := by
    cases j.kind <;> rfl
  have hjoin : inside.run " JOIN ".toList = some .inside := rfl
  have hon : inside.run " ON ".toList = some .inside := rfl
  have hequal : inside.run " = ".toList = some .inside := rfl
  have htable :=
    run_trans (run_trans (run_trans (run_newLine .inside level) hkind) hjoin) ht.run_inside
  exact run_trans (run_trans (run_trans (run_trans htable hon) hl.run_inside) hequal) hr.run_inside

theorem run_orderClause {sortKeys : List SortKey}
    (h : ∀ s ∈ sortKeys.filter SortKey.isFilled, IsName s.column.toList) (level : Int) :
    inside.run (orderClause level sortKeys) = some .inside := by
  have hwords : LineState.start.run "ORDER BY ".toList = some .inside := rfl
  have hcomma : inside.run ", ".toList = some .inside := rfl
  have hspace : inside.run [' '] = some .inside := rfl
  have hdirection : ∀ d : Direction, inside.run (named d) = some .inside := by
    intro d
    cases d <;> rfl
  rw [orderClause]
  cases hf : sortKeys.filter SortKey.isFilled with
  | nil => rfl
  | cons s keys =>
    rw [hf] at h
    have hbefore := run_trans (run_newLine .inside level) hwords
    refine run_trans hbefore (run_intercalate hcomma ?_)
    intro k hk
    exact run_trans (h k hk).run_inside (run_trans hspace (hdirection k.direction))

theorem run_limitClause {limit : String} (h : ∀ c ∈ limit.toList, c.isDigit = true)
    (level : Int) : inside.run (limitClause level limit) = some .inside := by
  have hword : LineState.start.run "LIMIT ".toList = some .inside := rfl
  rw [limitClause]
  split
  · rfl
  · exact run_trans (run_trans (run_newLine _ level) hword) (run_digits h)

section Conditions

variable {level : Int} {body? : String → Option (List Char)}
  {values? : String → Option (List String)}

theorem runs_term {c : Condition} (hcolumn : c.column ≠ "" → IsName c.column.toList)
    (hoperand : c.operator.isNullTest = false →
      inside.Runs (c.operandText level body?) (∀ v ∈ c.values values?, IsQuiet v) .inside) :
    inside.Runs (c.term level body?) (∀ v ∈ c.values values?, IsQuiet v) .inside := by
  have hspace : inside.run [' '] = some .inside := rfl
  have hoperator := run_named_operator c.operator
  have htext : inside.run c.columnText = some .inside := by
    rw [Condition.columnText]
    split
    · rfl
    · next hc => exact (hcolumn hc).run_inside
  rw [Condition.term]
  split
  · next he =>
    have hn := Operator.isNullTest_of_isExistence he
    exact .run_append hoperator (.run_append hspace (hoperand hn))
  · split
    · next hn =>
      refine (Runs.of_run (run_trans htext (run_trans hspace hoperator))).congr ?_
      simp [Condition.values, hn]
    · next hn =>
      rw [Bool.not_eq_true] at hn
      have hbefore := run_trans htext (run_trans hspace hoperator)
      exact .run_append hbefore (.run_append hspace (hoperand hn))

theorem runs_whereClause {P : Condition → Prop} {conditions : List Condition}
    (h : ∀ c ∈ conditions, inside.Runs (c.term level body?) (P c) .inside) :
    inside.Runs (whereClause level body? conditions) (∀ c ∈ conditions, P c) .inside := by
  have hwhere : LineState.start.run "WHERE ".toList = some .inside := rfl
  have hspace : inside.run [' '] = some .inside := rfl
  cases conditions with
  | nil => exact ⟨fun _ => rfl, fun hn => absurd (by simp) hn⟩
  | cons first others =>
    have hfirst := Runs.run_append (run_trans (run_newLine .inside level) hwhere)
      (h first List.mem_cons_self)
    refine (hfirst.append (Runs.flatMap fun c hc => ?_)).congr List.forall_mem_cons.symm
    have hgate := run_trans (run_newLine .inside (level + 1)) (run_named_gate c.gate)
    exact .run_append hgate (.run_append hspace (h c (List.mem_cons_of_mem _ hc)))

theorem runs_parenthesized {body : List Char} {P : Prop} (h : LineState.start.Runs body P .inside) :
    inside.Runs (parenthesized level body) P .inside := by
  have hopening : inside.run ['('] = some .inside := rfl
  have hclosing : LineState.start.run [')'] = some .inside := rfl
  have hbody := Runs.run_append (run_trans hopening (run_newLine .inside (level + 2))) h
  exact (hbody.append_run (run_newLine .inside (level + 1))).append_run hclosing

end Conditions

end Sql

/-! ### Statements -/

namespace Query

variable {q : Query} {level : Int} {body? : String → Option (List Char)} {P : Condition → Prop}

theorem run_selection (h : q.HasGrammarTexts) : inside.run q.selection = some .inside := by
  have hcolumns := h.columns
  rw [selection]
  cases htrim : Text.trim q.columns.toList with
  | nil => rfl
  | cons c cs =>
    rw [htrim] at hcolumns
    exact LineState.run_inside (hcolumns (List.cons_ne_nil c cs)).1

theorem runs_selectText (h : q.HasGrammarTexts) (ht : IsTable q.table.toList)
    (hterms : ∀ c ∈ q.conditions, inside.Runs (c.term level body?) (P c) .inside) :
    LineState.start.Runs (q.selectText level body?) (∀ c ∈ q.conditions, P c) .inside := by
  have hselect : LineState.start.run "SELECT ".toList = some .inside := rfl
  have hfrom : LineState.start.run "FROM ".toList = some .inside := rfl
  have hjoins : inside.run ((q.joins.filter Join.isFilled).flatMap (Join.clause level)) =
      some .inside := by
    refine run_flatMap ?_
    intro j hj
    obtain ⟨ht, hl, hr⟩ := h.filledJoins j hj
    exact run_joinClause ht hl hr level
  have hcolumns := run_trans (run_trans hselect (run_selection h)) (run_newLine _ level)
  have htable := run_trans (run_trans (run_trans hcolumns hfrom) ht.run_inside) hjoins
  have hwhere := Runs.run_append htable (runs_whereClause hterms)
  unfold selectText
  exact (hwhere.append_run (run_orderClause h.filledSortKeys level)).append_run
    (run_limitClause h.limit level)

theorem runs_insertText (h : q.HasGrammarTexts) (ht : IsName q.table.toList) :
    LineState.start.Runs q.insertText (∀ p ∈ q.filledPairs, IsQuiet p.value) .inside := by
  have hinsert : LineState.start.run "INSERT INTO ".toList = some .inside := rfl
  have hopening : inside.run " (".toList = some .inside := rfl
  have hvalues : inside.run ")\nVALUES (".toList = some .inside := rfl
  have hcomma : inside.run ", ".toList = some .inside := rfl
  have hclosing : inside.run [')'] = some .inside := rfl
  have hcolumns := run_intercalate hcomma fun p hp => (h.filledPairs p hp).run_inside
  have hbefore := run_trans (run_trans hinsert ht.run_inside) hopening
  have hmiddle := run_trans (run_trans hbefore hcolumns) hvalues
  unfold insertText
  have hliterals := Runs.run_append hmiddle
    (Runs.intercalate hcomma fun p (_ : p ∈ q.filledPairs) => runs_literal p.value)
  exact hliterals.append_run hclosing

theorem runs_updateText (h : q.HasGrammarTexts) (ht : IsName q.table.toList)
    (hterms : ∀ c ∈ q.conditions, inside.Runs (c.term level body?) (P c) .inside) :
    LineState.start.Runs (q.updateText level body?)
      ((∀ p ∈ q.filledPairs, IsQuiet p.value) ∧ ∀ c ∈ q.conditions, P c) .inside := by
  have hupdate : LineState.start.run "UPDATE ".toList = some .inside := rfl
  have hset : LineState.start.run "SET".toList = some .inside := rfl
  have hcomma : inside.run [','] = some .inside := rfl
  have hequal : inside.run " = ".toList = some .inside := rfl
  have hassignments : inside.Runs
      (List.intercalate [','] (q.filledPairs.map fun p => newLine (level + 1) ++ p.assignment))
      (∀ p ∈ q.filledPairs, IsQuiet p.value) .inside := by
    refine Runs.intercalate hcomma ?_
    intro p hp
    refine .run_append (run_newLine .inside (level + 1)) ?_
    exact .run_append (run_trans (h.filledPairs p hp).run_start hequal) (runs_literal p.value)
  have htable := run_trans (run_trans hupdate ht.run_inside) (run_newLine _ level)
  unfold updateText
  exact (Runs.run_append (run_trans htable hset) hassignments).append (runs_whereClause hterms)

theorem runs_deleteText (ht : IsName q.table.toList)
    (hterms : ∀ c ∈ q.conditions, inside.Runs (c.term level body?) (P c) .inside) :
    LineState.start.Runs (q.deleteText level body?) (∀ c ∈ q.conditions, P c) .inside := by
  have hdelete : LineState.start.run "DELETE FROM ".toList = some .inside := rfl
  exact Runs.run_append (run_trans hdelete ht.run_inside) (runs_whereClause hterms)

/-- **The body of a clean query.** It passes exactly if every value that it shows is quiet. -/
theorem IsClean.runs_body (h : q.IsClean) (hp : ¬q.ShowsPlaceholder) (level : Int) :
    LineState.start.Runs (q.body level) (∀ v ∈ q.values, IsQuiet v) .inside := by
  induction q using Query.induct generalizing level with
  | step q ih =>
    obtain ⟨hgrammar, hquotes⟩ := h.root
    have hown := placeholder?_eq_none_of_not hp
    have ht := hgrammar.table ((placeholder?_eq_none_iff q).mp hown).1
    have hterms : q.operation ≠ .insert → ∀ c ∈ q.conditions, inside.Runs
        (c.term level fun key => (Entries.find? key q.subqueries).map fun child =>
          child.body (level + 2))
        (∀ v ∈ c.values fun key => (Entries.find? key q.subqueries).map values, IsQuiet v)
        .inside := by
      intro ho c hc
      refine runs_term (hgrammar.conditions c hc) ?_
      intro hn
      rw [operandText_body, condition_values q hn]
      cases hchild : q.operand? c with
      | none => exact (runs_literal c.value).congr (by simp)
      | some child =>
        obtain ⟨key, -, hmem⟩ := exists_mem_of_operand? hchild
        have hshows : ¬child.ShowsPlaceholder := fun hs => hp (.operand ho hc hn hchild hs)
        exact runs_parenthesized (ih _ hmem (h.subqueries _ hmem) hshows (level + 2))
    rw [body_eq, statement, values_eq, statementValues, hown]
    cases ho : q.operation <;> rw [ho] at ht
    case select =>
      exact (runs_selectText hgrammar ht (hterms (by simp [ho]))).congr List.forall_mem_flatMap.symm
    case insert => exact (runs_insertText hgrammar ht).congr List.forall_mem_map.symm
    case update =>
      refine (runs_updateText hgrammar ht (hterms (by simp [ho]))).congr ?_
      rw [List.forall_mem_append, List.forall_mem_map, List.forall_mem_flatMap]
    case delete =>
      exact (runs_deleteText ht (hterms (by simp [ho]))).congr List.forall_mem_flatMap.symm

/-- **Comment lines come from values only.** -/
theorem IsClean.hasCommentLine_sql (h : q.IsClean) (hp : ¬q.ShowsPlaceholder) (level : Int) :
    hasCommentLine (q.sql level) = false ↔ ∀ v ∈ q.values, IsQuiet v := by
  have hsemicolon : inside.run [';'] = some .inside := rfl
  have hruns := (h.runs_body hp level).append_run hsemicolon
  rw [sql, placeholder?_eq_none_of_not hp, hasCommentLine_eq, Option.isNone_eq_false_iff]
  exact hruns.isSome_iff

end Query

end QueryComposer
