import QueryComposer.Proofs.Sql.Alike
import QueryComposer.Proofs.Sql.Telling

/-!
# Clauses that tell what is in them

Each clause of a statement is read side by side with the same clause of another query. The level is
the same on both sides, so the indents cancel out and are never measured. A clause is told from the
next one by its first word, since below level zero all lines stand equally far in.

## Main results

* `tells_limitClause`, `tells_orderClause`, `Query.tells_joins`: the clauses without values.
* `Condition.tells_term` and `tells_whereClause`: conditions, given that their operands are told.
-/

namespace QueryComposer

open Sql Token

/-! ### Choices -/

/-- A function of a choice whose values are listed without repetition tells the choice. -/
theorem Choice.injective_of_nodup {α β : Type} [Choice α] {f : α → β}
    (hall : ∀ a : α, a ∈ (Choice.all : List α)) (h : ((Choice.all : List α).map f).Nodup) :
    Function.Injective f :=
  fun a b hab => List.inj_on_of_nodup_map h (hall a) (hall b) hab

theorem Operation.named_injective : Function.Injective (named : Operation → List Char) :=
  Choice.injective_of_nodup (fun o => by cases o <;> decide) (by decide)

theorem Gate.named_injective : Function.Injective (named : Gate → List Char) :=
  Choice.injective_of_nodup (fun g => by cases g <;> decide) (by decide)

theorem Direction.named_injective : Function.Injective (named : Direction → List Char) :=
  Choice.injective_of_nodup (fun d => by cases d <;> decide) (by decide)

/-- The kinds of joins differ in their first words. -/
theorem JoinKind.nextWord_named_injective :
    Function.Injective fun k : JoinKind => nextWord (named k) :=
  Choice.injective_of_nodup (fun k => by cases k <;> decide) (by decide)

/-- The operator and the space before its operand, if it has one. -/
def Operator.text (o : Operator) : List Char := if o.isNullTest then named o else named o ++ [' ']

theorem Operator.text_injective : Function.Injective Operator.text :=
  Choice.injective_of_nodup (fun o => by cases o <;> decide) (by decide)

/-! ### What can come next

The words that can begin the rest of a statement, from its end backwards. -/

namespace Sql

/-- No word comes next: a parenthesis or a semicolon does. -/
def endWords : List (List Char) := [[]]

/-- Before the limit. -/
def limitWords : List (List Char) := "LIMIT".toList :: endWords

/-- Before the order of the rows. -/
def orderWords : List (List Char) := "ORDER".toList :: limitWords

/-- Before the conditions. -/
def whereWords : List (List Char) := "WHERE".toList :: orderWords

end Sql

variable {level : Int}

/-! ### The limit -/

theorem opens_limitClause (limit : String) : Opens "LIMIT".toList (limitClause level limit) := by
  rw [limitClause]
  split
  · exact .inl rfl
  · rw [List.append_assoc]
    exact .inr ⟨level, _, rfl, fun _ => rfl⟩

theorem tells_limitClause (level : Int) {limit limit' : String}
    (h : ∀ c ∈ limit.toList, c.isDigit = true) (h' : ∀ c ∈ limit'.toList, c.isDigit = true) :
    Tells (Follows endWords) (limitClause level limit) (limitClause level limit')
      (limit = limit') := by
  have hnil : ∀ {l : String}, limitClause level l = [] ↔ l = "" := by
    intro l
    rw [limitClause]
    split <;> simp [newLine, *]
  refine (opens_limitClause limit).tells (opens_limitClause limit') (by decide) ?_ ?_
  · exact fun hl hl' => (hnil.mp hl).trans (hnil.mp hl').symm
  · intro hl hl'
    have hdigits := (Tells.span h h').imp String.toList_inj.mp
    rw [limitClause, limitClause, if_neg (mt hnil.mpr hl), if_neg (mt hnil.mpr hl')]
    exact .append_left _ (hdigits.before fun r hr => hr.stops.of_inLine (by decide) (by decide))

/-! ### The order -/

theorem SortKey.tells_term {s t : SortKey} (hs : IsName s.column.toList)
    (ht : IsName t.column.toList) :
    Tells (StopsAt isWordChar) s.term t.term
      ((s.column, s.direction) = (t.column, t.direction)) := by
  have hdirection : ∀ d : Direction, ∀ c ∈ named d, isWordChar c = true := by
    intro d
    cases d <;> exact List.all_eq_true.mp (by decide)
  have hrest := (Tells.span (hdirection s.direction) (hdirection t.direction)).imp
    fun h => Direction.named_injective h
  refine ((hs.tells ht).append_cons ' ' (stopsAt_cons (by decide)) hrest).imp ?_
  rintro ⟨hcolumn, hdir⟩
  rw [String.toList_inj.mp hcolumn, hdir]

theorem opens_orderClause (sortKeys : List SortKey) :
    Opens "ORDER".toList (orderClause level sortKeys) := by
  by_cases h : sortKeys.filter SortKey.isFilled = []
  · exact .inl (orderClause_of_nil h)
  · exact .inr ⟨level, _, orderClause_of_ne_nil h, fun _ => rfl⟩

theorem tells_orderClause (level : Int) {ks ls : List SortKey}
    (hks : ∀ s ∈ ks.filter SortKey.isFilled, IsName s.column.toList)
    (hls : ∀ s ∈ ls.filter SortKey.isFilled, IsName s.column.toList) :
    Tells (Follows limitWords) (orderClause level ks) (orderClause level ls)
      ((ks.filter SortKey.isFilled).map (fun s => (s.column, s.direction)) =
        (ls.filter SortKey.isFilled).map fun s => (s.column, s.direction)) := by
  have hnil : ∀ {keys : List SortKey},
      orderClause level keys = [] ↔ keys.filter SortKey.isFilled = [] := by
    intro keys
    refine ⟨fun h => ?_, orderClause_of_nil⟩
    by_contra hne
    rw [orderClause_of_ne_nil hne] at h
    cases h
  refine (opens_orderClause ks).tells (opens_orderClause ls) (by decide) ?_ ?_
  · intro hk hl
    rw [hnil.mp hk, hnil.mp hl]
  · intro hk hl
    have hk' := mt hnil.mpr hk
    have hl' := mt hnil.mpr hl
    have hterms := (Tells.commaList (by decide) hk' hl' fun s hs t ht =>
      SortKey.tells_term (hks s hs) (hls t ht)).before (B := Follows limitWords)
        fun r hr => hr.stops.of_inLine (by decide) (by decide)
    rw [orderClause_of_ne_nil hk', orderClause_of_ne_nil hl']
    exact .append_left _ (.append_left _ (hterms.imp map_eq_of_forall₂))

/-! ### Joins -/

namespace Join

/-- What stands before the sign of equality: the table and the left side. The table may end with
another name, so it is not plain from the beginning where it stops. -/
def front (j : Join) : List Char := j.table.toList ++ " ON ".toList ++ j.left.toList ++ [' ']

theorem clause_eq (j : Join) : j.clause level =
    newLine level ++ (named j.kind ++ " JOIN ".toList ++
      (j.front ++ "= ".toList ++ j.right.toList)) := by
  simp [clause, front]

theorem isLine_clause (j : Join) : IsLine (nextWord (named j.kind)) (j.clause level) := by
  refine ⟨level, _, j.clause_eq, fun r => ?_⟩
  cases j.kind <;> rfl

variable {j j' : Join}

theorem tells_front (ht : IsTable j.table.toList) (ht' : IsTable j'.table.toList)
    (hl : IsName j.left.toList) (hl' : IsName j'.left.toList) :
    Tells (StopsAt (· ≠ '=')) j.front j'.front (j.table = j'.table ∧ j.left = j'.left) := by
  have hother : ∀ c, isTableChar c = true → decide (c ≠ '=') = true := by
    intro c hc
    rw [decide_eq_true_eq]
    rintro rfl
    cases hc
  have hfront : ∀ {i : Join}, IsTable i.table.toList → IsName i.left.toList →
      ∀ c ∈ i.front, decide (c ≠ '=') = true := by
    intro i ht hl
    refine List.all_eq_true.mp ?_
    have htable : i.table.toList.all (· ≠ '=') = true :=
      List.all_eq_true.mpr fun c hc => hother c (ht.isTableChar c hc)
    have hleft : i.left.toList.all (· ≠ '=') = true :=
      List.all_eq_true.mpr fun c hc => hother c (hl.isTable.isTableChar c hc)
    rw [front, List.all_append, List.all_append, List.all_append, htable, hleft]
    rfl
  -- The left side has no spaces, so the front is taken apart from its end.
  refine (Tells.span (hfront ht hl) (hfront ht' hl')).imp fun heq => ?_
  have hassoc : ∀ i : Join,
      i.front = i.table.toList ++ " ON".toList ++ ' ' :: i.left.toList ++ [' '] := by
    intro i
    simp [front]
  rw [hassoc, hassoc] at heq
  obtain ⟨htable, hleft⟩ := hl.append_inj hl' (List.append_cancel_right heq)
  exact ⟨String.toList_inj.mp (List.append_cancel_right htable), String.toList_inj.mp hleft⟩

theorem tells_clause (ht : IsTable j.table.toList) (ht' : IsTable j'.table.toList)
    (hl : IsName j.left.toList) (hl' : IsName j'.left.toList) (hr : IsName j.right.toList)
    (hr' : IsName j'.right.toList) :
    Tells (StopsAt isInLine) (j.clause level) (j'.clause level)
      ((j.kind, j.table, j.left, j.right) = (j'.kind, j'.table, j'.left, j'.right)) := by
  refine .learn (P := j.kind = j'.kind) ?_ fun hkind => ?_
  · intro r s heq
    have hword := congrArg nextWord heq
    rw [j.isLine_clause.nextWord_append, j'.isLine_clause.nextWord_append] at hword
    exact JoinKind.nextWord_named_injective hword
  · have hright := ((hr.tells hr').imp String.toList_inj.mp).before
      fun r h => StopsAt.of_inLine h (by decide) (by decide)
    have hrest := (tells_front ht ht' hl hl').between (B := StopsAt isInLine) "= ".toList
      (fun r => stopsAt_cons (by decide) _) hright
    rw [clause_eq, clause_eq, hkind]
    refine (Tells.append_left _ (.append_left _ hrest)).imp ?_
    rintro ⟨⟨ht, hl⟩, hr⟩
    rw [ht, hl, hr]

end Join

theorem Query.tells_joins (level : Int) {a b : Query} (ha : a.HasGrammarTexts)
    (hb : b.HasGrammarTexts) :
    Tells (Follows whereWords) ((a.joins.filter Join.isFilled).flatMap (Join.clause level))
      ((b.joins.filter Join.isFilled).flatMap (Join.clause level))
      (a.shownJoins = b.shownJoins) := by
  have hword : ∀ j : Join, nextWord (named j.kind) ∉ whereWords := by
    intro j
    cases j.kind <;> decide
  rw [Query.shownJoins_eq, Query.shownJoins_eq]
  refine (Tells.lines Join.isLine_clause Join.isLine_clause hword ?_).imp map_eq_of_forall₂
  intro j hj j' hj'
  obtain ⟨ht, hl, hr⟩ := ha.filledJoins j hj
  obtain ⟨ht', hl', hr'⟩ := hb.filledJoins j' hj'
  exact Join.tells_clause ht ht' hl hl' hr hr'

/-! ### Conditions -/

section Conditions

variable {body? body?' : String → Option (List Char)} {c c' : Condition} {P : Prop}

/-- The operator of a condition and its operand. -/
def Condition.comparison (level : Int) (body? : String → Option (List Char)) (c : Condition) :
    List Char :=
  c.operator.text ++ if c.operator.isNullTest then [] else c.operandText level body?

theorem Condition.term_eq (c : Condition) : c.term level body? =
    if c.operator.isExistence then c.comparison level body?
    else c.columnText ++ ' ' :: c.comparison level body? := by
  rw [term, comparison, Operator.text]
  split
  · next he => simp [Operator.isNullTest_of_isExistence he]
  · split <;> simp

/-- The characters inside a line that no operand begins with. -/
def Sql.isOperatorChar (c : Char) : Bool := isInLine c && c ≠ '(' && c ≠ '\x27'

theorem Operator.isOperatorChar_text (o : Operator) : ∀ c ∈ o.text, isOperatorChar c = true := by
  cases o <;> exact List.all_eq_true.mp (by decide)

theorem Condition.tells_comparison
    (h : c.operator = c'.operator → c.operator.isNullTest = false →
      Tells (StopsAt isInLine) (c.operandText level body?) (c'.operandText level body?') P) :
    Tells (StopsAt isInLine) (c.comparison level body?) (c'.comparison level body?')
      (c.operator = c'.operator ∧ (c.operator.isNullTest = false → P)) := by
  have hoperand : ∀ (d : Condition) (b? : String → Option (List Char)) (r : List Char),
      StopsAt isInLine r →
      StopsAt isOperatorChar
        ((if d.operator.isNullTest then [] else d.operandText level b?) ++ r) := by
    intro d b? r hr
    split
    · exact hr.of_inLine (by decide) (by decide)
    · rw [operandText]
      split <;> exact stopsAt_cons (by decide) _
  refine ((Tells.span c.operator.isOperatorChar_text c'.operator.isOperatorChar_text).imp
    fun h => Operator.text_injective h).append (hoperand c body?) (hoperand c' body?')
    fun ho => ?_
  rw [← ho]
  split
  · next hn => exact (Tells.refl _ []).imp fun _ hn' => absurd hn (by simp [hn'])
  · next hn => exact (h ho (by simpa using hn)).imp fun hP _ => hP

theorem Condition.isName_shownColumn (h : c.column ≠ "" → IsName c.column.toList) :
    IsName c.shownColumn.toList := by
  rw [shownColumn]
  split
  · exact ⟨"column".toList, [], by decide, by decide⟩
  · next hc => exact h hc

/-- An existence test begins with a keyword, as no column does. -/
theorem Condition.nextWord_comparison (h : c.operator.isExistence = true) (r : List Char) :
    ∃ k : Keyword, nextWord (c.comparison level body? ++ r) = named k := by
  rw [comparison]
  cases ho : c.operator with
  | existing => exact ⟨.exists, rfl⟩
  | notExisting => exact ⟨.not, rfl⟩
  | _ => simp [ho, Operator.isExistence] at h

theorem Condition.tells_existence (hc : c'.column ≠ "" → IsName c'.column.toList)
    (he : c.operator.isExistence = true) :
    Tells (StopsAt isInLine) (c.comparison level body?)
      (c'.columnText ++ ' ' :: c'.comparison level body?') P := by
  refine .of_ne fun r s _ _ heq => ?_
  obtain ⟨k, hk⟩ : ∃ k : Keyword, nextWord (c.comparison level body? ++ r) = named k :=
    Condition.nextWord_comparison he r
  obtain ⟨x, hx, hword⟩ := (isName_shownColumn hc).exists_nextWord
  rw [heq, c'.columnText_eq, List.append_assoc, List.cons_append, hword] at hk
  exact hx.notKeyword k hk.symm

theorem Condition.tells_term (hc : c.column ≠ "" → IsName c.column.toList)
    (hc' : c'.column ≠ "" → IsName c'.column.toList)
    (h : c.operator = c'.operator → c.operator.isNullTest = false →
      Tells (StopsAt isInLine) (c.operandText level body?) (c'.operandText level body?') P) :
    Tells (StopsAt isInLine) (c.term level body?) (c'.term level body?')
      (c.operator = c'.operator ∧
        (c.operator.isExistence = false → c.shownColumn = c'.shownColumn) ∧
        (c.operator.isNullTest = false → P)) := by
  have hcomparison := tells_comparison h
  rw [term_eq, term_eq]
  by_cases he : c.operator.isExistence = true
  · rw [if_pos he]
    by_cases he' : c'.operator.isExistence = true
    · rw [if_pos he']
      exact hcomparison.imp fun h => ⟨h.1, fun hne => absurd he (by simp [hne]), h.2⟩
    · rw [if_neg he']
      exact tells_existence hc' he
  · rw [if_neg he]
    by_cases he' : c'.operator.isExistence = true
    · rw [if_pos he']
      exact (tells_existence hc he').symm
    · rw [if_neg he', c.columnText_eq, c'.columnText_eq]
      have hcolumn := ((isName_shownColumn hc).tells (isName_shownColumn hc')).imp
        String.toList_inj.mp
      refine (hcolumn.append_cons ' ' (stopsAt_cons (by decide)) hcomparison).imp ?_
      exact fun h => ⟨h.2.1, fun _ => h.1, h.2.2⟩

/-- A condition behind its gate, on a line of its own. -/
def Condition.gated (level : Int) (body? : String → Option (List Char)) (c : Condition) :
    List Char :=
  newLine (level + 1) ++ (named c.gate ++ ' ' :: c.term level body?)

theorem whereClause_cons (c : Condition) (cs : List Condition) :
    whereClause level body? (c :: cs) =
      newLine level ++ ("WHERE ".toList ++ c.term level body?) ++
        cs.flatMap (Condition.gated level body?) := by
  simp only [whereClause, List.append_assoc]
  rfl

theorem isLine_whereClause_cons (c : Condition) (cs : List Condition) :
    IsLine "WHERE".toList (whereClause level body? (c :: cs)) := by
  rw [whereClause_cons, List.append_assoc]
  exact ⟨level, _, rfl, fun _ => rfl⟩

theorem opens_whereClause (cs : List Condition) :
    Opens "WHERE".toList (whereClause level body? cs) := by
  cases cs with
  | nil => exact .inl rfl
  | cons c cs => exact .inr (isLine_whereClause_cons c cs)

theorem Condition.tells_gated
    (h : Tells (StopsAt isInLine) (c.term level body?) (c'.term level body?') P) :
    Tells (StopsAt isInLine) (c.gated level body?) (c'.gated level body?')
      (c.gate = c'.gate ∧ P) := by
  have hchars : ∀ (g : Gate), ∀ d ∈ named g, isWordChar d = true := by
    intro g
    cases g <;> exact List.all_eq_true.mp (by decide)
  have hgate := (Tells.span (hchars c.gate) (hchars c'.gate)).imp
    fun h => Gate.named_injective h
  exact .append_left _ (hgate.append_cons ' ' (stopsAt_cons (by decide)) h)

theorem Condition.isLine_gated (c : Condition) : IsLine (named c.gate) (c.gated level body?) := by
  refine ⟨level + 1, _, rfl, fun r => ?_⟩
  cases c.gate <;> rfl

theorem tells_whereClause {a b : Query} {R : Query → Query → Prop} {cs cs' : List Condition}
    (h : ∀ c ∈ cs, ∀ c' ∈ cs', Tells (StopsAt isInLine) (c.term level body?) (c'.term level body?')
      (Query.SameTerm R a b c c')) :
    Tells (Follows orderWords) (whereClause level body? cs) (whereClause level body?' cs')
      (Query.SameTerms R a b cs cs') := by
  have hword : ∀ c : Condition, named c.gate ∉ orderWords := by
    intro c
    cases c.gate <;> decide
  cases cs with
  | nil =>
    cases cs' with
    | nil => exact (Tells.refl _ []).imp fun _ => .nil
    | cons c' cs' => exact (isLine_whereClause_cons c' cs').tells_nil (by decide)
  | cons c cs =>
    cases cs' with
    | nil => exact ((isLine_whereClause_cons c cs).tells_nil (by decide)).symm
    | cons c' cs' =>
      have hfirst := h c List.mem_cons_self c' List.mem_cons_self
      have hothers := Tells.lines Condition.isLine_gated Condition.isLine_gated hword
        fun d hd d' hd' => Condition.tells_gated
          (h d (List.mem_cons_of_mem c hd) d' (List.mem_cons_of_mem c' hd'))
      rw [whereClause_cons, whereClause_cons]
      exact ((Tells.append_left _ (.append_left _ hfirst)).append
        (fun _ => stopsAt_lines Condition.isLine_gated)
        (fun _ => stopsAt_lines Condition.isLine_gated) fun _ => hothers).imp
          fun h => .cons h.1 h.2

end Conditions

end QueryComposer
