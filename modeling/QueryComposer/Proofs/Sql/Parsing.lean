import QueryComposer.Proofs.Sql.Script

/-!
# Which queries the grammar accepts

Every clause of a clean query is a phrase of the grammar, and only the operands decide whether the
whole is one: an existence test needs a query behind it, and a query behind any test has to be a
selection that is accepted itself. A query that leaves nothing open in this sense is finished.

What follows a clause is either a later clause or the end of the statement, and a clause may be
left out. The lists `closers`, `afterSortKeys`, `afterFilter`, `afterJoins` and `afterTable` say,
from the end of a statement backwards, which tokens can come next.

## Main definitions

* `Query.IsFinished` says which queries leave nothing open.

## Main results

* `Query.isFinished_iff`: what a query needs of its own, and what it needs of its operands.
* `Query.IsClean.isPhrase`: a clean query is an operand exactly if it is a finished selection.
* `Query.IsClean.accepts_tokens`: a clean query is accepted exactly if it is finished.
-/

namespace QueryComposer

open Sql Token

namespace Query

/-- The query has its table and its columns, and behind its conditions there is what they need: a
subquery behind an existence test, and no subqueries but finished selections behind any test that
has an operand. An insertion does not look at conditions. -/
inductive IsFinished : Query → Prop where
  | intro {q : Query} : q.table ≠ "" →
      (q.operation = .insert ∨ q.operation = .update → ∃ p ∈ q.pairs, p.column ≠ "") →
      (q.operation ≠ .insert → ∀ c ∈ q.conditions, c.operator.isExistence = true →
        ∃ child, q.operand? c = some child) →
      (q.operation ≠ .insert → ∀ c ∈ q.conditions, c.operator.isNullTest = false →
        ∀ child, q.operand? c = some child → child.operation = .select) →
      (q.operation ≠ .insert → ∀ c ∈ q.conditions, c.operator.isNullTest = false →
        ∀ child, q.operand? c = some child → IsFinished child) →
      IsFinished q

/-- The condition has what it needs. -/
def IsAnswered (q : Query) (c : Condition) : Prop :=
  (c.operator.isExistence = true → ∃ child, q.operand? c = some child) ∧
    (c.operator.isNullTest = false → ∀ child, q.operand? c = some child →
      child.operation = .select ∧ child.IsFinished)

theorem isFinished_iff {q : Query} :
    q.IsFinished ↔ q.placeholder? = none ∧
      (q.operation ≠ .insert → ∀ c ∈ q.conditions, q.IsAnswered c) := by
  rw [placeholder?_eq_none_iff]
  constructor
  · rintro ⟨ht, hpairs, hexists, hselect, hfinished⟩
    refine ⟨⟨ht, hpairs⟩, fun ho c hc => ⟨hexists ho c hc, fun hn child hchild => ?_⟩⟩
    exact ⟨hselect ho c hc hn child hchild, hfinished ho c hc hn child hchild⟩
  · rintro ⟨⟨ht, hpairs⟩, hconditions⟩
    refine .intro ht hpairs (fun ho c hc => (hconditions ho c hc).1) ?_ ?_
    · exact fun ho c hc hn child hchild => ((hconditions ho c hc).2 hn child hchild).1
    · exact fun ho c hc hn child hchild => ((hconditions ho c hc).2 hn child hchild).2

/-- A finished query shows no placeholder. -/
theorem IsFinished.not_showsPlaceholder {q : Query} (h : q.IsFinished) : ¬q.ShowsPlaceholder := by
  intro hp
  induction hp with
  | noTable ht =>
    obtain ⟨hown, -⟩ := isFinished_iff.mp h
    exact ((placeholder?_eq_none_iff _).mp hown).1 ht
  | noColumn ho hcolumns =>
    obtain ⟨hown, -⟩ := isFinished_iff.mp h
    obtain ⟨p, hmem, hcolumn⟩ := ((placeholder?_eq_none_iff _).mp hown).2 ho
    exact hcolumn (hcolumns p hmem)
  | operand ho hc hn hchild _ ih =>
    obtain ⟨-, hconditions⟩ := isFinished_iff.mp h
    exact ih ((hconditions ho _ hc).2 hn _ hchild).2

end Query

/-! ### What can come next -/

namespace Sql

/-- What can stand behind a statement. -/
def closers : List Token := [.mark .closing, .mark .semicolon]

/-- What can stand behind the order of the rows. -/
def afterSortKeys : List Token := .keyword .limit :: closers

/-- What can stand behind the conditions. -/
def afterFilter : List Token := .keyword .order :: afterSortKeys

/-- What can stand behind the joins. -/
def afterJoins : List Token := .keyword .where :: afterFilter

/-- What can stand behind the table of a selection. -/
def afterTable : List Token :=
  .keyword .inner :: .keyword .left :: .keyword .right :: .keyword .full :: afterJoins

/-! ### Typed texts as phrases -/

theorem IsName.exists_tokensOf {cs : List Char} (h : IsName cs) :
    ∃ x xs, tokensOf cs = nameTokens x xs := by
  obtain ⟨x, xs, hx⟩ := h.exists_tokens
  exact ⟨x, xs, tokensOf_eq hx⟩

theorem IsTable.exists_tokensOf {cs : List Char} (h : IsTable cs) :
    ∃ x xs as, IsAlias as ∧ tokensOf cs = nameTokens x xs ++ as := by
  obtain ⟨x, xs, as, ha, hx⟩ := h.exists_tokens
  exact ⟨x, xs, as, ha, tokensOf_eq hx⟩

theorem HasPairedQuotes.exists_tokensOf {value : String} (h : HasPairedQuotes value) :
    ∃ content, tokensOf (literal value) = [.literal content] := by
  obtain ⟨content, hcontent⟩ := h.exists_tokens
  exact ⟨content, tokensOf_eq hcontent⟩

variable {gs : List Goal} {rest : List Token}

/-- Phrases with commas between them. The goal `others` stands for those after the first. -/
theorem matches_commaTokens {α : Type} (phrase : List Goal) {f : α → List Token} {others : Goal}
    {next : List Token} {l : List α} (hl : l ≠ []) (ho : others.isOptional = true)
    (htake : others.take? (.mark .comma) = some (phrase ++ [others]))
    (hnext : ∀ t ∈ next, others.take? t = none)
    (h : ∀ a ∈ l, ∀ gs rest, HeadIn (.mark .comma :: next) rest →
      (Matches (phrase ++ gs) (f a ++ rest) ↔ Matches gs rest))
    (hrest : HeadIn next rest) :
    Matches (phrase ++ others :: gs) (commaTokens (l.map f) ++ rest) ↔ Matches gs rest := by
  induction l with
  | nil => exact absurd rfl hl
  | cons a l ih =>
    have ha := h a List.mem_cons_self
    cases l with
    | nil =>
      rw [List.map_singleton, commaTokens, List.intercalate_singleton,
        ha _ _ (hrest.mono (List.subset_cons_self _ _)), matches_skip ho (hrest.refuses hnext)]
    | cons b l =>
      have hcomma : HeadIn (.mark .comma :: next)
          (.mark .comma :: (commaTokens ((b :: l).map f) ++ rest)) :=
        headIn_cons List.mem_cons_self
      have hrun : commaTokens ((a :: b :: l).map f) ++ rest =
          f a ++ .mark .comma :: (commaTokens ((b :: l).map f) ++ rest) := by
        simp [commaTokens, List.intercalate_cons_cons]
      rw [hrun, ha _ _ hcomma, matches_take htake, List.append_assoc, List.singleton_append]
      exact ih (List.cons_ne_nil b l) fun c hc => h c (List.mem_cons_of_mem _ hc)

end Sql

/-! ### Clauses -/

section Clauses

variable {gs : List Goal} {rest : List Token} {tokens? : String → Option (List Token)}

theorem matches_limit {limit : String} (h : ∀ c ∈ limit.toList, c.isDigit = true)
    (hrest : HeadIn closers rest) :
    Matches (.limit :: gs) (limitTokens limit ++ rest) ↔ Matches gs rest := by
  rw [limitTokens]
  by_cases hl : limit = ""
  · rw [if_pos hl]
    exact matches_skip rfl (hrest.refuses (by decide))
  · have hne : limit.toList ≠ [] := by simpa using hl
    rw [if_neg hl, tokensOf_eq (tokens_digits h hne), List.cons_append, matches_take rfl]
    exact matches_last rfl

theorem headIn_limitTokens (limit : String) (hrest : HeadIn closers rest) :
    HeadIn afterSortKeys (limitTokens limit ++ rest) := by
  rw [limitTokens]
  split
  · exact hrest.mono (List.subset_cons_self _ _)
  · exact headIn_cons (by decide)

theorem matches_sortKey {s : SortKey} (h : IsName s.column.toList) :
    Matches (.name :: .direction :: gs) (s.tokens ++ rest) ↔ Matches gs rest := by
  obtain ⟨x, xs, hx⟩ := h.exists_tokensOf
  rw [SortKey.tokens, hx, List.append_assoc]
  cases s.direction with
  | ascending =>
    have hword : tokensOf (named Direction.ascending) = [.keyword .asc] := rfl
    rw [hword, List.singleton_append, matches_name x xs (refuses_cons rfl)]
    exact matches_last rfl
  | descending =>
    have hword : tokensOf (named Direction.descending) = [.keyword .desc] := rfl
    rw [hword, List.singleton_append, matches_name x xs (refuses_cons rfl)]
    exact matches_last rfl

theorem matches_order {sortKeys : List SortKey}
    (h : ∀ s ∈ sortKeys.filter SortKey.isFilled, IsName s.column.toList)
    (hrest : HeadIn afterSortKeys rest) :
    Matches (.order :: gs) (orderTokens sortKeys ++ rest) ↔ Matches gs rest := by
  rw [orderTokens]
  cases hf : sortKeys.filter SortKey.isFilled with
  | nil => exact matches_skip rfl (hrest.refuses (by decide))
  | cons s keys =>
    rw [hf] at h
    simp only [List.cons_append]
    rw [matches_take rfl, List.cons_append, matches_last rfl]
    exact matches_commaTokens [.name, .direction] (List.cons_ne_nil s keys) rfl rfl (by decide)
      (fun k hk _ _ _ => matches_sortKey (h k hk)) hrest

theorem headIn_orderTokens (sortKeys : List SortKey) (hrest : HeadIn afterSortKeys rest) :
    HeadIn afterFilter (orderTokens sortKeys ++ rest) := by
  rw [orderTokens]
  split
  · exact hrest.mono (List.subset_cons_self _ _)
  · exact headIn_cons (by decide)

/-! ### Joins -/

theorem matches_kind (k : JoinKind) :
    Matches (.joins :: gs) (tokensOf (named k) ++ rest) ↔ Matches (Goal.joined ++ gs) rest := by
  cases k with
  | inner => exact matches_take rfl
  | left => exact matches_take rfl
  | right => exact matches_take rfl
  | fullOuter =>
    have hwords : tokensOf (named JoinKind.fullOuter) = [.keyword .full, .keyword .outer] := rfl
    rw [hwords, List.cons_append, matches_take rfl]
    exact matches_last rfl

theorem matches_join {j : Join} (ht : IsTable j.table.toList) (hl : IsName j.left.toList)
    (hr : IsName j.right.toList) (hrest : HeadIn afterTable rest) :
    Matches (.joins :: gs) (j.tokens ++ rest) ↔ Matches (.joins :: gs) rest := by
  obtain ⟨x, xs, as, ha, htable⟩ := ht.exists_tokensOf
  obtain ⟨y, ys, hleft⟩ := hl.exists_tokensOf
  obtain ⟨z, zs, hright⟩ := hr.exists_tokensOf
  rw [Join.tokens, htable, hleft, hright, List.append_assoc, matches_kind, Goal.joined]
  simp only [List.cons_append, List.nil_append]
  rw [matches_last rfl, List.append_assoc, List.cons_append,
    matches_table x xs ha (refuses_cons rfl) (refuses_cons rfl), matches_last rfl,
    List.append_assoc, List.cons_append, matches_name y ys (refuses_cons rfl), matches_last rfl,
    matches_name z zs (hrest.refuses (by decide))]

theorem headIn_joinTokens (j : Join) : HeadIn afterTable (j.tokens ++ rest) := by
  rw [Join.tokens]
  cases j.kind <;> exact headIn_cons (by decide)

theorem headIn_joinsTokens (js : List Join) (hrest : HeadIn afterJoins rest) :
    HeadIn afterTable (js.flatMap Join.tokens ++ rest) := by
  cases js with
  | nil => exact hrest.mono (by decide)
  | cons j js =>
    rw [List.flatMap_cons, List.append_assoc]
    exact headIn_joinTokens j

theorem matches_joins {js : List Join}
    (h : ∀ j ∈ js, IsTable j.table.toList ∧ IsName j.left.toList ∧ IsName j.right.toList)
    (hrest : HeadIn afterJoins rest) :
    Matches (.joins :: gs) (js.flatMap Join.tokens ++ rest) ↔ Matches gs rest := by
  induction js with
  | nil => exact matches_skip rfl (hrest.refuses (by decide))
  | cons j js ih =>
    obtain ⟨ht, hl, hr⟩ := h j List.mem_cons_self
    rw [List.flatMap_cons, List.append_assoc, matches_join ht hl hr (headIn_joinsTokens js hrest)]
    exact ih fun k hk => h k (List.mem_cons_of_mem _ hk)

/-! ### Conditions -/

theorem Condition.exists_tokensOf_columnText {c : Condition}
    (h : c.column ≠ "" → IsName c.column.toList) :
    ∃ x xs, tokensOf c.columnText = nameTokens x xs := by
  rw [columnText]
  split
  · exact ⟨"column".toList, [], rfl⟩
  · next hc => exact (h hc).exists_tokensOf

theorem matches_column {c : Condition} (h : c.column ≠ "" → IsName c.column.toList)
    (hrest : Goal.nameRest.Refuses rest) :
    Matches (.condition :: gs) (tokensOf c.columnText ++ rest) ↔
      Matches (.comparison :: gs) rest := by
  obtain ⟨x, xs, hx⟩ := Condition.exists_tokensOf_columnText h
  rw [hx, nameTokens, List.cons_append, matches_take rfl]
  exact matches_nameRest xs hrest

theorem refuses_operator (o : Operator) :
    Goal.nameRest.Refuses (tokensOf (named o) ++ rest) := by
  cases o <;> exact refuses_cons rfl

theorem matches_comparison {o : Operator} (hn : o.isNullTest = false)
    (he : o.isExistence = false) :
    Matches (.comparison :: gs) (tokensOf (named o) ++ rest) ↔
      Matches (.operand :: gs) rest := by
  cases o with
  | notAmong =>
    have hwords : tokensOf (named Operator.notAmong) = [.keyword .not, .keyword .in] := rfl
    rw [hwords, List.cons_append, matches_take rfl]
    exact matches_last rfl
  | isNull => cases hn
  | isNotNull => cases hn
  | existing => cases he
  | notExisting => cases he
  | _ => exact matches_take (r := [.operand]) rfl

theorem matches_nullTest {o : Operator} (hn : o.isNullTest = true) :
    Matches (.comparison :: gs) (tokensOf (named o) ++ rest) ↔ Matches gs rest := by
  cases o with
  | isNull =>
    have hwords : tokensOf (named Operator.isNull) = [.keyword .is, .keyword .null] := rfl
    rw [hwords, List.cons_append, matches_take rfl]
    exact matches_last rfl
  | isNotNull =>
    have hwords : tokensOf (named Operator.isNotNull) =
        [.keyword .is, .keyword .not, .keyword .null] := rfl
    rw [hwords, List.cons_append, matches_take rfl, List.cons_append, List.cons_append,
      matches_take rfl]
    exact matches_last rfl
  | _ => cases hn

theorem matches_existence {o : Operator} (he : o.isExistence = true) :
    Matches (.condition :: gs) (tokensOf (named o) ++ rest) ↔
      Matches (.subquery :: gs) rest := by
  cases o with
  | existing => exact matches_take (r := [.subquery]) rfl
  | notExisting =>
    have hwords : tokensOf (named Operator.notExisting) = [.keyword .not, .keyword .exists] := rfl
    rw [hwords, List.cons_append, matches_take rfl]
    exact matches_last rfl
  | _ => cases he

end Clauses

namespace Query

variable {q : Query} {gs : List Goal} {rest : List Token} {tokens? : String → Option (List Token)}

/-- The query can stand in parentheses exactly if it is a finished selection. -/
def IsPhrase (q : Query) : Prop :=
  ∀ gs rest, HeadIn closers rest →
    (Matches (.selection :: gs) (q.tokens ++ rest) ↔
      (q.operation = .select ∧ q.IsFinished) ∧ Matches gs rest)

/-- A subquery in parentheses, at a goal that opens them. -/
theorem IsPhrase.matches_parenthesized (h : q.IsPhrase) {g : Goal}
    (hg : g.take? (.mark .opening) = some [.selection, .mark .closing]) :
    Matches (g :: gs) (.mark .opening :: (q.tokens ++ [.mark .closing]) ++ rest) ↔
      (q.operation = .select ∧ q.IsFinished) ∧ Matches gs rest := by
  have hclosing : HeadIn closers (.mark .closing :: rest) := headIn_cons (by decide)
  rw [List.cons_append, matches_take hg, List.append_assoc, List.singleton_append,
    List.cons_append, h _ _ hclosing, List.singleton_append, matches_last rfl]

/-- **One condition.** Its column, its operator and its value always fit together, so all depends
on the query behind it. -/
theorem matches_term {c : Condition} (hcolumn : c.column ≠ "" → IsName c.column.toList)
    (hvalue : Sql.HasPairedQuotes c.value)
    (hchild : c.operator.isNullTest = false →
      ∀ child, q.operand? c = some child → child.IsPhrase) :
    Matches (.condition :: gs) ((c.tokens fun key =>
        (Entries.find? key q.subqueries).map tokens) ++ rest) ↔
      q.IsAnswered c ∧ Matches gs rest := by
  rw [Condition.tokens, operandTokens_tokens, IsAnswered]
  by_cases he : c.operator.isExistence = true
  · have hn := Operator.isNullTest_of_isExistence he
    rw [if_pos he, List.append_assoc, matches_existence he]
    cases hoperand : q.operand? c with
    | none =>
      obtain ⟨content, hcontent⟩ := hvalue.exists_tokensOf
      have hstuck : ¬Matches (.subquery :: gs) (tokensOf (literal c.value) ++ rest) := by
        rw [hcontent]
        exact not_matches rfl (refuses_cons rfl)
      simp [hstuck, he]
    | some child =>
      rw [(hchild hn child hoperand).matches_parenthesized rfl]
      simp [hn]
  · rw [if_neg he]
    by_cases hn : c.operator.isNullTest = true
    · rw [if_pos hn, List.append_assoc, matches_column hcolumn (refuses_operator _),
        matches_nullTest hn]
      simp [he, hn]
    · rw [Bool.not_eq_true] at he hn
      rw [if_neg (by simp [hn]), List.append_assoc,
        matches_column hcolumn (by rw [List.append_assoc]; exact refuses_operator _),
        List.append_assoc, matches_comparison hn he]
      cases hoperand : q.operand? c with
      | none =>
        obtain ⟨content, hcontent⟩ := hvalue.exists_tokensOf
        simp only [hcontent]
        rw [List.singleton_append, matches_last rfl]
        simp [he]
      | some child =>
        rw [(hchild hn child hoperand).matches_parenthesized rfl]
        simp [he, hn]

theorem matches_moreConditions {P : Condition → Prop} {cs : List Condition}
    (h : ∀ c ∈ cs, ∀ gs rest,
      Matches (.condition :: gs) (c.tokens tokens? ++ rest) ↔ P c ∧ Matches gs rest)
    (hrest : HeadIn afterFilter rest) :
    Matches (.moreConditions :: gs)
        ((cs.flatMap fun c => tokensOf (named c.gate) ++ c.tokens tokens?) ++ rest) ↔
      (∀ c ∈ cs, P c) ∧ Matches gs rest := by
  induction cs with
  | nil =>
    rw [List.flatMap_nil, List.nil_append, matches_skip rfl (hrest.refuses (by decide))]
    simp
  | cons c cs ih =>
    have hgate : ∀ ts, Matches (.moreConditions :: gs) (tokensOf (named c.gate) ++ ts) ↔
        Matches (.condition :: .moreConditions :: gs) ts := by
      intro ts
      cases c.gate <;> exact matches_take (r := [.condition, .moreConditions]) rfl
    rw [List.flatMap_cons, List.append_assoc, List.append_assoc, hgate, h c List.mem_cons_self,
      ih fun d hd => h d (List.mem_cons_of_mem _ hd), List.forall_mem_cons, and_assoc]

theorem matches_filter {P : Condition → Prop} {cs : List Condition}
    (h : ∀ c ∈ cs, ∀ gs rest,
      Matches (.condition :: gs) (c.tokens tokens? ++ rest) ↔ P c ∧ Matches gs rest)
    (hrest : HeadIn afterFilter rest) :
    Matches (.filter :: gs) (whereTokens tokens? cs ++ rest) ↔
      (∀ c ∈ cs, P c) ∧ Matches gs rest := by
  cases cs with
  | nil =>
    rw [whereTokens, List.nil_append, matches_skip rfl (hrest.refuses (by decide))]
    simp
  | cons c cs =>
    rw [whereTokens, List.cons_append, matches_take rfl, List.append_assoc, List.cons_append,
      h c List.mem_cons_self, List.singleton_append,
      matches_moreConditions (fun d hd => h d (List.mem_cons_of_mem _ hd)) hrest,
      List.forall_mem_cons, and_assoc]

theorem headIn_whereTokens (tokens? : String → Option (List Token)) (cs : List Condition)
    (hrest : HeadIn afterFilter rest) :
    HeadIn afterJoins (whereTokens tokens? cs ++ rest) := by
  cases cs with
  | nil => exact hrest.mono (List.subset_cons_self _ _)
  | cons c cs => exact headIn_cons (by decide)

/-! ### Statements -/

theorem HasGrammarTexts.isItems_selection (h : q.HasGrammarTexts) :
    IsItems (tokensOf q.selection) := by
  have hcolumns := h.columns
  rw [selection]
  cases htrim : Text.trim q.columns.toList with
  | nil =>
    have hstar : tokensOf ['*'] = [.mark .star] := rfl
    rw [hstar]
    exact .single .star
  | cons c cs =>
    rw [htrim] at hcolumns
    obtain ⟨-, ts, hts, hitems⟩ := hcolumns (List.cons_ne_nil c cs)
    rw [tokensOf_eq hts]
    exact hitems

section Statements

variable {P : Condition → Prop}

/-- A selection at a goal that begins one, where more goals may stand behind it. -/
theorem matches_selectTokens (h : q.HasGrammarTexts) (ht : IsTable q.table.toList)
    (hterms : ∀ c ∈ q.conditions, ∀ gs rest,
      Matches (.condition :: gs) (c.tokens tokens? ++ rest) ↔ P c ∧ Matches gs rest)
    {g : Goal} {behind : List Goal}
    (hg : g.take? (.keyword .select) = some ([.item, .moreItems, .word .from, .name, .alias, .joins,
      .filter, .order, .limit] ++ behind))
    (hrest : HeadIn closers rest) :
    Matches (g :: gs) (q.selectTokens tokens? ++ rest) ↔
      (∀ c ∈ q.conditions, P c) ∧ Matches (behind ++ gs) rest := by
  have hlimit := headIn_limitTokens q.limit hrest
  have horder := headIn_orderTokens q.sortKeys hlimit
  have hwhere := headIn_whereTokens tokens? q.conditions horder
  have hjoins := headIn_joinsTokens (q.joins.filter Join.isFilled) hwhere
  obtain ⟨x, xs, as, ha, htable⟩ := ht.exists_tokensOf
  rw [selectTokens, htable, List.cons_append, matches_take hg]
  simp only [List.append_assoc, List.cons_append, List.nil_append]
  rw [matches_items h.isItems_selection, ← List.append_assoc (nameTokens x xs),
    matches_table x xs ha (hjoins.refuses (by decide)) (hjoins.refuses (by decide)),
    matches_joins h.filledJoins hwhere, matches_filter hterms horder,
    matches_order h.filledSortKeys hlimit, matches_limit h.limit hrest]

theorem matches_columnList (h : q.HasGrammarTexts) (hp : q.filledPairs ≠ [])
    (hrest : HeadIn [.mark .closing] rest) :
    Matches (.identifier :: .moreColumns :: gs)
        (commaTokens (q.filledPairs.map fun p => tokensOf p.column.toList) ++ rest) ↔
      Matches gs rest := by
  refine matches_commaTokens [.identifier] hp rfl rfl (by decide) (fun p hmem _ _ _ => ?_) hrest
  rw [tokensOf_eq (h.filledPairs p hmem).tokens_eq]
  exact matches_last rfl

theorem matches_valueList (hv : q.HasPairedQuotes) (hp : q.filledPairs ≠ [])
    (hrest : HeadIn [.mark .closing] rest) :
    Matches (.literal :: .moreLiterals :: gs)
        (commaTokens (q.filledPairs.map fun p => tokensOf (literal p.value)) ++ rest) ↔
      Matches gs rest := by
  refine matches_commaTokens [.literal] hp rfl rfl (by decide) (fun p hmem _ _ _ => ?_) hrest
  obtain ⟨content, hcontent⟩ := (hv.filledPairs p hmem).exists_tokensOf
  rw [hcontent]
  exact matches_last rfl

theorem matches_assignments (h : q.HasGrammarTexts) (hv : q.HasPairedQuotes)
    (hp : q.filledPairs ≠ []) (hrest : HeadIn afterJoins rest) :
    Matches (.assignment :: .moreAssignments :: gs)
        (commaTokens (q.filledPairs.map Pair.assignmentTokens) ++ rest) ↔
      Matches gs rest := by
  refine matches_commaTokens [.assignment] hp rfl rfl (by decide) (fun p hmem _ _ _ => ?_) hrest
  obtain ⟨content, hcontent⟩ := (hv.filledPairs p hmem).exists_tokensOf
  rw [Pair.assignmentTokens, tokensOf_eq (h.filledPairs p hmem).tokens_eq, hcontent]
  simp only [List.cons_append, List.nil_append]
  rw [matches_take rfl, List.cons_append, matches_skip rfl (refuses_cons rfl), List.cons_append,
    matches_last rfl]
  exact matches_last rfl

theorem matches_insertTokens (h : q.HasGrammarTexts) (hv : q.HasPairedQuotes)
    (ht : IsName q.table.toList) (hp : q.filledPairs ≠ []) :
    Matches (.script :: gs) (q.insertTokens ++ rest) ↔ Matches (.next :: gs) rest := by
  have hclosing : ∀ ts, HeadIn [.mark .closing] (.mark .closing :: ts) :=
    fun ts => headIn_cons (by decide)
  obtain ⟨x, xs, htable⟩ := ht.exists_tokensOf
  rw [insertTokens, htable, List.cons_append, matches_take rfl]
  simp only [List.append_assoc, List.cons_append, List.nil_append]
  rw [matches_last rfl, matches_name x xs (refuses_cons rfl), matches_last rfl,
    matches_columnList h hp (hclosing _), matches_last rfl, matches_last rfl, matches_last rfl,
    matches_valueList hv hp (hclosing _)]
  exact matches_last rfl

theorem matches_updateTokens (h : q.HasGrammarTexts) (hv : q.HasPairedQuotes)
    (ht : IsName q.table.toList) (hp : q.filledPairs ≠ [])
    (hterms : ∀ c ∈ q.conditions, ∀ gs rest,
      Matches (.condition :: gs) (c.tokens tokens? ++ rest) ↔ P c ∧ Matches gs rest)
    (hrest : HeadIn closers rest) :
    Matches (.script :: gs) (q.updateTokens tokens? ++ rest) ↔
      (∀ c ∈ q.conditions, P c) ∧ Matches (.next :: gs) rest := by
  have hfilter : HeadIn afterFilter rest := hrest.mono (by decide)
  obtain ⟨x, xs, htable⟩ := ht.exists_tokensOf
  rw [updateTokens, htable, List.cons_append, matches_take rfl]
  simp only [List.append_assoc, List.cons_append, List.nil_append]
  rw [matches_name x xs (refuses_cons rfl), matches_last rfl,
    matches_assignments h hv hp (headIn_whereTokens _ _ hfilter), matches_filter hterms hfilter]

theorem matches_deleteTokens (ht : IsName q.table.toList)
    (hterms : ∀ c ∈ q.conditions, ∀ gs rest,
      Matches (.condition :: gs) (c.tokens tokens? ++ rest) ↔ P c ∧ Matches gs rest)
    (hrest : HeadIn closers rest) :
    Matches (.script :: gs) (q.deleteTokens tokens? ++ rest) ↔
      (∀ c ∈ q.conditions, P c) ∧ Matches (.next :: gs) rest := by
  have hfilter : HeadIn afterFilter rest := hrest.mono (by decide)
  obtain ⟨x, xs, htable⟩ := ht.exists_tokensOf
  rw [deleteTokens, htable, List.cons_append, matches_take rfl]
  simp only [List.append_assoc, List.cons_append, List.nil_append]
  rw [matches_last rfl, matches_name x xs ((headIn_whereTokens _ _ hfilter).refuses (by decide)),
    matches_filter hterms hfilter]

end Statements

/-! ### Whole queries -/

/-- The conditions of a clean query, given that the subqueries are phrases where they are clean. -/
theorem IsClean.matches_terms (h : q.IsClean) (hp : ¬q.ShowsPlaceholder)
    (ho : q.operation ≠ .insert)
    (ih : ∀ e ∈ q.subqueries, e.2.IsClean → ¬e.2.ShowsPlaceholder → e.2.IsPhrase) :
    ∀ c ∈ q.conditions, ∀ gs rest, Matches (.condition :: gs) ((c.tokens fun key =>
        (Entries.find? key q.subqueries).map tokens) ++ rest) ↔
      q.IsAnswered c ∧ Matches gs rest := by
  intro c hc gs rest
  obtain ⟨hgrammar, hquotes⟩ := h.root
  refine matches_term (hgrammar.conditions c hc) (hquotes.conditions c hc) ?_
  intro hn child hchild
  obtain ⟨key, -, hmem⟩ := exists_mem_of_operand? hchild
  exact ih _ hmem (h.subqueries _ hmem) fun hs => hp (.operand ho hc hn hchild hs)

/-- **A clean query in parentheses.** What is not a selection never fits there. -/
theorem IsClean.isPhrase (h : q.IsClean) (hp : ¬q.ShowsPlaceholder) : q.IsPhrase := by
  induction q using Query.induct with
  | step q ih =>
    intro gs rest hrest
    have hown := placeholder?_eq_none_of_not hp
    have ht := h.root.1.table ((placeholder?_eq_none_iff q).mp hown).1
    rw [tokens_eq, statementTokens, hown]
    cases ho : q.operation <;> rw [ho] at ht
    case select =>
      have hterms := h.matches_terms hp (by simp [ho]) ih
      rw [isFinished_iff]
      simp only
      rw [matches_selectTokens h.root.1 ht hterms rfl hrest]
      simp [hown, ho]
    all_goals
      exact iff_of_false (not_matches rfl (refuses_cons rfl)) (by simp)

/-- **The grammar accepts a clean query exactly if it is finished.** -/
theorem IsClean.accepts_tokens (h : q.IsClean) (hp : ¬q.ShowsPlaceholder) :
    accepts (q.tokens ++ [.mark .semicolon]) = true ↔ q.IsFinished := by
  have hsemicolon : HeadIn closers [.mark .semicolon] := headIn_cons (by decide)
  have hnext : Matches [.next] [.mark .semicolon] :=
    (matches_take rfl).mpr (by simp [Goal.isOptional])
  have hown := placeholder?_eq_none_of_not hp
  obtain ⟨hgrammar, hquotes⟩ := h.root
  have ht := hgrammar.table ((placeholder?_eq_none_iff q).mp hown).1
  have ih : ∀ e ∈ q.subqueries, e.2.IsClean → ¬e.2.ShowsPlaceholder → e.2.IsPhrase :=
    fun _ _ => IsClean.isPhrase
  rw [accepts_iff, tokens_eq, statementTokens, hown, isFinished_iff]
  cases ho : q.operation <;> rw [ho] at ht
  case select =>
    have hterms := h.matches_terms hp (by simp [ho]) ih
    simp only
    rw [matches_selectTokens hgrammar ht hterms rfl hsemicolon]
    simp [hown, hnext]
  case insert =>
    simp only
    rw [matches_insertTokens hgrammar hquotes ht (filledPairs_ne_nil hown (.inl ho))]
    simp [hown, hnext]
  case update =>
    have hterms := h.matches_terms hp (by simp [ho]) ih
    simp only
    rw [matches_updateTokens hgrammar hquotes ht (filledPairs_ne_nil hown (.inr ho)) hterms
      hsemicolon]
    simp [hown, hnext]
  case delete =>
    have hterms := h.matches_terms hp (by simp [ho]) ih
    simp only
    rw [matches_deleteTokens ht hterms hsemicolon]
    simp [hown, hnext]

end Query

end QueryComposer
