import QueryComposer.Proofs.Sql.Placeholder
import QueryComposer.Proofs.Sql.Wording

/-!
# The tokens of a query

The layout of a query has line ends and indents that no token shows. `Query.tokens` goes through a
query in the way the layout does and lists the tokens, without a level. For a clean query that shows
no placeholder the text reads as these tokens, wherever it stands and however far in.

## Main definitions

* `Query.tokens` lists the tokens of a query, and nothing for a query with a placeholder of its own.

## Main results

* `Query.IsClean.reads_body`: the body of a clean query reads as its tokens, at every level.
-/

namespace QueryComposer

open Sql Token

/-! ### Layout without lines -/

namespace Sql

/-- The tokens of a text that has any. -/
def tokensOf (cs : List Char) : List Token := (tokens cs).getD []

theorem tokensOf_eq {cs : List Char} {ts : List Token} (h : tokens cs = some ts) :
    tokensOf cs = ts := by
  rw [tokensOf, h, Option.getD_some]

theorem reads_tokensOf {cs : List Char} {ts : List Token} (h : tokens cs = some ts) :
    Reads cs (tokensOf cs) := by
  rw [tokensOf_eq h]
  exact .of_tokens h

end Sql

/-- The tokens of an assignment. -/
def Pair.assignmentTokens (p : Pair) : List Token :=
  tokensOf p.column.toList ++ .mark .equal :: tokensOf (literal p.value)

/-- The tokens of a join. -/
def Join.tokens (j : Join) : List Token :=
  tokensOf (named j.kind) ++ .keyword .join :: (tokensOf j.table.toList ++
    .keyword .on :: (tokensOf j.left.toList ++ .mark .equal :: tokensOf j.right.toList))

/-- The tokens of a sort key. -/
def SortKey.tokens (s : SortKey) : List Token :=
  tokensOf s.column.toList ++ tokensOf (named s.direction)

/-- The tokens of an operand, given those of the subqueries. -/
def Condition.operandTokens (tokens? : String → Option (List Token)) (c : Condition) :
    List Token :=
  match c.link?.bind tokens? with
  | some ts => .mark .opening :: (ts ++ [.mark .closing])
  | none => tokensOf (literal c.value)

/-- The tokens of a condition without its gate. -/
def Condition.tokens (tokens? : String → Option (List Token)) (c : Condition) : List Token :=
  if c.operator.isExistence then tokensOf (named c.operator) ++ c.operandTokens tokens?
  else if c.operator.isNullTest then tokensOf c.columnText ++ tokensOf (named c.operator)
  else tokensOf c.columnText ++ (tokensOf (named c.operator) ++ c.operandTokens tokens?)

/-- The tokens of the conditions. -/
def whereTokens (tokens? : String → Option (List Token)) : List Condition → List Token
  | [] => []
  | c :: cs =>
    .keyword .where :: (c.tokens tokens? ++
      cs.flatMap fun c => tokensOf (named c.gate) ++ c.tokens tokens?)

/-- The tokens of the parts, with commas between them. -/
def commaTokens (parts : List (List Token)) : List Token := List.intercalate [.mark .comma] parts

/-- The tokens of the order of the rows. -/
def orderTokens (sortKeys : List SortKey) : List Token :=
  match sortKeys.filter SortKey.isFilled with
  | [] => []
  | keys => .keyword .order :: .keyword .by :: commaTokens (keys.map SortKey.tokens)

/-- The tokens of the limit. -/
def limitTokens (limit : String) : List Token :=
  if limit = "" then [] else .keyword .limit :: tokensOf limit.toList

namespace Query

/-- The tokens of a selection. -/
def selectTokens (q : Query) (tokens? : String → Option (List Token)) : List Token :=
  .keyword .select :: (tokensOf q.selection ++ .keyword .from :: (tokensOf q.table.toList ++
    ((q.joins.filter Join.isFilled).flatMap Join.tokens ++ (whereTokens tokens? q.conditions ++
      (orderTokens q.sortKeys ++ limitTokens q.limit)))))

/-- The tokens of an insertion. -/
def insertTokens (q : Query) : List Token :=
  .keyword .insert :: .keyword .into :: (tokensOf q.table.toList ++ .mark .opening ::
    (commaTokens (q.filledPairs.map fun p => tokensOf p.column.toList) ++
      .mark .closing :: .keyword .values :: .mark .opening ::
        (commaTokens (q.filledPairs.map fun p => tokensOf (literal p.value)) ++
          [.mark .closing])))

/-- The tokens of a change. -/
def updateTokens (q : Query) (tokens? : String → Option (List Token)) : List Token :=
  .keyword .update :: (tokensOf q.table.toList ++ .keyword .set ::
    (commaTokens (q.filledPairs.map Pair.assignmentTokens) ++ whereTokens tokens? q.conditions))

/-- The tokens of a deletion. -/
def deleteTokens (q : Query) (tokens? : String → Option (List Token)) : List Token :=
  .keyword .delete :: .keyword .from ::
    (tokensOf q.table.toList ++ whereTokens tokens? q.conditions)

/-- The tokens of a statement without its semicolon, given those of its subqueries. A placeholder
has none. -/
def statementTokens (q : Query) (tokens? : String → Option (List Token)) : List Token :=
  match q.placeholder? with
  | some _ => []
  | none =>
    match q.operation with
    | .select => q.selectTokens tokens?
    | .insert => q.insertTokens
    | .update => q.updateTokens tokens?
    | .delete => q.deleteTokens tokens?

mutual

/-- The tokens of the statement of a query, without its semicolon. -/
def tokens : Query → List Token
  | q@⟨_, _, _, _, _, _, _, _, _, subqueries⟩ =>
    statementTokens q fun key => tokensUnder? key subqueries

/-- The tokens of the subquery under a key. -/
def tokensUnder? (key : String) : List (String × Query) → Option (List Token)
  | [] => none
  | (k, q) :: es => if k = key then some (tokens q) else tokensUnder? key es

end

theorem tokensUnder?_eq (key : String) (es : List (String × Query)) :
    tokensUnder? key es = (Entries.find? key es).map tokens := by
  induction es with
  | nil => rfl
  | cons e es ih =>
    obtain ⟨k, q⟩ := e
    by_cases h : k = key <;> simp [tokensUnder?, Entries.find?, h, ih]

theorem tokens_eq (q : Query) :
    q.tokens = q.statementTokens fun key => (Entries.find? key q.subqueries).map tokens := by
  cases q
  simp only [tokens, tokensUnder?_eq]

theorem operandTokens_tokens (q : Query) (c : Condition) :
    (c.operandTokens fun key => (Entries.find? key q.subqueries).map tokens) =
      match q.operand? c with
      | some child => .mark .opening :: (child.tokens ++ [.mark .closing])
      | none => tokensOf (literal c.value) := by
  rw [Condition.operandTokens, operand?]
  cases c.link? with
  | none => rfl
  | some key => cases hf : Entries.find? key q.subqueries <;> simp [hf]

end Query

/-! ### Fixed words -/

theorem reads_named_operator (o : Operator) : Reads (named o) (tokensOf (named o)) := by
  cases o <;> exact reads_tokensOf rfl

theorem reads_named_gate (g : Gate) : Reads (named g) (tokensOf (named g)) := by
  cases g <;> exact reads_tokensOf rfl

theorem reads_named_kind (k : JoinKind) : Reads (named k) (tokensOf (named k)) := by
  cases k <;> exact reads_tokensOf rfl

theorem reads_named_direction (d : Direction) : Reads (named d) (tokensOf (named d)) := by
  cases d <;> exact reads_tokensOf rfl

/-! ### Parts -/

theorem Sql.IsName.reads {cs : List Char} (h : IsName cs) : Reads cs (tokensOf cs) := by
  obtain ⟨x, xs, hx⟩ := h.exists_tokens
  exact reads_tokensOf hx

theorem Sql.IsTable.reads {cs : List Char} (h : IsTable cs) : Reads cs (tokensOf cs) := by
  obtain ⟨x, xs, as, -, hx⟩ := h.exists_tokens
  exact reads_tokensOf hx

theorem Sql.HasPairedQuotes.reads {value : String} (h : HasPairedQuotes value) :
    Reads (literal value) (tokensOf (literal value)) := by
  obtain ⟨content, hcontent⟩ := h.exists_tokens
  exact reads_tokensOf hcontent

theorem Pair.reads_assignment {p : Pair} (hc : IsIdentifier p.column.toList)
    (hv : HasPairedQuotes p.value) : Reads p.assignment p.assignmentTokens := by
  have hequal : scanner.run .between " = ".toList = some ([.mark .equal], .between) := rfl
  have hrest := Reads.closed_append hequal hv.reads
  rw [Pair.assignment, Pair.assignmentTokens, List.append_assoc]
  exact (reads_tokensOf hc.tokens_eq).append hrest (atBoundary_cons (by decide) _)

theorem Join.reads_clause {j : Join} (ht : IsTable j.table.toList) (hl : IsName j.left.toList)
    (hr : IsName j.right.toList) (level : Int) : Reads (j.clause level) j.tokens := by
  have hjoin : scanner.run .between " JOIN ".toList = some ([.keyword .join], .between) := rfl
  have hon : scanner.run .between " ON ".toList = some ([.keyword .on], .between) := rfl
  have hequal : scanner.run .between " = ".toList = some ([.mark .equal], .between) := rfl
  have hright := Reads.closed_append hequal hr.reads
  have hleft := hl.reads.append hright (atBoundary_cons (by decide) _)
  have htable := ht.reads.append (Reads.closed_append hon hleft) (atBoundary_cons (by decide) _)
  have hkind := (reads_named_kind j.kind).append (Reads.closed_append hjoin htable)
    (atBoundary_cons (by decide) _)
  simp only [Join.clause, List.append_assoc]
  exact hkind.newLine_append level

theorem SortKey.reads_term {s : SortKey} (h : IsName s.column.toList) :
    Reads s.term s.tokens :=
  h.reads.space_append (reads_named_direction s.direction)

theorem Condition.reads_columnText {c : Condition} (h : c.column ≠ "" → IsName c.column.toList) :
    Reads c.columnText (tokensOf c.columnText) := by
  rw [columnText]
  split
  · exact reads_tokensOf rfl
  · next hc => exact (h hc).reads

section Conditions

variable {level : Int} {body? : String → Option (List Char)}
  {tokens? : String → Option (List Token)}

theorem Condition.reads_term {c : Condition} (h : c.column ≠ "" → IsName c.column.toList)
    (hoperand : c.operator.isNullTest = false →
      Reads (c.operandText level body?) (c.operandTokens tokens?)) :
    Reads (c.term level body?) (c.tokens tokens?) := by
  have hcolumn := Condition.reads_columnText h
  have hoperator := reads_named_operator c.operator
  rw [Condition.term, Condition.tokens]
  split
  · next he =>
    have hn := Operator.isNullTest_of_isExistence he
    exact hoperator.space_append (hoperand hn)
  · split
    · exact hcolumn.space_append hoperator
    · next hn =>
      rw [Bool.not_eq_true] at hn
      rw [List.append_assoc]
      exact hcolumn.space_append (hoperator.space_append (hoperand hn))

theorem reads_whereClause {conditions : List Condition}
    (h : ∀ c ∈ conditions, Reads (c.term level body?) (c.tokens tokens?)) :
    Reads (whereClause level body? conditions) (whereTokens tokens? conditions) := by
  cases conditions with
  | nil => exact .nil
  | cons first others =>
    have hwhere : scanner.run .between "WHERE ".toList = some ([.keyword .where], .between) := rfl
    have hothers : Reads
        (others.flatMap fun c => newLine (level + 1) ++ named c.gate ++ ' ' :: c.term level body?)
        (others.flatMap fun c => tokensOf (named c.gate) ++ c.tokens tokens?) ∧
        AtBoundary (others.flatMap fun c =>
          newLine (level + 1) ++ named c.gate ++ ' ' :: c.term level body?) := by
      refine Reads.flatMap (fun c hc => ?_) fun c _ => ?_
      · rw [List.append_assoc]
        have hterm := h c (List.mem_cons_of_mem _ hc)
        exact ((reads_named_gate c.gate).space_append hterm).newLine_append _
      · rw [List.append_assoc]
        exact atBoundary_newLine_append _ _
    have hfirst := (h first List.mem_cons_self).append hothers.1 hothers.2
    rw [whereClause, List.append_assoc, List.append_assoc]
    exact (Reads.closed_append hwhere hfirst).newLine_append level

theorem atBoundary_whereClause (level : Int) (body? : String → Option (List Char))
    (conditions : List Condition) : AtBoundary (whereClause level body? conditions) := by
  cases conditions with
  | nil => exact atBoundary_nil
  | cons first others =>
    rw [whereClause, List.append_assoc, List.append_assoc]
    exact atBoundary_newLine_append _ _

end Conditions

theorem reads_commaList {α : Type} {f : α → List Char} {g : α → List Token} {l : List α}
    (h : ∀ a ∈ l, Reads (f a) (g a)) : Reads (commaList (l.map f)) (commaTokens (l.map g)) := by
  have hcomma : scanner.run .between ", ".toList = some ([.mark .comma], .between) := rfl
  exact Reads.intercalate hcomma ⟨by decide, atBoundary_cons (by decide) _⟩ h

theorem reads_orderClause {sortKeys : List SortKey}
    (h : ∀ s ∈ sortKeys.filter SortKey.isFilled, IsName s.column.toList) (level : Int) :
    Reads (orderClause level sortKeys) (orderTokens sortKeys) ∧
      AtBoundary (orderClause level sortKeys) := by
  have horder : scanner.run .between "ORDER BY ".toList =
      some ([.keyword .order, .keyword .by], .between) := rfl
  have hkeys : ∀ s ∈ sortKeys.filter SortKey.isFilled, Reads s.term s.tokens :=
    fun s hs => SortKey.reads_term (h s hs)
  rw [orderClause, orderTokens]
  cases hf : sortKeys.filter SortKey.isFilled with
  | nil => exact ⟨.nil, atBoundary_nil⟩
  | cons s keys =>
    rw [hf] at hkeys
    simp only [List.append_assoc]
    exact ⟨(Reads.closed_append horder (reads_commaList hkeys)).newLine_append level,
      atBoundary_newLine_append _ _⟩

theorem reads_limitClause {limit : String} (h : ∀ c ∈ limit.toList, c.isDigit = true)
    (level : Int) :
    Reads (limitClause level limit) (limitTokens limit) ∧
      AtBoundary (limitClause level limit) := by
  rw [limitClause, limitTokens]
  by_cases hl : limit = ""
  · rw [if_pos hl, if_pos hl]
    exact ⟨.nil, atBoundary_nil⟩
  · have hword : scanner.run .between "LIMIT ".toList = some ([.keyword .limit], .between) := rfl
    have hne : limit.toList ≠ [] := by simpa using hl
    rw [if_neg hl, if_neg hl, List.append_assoc]
    exact ⟨(Reads.closed_append hword (reads_tokensOf (tokens_digits h hne))).newLine_append level,
      atBoundary_newLine_append _ _⟩

/-! ### Statements -/

namespace Query

variable {q : Query} {level : Int} {body? : String → Option (List Char)}
  {tokens? : String → Option (List Token)}

theorem reads_selection (h : q.HasGrammarTexts) : Reads q.selection (tokensOf q.selection) := by
  have hcolumns := h.columns
  rw [selection]
  cases htrim : Text.trim q.columns.toList with
  | nil => exact reads_tokensOf rfl
  | cons c cs =>
    rw [htrim] at hcolumns
    obtain ⟨-, ts, hts, -⟩ := hcolumns (List.cons_ne_nil c cs)
    exact reads_tokensOf hts

theorem reads_joins (h : q.HasGrammarTexts) (level : Int) :
    Reads ((q.joins.filter Join.isFilled).flatMap (Join.clause level))
        ((q.joins.filter Join.isFilled).flatMap Join.tokens) ∧
      AtBoundary ((q.joins.filter Join.isFilled).flatMap (Join.clause level)) := by
  refine Reads.flatMap (fun j hj => ?_) fun j _ => ?_
  · obtain ⟨ht, hl, hr⟩ := h.filledJoins j hj
    exact Join.reads_clause ht hl hr level
  · simp only [Join.clause, List.append_assoc]
    exact atBoundary_newLine_append _ _

theorem reads_selectText (h : q.HasGrammarTexts) (ht : IsTable q.table.toList)
    (hterms : ∀ c ∈ q.conditions, Reads (c.term level body?) (c.tokens tokens?)) :
    Reads (q.selectText level body?) (q.selectTokens tokens?) := by
  have hselect : scanner.run .between "SELECT ".toList = some ([.keyword .select], .between) := rfl
  have hfrom : scanner.run .between "FROM ".toList = some ([.keyword .from], .between) := rfl
  obtain ⟨hlimit, hlimit'⟩ := reads_limitClause h.limit level
  obtain ⟨horder, horder'⟩ := reads_orderClause h.filledSortKeys level
  obtain ⟨hjoins, hjoins'⟩ := reads_joins h level
  have hwhere := (reads_whereClause hterms).append (horder.append hlimit hlimit')
    (horder'.append hlimit')
  have hwhere' := (atBoundary_whereClause level body? q.conditions).append (horder'.append hlimit')
  have htable := ht.reads.append (hjoins.append hwhere hwhere') (hjoins'.append hwhere')
  have hselection := (reads_selection h).append
    ((Reads.closed_append hfrom htable).newLine_append level) (atBoundary_newLine_append _ _)
  unfold selectText
  generalize "SELECT ".toList = select at hselect ⊢
  simp only [List.append_assoc]
  exact Reads.closed_append hselect hselection

theorem reads_insertText (h : q.HasGrammarTexts) (hv : q.HasPairedQuotes)
    (ht : IsName q.table.toList) : Reads q.insertText q.insertTokens := by
  have hinsert : scanner.run .between "INSERT INTO ".toList =
      some ([.keyword .insert, .keyword .into], .between) := rfl
  have hopening : scanner.run .between " (".toList = some ([.mark .opening], .between) := rfl
  have hvalues : scanner.run .between ")\nVALUES (".toList =
      some ([.mark .closing, .keyword .values, .mark .opening], .between) := rfl
  have hclosing : Reads [')'] [.mark .closing] := .of_tokens rfl
  have hcolumns : ∀ p ∈ q.filledPairs, Reads p.column.toList (tokensOf p.column.toList) :=
    fun p hp => reads_tokensOf (h.filledPairs p hp).tokens_eq
  have hliterals : ∀ p ∈ q.filledPairs, Reads (literal p.value) (tokensOf (literal p.value)) :=
    fun p hp => (hv.filledPairs p hp).reads
  have hlast := (reads_commaList hliterals).append hclosing (atBoundary_cons (by decide) _)
  have hmiddle := (reads_commaList hcolumns).append (Reads.closed_append hvalues hlast)
    (atBoundary_cons (by decide) _)
  have htable := ht.reads.append (Reads.closed_append hopening hmiddle)
    (atBoundary_cons (by decide) _)
  unfold insertText
  generalize "INSERT INTO ".toList = insert at hinsert ⊢
  simp only [List.append_assoc]
  exact Reads.closed_append hinsert htable

theorem reads_updateText (h : q.HasGrammarTexts) (hv : q.HasPairedQuotes)
    (ht : IsName q.table.toList)
    (hterms : ∀ c ∈ q.conditions, Reads (c.term level body?) (c.tokens tokens?)) :
    Reads (q.updateText level body?) (q.updateTokens tokens?) := by
  have hupdate : scanner.run .between "UPDATE ".toList = some ([.keyword .update], .between) := rfl
  have hset : Reads "SET".toList [.keyword .set] := .of_tokens rfl
  have hcomma : scanner.run .between [','] = some ([.mark .comma], .between) := rfl
  have hassignments : ∀ p ∈ q.filledPairs,
      Reads (newLine (level + 1) ++ p.assignment) p.assignmentTokens := fun p hp =>
    (Pair.reads_assignment (h.filledPairs p hp) (hv.filledPairs p hp)).newLine_append _
  have hcomma' : AtBoundary [','] := atBoundary_cons (by decide) _
  have hlist := Reads.intercalate hcomma ⟨by decide, hcomma'⟩ hassignments
  have hlist' := hcomma'.intercalate fun p (_ : p ∈ q.filledPairs) =>
    atBoundary_newLine_append (level + 1) p.assignment
  have hwhere' := atBoundary_whereClause level body? q.conditions
  have hassigned := hset.append (hlist.append (reads_whereClause hterms) hwhere')
    (hlist'.append hwhere')
  have htable := ht.reads.append (hassigned.newLine_append level) (atBoundary_newLine_append _ _)
  unfold updateText
  generalize "UPDATE ".toList = update at hupdate ⊢
  simp only [List.append_assoc]
  exact Reads.closed_append hupdate htable

theorem reads_deleteText (ht : IsName q.table.toList)
    (hterms : ∀ c ∈ q.conditions, Reads (c.term level body?) (c.tokens tokens?)) :
    Reads (q.deleteText level body?) (q.deleteTokens tokens?) := by
  have hdelete : scanner.run .between "DELETE FROM ".toList =
      some ([.keyword .delete, .keyword .from], .between) := rfl
  have htable := ht.reads.append (reads_whereClause hterms)
    (atBoundary_whereClause _ _ q.conditions)
  unfold deleteText
  generalize "DELETE FROM ".toList = delete at hdelete ⊢
  simp only [List.append_assoc]
  exact Reads.closed_append hdelete htable

theorem reads_statement (h : q.HasGrammarTexts) (hv : q.HasPairedQuotes)
    (hp : q.placeholder? = none) (hterms : q.operation ≠ .insert →
      ∀ c ∈ q.conditions, Reads (c.term level body?) (c.tokens tokens?)) :
    Reads (q.statement level body?) (q.statementTokens tokens?) := by
  have ht := h.table ((placeholder?_eq_none_iff q).mp hp).1
  rw [statement, statementTokens, hp]
  cases ho : q.operation <;> rw [ho] at ht
  case select => exact reads_selectText h ht (hterms (by simp [ho]))
  case insert => exact reads_insertText h hv ht
  case update => exact reads_updateText h hv ht (hterms (by simp [ho]))
  case delete => exact reads_deleteText ht (hterms (by simp [ho]))

theorem reads_parenthesized {body : List Char} {ts : List Token} (h : Reads body ts) :
    Reads (parenthesized level body) (.mark .opening :: (ts ++ [.mark .closing])) := by
  have hopening : scanner.run .between ['('] = some ([.mark .opening], .between) := rfl
  have hclosing : Reads [')'] [.mark .closing] := .of_tokens rfl
  have hinner := h.append (hclosing.newLine_append (level + 1)) (atBoundary_newLine_append _ _)
  have hnext := Reads.closed_append hopening (hinner.newLine_append (level + 2))
  simpa [parenthesized] using hnext

/-- **The body of a clean query reads as its tokens.** -/
theorem IsClean.reads_body (h : q.IsClean) (hp : ¬q.ShowsPlaceholder) (level : Int) :
    Reads (q.body level) q.tokens := by
  induction q using Query.induct generalizing level with
  | step q ih =>
    obtain ⟨hgrammar, hquotes⟩ := h.root
    rw [body_eq, tokens_eq]
    refine reads_statement hgrammar hquotes (placeholder?_eq_none_of_not hp) fun ho c hc => ?_
    refine Condition.reads_term (hgrammar.conditions c hc) ?_
    intro hn
    rw [operandText_body, operandTokens_tokens]
    cases hchild : q.operand? c with
    | none => exact (hquotes.conditions c hc).reads
    | some child =>
      obtain ⟨key, -, hmem⟩ := exists_mem_of_operand? hchild
      have hshows : ¬child.ShowsPlaceholder := fun hs => hp (.operand ho hc hn hchild hs)
      exact reads_parenthesized (ih _ hmem (h.subqueries _ hmem) hshows (level + 2))

end Query

end QueryComposer
