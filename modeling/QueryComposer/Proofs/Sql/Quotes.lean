import QueryComposer.Proofs.Sql.Literals
import QueryComposer.Proofs.Sql.Values

/-!
# Quotes are accounted for

Single quotes come into a statement in two ways. The layout puts two around every value that it
shows, and the texts that were typed in bring their own, each as often as it is shown. Nothing else
in a statement has a quote, and none is lost, so the quotes of a statement can be counted without
looking at it.

The count matters because of the parser. If the typed texts have an odd number of quotes, so has the
statement, and a literal is left open. That is a matter of literals alone: a parser that also knows
identifiers between double quotes takes a single quote in one of them for what it is, and then an
odd number does no harm. So what follows from the count is said of statements in which nothing but
literals has quotes.

## Main definitions

* `Sql.Shows` says that a text is made of pieces of the layout, of literals and of typed texts.
* `Query.bareTexts` lists the texts that a statement shows outside literals, as often as it does,
  and `Query.shownTexts` all texts that it shows.

## Main results

* `Query.shows_sql`: a statement shows its values and its bare texts, and all else is layout.
* `Query.quotes_sql`: the quotes of a statement, and what an odd number of them means.
* `Query.not_forall_isComplete_of_odd`: a statement that is complete with an odd number of them.
-/

namespace QueryComposer

open Sql

/-! ### The texts of a query -/

/-- The texts that a join shows. -/
def Join.texts (j : Join) : List (List Char) := [j.table.toList, j.left.toList, j.right.toList]

/-- The texts that a condition shows outside its literal: its column, and those of the subquery
behind it. -/
def Condition.bareTexts (texts? : String → Option (List (List Char))) (c : Condition) :
    List (List Char) :=
  (if c.operator.isExistence then [] else [c.column.toList]) ++
    if c.operator.isNullTest then [] else (c.link?.bind texts?).getD []

namespace Query

/-- The texts that a statement shows outside literals, given those of its subqueries. -/
def statementTexts (q : Query) (texts? : String → Option (List (List Char))) :
    List (List Char) :=
  match q.placeholder? with
  | some _ => []
  | none =>
    match q.operation with
    | .select =>
      Text.trim q.columns.toList :: q.table.toList ::
        ((q.joins.filter Join.isFilled).flatMap Join.texts ++
          (q.conditions.flatMap (Condition.bareTexts texts?) ++
            (((q.sortKeys.filter SortKey.isFilled).map fun s => s.column.toList) ++
              [q.limit.toList])))
    | .insert => q.table.toList :: q.filledPairs.map fun p => p.column.toList
    | .update =>
      q.table.toList :: ((q.filledPairs.map fun p => p.column.toList) ++
        q.conditions.flatMap (Condition.bareTexts texts?))
    | .delete => q.table.toList :: q.conditions.flatMap (Condition.bareTexts texts?)

mutual

/-- The texts that the statement of the query shows outside literals, in order. The columns of a
selection are shown without the blanks around them. -/
def bareTexts : Query → List (List Char)
  | q@⟨_, _, _, _, _, _, _, _, _, subqueries⟩ =>
    statementTexts q fun key => bareTextsUnder? key subqueries

/-- The texts of the subquery under a key. -/
def bareTextsUnder? (key : String) : List (String × Query) → Option (List (List Char))
  | [] => none
  | (k, q) :: es => if k = key then some (bareTexts q) else bareTextsUnder? key es

end

theorem bareTextsUnder?_eq (key : String) (es : List (String × Query)) :
    bareTextsUnder? key es = (Entries.find? key es).map bareTexts := by
  induction es with
  | nil => rfl
  | cons e es ih =>
    obtain ⟨k, q⟩ := e
    by_cases h : k = key <;> simp [bareTextsUnder?, Entries.find?, h, ih]

theorem bareTexts_eq (q : Query) :
    q.bareTexts = q.statementTexts fun key => (Entries.find? key q.subqueries).map bareTexts := by
  cases q
  simp only [bareTexts, bareTextsUnder?_eq]

/-- All texts that the statement of the query shows, those of the values first. -/
def shownTexts (q : Query) : List (List Char) := q.values.map String.toList ++ q.bareTexts

end Query

namespace Sql

/-! ### Counting -/

theorem quotes_literal (value : String) : quotes (literal value) = quotes value.toList + 2 := by
  simp only [literal, quotes, List.cons_append, List.count_cons_self, List.count_append,
    List.count_nil]

/-- The text is put together from pieces of the layout, which have no quotes, from literals of the
values and from the texts as they were typed. A piece of the layout stands before each literal. -/
inductive Shows : List Char → List String → List (List Char) → Prop where
  | nil : Shows [] [] []
  | layout {gap xs : List Char} {values : List String} {texts : List (List Char)} :
      quotes gap = 0 → Shows xs values texts → Shows (gap ++ xs) values texts
  | text (cs : List Char) {xs : List Char} {values : List String} {texts : List (List Char)} :
      Shows xs values texts → Shows (cs ++ xs) values (cs :: texts)
  | literal {gap xs : List Char} (value : String) {values : List String}
      {texts : List (List Char)} : gap ≠ [] → quotes gap = 0 → Shows xs values texts →
      Shows (gap ++ literal value ++ xs) (value :: values) texts

/-- The text can be shown where a piece of the layout stands before it. -/
def Continues (xs : List Char) (values : List String) (texts : List (List Char)) : Prop :=
  ∀ gap, gap ≠ [] → quotes gap = 0 → Shows (gap ++ xs) values texts

section Shows

variable {xs ys gap : List Char} {values values' : List String} {texts texts' : List (List Char)}

namespace Shows

/-- **Each quote is one of two around a value or was typed in.** -/
theorem quotes_eq (h : Shows xs values texts) : quotes xs =
    2 * values.length + ((values.map String.toList ++ texts).map quotes).sum := by
  induction h with
  | nil => rfl
  | layout hgap _ ih => rw [quotes_append, hgap, ih, Nat.zero_add]
  | text cs _ ih =>
    simp only [quotes_append, ih, List.map_append, List.map_cons, List.sum_append, List.sum_cons]
    omega
  | literal value _ hgap _ ih =>
    simp only [quotes_append, ih, hgap, quotes_literal, List.length_cons, List.map_append,
      List.map_cons, List.sum_append, List.sum_cons]
    omega

theorem of_quotes (h : quotes xs = 0) : Shows xs [] [] := by
  simpa using layout h nil

theorem of_text (cs : List Char) : Shows cs [] [cs] := by
  simpa using text cs nil

theorem append (hx : Shows xs values texts) (hy : Shows ys values' texts') :
    Shows (xs ++ ys) (values ++ values') (texts ++ texts') := by
  induction hx with
  | nil => exact hy
  | layout hgap _ ih =>
    rw [List.append_assoc]
    exact layout hgap ih
  | text cs _ ih =>
    rw [List.append_assoc]
    exact text cs ih
  | literal value hne hgap _ ih =>
    rw [List.append_assoc]
    exact literal value hne hgap ih

theorem append_layout (hx : Shows xs values texts) (hgap : quotes gap = 0) :
    Shows (xs ++ gap) values texts := by
  simpa using hx.append (of_quotes hgap)

theorem congr (h : Shows xs values texts) (hvalues : values = values')
    (htexts : texts = texts') : Shows xs values' texts' := hvalues ▸ htexts ▸ h

theorem continues (h : Shows xs values texts) : Continues xs values texts :=
  fun _ _ hgap => layout hgap h

theorem flatMap {α : Type} {f : α → List Char} {g : α → List String} {h : α → List (List Char)}
    {l : List α} (ha : ∀ a ∈ l, Shows (f a) (g a) (h a)) :
    Shows (l.flatMap f) (l.flatMap g) (l.flatMap h) := by
  induction l with
  | nil => exact nil
  | cons a l ih =>
    simp only [List.flatMap_cons]
    exact (ha a List.mem_cons_self).append (ih fun b hb => ha b (List.mem_cons_of_mem _ hb))

end Shows

namespace Continues

theorem literal (value : String) : Continues (literal value) [value] [] := by
  intro gap hne hgap
  simpa using Shows.literal value hne hgap .nil

/-- Where a typed text and a piece of the layout stand before it, it is shown as well. -/
theorem append (h : Continues ys values' texts') (hx : Shows xs values texts) (hne : gap ≠ [])
    (hgap : quotes gap = 0) : Shows (xs ++ (gap ++ ys)) (values ++ values') (texts ++ texts') :=
  hx.append (h gap hne hgap)

theorem intercalate {α : Type} {f : α → List Char} {g : α → List String}
    {h : α → List (List Char)} {l : List α} {sep : List Char} (hne : sep ≠ [])
    (hsep : quotes sep = 0) (ha : ∀ a ∈ l, Continues (f a) (g a) (h a)) :
    Continues (List.intercalate sep (l.map f)) (l.flatMap g) (l.flatMap h) := by
  induction l with
  | nil => exact Shows.nil.continues
  | cons a l ih =>
    have hfirst := ha a List.mem_cons_self
    cases l with
    | nil => simpa using hfirst
    | cons b l =>
      have hrest := ih fun c hc => ha c (List.mem_cons_of_mem _ hc)
      intro gap hgap hquotes
      rw [List.map_cons, List.map_cons, List.intercalate_cons_cons, List.flatMap_cons,
        List.flatMap_cons, ← List.append_assoc, ← List.append_assoc, List.append_assoc]
      exact hrest.append (hfirst gap hgap hquotes) hne hsep

end Continues

end Shows

/-! ### Clauses -/

theorem quotes_indent (level : Int) : quotes (indent level) = 0 :=
  quotes_eq_zero fun h => absurd (List.eq_of_mem_replicate h) (by decide)

theorem quotes_newLine (level : Int) : quotes (newLine level) = 0 := quotes_indent level

theorem quotes_named_operator (o : Operator) : quotes (named o) = 0 := by
  cases o <;> rfl

theorem quotes_named_gate (g : Gate) : quotes (named g) = 0 := by
  cases g <;> rfl

theorem shows_joinClause (j : Join) (level : Int) : Shows (j.clause level) [] j.texts := by
  have hkind : quotes (named j.kind) = 0 := by
    cases j.kind <;> rfl
  have hjoin : quotes " JOIN ".toList = 0 := rfl
  have hon : quotes " ON ".toList = 0 := rfl
  have hequal : quotes " = ".toList = 0 := rfl
  have hbefore : quotes (newLine level ++ named j.kind ++ " JOIN ".toList) = 0 := by
    rw [quotes_append, quotes_append, quotes_newLine, hkind, hjoin]
  have htable := (Shows.layout hbefore (.of_text j.table.toList)).append_layout hon
  have hleft := (htable.append (.of_text j.left.toList)).append_layout hequal
  exact hleft.append (.of_text j.right.toList)

theorem continues_commaList {α : Type} {f : α → List Char} {g : α → List String}
    {h : α → List (List Char)} {l : List α} (ha : ∀ a ∈ l, Continues (f a) (g a) (h a)) :
    Continues (commaList (l.map f)) (l.flatMap g) (l.flatMap h) :=
  .intercalate (by decide) rfl ha

theorem shows_orderClause (sortKeys : List SortKey) (level : Int) :
    Shows (orderClause level sortKeys) []
      ((sortKeys.filter SortKey.isFilled).map fun s => s.column.toList) := by
  have hwords : quotes "ORDER BY ".toList = 0 := rfl
  have hdirection : ∀ d : Direction, quotes (' ' :: named d) = 0 := by
    intro d
    cases d <;> rfl
  unfold orderClause
  split
  · next hkeys =>
    rw [hkeys]
    exact .nil
  · have hbefore : quotes (newLine level ++ "ORDER BY ".toList) = 0 := by
      rw [quotes_append, quotes_newLine, hwords]
    have hterm : ∀ s ∈ sortKeys.filter SortKey.isFilled, Continues s.term [] [s.column.toList] := by
      intro s _
      exact ((Shows.of_text s.column.toList).append_layout (hdirection s.direction)).continues
    have hkeys := continues_commaList hterm _ (by simp [newLine]) hbefore
    rw [← List.map_eq_flatMap] at hkeys
    exact hkeys.congr (by simp) rfl

theorem shows_limitClause (limit : String) (level : Int) :
    Shows (limitClause level limit) [] [limit.toList] := by
  have hword : quotes "LIMIT ".toList = 0 := rfl
  unfold limitClause
  split
  · next hl =>
    subst hl
    exact .of_text []
  · have hbefore : quotes (newLine level ++ "LIMIT ".toList) = 0 := by
      rw [quotes_append, quotes_newLine, hword]
    exact .layout hbefore (.of_text limit.toList)

section Conditions

variable {level : Int} {body? : String → Option (List Char)}
  {values? : String → Option (List String)} {texts? : String → Option (List (List Char))}

theorem shows_parenthesized {body : List Char} {values : List String}
    {texts : List (List Char)} (h : Shows body values texts) :
    Shows (parenthesized level body) values texts := by
  have hopening : quotes ('(' :: newLine (level + 2)) = 0 := quotes_newLine (level + 2)
  have hclosing : quotes (newLine (level + 1) ++ [')']) = 0 := by
    rw [quotes_append, quotes_newLine]
    rfl
  simpa [parenthesized] using (Shows.layout hopening h).append_layout hclosing

/-- A condition without a column shows a word of the layout in its place. -/
theorem shows_columnText (c : Condition) : Shows c.columnText [] [c.column.toList] := by
  rw [Condition.columnText]
  split
  · next hc =>
    rw [hc]
    exact .text [] (.of_quotes rfl)
  · exact .of_text c.column.toList

theorem shows_term {c : Condition}
    (hoperand : c.operator.isNullTest = false → Continues (c.operandText level body?)
      (c.values values?) ((c.link?.bind texts?).getD [])) :
    Shows (c.term level body?) (c.values values?) (c.bareTexts texts?) := by
  have hspace : quotes [' '] = 0 := rfl
  have hoperator := quotes_named_operator c.operator
  rw [Condition.term, Condition.bareTexts]
  by_cases he : c.operator.isExistence = true
  · have hn := Operator.isNullTest_of_isExistence he
    rw [if_pos he, if_pos he, if_neg (by simp [hn])]
    exact (hoperand hn).append (.of_quotes hoperator) (List.cons_ne_nil ' ' []) hspace
  · have hbefore := ((shows_columnText c).append_layout hspace).append_layout hoperator
    rw [if_neg he, if_neg he]
    by_cases hn : c.operator.isNullTest = true
    · rw [if_pos hn, if_pos hn, Condition.values, if_pos hn]
      simpa using hbefore
    · rw [if_neg hn, if_neg hn]
      rw [Bool.not_eq_true] at hn
      simpa using (hoperand hn).append hbefore (List.cons_ne_nil ' ' []) hspace

theorem shows_whereClause {conditions : List Condition}
    (h : ∀ c ∈ conditions, Shows (c.term level body?) (c.values values?) (c.bareTexts texts?)) :
    Shows (whereClause level body? conditions) (conditions.flatMap (Condition.values values?))
      (conditions.flatMap (Condition.bareTexts texts?)) := by
  have hwhere : quotes "WHERE ".toList = 0 := rfl
  have hspace : quotes [' '] = 0 := rfl
  cases conditions with
  | nil => exact .nil
  | cons first others =>
    have hbefore : quotes (newLine level ++ "WHERE ".toList) = 0 := by
      rw [quotes_append, quotes_newLine, hwhere]
    refine (Shows.layout hbefore (h first List.mem_cons_self)).append (.flatMap ?_)
    intro c hc
    have hgate : quotes (newLine (level + 1) ++ named c.gate) = 0 := by
      rw [quotes_append, quotes_newLine, quotes_named_gate]
    exact .layout hgate (.layout hspace (h c (List.mem_cons_of_mem _ hc)))

end Conditions

end Sql

/-! ### Statements -/

namespace Query

variable {q : Query} {level : Int} {body? : String → Option (List Char)}
  {values? : String → Option (List String)} {texts? : String → Option (List (List Char))}

theorem shows_selection (q : Query) : Shows q.selection [] [Text.trim q.columns.toList] := by
  rw [selection]
  split
  · next hnil =>
    rw [hnil]
    exact .text [] (.of_quotes rfl)
  · exact .of_text _

theorem shows_selectText (hterms : ∀ c ∈ q.conditions,
      Shows (c.term level body?) (c.values values?) (c.bareTexts texts?)) :
    Shows (q.selectText level body?) (q.conditions.flatMap (Condition.values values?))
      (Text.trim q.columns.toList :: q.table.toList ::
        ((q.joins.filter Join.isFilled).flatMap Join.texts ++
          (q.conditions.flatMap (Condition.bareTexts texts?) ++
            (((q.sortKeys.filter SortKey.isFilled).map fun s => s.column.toList) ++
              [q.limit.toList])))) := by
  have hselect : quotes "SELECT ".toList = 0 := rfl
  have hfrom : quotes "FROM ".toList = 0 := rfl
  have hjoins := Shows.flatMap fun j (_ : j ∈ q.joins.filter Join.isFilled) =>
    shows_joinClause j level
  have hcolumns := Shows.layout hselect q.shows_selection
  have hbefore := (hcolumns.append_layout (quotes_newLine level)).append_layout hfrom
  have htable := hbefore.append (Shows.of_text q.table.toList)
  have hwhere := (htable.append hjoins).append (shows_whereClause hterms)
  have horder := hwhere.append (shows_orderClause q.sortKeys level)
  exact (horder.append (shows_limitClause q.limit level)).congr (by simp) (by simp)

theorem shows_insertText (q : Query) :
    Shows q.insertText (q.filledPairs.map Pair.value)
      (q.table.toList :: q.filledPairs.map fun p => p.column.toList) := by
  have hinsert : quotes "INSERT INTO ".toList = 0 := rfl
  have hopening : quotes " (".toList = 0 := rfl
  have hmiddle : quotes ")\nVALUES (".toList = 0 := rfl
  have hclosing : quotes [')'] = 0 := rfl
  have hcolumns := continues_commaList fun p (_ : p ∈ q.filledPairs) =>
    (Shows.of_text p.column.toList).continues
  have hvalues := continues_commaList fun p (_ : p ∈ q.filledPairs) => Continues.literal p.value
  have htable := Shows.layout hinsert (Shows.of_text q.table.toList)
  have hbefore := hcolumns.append htable (by decide) hopening
  have hall := (hvalues.append hbefore (by decide) hmiddle).append_layout hclosing
  rw [← List.append_assoc, ← List.append_assoc (_ ++ _) " (".toList] at hall
  refine hall.congr ?_ ?_
  · simp [List.map_eq_flatMap]
  · simp [List.map_eq_flatMap]

theorem shows_assignment (p : Pair) : Shows p.assignment [p.value] [p.column.toList] := by
  rw [Pair.assignment, List.append_assoc]
  exact (Continues.literal p.value).append (.of_text p.column.toList) (by decide) rfl

theorem shows_updateText (hterms : ∀ c ∈ q.conditions,
      Shows (c.term level body?) (c.values values?) (c.bareTexts texts?)) :
    Shows (q.updateText level body?)
      (q.filledPairs.map Pair.value ++ q.conditions.flatMap (Condition.values values?))
      (q.table.toList :: ((q.filledPairs.map fun p => p.column.toList) ++
        q.conditions.flatMap (Condition.bareTexts texts?))) := by
  have hupdate : quotes "UPDATE ".toList = 0 := rfl
  have hcomma : quotes [','] = 0 := rfl
  have hset : quotes (newLine level ++ "SET".toList) = 0 := by
    rw [quotes_append, quotes_newLine]
    rfl
  have hassignment : ∀ p ∈ q.filledPairs, Continues (newLine (level + 1) ++ p.assignment)
      [p.value] [p.column.toList] := fun p _ =>
    (Shows.layout (quotes_newLine (level + 1)) (shows_assignment p)).continues
  have htable := Shows.layout hupdate (Shows.of_text q.table.toList)
  have hpairs := (Continues.intercalate (List.cons_ne_nil ',' []) hcomma hassignment).append htable
    (by simp [newLine]) hset
  have hall := hpairs.append (shows_whereClause hterms)
  rw [← List.append_assoc, ← List.append_assoc] at hall
  refine hall.congr ?_ ?_
  · simp [List.map_eq_flatMap]
  · simp [List.map_eq_flatMap]

theorem shows_deleteText (hterms : ∀ c ∈ q.conditions,
      Shows (c.term level body?) (c.values values?) (c.bareTexts texts?)) :
    Shows (q.deleteText level body?) (q.conditions.flatMap (Condition.values values?))
      (q.table.toList :: q.conditions.flatMap (Condition.bareTexts texts?)) := by
  have hdelete : quotes "DELETE FROM ".toList = 0 := rfl
  have htable := Shows.layout hdelete (Shows.of_text q.table.toList)
  exact htable.append (shows_whereClause hterms)

theorem quotes_placeholder {p : String} (h : q.placeholder? = some p) : quotes p.toList = 0 := by
  have hall : ∀ p ∈ placeholders, quotes p.toList = 0 := by decide
  exact hall p (mem_placeholders h)

theorem shows_statement (hterms : ∀ c ∈ q.conditions,
      Shows (c.term level body?) (c.values values?) (c.bareTexts texts?)) :
    Shows (q.statement level body?) (q.statementValues values?) (q.statementTexts texts?) := by
  rw [statement, statementValues, statementTexts]
  cases hp : q.placeholder? with
  | some p => exact .of_quotes (quotes_placeholder hp)
  | none =>
    cases q.operation with
    | select => exact shows_selectText hterms
    | insert => exact shows_insertText q
    | update => exact shows_updateText hterms
    | delete => exact shows_deleteText hterms

/-- The texts of the subquery behind a condition. -/
theorem bareTexts_operand (q : Query) (c : Condition) :
    ((c.link?.bind fun key => (Entries.find? key q.subqueries).map bareTexts).getD []) =
      match q.operand? c with
      | some child => child.bareTexts
      | none => [] := by
  rw [operand?]
  cases c.link? with
  | none => rfl
  | some key => cases hf : Entries.find? key q.subqueries <;> simp [hf]

/-- **A body shows its values and its bare texts**, by induction on the tree. A condition shows
those of its subquery, as often as it leads to it. -/
theorem shows_body (q : Query) (level : Int) : Shows (q.body level) q.values q.bareTexts := by
  induction q using Query.induct generalizing level with
  | step q ih =>
    rw [body_eq, values_eq, bareTexts_eq]
    refine shows_statement ?_
    intro c _
    refine shows_term ?_
    intro hn
    rw [operandText_body, condition_values q hn, bareTexts_operand]
    cases hchild : q.operand? c with
    | none => exact .literal c.value
    | some child =>
      obtain ⟨key, -, hmem⟩ := exists_mem_of_operand? hchild
      exact (shows_parenthesized (ih _ hmem (level + 2))).continues

theorem shows_sql (q : Query) (level : Int) : Shows (q.sql level) q.values q.bareTexts := by
  have hbody := shows_body q level
  have hsemicolon : quotes [';'] = 0 := rfl
  have hbefore : quotes (if q.operation = .insert then [] else indent level) = 0 := by
    split
    · rfl
    · exact quotes_indent level
  rw [sql]
  cases q.placeholder? with
  | some p => exact .layout hbefore hbody
  | none => exact hbody.append_layout hsemicolon

theorem quotes_sql_eq (q : Query) (level : Int) :
    quotes (q.sql level) = 2 * q.values.length + (q.shownTexts.map quotes).sum :=
  (shows_sql q level).quotes_eq

/-- Literals take quotes two by two, so an odd number in the texts is an odd number in all. -/
theorem odd_quotes_sql {q : Query} (h : Odd (q.shownTexts.map quotes).sum) (level : Int) :
    Odd (quotes (q.sql level)) := by
  rw [quotes_sql_eq]
  exact (even_two_mul _).add_odd h

theorem isComplete_of_odd {parses : List Char → Bool} {q : Query} {level : Int}
    (h : Odd (q.shownTexts.map quotes).sum)
    (hparses : parses (q.sql level) = true → Even (quotes (q.sql level))) :
    isComplete parses (q.sql level) = false := by
  rw [isComplete_sql_eq]
  cases hverdict : parses (q.sql level) with
  | false => exact Bool.and_false _
  | true => exact absurd (hparses hverdict) (Nat.not_even_iff_odd.mpr (odd_quotes_sql h level))

/-- **Quotes are accounted for.** A statement has two quotes for each value that it shows and those
of the texts in it. If the texts have an odd number of them and nothing but literals has quotes in
the statement, it is not complete. -/
theorem quotes_sql (q : Query) (level : Int) :
    quotes (q.sql level) = 2 * q.values.length + (q.shownTexts.map quotes).sum ∧
      ∀ parses, TellsLiterals parses → Odd (q.shownTexts.map quotes).sum →
        quotesPlainly (q.sql level) = true → isComplete parses (q.sql level) = false :=
  ⟨quotes_sql_eq q level, fun _ htells hodd hplainly =>
    isComplete_of_odd hodd fun hparses => (htells _ hplainly hparses).even_quotes⟩

/-- A deletion with two conditions on one subquery, whose quote is shown twice, and a third on a
name with a quote. -/
def sharedQuote : Query :=
  { bare "root" .delete with
    table := "users"
    conditions := [⟨"c1", "id", .among, "", .and, some "s1"⟩,
      ⟨"c2", "friend", .among, "", .or, some "s1"⟩, ⟨"c3", "name", .equal, "O\x27Brien", .or, none⟩]
    subqueries := [("s1", { bare "s1" .select with table := "orders\x27" })] }

theorem quotes_sql_sharedQuote : (sharedQuote.shownTexts.map quotes).sum = 3 ∧
    quotes (sharedQuote.sql 1) = 5 ∧ quotesPlainly (sharedQuote.sql 1) = true ∧
      isComplete Dialect.parses (sharedQuote.sql 1) = false := by
  have hvalues : sharedQuote.values.length = 1 := by decide
  have htexts : (sharedQuote.shownTexts.map quotes).sum = 3 := by decide
  have hplainly : quotesPlainly (sharedQuote.sql 1) = true := by decide +kernel
  obtain ⟨hcount, hodd⟩ := quotes_sql sharedQuote 1
  rw [hvalues, htexts] at hcount
  have hverdict := hodd Dialect.parses Dialect.tellsLiterals_parses (htexts ▸ ⟨1, rfl⟩) hplainly
  exact ⟨htexts, hcount, hplainly, hverdict⟩

/-- A selection from a table whose name has a quote, between double quotes. -/
def quotedTable : Query := { bare "root" .select with table := "\"O\x27Brien\"" }

/-- **Not every odd number of quotes leaves a literal open**: in an identifier between double quotes
a quote is a character like any other, and the statement is complete. -/
theorem not_forall_isComplete_of_odd : ¬∀ (q : Query) (level : Int),
    Odd (q.shownTexts.map quotes).sum → isComplete Dialect.parses (q.sql level) = false := by
  intro h
  have hodd : Odd (quotedTable.shownTexts.map quotes).sum := by decide
  have hcomplete : isComplete Dialect.parses (quotedTable.sql 0) = true := by decide +kernel
  exact absurd (hcomplete.symm.trans (h quotedTable 0 hodd)) (by decide)

end Query

end QueryComposer
