import QueryComposer.Proofs.Query.Tree
import QueryComposer.Proofs.Sql.Placeholder
import QueryComposer.Proofs.Sql.Wording

/-!
# One statement

A semicolon outside literals ends a statement. Values may hold semicolons, line ends and
parentheses, and nested statements are made from texts that had a semicolon of their own once. All
the same the text of a query is one statement: no literal is left open, and the only semicolon
outside literals is the last character.

Nothing is asked of the texts that were typed in but that values pair their quotes and that the
others have neither quotes nor semicolons. They need not be names, and the query need not be
finished.

The pieces of a layout are sealed: whoever reads on behind such a piece finds what would be found
without it (`IsSealed`). A semicolon is put behind the outermost statement only, so the body of a
query is sealed like any other piece.

## Main definitions

* `Sql.separators` finds the semicolons of a text that stand outside literals.
* `Sql.IsSealed` says that a text closes its literals and has no such semicolon.
* `Query.HasPlainTexts` says that no text but the values has a quote or a semicolon.

## Main results

* `Query.isSealed_body`: the body of a query is sealed.
* `Query.separators_sql`: the only semicolon of a statement is its last character.
-/

namespace QueryComposer

namespace Sql

/-! ### Reading literals -/

mutual

/-- The positions of the semicolons outside literals, where the text begins at position `i`, or
`none` if a literal is left open. -/
def separators (i : Nat) : List Char → Option (List Nat)
  | [] => some []
  | c :: cs =>
    if c = '\x27' then separatorsInside (i + 1) cs
    else if c = ';' then (separators (i + 1) cs).map (i :: ·)
    else separators (i + 1) cs

/-- The same for a text that begins in a literal. A quote written twice does not end the literal. -/
def separatorsInside (i : Nat) : List Char → Option (List Nat)
  | [] => none
  | '\x27' :: '\x27' :: cs => separatorsInside (i + 2) cs
  | '\x27' :: cs => separators (i + 1) cs
  | _ :: cs => separatorsInside (i + 1) cs

end

/-- Two quotes in a literal may as well end it and begin another one, so one quote decides. -/
theorem separatorsInside_quote (i : Nat) (cs : List Char) :
    separatorsInside i ('\x27' :: cs) = separators (i + 1) cs := by
  cases cs with
  | nil => rfl
  | cons c cs =>
    by_cases hc : c = '\x27'
    · subst hc
      rw [separatorsInside, separators, if_pos rfl]
    · rw [separatorsInside.eq_3]
      rintro rest heq
      cases heq
      exact hc rfl

theorem separatorsInside_cons {c : Char} (hc : c ≠ '\x27') (i : Nat) (cs : List Char) :
    separatorsInside i (c :: cs) = separatorsInside (i + 1) cs := by
  rw [separatorsInside.eq_4 i c cs]
  · rintro rest rfl
    exact absurd rfl hc
  · rintro rfl
    exact absurd rfl hc

/-! ### Sealed texts -/

/-- The text closes the literals that it opens and has no semicolon outside them, so reading goes on
behind it as it would without it. -/
def IsSealed (xs : List Char) : Prop :=
  ∀ i rest, separators i (xs ++ rest) = separators (i + xs.length) rest

variable {xs ys : List Char}

theorem isSealed_nil : IsSealed [] := fun _ _ => rfl

theorem IsSealed.append (hx : IsSealed xs) (hy : IsSealed ys) : IsSealed (xs ++ ys) := by
  intro i rest
  rw [List.append_assoc, hx, hy, List.length_append, Nat.add_assoc]

theorem IsSealed.flatMap {α : Type} {f : α → List Char} {l : List α}
    (h : ∀ a ∈ l, IsSealed (f a)) : IsSealed (l.flatMap f) := by
  induction l with
  | nil => exact isSealed_nil
  | cons a l ih =>
    rw [List.flatMap_cons]
    exact (h a List.mem_cons_self).append (ih fun b hb => h b (List.mem_cons_of_mem _ hb))

theorem IsSealed.intercalate {α : Type} {sep : List Char} (hsep : IsSealed sep)
    {f : α → List Char} {l : List α} (h : ∀ a ∈ l, IsSealed (f a)) :
    IsSealed (List.intercalate sep (l.map f)) := by
  induction l with
  | nil => exact isSealed_nil
  | cons a l ih =>
    have ha := h a List.mem_cons_self
    cases l with
    | nil => simpa using ha
    | cons b l =>
      rw [List.map_cons, List.map_cons, List.intercalate_cons_cons]
      exact (ha.append hsep).append (ih fun c hc => h c (List.mem_cons_of_mem _ hc))

/-- The text has neither quotes nor semicolons. -/
def IsPlain (xs : List Char) : Prop := ∀ c ∈ xs, c ≠ '\x27' ∧ c ≠ ';'

-- The list is gone through. To go through all characters would be as good an instance, but slow.
instance (xs : List Char) : Decidable (IsPlain xs) :=
  List.decidableBAll (fun c => c ≠ '\x27' ∧ c ≠ ';') xs

theorem IsPlain.isSealed (h : IsPlain xs) : IsSealed xs := by
  induction xs with
  | nil => exact isSealed_nil
  | cons c xs ih =>
    obtain ⟨⟨hquote, hsemicolon⟩, hxs⟩ := List.forall_mem_cons.mp h
    intro i rest
    rw [List.cons_append, separators, if_neg hquote, if_neg hsemicolon, ih hxs,
      List.length_cons, Nat.add_assoc, Nat.add_comm 1]

theorem separatorsInside_doubled (i : Nat) (cs rest : List Char) :
    separatorsInside i (doubled cs ++ rest) =
      separatorsInside (i + (doubled cs).length) rest := by
  induction cs generalizing i with
  | nil => rfl
  | cons c cs ih =>
    rw [doubled_cons]
    split
    · have htwo : i + 1 + 1 + (doubled cs).length = i + (2 + (doubled cs).length) := by omega
      rw [List.append_assoc, List.length_append, List.cons_append, List.cons_append,
        List.nil_append, separatorsInside_quote, separators, if_pos rfl, ih, htwo]
      rfl
    · next hc =>
      rw [List.append_assoc, List.singleton_append, separatorsInside_cons hc, ih,
        List.length_append, List.length_singleton, Nat.add_assoc]

/-- A value that pairs its quotes stays between those of the literal. -/
theorem HasPairedQuotes.isSealed_literal {value : String} (h : HasPairedQuotes value) :
    IsSealed (literal value) := by
  obtain ⟨cs, hcs⟩ := h
  intro i rest
  have hlength : i + 1 + (doubled cs).length + 1 = i + (1 + (doubled cs).length + 1) := by omega
  rw [literal, hcs, List.cons_append, List.cons_append, List.append_assoc, separators, if_pos rfl,
    separatorsInside_doubled, List.singleton_append, separatorsInside_quote, hlength]
  simp [Nat.add_comm]

/-! ### Clauses -/

theorem isPlain_newLine (level : Int) : IsPlain (newLine level) := by
  refine List.forall_mem_cons.mpr ⟨by decide, fun c hc => ?_⟩
  rw [List.eq_of_mem_replicate hc]
  decide

theorem isPlain_named_operator (o : Operator) : IsPlain (named o) := by
  cases o <;> decide

theorem isPlain_named_gate (g : Gate) : IsPlain (named g) := by
  cases g <;> decide

theorem isSealed_joinClause {j : Join} (ht : IsPlain j.table.toList) (hl : IsPlain j.left.toList)
    (hr : IsPlain j.right.toList) (level : Int) : IsSealed (j.clause level) := by
  have hkind : IsPlain (named j.kind) := by
    cases j.kind <;> decide
  have hjoin : IsPlain " JOIN ".toList := by decide
  have hon : IsPlain " ON ".toList := by decide
  have hequal : IsPlain " = ".toList := by decide
  have htable := ((isPlain_newLine level).isSealed.append hkind.isSealed).append hjoin.isSealed
  have hleft := ((htable.append ht.isSealed).append hon.isSealed).append hl.isSealed
  exact (hleft.append hequal.isSealed).append hr.isSealed

theorem isSealed_commaList {α : Type} {f : α → List Char} {l : List α}
    (h : ∀ a ∈ l, IsSealed (f a)) : IsSealed (commaList (l.map f)) :=
  .intercalate (by decide : IsPlain ", ".toList).isSealed h

theorem isSealed_orderClause {sortKeys : List SortKey}
    (h : ∀ s ∈ sortKeys, IsPlain s.column.toList) (level : Int) :
    IsSealed (orderClause level sortKeys) := by
  have hwords : IsPlain "ORDER BY ".toList := by decide
  have hdirection : ∀ d : Direction, IsPlain (' ' :: named d) := by
    intro d
    cases d <;> decide
  unfold orderClause
  split
  · exact isSealed_nil
  · next hkeys =>
    refine ((isPlain_newLine level).isSealed.append hwords.isSealed).append ?_
    refine isSealed_commaList fun s hs => ?_
    exact (h s (List.mem_filter.mp hs).1).isSealed.append (hdirection s.direction).isSealed

theorem isSealed_limitClause {limit : String} (h : IsPlain limit.toList) (level : Int) :
    IsSealed (limitClause level limit) := by
  have hword : IsPlain "LIMIT ".toList := by decide
  unfold limitClause
  split
  · exact isSealed_nil
  · exact ((isPlain_newLine level).isSealed.append hword.isSealed).append h.isSealed

section Conditions

variable {level : Int} {body? : String → Option (List Char)}

theorem isSealed_parenthesized {body : List Char} (h : IsSealed body) :
    IsSealed (parenthesized level body) := by
  have hopening : IsPlain ['('] := by decide
  have hclosing : IsPlain [')'] := by decide
  have hbody := (hopening.isSealed.append (isPlain_newLine (level + 2)).isSealed).append h
  exact (hbody.append (isPlain_newLine (level + 1)).isSealed).append hclosing.isSealed

theorem isSealed_term {c : Condition} (hcolumn : IsPlain c.column.toList)
    (hoperand : c.operator.isNullTest = false → IsSealed (c.operandText level body?)) :
    IsSealed (c.term level body?) := by
  have hspace : IsPlain [' '] := by decide
  have hoperator := (isPlain_named_operator c.operator).isSealed
  have htext : IsSealed c.columnText := by
    rw [Condition.columnText]
    split
    · exact (by decide : IsPlain "column".toList).isSealed
    · exact hcolumn.isSealed
  rw [Condition.term]
  split
  · next he =>
    have hn := Operator.isNullTest_of_isExistence he
    exact hoperator.append (hspace.isSealed.append (hoperand hn))
  · split
    · exact htext.append (hspace.isSealed.append hoperator)
    · next hn =>
      have hright := hspace.isSealed.append (hoperand (by simpa using hn))
      exact (htext.append (hspace.isSealed.append hoperator)).append hright

theorem isSealed_whereClause {conditions : List Condition}
    (h : ∀ c ∈ conditions, IsSealed (c.term level body?)) :
    IsSealed (whereClause level body? conditions) := by
  cases conditions with
  | nil => exact isSealed_nil
  | cons first others =>
    have hwhere : IsPlain "WHERE ".toList := by decide
    have hspace : IsPlain [' '] := by decide
    have hfirst := ((isPlain_newLine level).isSealed.append hwhere.isSealed).append
      (h first List.mem_cons_self)
    refine hfirst.append (.flatMap fun c hc => ?_)
    have hgate := (isPlain_newLine (level + 1)).isSealed.append (isPlain_named_gate c.gate).isSealed
    exact hgate.append (hspace.isSealed.append (h c (List.mem_cons_of_mem _ hc)))

end Conditions

end Sql

/-! ### Statements -/

namespace Query

open Sql

variable {q : Query} {level : Int} {body? : String → Option (List Char)}

/-- No text but the values has a quote or a semicolon. Nothing is asked of identifiers, which are
not shown. -/
structure HasPlainTexts (q : Query) : Prop where
  table : IsPlain q.table.toList
  columns : IsPlain q.columns.toList
  pairs : ∀ p ∈ q.pairs, IsPlain p.column.toList
  conditions : ∀ c ∈ q.conditions, IsPlain c.column.toList
  joinTables : ∀ j ∈ q.joins, IsPlain j.table.toList
  joinLefts : ∀ j ∈ q.joins, IsPlain j.left.toList
  joinRights : ∀ j ∈ q.joins, IsPlain j.right.toList
  sortKeys : ∀ s ∈ q.sortKeys, IsPlain s.column.toList
  limit : IsPlain q.limit.toList

theorem isPlain_selection (h : q.HasPlainTexts) : IsPlain q.selection := by
  rw [selection]
  split
  · decide
  · intro c hc
    refine h.columns c ?_
    have hdropped := (List.dropWhile_suffix _).subset (List.mem_reverse.mp hc)
    exact (List.dropWhile_suffix _).subset (List.mem_reverse.mp hdropped)

theorem isPlain_of_placeholder? {p : String} (h : q.placeholder? = some p) :
    IsPlain p.toList := by
  have hall : ∀ p ∈ placeholders, IsPlain p.toList := by decide
  exact hall p (mem_placeholders h)

theorem isSealed_selectText (h : q.HasPlainTexts)
    (hterms : ∀ c ∈ q.conditions, IsSealed (c.term level body?)) :
    IsSealed (q.selectText level body?) := by
  have hselect : IsPlain "SELECT ".toList := by decide
  have hfrom : IsPlain "FROM ".toList := by decide
  have hjoins : IsSealed ((q.joins.filter Join.isFilled).flatMap (Join.clause level)) := by
    refine .flatMap fun j hj => ?_
    have hmem := (List.mem_filter.mp hj).1
    exact isSealed_joinClause (h.joinTables j hmem) (h.joinLefts j hmem) (h.joinRights j hmem) level
  have hcolumns := (hselect.isSealed.append (isPlain_selection h).isSealed).append
    (isPlain_newLine level).isSealed
  have htable := ((hcolumns.append hfrom.isSealed).append h.table.isSealed).append hjoins
  have hwhere := htable.append (isSealed_whereClause hterms)
  exact (hwhere.append (isSealed_orderClause h.sortKeys level)).append
    (isSealed_limitClause h.limit level)

theorem isSealed_insertText (h : q.HasPlainTexts) (hvalues : q.HasPairedQuotes) :
    IsSealed q.insertText := by
  have hinsert : IsPlain "INSERT INTO ".toList := by decide
  have hopening : IsPlain " (".toList := by decide
  have hmiddle : IsPlain ")\nVALUES (".toList := by decide
  have hclosing : IsPlain [')'] := by decide
  have hcolumns : IsSealed (commaList (q.filledPairs.map fun p => p.column.toList)) :=
    isSealed_commaList fun p hp => (h.pairs p (List.mem_filter.mp hp).1).isSealed
  have hliterals : IsSealed (commaList (q.filledPairs.map fun p => literal p.value)) :=
    isSealed_commaList fun p hp => (hvalues.filledPairs p hp).isSealed_literal
  have htable := (hinsert.isSealed.append h.table.isSealed).append hopening.isSealed
  exact (((htable.append hcolumns).append hmiddle.isSealed).append hliterals).append
    hclosing.isSealed

theorem isSealed_updateText (h : q.HasPlainTexts) (hvalues : q.HasPairedQuotes)
    (hterms : ∀ c ∈ q.conditions, IsSealed (c.term level body?)) :
    IsSealed (q.updateText level body?) := by
  have hupdate : IsPlain "UPDATE ".toList := by decide
  have hset : IsPlain "SET".toList := by decide
  have hcomma : IsPlain [','] := by decide
  have hequal : IsPlain " = ".toList := by decide
  have hassignments : IsSealed (List.intercalate [',']
      (q.filledPairs.map fun p => newLine (level + 1) ++ p.assignment)) := by
    refine .intercalate hcomma.isSealed fun p hp => ?_
    have hcolumn := (h.pairs p (List.mem_filter.mp hp).1).isSealed.append hequal.isSealed
    exact (isPlain_newLine (level + 1)).isSealed.append
      (hcolumn.append (hvalues.filledPairs p hp).isSealed_literal)
  have htable := (hupdate.isSealed.append h.table.isSealed).append (isPlain_newLine level).isSealed
  exact ((htable.append hset.isSealed).append hassignments).append (isSealed_whereClause hterms)

theorem isSealed_deleteText (h : q.HasPlainTexts)
    (hterms : ∀ c ∈ q.conditions, IsSealed (c.term level body?)) :
    IsSealed (q.deleteText level body?) := by
  have hdelete : IsPlain "DELETE FROM ".toList := by decide
  exact (hdelete.isSealed.append h.table.isSealed).append (isSealed_whereClause hterms)

/-- **The body of a query is sealed**, since it has no semicolon of its own yet. -/
theorem isSealed_body (h : q.Every fun q => q.HasPlainTexts ∧ q.HasPairedQuotes) (level : Int) :
    IsSealed (q.body level) := by
  induction q using Query.induct generalizing level with
  | step q ih =>
    obtain ⟨hplain, hvalues⟩ := h.root
    have hterms : ∀ c ∈ q.conditions, IsSealed (c.term level fun key =>
        (Entries.find? key q.subqueries).map fun child => child.body (level + 2)) := by
      intro c hc
      refine isSealed_term (hplain.conditions c hc) fun _ => ?_
      rw [operandText_body]
      cases hchild : q.operand? c with
      | none => exact (hvalues.conditions c hc).isSealed_literal
      | some child =>
        obtain ⟨key, -, hmem⟩ := exists_mem_of_operand? hchild
        exact isSealed_parenthesized (ih _ hmem (h.subqueries _ hmem) (level + 2))
    rw [body_eq, statement]
    cases hp : q.placeholder? with
    | some p => exact (isPlain_of_placeholder? hp).isSealed
    | none =>
      cases q.operation with
      | select => exact isSealed_selectText hplain hterms
      | insert => exact isSealed_insertText hplain hvalues
      | update => exact isSealed_updateText hplain hvalues hterms
      | delete => exact isSealed_deleteText hplain hterms

/-- **A query is one statement.** Its only semicolon outside literals is its last character, and a
placeholder has none. No literal is left open. -/
theorem separators_sql (h : q.Every fun q => q.HasPlainTexts ∧ q.HasPairedQuotes) (level : Int) :
    separators 0 (q.sql level) =
      if q.table = "" ∨ (q.operation = .insert ∨ q.operation = .update) ∧
          ∀ p ∈ q.pairs, p.column = "" then some []
      else some [(q.sql level).length - 1] := by
  have hbody := isSealed_body h level
  have hshown : q.placeholder? = none ↔ ¬(q.table = "" ∨
      (q.operation = .insert ∨ q.operation = .update) ∧ ∀ p ∈ q.pairs, p.column = "") := by
    rw [placeholder?_eq_none_iff]
    push Not
    exact Iff.rfl
  cases hp : q.placeholder? with
  | some p =>
    have hsealed : IsSealed (q.sql level) := by
      have hindent : IsPlain (indent level) := (List.forall_mem_cons.mp (isPlain_newLine level)).2
      rw [sql, hp]
      refine IsSealed.append ?_ hbody
      split
      · exact isSealed_nil
      · exact hindent.isSealed
    have hend := hsealed 0 []
    rw [hp] at hshown
    rw [List.append_nil] at hend
    rw [if_pos (not_not.mp fun hn => Option.some_ne_none p (hshown.mpr hn)), hend]
    rfl
  | none =>
    rw [if_neg (hshown.mp hp), sql, hp]
    change separators 0 (q.body level ++ [';']) = _
    rw [hbody, Nat.zero_add, List.length_append]
    rfl

/-- A change whose values look like ends of literals and of statements. -/
def complaint : Query :=
  { bare "root" .update with
    table := "tickets"
    pairs := [⟨"p1", "note", "it''s late;\n('';"⟩]
    conditions := [⟨"c1", "user_id", .among, "", .and, some "s1"⟩]
    subqueries := [("s1",
      { bare "s1" .select with
        table := "users"
        conditions := [⟨"c2", "name", .like, "'';--''", .and, none⟩] })] }

theorem every_complaint : complaint.Every fun q => q.HasPlainTexts ∧ q.HasPairedQuotes := by
  have hnote : Sql.HasPairedQuotes "it''s late;\n('';" := ⟨"it's late;\n(';".toList, by decide⟩
  have hname : Sql.HasPairedQuotes "'';--''" := ⟨"';--'".toList, by decide⟩
  have hlink : Sql.HasPairedQuotes "" := ⟨[], rfl⟩
  refine .intro ⟨⟨by decide, by decide, ?_, ?_, nofun, nofun, nofun, nofun, by decide⟩, ?_, ?_⟩ ?_
  · exact List.forall_mem_singleton.mpr (by decide)
  · exact List.forall_mem_singleton.mpr (by decide)
  · exact List.forall_mem_singleton.mpr hnote
  · exact List.forall_mem_singleton.mpr hlink
  · refine List.forall_mem_singleton.mpr (.intro ⟨⟨by decide, by decide, nofun, ?_, nofun, nofun,
      nofun, nofun, by decide⟩, nofun, ?_⟩ nofun)
    · exact List.forall_mem_singleton.mpr (by decide)
    · exact List.forall_mem_singleton.mpr hname

theorem separators_sql_complaint :
    (complaint.Every fun q => q.HasPlainTexts ∧ q.HasPairedQuotes) ∧
      separators 0 (complaint.sql 1) = some [(complaint.sql 1).length - 1] :=
  ⟨every_complaint, (separators_sql every_complaint 1).trans (if_neg (by decide))⟩

end Query

end QueryComposer
