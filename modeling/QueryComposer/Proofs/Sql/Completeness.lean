import QueryComposer.Proofs.Sql.Literals
import QueryComposer.Proofs.Sql.Parsing
import QueryComposer.Proofs.Sql.Values

/-!
# When a clean query is complete

`Sql.isComplete` looks at a text and knows nothing of the query behind it. For a clean query its
verdict is exact all the same: the text is complete if and only if the query is finished and no
value that it shows has a line that looks like a comment. The two parts of the verdict are settled
apart, the comment lines in `Values` and the grammar in `Parsing`; a query with a placeholder fails
both sides. The text of a clean query is made of the tokens of the grammar, so it does not matter
what else the parser takes.

## Main results

* `Query.IsClean.parses_sql`: a clean query is accepted exactly if it is finished.
* `Query.IsClean.isComplete_sql`: the verdict on a clean query is exact.
-/

namespace QueryComposer.Query

open Sql Token

variable {parses : List Char → Bool} {q : Query}

/-- The text of a clean query without placeholders reads as the tokens of the query and a
semicolon, so it is up to the grammar. -/
theorem IsClean.parses_sql (hg : ExtendsGrammar parses) (h : q.IsClean)
    (hp : ¬q.ShowsPlaceholder) (level : Int) : parses (q.sql level) = true ↔ q.IsFinished := by
  have hsemicolon : Reads [';'] [.mark .semicolon] := .of_tokens rfl
  have hreads := (h.reads_body hp level).append hsemicolon (atBoundary_cons (by decide) _)
  have htokens : scanner.tokens (q.sql level) = some (q.tokens ++ [.mark .semicolon]) := by
    rw [sql, placeholder?_eq_none_of_not hp]
    exact hreads.tokens_eq
  rw [hg _ _ htokens]
  exact h.accepts_tokens hp

/-- **The verdict on a clean query is exact**, at every level and for every parser that extends the
grammar. -/
theorem IsClean.isComplete_sql (hg : ExtendsGrammar parses) (h : q.IsClean) (level : Int) :
    isComplete parses (q.sql level) = true ↔ q.IsFinished ∧ ∀ v ∈ q.values, IsQuiet v := by
  by_cases hp : q.ShowsPlaceholder
  · refine iff_of_false ?_ fun hfinished => hfinished.1.not_showsPlaceholder hp
    rw [isComplete_sql_of_showsPlaceholder hp parses level]
    exact Bool.false_ne_true
  · rw [isComplete_sql_eq, Bool.and_eq_true, Bool.not_eq_true', h.hasCommentLine_sql hp level,
      h.parses_sql hg hp level, and_comm]

/-! ### A nested query -/

/-- The users of the orders. -/
def customers : Query := { bare "s1" .select with table := "orders", columns := "user_id" }

/-- The users without an order, and those called O'Brien. -/
def strangers : Query :=
  { bare "root" .select with
    table := "users u"
    conditions := [⟨"c1", "u.id", .notAmong, "", .and, some "s1"⟩,
      ⟨"c2", "name", .equal, "O\x27\x27Brien", .or, none⟩]
    subqueries := [("s1", customers)] }

theorem isClean_strangers : strangers.IsClean := by
  have hname : ∀ x : String, IsIdentifier x.toList → IsName x.toList :=
    fun x hx => ⟨x.toList, [], by simpa using hx, by simp [dotted]⟩
  have hline : ∀ cs : List Char, cs.any Text.isLineBreak = false →
      ∀ c ∈ cs, Text.isLineBreak c = false := by
    intro cs hcs
    simpa only [List.any_eq_false, Bool.not_eq_true] using hcs
  have hcustomers : customers.IsClean := by
    refine .intro ⟨?_, ⟨nofun, nofun⟩⟩ nofun
    refine ⟨fun _ => ⟨_, hname "orders" (by decide), .inl rfl⟩, fun _ => ⟨hline _ (by decide), ?_⟩,
      nofun, nofun, nofun, nofun, nofun, nofun, nofun⟩
    exact ⟨_, rfl, .single (.column _ [] .none)⟩
  have hcolumn : IsName "u.id".toList :=
    ⟨"u".toList, ["id".toList], by decide, by decide⟩
  have htable : IsTable "users u".toList :=
    ⟨_, hname "users" (by decide), .inr ⟨"u".toList, by decide, .inl (by decide)⟩⟩
  have hquotes : Sql.HasPairedQuotes "O\x27\x27Brien" := ⟨"O\x27Brien".toList, by decide⟩
  refine .intro ⟨?_, ⟨nofun, ?_⟩⟩ ?_
  · refine ⟨fun _ => htable, fun _ => ⟨hline _ (by decide), _, rfl, .single .star⟩, nofun, ?_,
      nofun, nofun, nofun, nofun, nofun⟩
    simp only [strangers, List.forall_mem_cons]
    exact ⟨fun _ => hcolumn, fun _ => hname "name" (by decide), nofun⟩
  · simp only [strangers, List.forall_mem_cons]
    exact ⟨⟨[], rfl⟩, hquotes, nofun⟩
  · simp only [strangers, List.forall_mem_cons]
    exact ⟨hcustomers, nofun⟩

theorem isFinished_strangers : strangers.IsFinished := by
  have hcustomers : customers.IsFinished := isFinished_iff.mpr ⟨rfl, nofun⟩
  refine isFinished_iff.mpr ⟨rfl, ?_⟩
  intro _
  simp only [strangers, List.forall_mem_cons]
  refine ⟨⟨nofun, fun _ child hchild => ?_⟩, ⟨nofun, nofun⟩, nofun⟩
  cases hchild
  exact ⟨rfl, hcustomers⟩

theorem isComplete_sql_strangers : ExtendsGrammar Dialect.parses ∧ strangers.IsClean ∧
    isComplete Dialect.parses (strangers.sql 3) = true := by
  have hg := Dialect.extendsGrammar_parses
  have hverdict := IsClean.isComplete_sql hg isClean_strangers 3
  exact ⟨hg, isClean_strangers, hverdict.mpr ⟨isFinished_strangers, by decide⟩⟩

end QueryComposer.Query
