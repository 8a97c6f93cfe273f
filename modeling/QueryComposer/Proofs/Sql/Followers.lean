import QueryComposer.Proofs.Sql.Language

/-!
# What follows a literal

In an accepted script a literal stands at the end of a condition, of an assignment or in a list of
values. So few tokens can come right behind one: another value or assignment, another condition, a
later clause, or the end of what the literal belongs to.

To see this of every accepted script, whatever stands before the literal, one looks at the stack of
goals. Behind a goal that can come to a literal there are only goals that take one of these tokens
first, and no token changes that (`IsLayered`).

## Main definitions

* `followers` lists the tokens that may follow a literal.
* `IsLayered` is the order of goals on a stack.

## Main results

* `mem_followers_of_accepts`: in an accepted script, what follows a literal is among the followers.
-/

namespace QueryComposer.Sql

/-- The tokens that the grammar has a use for right behind a literal. -/
def followers : List Token :=
  [.mark .comma, .mark .closing, .mark .semicolon, .keyword .where, .keyword .and, .keyword .or,
    .keyword .order, .keyword .limit]

namespace Goal

/-- The goal takes no tokens but those that may follow a literal. -/
def isLate : Goal → Bool
  | .next | .filter | .moreConditions | .order | .limit | .moreAssignments | .moreLiterals
  | .mark .closing => true
  | _ => false

/-- The goal can come to a literal. -/
def isOpen : Goal → Bool
  | .script | .next | .more | .selection | .filter | .condition | .moreConditions | .comparison
  | .operand | .subquery | .literal | .moreLiterals | .assignment | .moreAssignments => true
  | _ => false

end Goal

/-- Behind a goal that can come to a literal there are only goals for what may follow one. -/
def IsLayered (gs : List Goal) : Prop :=
  gs.Pairwise fun g h => g.isOpen = true → h.isLate = true

instance (gs : List Goal) : Decidable (IsLayered gs) :=
  inferInstanceAs (Decidable (gs.Pairwise fun g h => g.isOpen = true → h.isLate = true))

namespace Goal

theorem isLayered_of_select? {t : Token} {r : List Goal} (h : select? t = some r) :
    IsLayered r ∧ IsLayered (r ++ [.next]) := by
  revert h
  fun_cases select? t
  · rintro ⟨⟩
    decide
  · nofun

theorem isLayered_of_statement? {t : Token} {r : List Goal} (h : statement? t = some r) :
    IsLayered (r ++ [.next]) := by
  revert h
  fun_cases statement? t
  case case4 => exact fun h => (isLayered_of_select? h).2
  all_goals
    rintro ⟨⟩
    decide

theorem isLayered_of_alias? {t : Token} {r : List Goal} (h : alias? t = some r) :
    IsLayered r ∧ r.any isOpen = false := by
  revert h
  fun_cases alias? t <;> rintro ⟨⟩ <;> decide

/-- One token keeps the order of the goals, and none comes to a literal that did not before. -/
theorem isLayered_of_take? {g : Goal} {t : Token} {r : List Goal} (h : g.take? t = some r) :
    IsLayered r ∧ (r.any isOpen = true → g.isOpen = true) ∧ (g.isLate = true → t ∈ followers) := by
  revert h
  fun_cases Goal.take? g t
  -- The statements behind `script` and `more`.
  case case2 | case5 =>
    intro h
    obtain ⟨rest, hrest, rfl⟩ := Option.map_eq_some_iff.mp h
    exact ⟨isLayered_of_statement? hrest, fun _ => rfl, nofun⟩
  -- The goals `word` and `mark`, which know their token.
  case case6 =>
    rintro ⟨⟩
    exact ⟨.nil, nofun, nofun⟩
  case case8 m =>
    rintro ⟨⟩
    cases m <;> decide
  case case16 =>
    intro h
    exact ⟨(isLayered_of_select? h).1, fun _ => rfl, nofun⟩
  -- The goals that end with another name.
  case case15 | case22 | case26 =>
    intro h
    obtain ⟨hlayered, hopen⟩ := isLayered_of_alias? h
    exact ⟨hlayered, by simp [hopen], nofun⟩
  all_goals
    rintro ⟨⟩ <;> exact ⟨by decide, by decide, by simp [isLate, followers]⟩

end Goal

variable {gs gs' : List Goal} {t : Token}

/-- The goals above the one that takes the token go. -/
theorem exists_take?_of_advance (h : advance gs t = some gs') : ∃ above g behind r,
    gs = above ++ g :: behind ∧ g.take? t = some r ∧ gs' = r ++ behind := by
  induction gs with
  | nil => cases h
  | cons g gs ih =>
    rw [advance] at h
    split at h
    · next r htake =>
      cases h
      exact ⟨[], g, gs, r, rfl, htake, rfl⟩
    · split at h
      · obtain ⟨above, g', behind, r, rfl, htake, rfl⟩ := ih h
        exact ⟨g :: above, g', behind, r, rfl, htake, rfl⟩
      · cases h

theorem IsLayered.advance (h : IsLayered gs) (hgs : advance gs t = some gs') : IsLayered gs' := by
  obtain ⟨above, g, behind, r, rfl, htake, rfl⟩ := exists_take?_of_advance hgs
  obtain ⟨hbehind, hrest⟩ := List.pairwise_cons.mp (List.pairwise_append.mp h).2.1
  obtain ⟨hlayered, hopen, -⟩ := Goal.isLayered_of_take? htake
  refine List.pairwise_append.mpr ⟨hlayered, hrest, ?_⟩
  intro g' hg' h' hh' hopen'
  exact hbehind h' hh' (hopen (List.any_eq_true.mpr ⟨g', hg', hopen'⟩))

theorem IsLayered.reach {ts : List Token} (h : IsLayered gs) (hgs : reach gs ts = some gs') :
    IsLayered gs' := by
  induction ts generalizing gs with
  | nil =>
    cases hgs
    exact h
  | cons t ts ih =>
    rw [Sql.reach, List.foldlM_cons] at hgs
    obtain ⟨gs'', hadvance, hreach⟩ := Option.bind_eq_some_iff.mp hgs
    exact ih (h.advance hadvance) hreach

/-- Behind a literal only goals for what may follow it are left. -/
theorem IsLayered.isLate_of_literal {w : List Char} (h : IsLayered gs)
    (hgs : Sql.advance gs (.literal w) = some gs') : ∀ g ∈ gs', g.isLate = true := by
  obtain ⟨above, g, behind, r, rfl, htake, rfl⟩ := exists_take?_of_advance hgs
  obtain ⟨hbehind, -⟩ := List.pairwise_cons.mp (List.pairwise_append.mp h).2.1
  have hliteral : r = [] ∧ g.isOpen = true := by
    cases g <;> cases htake <;> exact ⟨rfl, rfl⟩
  rw [hliteral.1]
  exact fun g' hg' => hbehind g' hg' hliteral.2

theorem mem_followers_of_advance (h : ∀ g ∈ gs, g.isLate = true)
    (hgs : advance gs t = some gs') : t ∈ followers := by
  obtain ⟨above, g, behind, r, rfl, htake, -⟩ := exists_take?_of_advance hgs
  exact (Goal.isLayered_of_take? htake).2.2 (h g (by simp))

/-- **What follows a literal.** Wherever it stands in a script that is accepted, one of a few tokens
comes behind it, or none. -/
theorem mem_followers_of_accepts {us ws : List Token} {w : List Char}
    (h : accepts (us ++ .literal w :: t :: ws) = true) : t ∈ followers := by
  obtain ⟨last, hreach, -⟩ := (accepts_iff _).mp h
  rw [reach_append] at hreach
  obtain ⟨gs, hus, hrest⟩ := Option.bind_eq_some_iff.mp hreach
  rw [reach, List.foldlM_cons] at hrest
  obtain ⟨behind, hliteral, hrest⟩ := Option.bind_eq_some_iff.mp hrest
  rw [List.foldlM_cons] at hrest
  obtain ⟨next, hnext, -⟩ := Option.bind_eq_some_iff.mp hrest
  have hlayered : IsLayered gs := IsLayered.reach (by decide) hus
  exact mem_followers_of_advance (hlayered.isLate_of_literal hliteral) hnext

end QueryComposer.Sql
