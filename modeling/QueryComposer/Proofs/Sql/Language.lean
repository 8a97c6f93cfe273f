import QueryComposer.Sql.Grammar

/-!
# The language of a stack of goals

The recogniser runs over tokens and changes its stack of goals. To reason about a text that is made
of phrases, what matters of a stack is which tokens it accepts to the end: `Matches`. Each phrase of
the grammar then has one equivalence, which takes the goal of the phrase from the stack and its
tokens from the text. Since these are equivalences, a chain of them shows at once why a text is
accepted and why it is not.

A goal that may be left out stays on the stack when its phrase is over, and goes only when the next
token has no use for it. So the equivalences ask that the goal `Refuses` what follows.

## Main definitions

* `Matches` says that a stack of goals accepts a text of tokens.
* `nameTokens`, `IsAlias` and `IsItem` are the phrases that people type in themselves.

## Main results

* `accepts_iff`: acceptance is a match of the script goal.
* `matches_name`, `matches_table`, `matches_items`: what the phrases contribute.
-/

namespace QueryComposer.Sql

/-- The goals accept the tokens: those that are left in the end may all be left out. -/
def Matches (gs : List Goal) (ts : List Token) : Prop :=
  ∃ gs', reach gs ts = some gs' ∧ ∀ g ∈ gs', g.isOptional = true

/-- The goal has no use for the first of the tokens, if there is one. -/
def Goal.Refuses (g : Goal) (ts : List Token) : Prop := ∀ t ∈ ts.head?, g.take? t = none

theorem accepts_iff (ts : List Token) : accepts ts = true ↔ Matches [.script] ts := by
  rw [accepts, Matches]
  cases reach [.script] ts <;> simp

@[simp] theorem matches_nil (gs : List Goal) :
    Matches gs [] ↔ ∀ g ∈ gs, g.isOptional = true := by
  simp [Matches, reach]

variable {g : Goal} {gs : List Goal} {t : Token} {ts rest : List Token}

/-! ### One goal -/

theorem matches_cons (gs : List Goal) (t : Token) (ts : List Token) :
    Matches gs (t :: ts) ↔ ∃ gs', advance gs t = some gs' ∧ Matches gs' ts := by
  simp only [Matches, reach, List.foldlM_cons]
  cases advance gs t <;> simp

/-- The uppermost goal takes the token. -/
theorem matches_take {r : List Goal} (h : g.take? t = some r) :
    Matches (g :: gs) (t :: ts) ↔ Matches (r ++ gs) ts := by
  simp [matches_cons, advance, h]

/-- The uppermost goal takes the token as its last. -/
theorem matches_last (h : g.take? t = some []) : Matches (g :: gs) (t :: ts) ↔ Matches gs ts :=
  matches_take h

/-- The uppermost goal is left out. -/
theorem matches_skip (ho : g.isOptional = true) (h : g.Refuses ts) :
    Matches (g :: gs) ts ↔ Matches gs ts := by
  cases ts with
  | nil => simp [ho]
  | cons t ts =>
    have ht : g.take? t = none := h t rfl
    simp [matches_cons, advance, ht, ho]

/-- The uppermost goal is stuck. -/
theorem not_matches (ho : g.isOptional = false) (h : g.Refuses ts) : ¬Matches (g :: gs) ts := by
  cases ts with
  | nil => simp [ho]
  | cons t ts =>
    have ht : g.take? t = none := h t rfl
    simp [matches_cons, advance, ht, ho]

/-! ### What comes next -/

/-- The first of the tokens, if there is one, is among the given ones. -/
def HeadIn (next ts : List Token) : Prop := ∀ t ∈ ts.head?, t ∈ next

theorem HeadIn.refuses {next : List Token} (h : HeadIn next ts)
    (hg : ∀ t ∈ next, g.take? t = none) : g.Refuses ts :=
  fun t ht => hg t (h t ht)

theorem HeadIn.mono {next next' : List Token} (h : HeadIn next ts) (hn : next ⊆ next') :
    HeadIn next' ts :=
  fun t ht => hn (h t ht)

theorem HeadIn.append {next : List Token} (hx : HeadIn next ts) (hy : HeadIn next rest) :
    HeadIn next (ts ++ rest) := by
  cases ts with
  | nil => exact hy
  | cons t ts => exact hx

theorem headIn_cons {next : List Token} (h : t ∈ next) : HeadIn next (t :: ts) := by
  simpa [HeadIn] using h

theorem refuses_cons (h : g.take? t = none) : g.Refuses (t :: ts) := by
  simpa [Goal.Refuses] using h

/-! ### Names -/

/-- The tokens of the identifiers behind the first one of a name. -/
def dottedTokens (xs : List (List Char)) : List Token :=
  xs.flatMap fun x => [.mark .dot, .identifier x]

/-- The tokens of a name, given its first identifier and the others. -/
def nameTokens (x : List Char) (xs : List (List Char)) : List Token :=
  .identifier x :: dottedTokens xs

theorem matches_dotted (xs : List (List Char)) :
    Matches (.nameRest :: gs) (dottedTokens xs ++ rest) ↔ Matches (.nameRest :: gs) rest := by
  induction xs with
  | nil => rfl
  | cons x xs ih =>
    change Matches _ (.mark .dot :: .identifier x :: (dottedTokens xs ++ rest)) ↔ _
    rw [matches_take rfl, List.cons_append, matches_take rfl]
    exact ih

theorem matches_nameRest (xs : List (List Char)) (h : Goal.nameRest.Refuses rest) :
    Matches (.nameRest :: gs) (dottedTokens xs ++ rest) ↔ Matches gs rest := by
  rw [matches_dotted, matches_skip rfl h]

theorem matches_name (x : List Char) (xs : List (List Char)) (h : Goal.nameRest.Refuses rest) :
    Matches (.name :: gs) (nameTokens x xs ++ rest) ↔ Matches gs rest := by
  rw [nameTokens, List.cons_append, matches_take rfl]
  exact matches_nameRest xs h

/-! ### Other names -/

/-- Nothing, or another name, with or without the keyword before it. -/
inductive IsAlias : List Token → Prop where
  | none : IsAlias []
  | bare (x : List Char) : IsAlias [.identifier x]
  | named (x : List Char) : IsAlias [.keyword .as, .identifier x]

/-- The goals that end with another name take it in the same way. -/
theorem matches_alias_of {as : List Token} (ha : IsAlias as) (ho : g.isOptional = true)
    (hbare : ∀ x, g.take? (.identifier x) = some [])
    (hnamed : g.take? (.keyword .as) = some [.identifier]) (h : g.Refuses rest) :
    Matches (g :: gs) (as ++ rest) ↔ Matches gs rest := by
  cases ha with
  | none => exact matches_skip ho h
  | bare x => exact matches_last (hbare x)
  | named x =>
    rw [List.cons_append, matches_take hnamed]
    exact matches_last rfl

theorem matches_alias {as : List Token} (ha : IsAlias as) (h : Goal.alias.Refuses rest) :
    Matches (.alias :: gs) (as ++ rest) ↔ Matches gs rest :=
  matches_alias_of ha rfl (fun _ => rfl) rfl h

theorem refuses_alias {as : List Token} (ha : IsAlias as)
    (hbare : ∀ x, g.take? (.identifier x) = none) (hnamed : g.take? (.keyword .as) = none)
    (h : g.Refuses rest) : g.Refuses (as ++ rest) := by
  cases ha with
  | none => exact h
  | bare x => exact refuses_cons (hbare x)
  | named x => exact refuses_cons hnamed

/-- A table is a name that may have another name behind it. -/
theorem matches_table (x : List Char) (xs : List (List Char)) {as : List Token} (ha : IsAlias as)
    (hname : Goal.nameRest.Refuses rest) (halias : Goal.alias.Refuses rest) :
    Matches (.name :: .alias :: gs) (nameTokens x xs ++ as ++ rest) ↔ Matches gs rest := by
  rw [List.append_assoc, matches_name x xs (refuses_alias ha (fun _ => rfl) rfl hname),
    matches_alias ha halias]

/-! ### Items of a selection -/

/-- One item: everything, a number, a function of everything or of a column, a column, or all
columns of a table. -/
inductive IsItem : List Token → Prop where
  | star : IsItem [.mark .star]
  | number (ds : List Char) {as : List Token} : IsAlias as → IsItem (.number ds :: as)
  | callAll (f : List Char) {as : List Token} : IsAlias as →
      IsItem (.identifier f :: .mark .opening :: .mark .star :: .mark .closing :: as)
  | call (f x : List Char) (xs : List (List Char)) {as : List Token} : IsAlias as →
      IsItem (.identifier f :: .mark .opening :: (nameTokens x xs ++ .mark .closing :: as))
  | column (x : List Char) (xs : List (List Char)) {as : List Token} : IsAlias as →
      IsItem (nameTokens x xs ++ as)
  | allColumns (x : List Char) (xs : List (List Char)) :
      IsItem (nameTokens x xs ++ [.mark .dot, .mark .star])

/-- One or more items with commas between them. -/
inductive IsItems : List Token → Prop where
  | single {ts : List Token} : IsItem ts → IsItems ts
  | cons {ts us : List Token} : IsItem ts → IsItems us → IsItems (ts ++ .mark .comma :: us)

/-- The tokens that may stand behind an item. -/
def afterItem : List Token := [.mark .comma, .keyword .from]

theorem matches_dotted_itemPart (xs : List (List Char)) :
    Matches (.itemPartRest :: gs) (dottedTokens xs ++ rest) ↔
      Matches (.itemPartRest :: gs) rest := by
  induction xs with
  | nil => rfl
  | cons x xs ih =>
    change Matches _ (.mark .dot :: .identifier x :: (dottedTokens xs ++ rest)) ↔ _
    rw [matches_take rfl, List.cons_append, matches_take rfl]
    exact ih

/-- Behind the first identifier of an item and behind a later one, the same may follow, save for
the parentheses of a function. -/
theorem matches_dotted_item (xs : List (List Char)) (hne : xs ≠ []) :
    Matches (.itemRest :: gs) (dottedTokens xs ++ rest) ↔ Matches (.itemPartRest :: gs) rest := by
  cases xs with
  | nil => exact absurd rfl hne
  | cons x xs =>
    change Matches _ (.mark .dot :: .identifier x :: (dottedTokens xs ++ rest)) ↔ _
    rw [matches_take rfl, List.cons_append, matches_take rfl]
    exact matches_dotted_itemPart xs

theorem matches_item (h : IsItem ts) (hrest : HeadIn afterItem rest) :
    Matches (.item :: gs) (ts ++ rest) ↔ Matches gs rest := by
  have halias : Goal.alias.Refuses rest := hrest.refuses (by decide)
  cases h with
  | star => exact matches_last rfl
  | number ds ha =>
    rw [List.cons_append, matches_take rfl]
    exact matches_alias ha halias
  | callAll f ha =>
    simp only [List.cons_append]
    rw [matches_take rfl, List.cons_append, matches_take rfl, List.cons_append, matches_last rfl,
      List.cons_append, matches_last rfl]
    exact matches_alias ha halias
  | call f x xs ha =>
    simp only [List.cons_append, nameTokens, List.append_assoc]
    rw [matches_take rfl, List.cons_append, matches_take rfl, List.cons_append, matches_take rfl,
      List.cons_append, matches_nameRest xs (refuses_cons rfl), List.nil_append, List.cons_append,
      matches_last rfl]
    exact matches_alias ha halias
  | column x xs ha =>
    rw [nameTokens, List.cons_append, List.cons_append, matches_take rfl, List.append_assoc]
    by_cases hxs : xs = []
    · subst hxs
      exact matches_alias_of ha rfl (fun _ => rfl) rfl (hrest.refuses (by decide))
    · rw [List.cons_append, matches_dotted_item xs hxs]
      exact matches_alias_of ha rfl (fun _ => rfl) rfl (hrest.refuses (by decide))
  | allColumns x xs =>
    rw [nameTokens, List.cons_append, List.cons_append, matches_take rfl, List.append_assoc]
    by_cases hxs : xs = []
    · subst hxs
      change Matches (.itemRest :: _) (.mark .dot :: .mark .star :: rest) ↔ _
      rw [matches_take rfl]
      exact matches_last rfl
    · rw [List.cons_append, matches_dotted_item xs hxs]
      change Matches (.itemPartRest :: _) (.mark .dot :: .mark .star :: rest) ↔ _
      rw [matches_take rfl]
      exact matches_last rfl

/-- The items of a selection, up to the keyword that ends them. -/
theorem matches_items (h : IsItems ts) :
    Matches (.item :: .moreItems :: .word .from :: gs) (ts ++ .keyword .from :: rest) ↔
      Matches gs rest := by
  induction h with
  | single h =>
    rw [matches_item h (headIn_cons (by decide)), matches_skip rfl (refuses_cons rfl)]
    exact matches_last rfl
  | cons h _ ih =>
    rw [List.append_assoc, List.cons_append, matches_item h (headIn_cons (by decide)),
      matches_take rfl]
    exact ih

end QueryComposer.Sql
