import QueryComposer.Proofs.Sql.Followers
import QueryComposer.Proofs.Sql.Parsing
import QueryComposer.Proofs.Sql.Quotes

/-!
# Stray quotes

A quote in a value that is not one of a pair ends the literal of the value, and the rest of the
value is read as part of the statement. Most texts do not fit there, so the statement is not
complete. But some do: a value can end its literal, go on as the statement may, and open another
literal for the quote that the layout puts behind it.

So the first such quote is flagged in two cases. If the values have an odd number of quotes, one
literal is left open. And if there is text behind the quote that does not begin with a token for
which the grammar has a use behind a literal, the statement breaks off there, whatever the values
behind it hold.

## Main definitions

* `Sql.loneRest?` is what stands behind the first lone quote of a text.
* `Sql.goesOn` says that a text goes on as a statement may behind a literal.

## Main results

* `Sql.Shows.exists_literal`: the literal of the first value with a lone quote ends at that quote.
* `Query.isComplete_sql_of_stray`: when a stray quote is flagged, at every level.
* `Query.not_forall_isComplete_sql`: a stray quote that is not flagged.
-/

namespace QueryComposer

open Sql

namespace Sql

/-! ### The first token of a text -/

namespace Token

theorem tokensFrom_nil (m : Mode) : tokensFrom m [] = finish m := by
  simp [tokensFrom, Text.Scanner.run]

/-- The mode is in the middle of a token that is no word. -/
def Mode.isOwing : Mode → Bool
  | .between | .word _ => false
  | _ => true

/-- The token is a number. -/
def isNumber : Token → Bool
  | .number _ => true
  | _ => false

/-- The token is a literal. -/
def isLiteral : Token → Bool
  | .literal _ => true
  | _ => false

/-- Such a token can come of the mode. -/
def Mode.owes : Mode → Token → Bool
  | .between | .word _ => fun _ => false
  | .number _ => isNumber
  | .literal _ | .quote _ => isLiteral
  | .bang => fun t => t = .mark .notEqual
  | .less => fun t => t = .mark .less || t = .mark .atMost
  | .greater => fun t => t = .mark .greater || t = .mark .atLeast

/-- A token that has begun goes on or is released. -/
theorem owes_of_step {m m' : Mode} {c : Char} {us : List Token} (hm : m.isOwing = true)
    (h : step m c = some (us, m')) :
    (us = [] ∧ m'.isOwing = true ∧ ∀ t, m'.owes t = true → m.owes t = true) ∨
      ∃ t vs, us = t :: vs ∧ m.owes t = true := by
  have hend : ∀ t, m.owes t = true → endBefore t c = some (us, m') →
      ∃ t vs, us = t :: vs ∧ m.owes t = true := by
    intro t ht hend
    obtain ⟨r, -, heq⟩ := Option.map_eq_some_iff.mp hend
    cases heq
    exact ⟨t, r.1, rfl, ht⟩
  cases m with
  | between => cases hm
  | word w => cases hm
  | literal w =>
    rw [step] at h
    split at h <;> cases h <;> exact .inl ⟨rfl, rfl, fun _ => id⟩
  | number w =>
    rw [step] at h
    split at h
    · cases h
      exact .inl ⟨rfl, rfl, fun _ => id⟩
    · exact .inr (hend _ rfl h)
  | quote w =>
    rw [step] at h
    split at h
    · cases h
      exact .inl ⟨rfl, rfl, fun _ => id⟩
    · exact .inr (hend _ rfl h)
  | bang =>
    rw [step] at h
    split at h
    · cases h
      exact .inr ⟨_, [], rfl, rfl⟩
    · cases h
  | less =>
    rw [step] at h
    split at h
    · cases h
      exact .inr ⟨_, [], rfl, rfl⟩
    · exact .inr (hend _ rfl h)
  | greater =>
    rw [step] at h
    split at h
    · cases h
      exact .inr ⟨_, [], rfl, rfl⟩
    · exact .inr (hend _ rfl h)

theorem exists_owed {m : Mode} {cs : List Char} {ts : List Token} (hm : m.isOwing = true)
    (h : tokensFrom m cs = some ts) : ∃ t vs, ts = t :: vs ∧ m.owes t = true := by
  induction cs generalizing m ts with
  | nil =>
    rw [tokensFrom_nil] at h
    cases m <;> cases hm <;> cases h <;> exact ⟨_, [], rfl, rfl⟩
  | cons c cs ih =>
    rw [tokensFrom_cons] at h
    obtain ⟨⟨us, m'⟩, hstep, h⟩ := Option.bind_eq_some_iff.mp h
    obtain ⟨vs, hvs, rfl⟩ := Option.map_eq_some_iff.mp h
    obtain ⟨rfl, hm', howes⟩ | ⟨t, us', rfl, howes⟩ := owes_of_step hm hstep
    · obtain ⟨t, ws, rfl, ht⟩ := ih hm' hvs
      exact ⟨t, ws, rfl, howes t ht⟩
    · exact ⟨t, us' ++ vs, rfl, howes⟩

/-- A word goes on as long as it can. -/
theorem exists_word {w cs : List Char} {ts : List Token} (h : tokensFrom (.word w) cs = some ts) :
    ∃ vs, ts = ofWord (w.reverse ++ cs.takeWhile isWordChar) :: vs := by
  induction cs generalizing w ts with
  | nil =>
    cases h
    exact ⟨[], by simp⟩
  | cons c cs ih =>
    rw [tokensFrom_cons] at h
    obtain ⟨⟨us, m'⟩, hstep, h⟩ := Option.bind_eq_some_iff.mp h
    obtain ⟨vs, hvs, rfl⟩ := Option.map_eq_some_iff.mp h
    rw [step] at hstep
    split at hstep
    · next hc =>
      cases hstep
      obtain ⟨ws, rfl⟩ := ih hvs
      exact ⟨ws, by simp [hc]⟩
    · next hc =>
      obtain ⟨r, -, heq⟩ := Option.map_eq_some_iff.mp hstep
      cases heq
      exact ⟨r.1 ++ vs, by simp [hc]⟩

theorem isOwing_of_step_quote {m m' : Mode} {us : List Token} (h : step m '\x27' = some (us, m')) :
    m'.isOwing = true ∧ ∀ t, m'.owes t = true → t.isLiteral = true := by
  cases m <;> cases h <;> exact ⟨rfl, fun _ => id⟩

/-- A text with a quote has a literal. -/
theorem exists_literal_of_mem {m : Mode} {cs : List Char} {ts : List Token}
    (h : tokensFrom m cs = some ts) (hquote : '\x27' ∈ cs) : ∃ t ∈ ts, t.isLiteral = true := by
  induction cs generalizing m ts with
  | nil => cases hquote
  | cons c cs ih =>
    rw [tokensFrom_cons] at h
    obtain ⟨⟨us, m'⟩, hstep, h⟩ := Option.bind_eq_some_iff.mp h
    obtain ⟨vs, hvs, rfl⟩ := Option.map_eq_some_iff.mp h
    rcases List.mem_cons.mp hquote with rfl | hquote
    · obtain ⟨howing, hliteral⟩ := isOwing_of_step_quote hstep
      obtain ⟨t, ws, rfl, ht⟩ := exists_owed howing hvs
      exact ⟨t, by simp, hliteral t ht⟩
    · obtain ⟨t, ht, hliteral⟩ := ih hvs hquote
      exact ⟨t, List.mem_append_right _ ht, hliteral⟩

end Token

theorem quotes_eq_zero_of_tokens {cs : List Char} {ts : List Token} (h : Token.tokens cs = some ts)
    (hts : ∀ t ∈ ts, t.isLiteral = false) : quotes cs = 0 := by
  refine quotes_eq_zero fun hquote => ?_
  rw [Token.tokens_eq_tokensFrom] at h
  obtain ⟨t, ht, hliteral⟩ := Token.exists_literal_of_mem h hquote
  rw [hts t ht] at hliteral
  cases hliteral

/-! ### Going on behind a literal -/

/-- The words of the keywords that may follow a literal. -/
def followingWords : List String := ["WHERE", "AND", "OR", "ORDER", "LIMIT"]

/-- Behind blanks, the text goes on as a statement may behind a literal. -/
def goesOn (cs : List Char) : Bool :=
  let rest := cs.dropWhile Text.isBlank
  rest.head?.any (fun c => c ∈ [',', ')', ';']) ||
    followingWords.any fun w => w.toList = rest.takeWhile Token.isWordChar

theorem not_mem_followers_of_owes {m : Token.Mode} {t : Token} (h : m.owes t = true) :
    t ∉ followers := by
  intro ht
  simp only [followers, List.mem_cons, List.not_mem_nil, or_false] at ht
  rcases ht with rfl | rfl | rfl | rfl | rfl | rfl | rfl | rfl <;> cases m <;> cases h

theorem any_followingWords_of_mem {word : List Char} (h : Token.ofWord word ∈ followers) :
    (followingWords.any fun w => w.toList = word) = true := by
  rw [Token.ofWord] at h
  cases hk : (Choice.ofName? (String.ofList word) : Option Keyword) with
  | none => simp [hk, followers] at h
  | some k =>
    have hword : (Choice.name k).toList = word := by
      rw [Choice.name_of_ofName? hk, String.toList_ofList]
    rw [hk] at h
    subst hword
    cases k <;> first | decide | exact absurd h (by decide)

theorem goesOn_cons_blank {c : Char} (h : Text.isBlank c = true) (cs : List Char) :
    goesOn (c :: cs) = goesOn cs := by
  simp [goesOn, h]

theorem goesOn_cons {c : Char} (h : Text.isBlank c = false) (cs : List Char) :
    goesOn (c :: cs) = (decide (c ∈ [',', ')', ';']) ||
      followingWords.any fun w => w.toList = (c :: cs).takeWhile Token.isWordChar) := by
  simp [goesOn, h]

theorem takeWhile_append_quote (cs ys : List Char) :
    (cs ++ '\x27' :: ys).takeWhile Token.isWordChar = cs.takeWhile Token.isWordChar := by
  have hquote : ('\x27' :: ys).takeWhile Token.isWordChar = [] := rfl
  rw [List.takeWhile_append, hquote, List.append_nil]
  split
  · next hlength => exact (List.IsPrefix.eq_of_length (List.takeWhile_prefix _) hlength).symm
  · rfl

/-- What the scanner begins with a character that is neither blank nor part of a word. -/
theorem begin?_cases {c : Char} {us : List Token} {m : Token.Mode}
    (hblank : Text.isBlank c = false) (hstart : Token.isWordStart c = false)
    (h : Token.begin? c = some (us, m)) :
    (us = [] ∧ m.isOwing = true) ∨ ∃ k, Token.mark? c = some k ∧ us = [.mark k] := by
  cases hk : Token.mark? c <;> grind [Token.begin?, Token.Mode.isOwing]

theorem mem_of_mark?_mem_followers {c : Char} {k : Mark} (hk : Token.mark? c = some k)
    (h : Token.mark k ∈ followers) : c ∈ [',', ')', ';'] := by
  revert hk
  fun_cases Token.mark? c <;> rintro ⟨⟩ <;> revert h <;> decide

/-- The first token of a text that does not go on may not follow a literal. -/
theorem exists_not_mem_followers {cs ys : List Char} {ts : List Token}
    (h : Token.tokens (cs ++ '\x27' :: ys) = some ts) (hcs : goesOn cs = false) :
    ∃ t vs, ts = t :: vs ∧ t ∉ followers := by
  have howed : ∀ {m : Token.Mode} {xs : List Char} {vs : List Token}, m.isOwing = true →
      Token.tokensFrom m xs = some vs → ∃ t ws, vs = t :: ws ∧ t ∉ followers := by
    intro m xs vs hm hvs
    obtain ⟨t, ws, rfl, ht⟩ := Token.exists_owed hm hvs
    exact ⟨t, ws, rfl, not_mem_followers_of_owes ht⟩
  induction cs generalizing ts with
  | nil =>
    rw [List.nil_append, Token.tokens_eq_tokensFrom, Token.tokensFrom_cons] at h
    obtain ⟨vs, hvs, rfl⟩ := Option.map_eq_some_iff.mp h
    exact howed rfl hvs
  | cons c cs ih =>
    rw [List.cons_append, Token.tokens_eq_tokensFrom, Token.tokensFrom_cons, Token.step] at h
    obtain ⟨⟨us, m⟩, hbegin, h⟩ := Option.bind_eq_some_iff.mp h
    obtain ⟨vs, hvs, rfl⟩ := Option.map_eq_some_iff.mp h
    by_cases hblank : Text.isBlank c = true
    · rw [Token.begin?, if_pos hblank] at hbegin
      cases hbegin
      rw [goesOn_cons_blank hblank] at hcs
      exact ih ((Token.tokens_eq_tokensFrom _).trans hvs) hcs
    · rw [Bool.not_eq_true] at hblank
      rw [goesOn_cons hblank, Bool.or_eq_false_iff] at hcs
      by_cases hstart : Token.isWordStart c = true
      · have hword : Token.isWordChar c = true := by rw [Token.isWordChar, hstart, Bool.true_or]
        rw [begin?_of_isWordStart hstart] at hbegin
        cases hbegin
        obtain ⟨ws, rfl⟩ := Token.exists_word hvs
        refine ⟨_, ws, rfl, fun hmem => ?_⟩
        have hany := any_followingWords_of_mem hmem
        rw [takeWhile_append_quote] at hany
        rw [List.takeWhile_cons_of_pos hword] at hcs
        exact absurd (hcs.2.symm.trans hany) (by decide)
      · rw [Bool.not_eq_true] at hstart
        obtain ⟨rfl, hm⟩ | ⟨k, hk, rfl⟩ := begin?_cases hblank hstart hbegin
        · exact howed hm hvs
        · refine ⟨_, vs, rfl, fun hmem => ?_⟩
          exact absurd (mem_of_mark?_mem_followers hk hmem) (of_decide_eq_false hcs.1)

/-! ### The literal with the stray quote -/

/-- What stands behind the first quote of a text that is not one of a pair. -/
def loneRest? : List Char → Option (List Char)
  | [] => none
  | '\x27' :: '\x27' :: cs => loneRest? cs
  | '\x27' :: cs => some cs
  | _ :: cs => loneRest? cs

theorem loneRest?_doubled (cs : List Char) : loneRest? (doubled cs) = none := by
  induction cs with
  | nil => rfl
  | cons c cs ih =>
    rw [doubled_cons]
    split
    · exact ih
    · next hc =>
      rw [List.singleton_append, loneRest?.eq_4]
      · exact ih
      · rintro rest rfl
        exact absurd rfl hc
      · rintro rfl
        exact absurd rfl hc

theorem eq_doubled_of_loneRest? {cs : List Char} (h : loneRest? cs = none) :
    ∃ p, cs = doubled p := by
  fun_induction loneRest? cs with
  | case1 => exact ⟨[], rfl⟩
  | case2 cs ih =>
    obtain ⟨p, rfl⟩ := ih h
    exact ⟨'\x27' :: p, rfl⟩
  | case3 cs hne => cases h
  | case4 c cs hpair hquote ih =>
    obtain ⟨p, rfl⟩ := ih h
    exact ⟨c :: p, by rw [doubled_cons, if_neg hquote]; rfl⟩

theorem eq_append_of_loneRest? {cs rest : List Char} (h : loneRest? cs = some rest) :
    ∃ p, cs = doubled p ++ '\x27' :: rest ∧ rest.head? ≠ some '\x27' := by
  fun_induction loneRest? cs with
  | case1 => cases h
  | case2 cs ih =>
    obtain ⟨p, rfl, hrest⟩ := ih h
    exact ⟨'\x27' :: p, rfl, hrest⟩
  | case3 cs hne =>
    cases h
    refine ⟨[], rfl, fun hhead => ?_⟩
    obtain ⟨cs', rfl⟩ := List.head?_eq_some_iff.mp hhead
    exact hne cs' rfl
  | case4 c cs hpair hquote ih =>
    obtain ⟨p, rfl, hrest⟩ := ih h
    exact ⟨c :: p, by rw [doubled_cons, if_neg hquote]; rfl, hrest⟩

/-- A value pairs its quotes exactly if none of them is alone. -/
theorem hasPairedQuotes_iff (value : String) :
    HasPairedQuotes value ↔ loneRest? value.toList = none := by
  constructor
  · rintro ⟨cs, hcs⟩
    rw [hcs, loneRest?_doubled]
  · exact eq_doubled_of_loneRest?

instance (value : String) : Decidable (HasPairedQuotes value) :=
  decidable_of_iff _ (hasPairedQuotes_iff value).symm

namespace Token

theorem ne_quote_of_begin? {m : Mode} {c : Char} {us : List Token} (h : begin? c = some (us, m))
    (w : List Char) : m ≠ .quote w := by
  cases hm : mark? c <;> grind [begin?]

theorem ne_quote_of_step {m m' : Mode} {c : Char} {us : List Token} (hc : c ≠ '\x27')
    (h : step m c = some (us, m')) (w : List Char) : m' ≠ .quote w := by
  have hend : ∀ t, endBefore t c = some (us, m') → m' ≠ .quote w := by
    intro t ht
    obtain ⟨r, hr, heq⟩ := Option.map_eq_some_iff.mp ht
    cases heq
    exact ne_quote_of_begin? hr w
  cases m with
  | between => exact ne_quote_of_begin? h w
  | _ => grind [step]

/-- Behind a piece of the layout the scanner has closed every literal before it. -/
theorem ne_quote_of_run {m m' : Mode} {gap : List Char} {us : List Token} (hne : gap ≠ [])
    (hgap : '\x27' ∉ gap) (h : scanner.run m gap = some (us, m')) (w : List Char) :
    m' ≠ .quote w := by
  induction gap generalizing m us with
  | nil => exact absurd rfl hne
  | cons c gap ih =>
    rw [Text.Scanner.run_cons] at h
    obtain ⟨⟨vs, m''⟩, hstep, h⟩ := Option.bind_eq_some_iff.mp h
    obtain ⟨⟨ws, m'''⟩, hrun, heq⟩ := Option.map_eq_some_iff.mp h
    cases heq
    obtain ⟨hc, hrest⟩ : '\x27' ≠ c ∧ '\x27' ∉ gap := by simpa using hgap
    cases gap with
    | nil =>
      cases hrun
      exact ne_quote_of_step (Ne.symm hc) hstep w
    | cons d gap => exact ih (List.cons_ne_nil d gap) hrest hrun

/-- The literal of a value that pairs its quotes, behind a quote that opens it. -/
theorem run_literal_of_paired {value : String} (h : HasPairedQuotes value) :
    ∃ w, scanner.run (.literal []) (value.toList ++ ['\x27']) = some ([], .quote w) := by
  obtain ⟨p, hp⟩ := h
  refine ⟨p.reverse, ?_⟩
  rw [hp, Text.Scanner.run_append, run_doubled, Option.bind_some]
  simp [Text.Scanner.run, step]

theorem eq_literal_of_step {m m' : Mode} {us : List Token} (hm : m.isInside = false)
    (hquote : ∀ w, m ≠ .quote w) (h : step m '\x27' = some (us, m')) : m' = .literal [] := by
  cases m with
  | literal w => cases hm
  | quote w => exact absurd rfl (hquote w)
  | bang => cases h
  | _ => cases h; rfl

/-- A lone quote ends its literal, and what stands behind it is read as if it stood alone. -/
theorem tokensFrom_lone {p rest : List Char} (hne : rest ≠ []) (hrest : rest.head? ≠ some '\x27') :
    tokensFrom (.literal []) (doubled p ++ '\x27' :: rest) =
      (tokens rest).map (.literal p :: ·) := by
  obtain ⟨c, cs, rfl⟩ := List.exists_cons_of_ne_nil hne
  have hc : c ≠ '\x27' := by simpa using hrest
  have hstep : step (.literal (p.reverse ++ [])) '\x27' = some ([], .quote p.reverse) := by
    simp [step]
  rw [tokensFrom_append, run_doubled, Option.bind_some, tokensFrom_cons, hstep, Option.bind_some,
    tokensFrom_cons, step, if_neg hc, List.reverse_reverse, tokens_eq_tokensFrom, tokensFrom_cons,
    step, endBefore]
  cases begin? c with
  | none => rfl
  | some r => simp [Function.comp_def]

end Token

open Token in
/-- **The literal of the first value with a lone quote** ends at that quote. -/
theorem Shows.exists_literal {xs : List Char} {values : List String} {texts : List (List Char)}
    (h : Shows xs values texts) (htexts : ∀ cs ∈ texts, quotes cs = 0) {before after : List String}
    {v : String} (hvalues : values = before ++ v :: after)
    (hbefore : ∀ w ∈ before, HasPairedQuotes w) {p rest : List Char}
    (hv : v.toList = doubled p ++ '\x27' :: rest) (hne : rest ≠ [])
    (hrest : rest.head? ≠ some '\x27') {m : Mode} (hm : m.isInside = false) {ts : List Token}
    (hts : tokensFrom m xs = some ts) :
    ∃ us ys ws, ts = us ++ .literal p :: ws ∧ tokens (rest ++ '\x27' :: ys) = some ws := by
  -- Without quotes the scanner stays outside literals.
  have houtside : ∀ {cs ys : List Char} {m : Mode} {ts : List Token}, m.isInside = false →
      quotes cs = 0 → tokensFrom m (cs ++ ys) = some ts → ∃ us m' vs,
        scanner.run m cs = some (us, m') ∧ m'.isInside = false ∧ tokensFrom m' ys = some vs ∧
          ts = us ++ vs := by
    intro cs ys m ts hm hcs hts
    rw [tokensFrom_append] at hts
    obtain ⟨⟨us, m'⟩, hrun, hts⟩ := Option.bind_eq_some_iff.mp hts
    obtain ⟨vs, hvs, rfl⟩ := Option.map_eq_some_iff.mp hts
    have heven : m'.isInside = m.isInside := (isInside_of_run hrun).mpr (by rw [hcs]; exact .zero)
    exact ⟨us, m', vs, hrun, heven.trans hm, hvs, rfl⟩
  induction h generalizing before m ts with
  | nil => simp at hvalues
  | layout hgap _ ih =>
    obtain ⟨us, m', vs, -, hm', hvs, rfl⟩ := houtside hm hgap hts
    obtain ⟨us', ys, ws, rfl, hws⟩ := ih htexts hvalues hbefore hm' hvs
    exact ⟨us ++ us', ys, ws, by simp, hws⟩
  | text cs _ ih =>
    obtain ⟨hcs, htexts⟩ := List.forall_mem_cons.mp htexts
    obtain ⟨us, m', vs, -, hm', hvs, rfl⟩ := houtside hm hcs hts
    obtain ⟨us', ys, ws, rfl, hws⟩ := ih htexts hvalues hbefore hm' hvs
    exact ⟨us ++ us', ys, ws, by simp, hws⟩
  | @literal gap xs value values texts hgapne hgap _ ih =>
    rw [List.append_assoc] at hts
    obtain ⟨us, m', vs, hrun, hm', hvs, rfl⟩ := houtside hm hgap hts
    have hnotmem : '\x27' ∉ gap := List.count_eq_zero.mp hgap
    rw [QueryComposer.literal, List.cons_append, List.cons_append, tokensFrom_cons] at hvs
    obtain ⟨⟨owed, m''⟩, hstep, hvs⟩ := Option.bind_eq_some_iff.mp hvs
    obtain ⟨ls, hls, rfl⟩ := Option.map_eq_some_iff.mp hvs
    obtain rfl := eq_literal_of_step hm' (ne_quote_of_run hgapne hnotmem hrun) hstep
    cases before with
    | nil =>
      obtain ⟨rfl, -⟩ := List.cons.inj hvalues
      rw [hv, List.append_assoc, List.append_assoc, List.cons_append] at hls
      rw [tokensFrom_lone (by simp) (by cases rest <;> simp_all)] at hls
      obtain ⟨ws, hws, rfl⟩ := Option.map_eq_some_iff.mp hls
      exact ⟨us ++ owed, xs, ws, by simp, hws⟩
    | cons b before =>
      obtain ⟨rfl, hothers⟩ := List.cons.inj hvalues
      obtain ⟨hpaired, hbefore⟩ := List.forall_mem_cons.mp hbefore
      obtain ⟨w, hw⟩ := run_literal_of_paired hpaired
      rw [tokensFrom_append, hw, Option.bind_some] at hls
      obtain ⟨ks, hks, rfl⟩ := Option.map_eq_some_iff.mp hls
      obtain ⟨us', ys, ws, rfl, hws⟩ := ih htexts hothers hbefore rfl hks
      exact ⟨us ++ (owed ++ us'), ys, ws, by simp, hws⟩

/-! ### Texts of the grammar -/

theorem isLiteral_nameTokens (x : List Char) (xs : List (List Char)) :
    ∀ t ∈ nameTokens x xs, t.isLiteral = false := by
  refine List.forall_mem_cons.mpr ⟨rfl, List.forall_mem_flatMap.mpr fun y _ => ?_⟩
  simp [Token.isLiteral]

theorem IsAlias.isLiteral {as : List Token} (h : IsAlias as) : ∀ t ∈ as, t.isLiteral = false := by
  cases h <;> simp [Token.isLiteral]

theorem IsItem.isLiteral {ts : List Token} (h : IsItem ts) : ∀ t ∈ ts, t.isLiteral = false := by
  cases h with
  | star => simp [Token.isLiteral]
  | number ds ha => exact List.forall_mem_cons.mpr ⟨rfl, ha.isLiteral⟩
  | callAll f ha => simpa [Token.isLiteral] using ha.isLiteral
  | call f x xs ha =>
    refine List.forall_mem_cons.mpr ⟨rfl, List.forall_mem_cons.mpr ⟨rfl, ?_⟩⟩
    refine List.forall_mem_append.mpr ⟨isLiteral_nameTokens x xs, ?_⟩
    exact List.forall_mem_cons.mpr ⟨rfl, ha.isLiteral⟩
  | column x xs ha => exact List.forall_mem_append.mpr ⟨isLiteral_nameTokens x xs, ha.isLiteral⟩
  | allColumns x xs =>
    exact List.forall_mem_append.mpr ⟨isLiteral_nameTokens x xs, by simp [Token.isLiteral]⟩

theorem IsItems.isLiteral {ts : List Token} (h : IsItems ts) :
    ∀ t ∈ ts, t.isLiteral = false := by
  induction h with
  | single h => exact h.isLiteral
  | cons h _ ih =>
    exact List.forall_mem_append.mpr ⟨h.isLiteral, List.forall_mem_cons.mpr ⟨rfl, ih⟩⟩

theorem IsIdentifier.quotes_eq_zero {cs : List Char} (h : IsIdentifier cs) : quotes cs = 0 :=
  quotes_eq_zero_of_tokens h.tokens_eq (by simp [Token.isLiteral])

theorem IsName.quotes_eq_zero {cs : List Char} (h : IsName cs) : quotes cs = 0 := by
  obtain ⟨x, xs, htokens⟩ := h.exists_tokens
  exact quotes_eq_zero_of_tokens htokens (isLiteral_nameTokens x xs)

theorem IsTable.quotes_eq_zero {cs : List Char} (h : IsTable cs) : quotes cs = 0 := by
  obtain ⟨x, xs, as, ha, htokens⟩ := h.exists_tokens
  refine quotes_eq_zero_of_tokens htokens ?_
  exact List.forall_mem_append.mpr ⟨isLiteral_nameTokens x xs, ha.isLiteral⟩

theorem IsItemList.quotes_eq_zero {cs : List Char} (h : IsItemList cs) : quotes cs = 0 := by
  obtain ⟨-, ts, htokens, hitems⟩ := h
  exact quotes_eq_zero_of_tokens htokens hitems.isLiteral

end Sql

namespace Query

variable {q : Query} {texts? : String → Option (List (List Char))}

theorem HasGrammarTexts.quotes_conditions (h : q.HasGrammarTexts)
    (htexts : ∀ c ∈ q.conditions, c.operator.isNullTest = false →
      ∀ cs ∈ (c.link?.bind texts?).getD [], quotes cs = 0) :
    ∀ cs ∈ q.conditions.flatMap (Condition.bareTexts texts?), quotes cs = 0 := by
  refine List.forall_mem_flatMap.mpr fun c hc => ?_
  refine List.forall_mem_append.mpr ⟨?_, ?_⟩
  · split
    · nofun
    · rw [List.forall_mem_singleton]
      by_cases hcolumn : c.column = ""
      · rw [hcolumn]
        rfl
      · exact (h.conditions c hc hcolumn).quotes_eq_zero
  · split
    · nofun
    · next hn => exact htexts c hc (Bool.eq_false_iff.mpr hn)

/-- Texts of the grammar have no quotes. -/
theorem HasGrammarTexts.quotes_statementTexts (h : q.HasGrammarTexts)
    (htexts : ∀ c ∈ q.conditions, c.operator.isNullTest = false →
      ∀ cs ∈ (c.link?.bind texts?).getD [], quotes cs = 0) :
    ∀ cs ∈ q.statementTexts texts?, quotes cs = 0 := by
  have hconditions := h.quotes_conditions htexts
  have hpairs : ∀ cs ∈ q.filledPairs.map fun p => p.column.toList, quotes cs = 0 :=
    List.forall_mem_map.mpr fun p hp => (h.filledPairs p hp).quotes_eq_zero
  rw [statementTexts]
  cases hp : q.placeholder? with
  | some p => exact List.forall_mem_nil _
  | none =>
    have ht := h.table ((placeholder?_eq_none_iff q).mp hp).1
    cases ho : q.operation <;> rw [ho] at ht
    case select =>
      have hcolumns : quotes (Text.trim q.columns.toList) = 0 := by
        by_cases htrim : Text.trim q.columns.toList = []
        · rw [htrim]
          rfl
        · exact (h.columns htrim).quotes_eq_zero
      have hjoins : ∀ cs ∈ (q.joins.filter Join.isFilled).flatMap Join.texts, quotes cs = 0 := by
        refine List.forall_mem_flatMap.mpr fun j hj => ?_
        obtain ⟨ht, hl, hr⟩ := h.filledJoins j hj
        simp [Join.texts, ht.quotes_eq_zero, hl.quotes_eq_zero, hr.quotes_eq_zero]
      have hkeys : ∀ cs ∈ (q.sortKeys.filter SortKey.isFilled).map fun s => s.column.toList,
          quotes cs = 0 :=
        List.forall_mem_map.mpr fun s hs => (h.filledSortKeys s hs).quotes_eq_zero
      have hlimit : quotes q.limit.toList = 0 :=
        quotes_eq_zero fun hquote => absurd (h.limit _ hquote) (by decide)
      refine List.forall_mem_cons.mpr ⟨hcolumns, List.forall_mem_cons.mpr ⟨ht.quotes_eq_zero, ?_⟩⟩
      refine List.forall_mem_append.mpr ⟨hjoins, List.forall_mem_append.mpr ⟨hconditions, ?_⟩⟩
      exact List.forall_mem_append.mpr ⟨hkeys, List.forall_mem_singleton.mpr hlimit⟩
    case insert => exact List.forall_mem_cons.mpr ⟨ht.quotes_eq_zero, hpairs⟩
    case update =>
      refine List.forall_mem_cons.mpr ⟨ht.quotes_eq_zero, ?_⟩
      exact List.forall_mem_append.mpr ⟨hpairs, hconditions⟩
    case delete => exact List.forall_mem_cons.mpr ⟨ht.quotes_eq_zero, hconditions⟩

theorem quotes_bareTexts (h : q.Every HasGrammarTexts) : ∀ cs ∈ q.bareTexts, quotes cs = 0 := by
  induction q using Query.induct with
  | step q ih =>
    rw [bareTexts_eq]
    refine h.root.quotes_statementTexts fun c hc hn => ?_
    rw [bareTexts_operand]
    cases hchild : q.operand? c with
    | none => nofun
    | some child =>
      obtain ⟨key, -, hmem⟩ := exists_mem_of_operand? hchild
      exact ih _ hmem (h.subqueries _ hmem)

/-! ### The verdict -/

/-- **When a stray quote is flagged** by a parser that follows the grammar. Let `v` be the first
value with a quote that is not one of a pair. The statement is not complete if the values have an
odd number of quotes, or if there is text behind that quote of `v` and it does not go on as a
statement may behind a literal. -/
theorem isComplete_sql_of_stray {parses : List Char → Bool} (hp : FollowsGrammar parses)
    (hg : q.Every HasGrammarTexts) {before after : List String} {v : String} {rest : List Char}
    (hvalues : q.values = before ++ v :: after) (hbefore : ∀ w ∈ before, Sql.HasPairedQuotes w)
    (hv : loneRest? v.toList = some rest)
    (h : Odd (q.values.map fun w => quotes w.toList).sum ∨ rest ≠ [] ∧ goesOn rest = false)
    (level : Int) : isComplete parses (q.sql level) = false := by
  rcases h with hodd | ⟨hne, hrest⟩
  · refine isComplete_of_odd (?_ : Odd (q.shownTexts.map quotes).sum) fun hparses =>
      even_quotes_of_isScript ((hp _).symm.trans hparses)
    have hbare : (q.bareTexts.map quotes).sum = 0 :=
      List.sum_eq_zero_iff_forall_eq_nat.mpr (List.forall_mem_map.mpr (quotes_bareTexts hg))
    rw [shownTexts, List.map_append, List.sum_append, hbare, List.map_map]
    exact hodd
  · obtain ⟨p, hlone, hhead⟩ := eq_append_of_loneRest? hv
    have hscript : isScript (q.sql level) = false := by
      unfold isScript
      split
      · next ts hts =>
        have hfrom : Token.tokensFrom .between (q.sql level) = some ts :=
          (Token.tokens_eq_tokensFrom _).symm.trans hts
        obtain ⟨us, ys, ws, rfl, hws⟩ := (shows_sql q level).exists_literal (quotes_bareTexts hg)
          hvalues hbefore hlone hne hhead rfl hfrom
        obtain ⟨t, vs, rfl, ht⟩ := exists_not_mem_followers hws hrest
        rw [← Bool.not_eq_true]
        exact fun haccepts => ht (mem_followers_of_accepts haccepts)
      · rfl
    rw [isComplete_sql_eq, hp, hscript, Bool.and_false]

/-! ### Flagged and not flagged -/

theorem isName_of_isIdentifier {cs : List Char} (h : IsIdentifier cs) : IsName cs :=
  ⟨cs, [], by simpa using h, by simp [dotted]⟩

theorem isItemList_star : IsItemList ['*'] :=
  ⟨List.forall_mem_singleton.mpr rfl, _, rfl, .single .star⟩

/-- An insertion of two names with a quote each. -/
def apostrophes : Query :=
  { bare "root" .insert with
    table := "users"
    pairs := [⟨"p1", "name", "O\x27Brien"⟩, ⟨"p2", "family", "D\x27Arcy"⟩] }

theorem every_apostrophes : apostrophes.Every HasGrammarTexts := by
  refine .intro ⟨fun _ => isName_of_isIdentifier (by decide), fun _ => isItemList_star, ?_, nofun,
    nofun, nofun, nofun, nofun, nofun⟩ nofun
  simp only [apostrophes, List.forall_mem_cons]
  exact ⟨fun _ => by decide, fun _ => by decide, nofun⟩

theorem isComplete_sql_apostrophes : apostrophes.values = ["O\x27Brien", "D\x27Arcy"] ∧
    isComplete isScript (apostrophes.sql 1) = false :=
  have hvalues : apostrophes.values = [] ++ "O\x27Brien" :: ["D\x27Arcy"] := rfl
  ⟨hvalues, isComplete_sql_of_stray followsGrammar_isScript every_apostrophes hvalues nofun rfl
    (.inr (by decide)) 1⟩

/-- A selection whose only value ends its literal and takes up the condition behind it, with another
literal to take in the quote that closes the value. -/
def resumed : Query :=
  { bare "root" .select with
    table := "users"
    conditions := [⟨"c1", "name", .equal, "x\x27 OR name = \x27y", .and, none⟩] }

/-- **Not every stray quote is flagged**: a statement whose texts are all in order and that is
finished can have a value with two lone quotes and be complete. -/
theorem not_forall_isComplete_sql : ¬∀ parses, FollowsGrammar parses → ∀ q : Query,
    q.Every HasGrammarTexts → q.IsFinished → (∃ v ∈ q.values, ¬Sql.HasPairedQuotes v) →
      ∀ level, isComplete parses (q.sql level) = false := by
  intro h
  have htexts : resumed.Every HasGrammarTexts := by
    have htable : IsTable "users".toList :=
      ⟨_, isName_of_isIdentifier (by decide), .inl rfl⟩
    refine .intro ⟨fun _ => htable, fun _ => isItemList_star, nofun, ?_, nofun, nofun, nofun,
      nofun, nofun⟩ nofun
    simp only [resumed, List.forall_mem_singleton]
    exact fun _ => isName_of_isIdentifier (by decide)
  have hfinished : resumed.IsFinished := by
    refine isFinished_iff.mpr ⟨rfl, fun _ => ?_⟩
    simp only [resumed, List.forall_mem_singleton]
    exact ⟨nofun, nofun⟩
  have hstray : ∃ v ∈ resumed.values, ¬Sql.HasPairedQuotes v := ⟨_, List.mem_cons_self, by decide⟩
  have hcomplete : isComplete isScript (resumed.sql 0) = true := by decide +kernel
  have hflagged := h isScript followsGrammar_isScript resumed htexts hfinished hstray 0
  exact absurd (hcomplete.symm.trans hflagged) (by decide)

end Query

end QueryComposer
