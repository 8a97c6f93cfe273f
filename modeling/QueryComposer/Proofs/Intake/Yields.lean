import QueryComposer.Intake.Basic

/-!
# What intakes give

Facts about values that were read, whichever identifiers were drawn for them. `Intake.Agrees` looks
at two supplies at once and says in what their values are alike; `Intake.Yields` says what holds
with every one. Both are passed on by the ways in which intakes are combined, so what holds of an
object follows from what holds of its fields.

## Main definitions

* `Intake.Yields` says that all values of an intake have a property.
* `Intake.Agrees` says that any two values of an intake are related.

## Main results

* `Intake.Agrees.seq`, `Intake.Yields.seq`: intakes side by side.
* `Intake.agrees_field`, `Intake.yields_field`: a field of an object, absent or not.
-/

namespace QueryComposer.Intake

variable {α β γ : Type} {P : α → Prop} {Q : β → Prop} {R : α → α → Prop} {S : β → β → Prop}

/-- Whatever the intake gives has the property, with every supply. -/
def Yields (x : Intake α) (P : α → Prop) : Prop := ∀ d, x = .ok d → ∀ supply, P (d.run supply).1

/-- Whatever the intake gives with two supplies is related. -/
def Agrees (x : Intake α) (R : α → α → Prop) : Prop :=
  ∀ d, x = .ok d → ∀ supply supply', R (d.run supply).1 (d.run supply').1

/-! ### Two supplies -/

theorem agrees_done {a : α} (h : R a a) : (done a).Agrees R := by
  intro d hd supply supply'
  cases hd
  exact h

theorem agrees_fail (p : Problem) : (fail p : Intake α).Agrees R := nofun

theorem Agrees.of_forall {x : Intake α} (h : ∀ a a', R a a') : x.Agrees R := fun _ _ _ _ => h _ _

theorem Agrees.under {x : Intake α} (h : x.Agrees R) (s : Step) : (x.under s).Agrees R := by
  intro d hd supply supply'
  cases x with
  | ok d' =>
    cases hd
    exact h _ rfl supply supply'
  | error issues => cases hd

theorem Agrees.map {x : Intake α} {f : α → β} (h : x.Agrees R)
    (hf : ∀ a a', R a a' → S (f a) (f a')) : (f <$> x).Agrees S := by
  intro d hd supply supply'
  cases x with
  | ok d' =>
    cases hd
    exact hf _ _ (h _ rfl supply supply')
  | error issues => cases hd

/-- Where the first values have nothing in common. -/
theorem Agrees.map_any {x : Intake α} {f : α → β} (h : ∀ a a', S (f a) (f a')) :
    (f <$> x).Agrees S :=
  Agrees.map (R := fun _ _ => True) (.of_forall fun _ _ => trivial) fun a a' _ => h a a'

theorem Agrees.seq {f : Intake (α → β)} {x : Intake α}
    (hf : f.Agrees fun g g' => ∀ a a', R a a' → S (g a) (g' a')) (hx : x.Agrees R) :
    (f <*> x).Agrees S := by
  intro d hd supply supply'
  cases f with
  | ok df =>
    cases x with
    | ok dx =>
      cases hd
      exact hf _ rfl supply supply' _ _ (hx _ rfl _ _)
    | error issues => cases hd
  | error issues => cases x <;> cases hd

/-- Where the second value is the same with every supply. -/
theorem Agrees.seq_eq {f : Intake (α → β)} {x : Intake α}
    (hf : f.Agrees fun g g' => ∀ a, S (g a) (g' a)) (hx : x.Agrees Eq) : (f <*> x).Agrees S :=
  Agrees.seq (R := Eq) (fun d hd supply supply' a _ heq => heq ▸ hf d hd supply supply' a) hx

theorem agrees_field {f : Field} {read : Json → Intake α} {absent : Intake α}
    {es : List (String × Json)} (hread : ∀ k v, f.find? es = some (k, v) → (read v).Agrees R)
    (habsent : f.find? es = none → absent.Agrees R) : (field f read absent es).Agrees R := by
  rw [field]
  cases h : f.find? es with
  | none => exact habsent h
  | some e => exact (hread e.1 e.2 h).under _

theorem agrees_items {read : Json → Intake α} {f : α → γ}
    (hread : ∀ v, (read v).Agrees fun a a' => f a = f a') (v : Json) :
    (items read v).Agrees fun as as' => as.map f = as'.map f := by
  have hitems : ∀ vs i, (itemsFrom read i vs).Agrees fun as as' => as.map f = as'.map f := by
    intro vs
    induction vs with
    | nil => exact fun i => agrees_done rfl
    | cons v vs ih =>
      intro i
      refine Agrees.seq (((hread v).under (.item i)).map fun a a' ha as as' has => ?_) (ih (i + 1))
      rw [List.map_cons, List.map_cons, ha, has]
  cases v with
  | array vs => exact hitems vs 0
  | _ => exact agrees_fail _

/-! ### Values that draw nothing -/

theorem agrees_text (v : Json) : (text v).Agrees Eq := by
  cases v with
  | string s => exact agrees_done rfl
  | _ => exact agrees_fail _

theorem agrees_optionalText (v : Json) : (optionalText v).Agrees Eq := by
  cases v with
  | null => exact agrees_done rfl
  | string s => exact agrees_done rfl
  | _ => exact agrees_fail _

theorem agrees_choice [Choice α] (v : Json) : (choice α v).Agrees Eq := by
  unfold choice
  extract_lets named
  clear_value named
  cases named with
  | some a => exact agrees_done rfl
  | none => exact agrees_fail _

/-- A field that draws nothing, with a base that is given. -/
theorem agrees_field_eq {read : Json → Intake α} (hread : ∀ v, (read v).Agrees Eq) {f : Field}
    {base : α} {es : List (String × Json)} : (field f read (done base) es).Agrees Eq :=
  agrees_field (fun _ v _ => hread v) fun _ => agrees_done rfl

/-! ### Every supply -/

theorem yields_iff_agrees {x : Intake α} : x.Yields P ↔ x.Agrees fun a _ => P a :=
  ⟨fun h d hd supply _ => h d hd supply, fun h d hd supply => h d hd supply supply⟩

theorem yields_done {a : α} (h : P a) : (done a).Yields P :=
  yields_iff_agrees.mpr (agrees_done h)

theorem yields_fail (p : Problem) : (fail p : Intake α).Yields P := nofun

theorem Yields.of_forall {x : Intake α} (h : ∀ a, P a) : x.Yields P := fun _ _ _ => h _

theorem Yields.under {x : Intake α} (h : x.Yields P) (s : Step) : (x.under s).Yields P :=
  yields_iff_agrees.mpr ((yields_iff_agrees.mp h).under s)

theorem Yields.map {x : Intake α} {f : α → β} (h : x.Yields P) (hf : ∀ a, P a → Q (f a)) :
    (f <$> x).Yields Q :=
  yields_iff_agrees.mpr ((yields_iff_agrees.mp h).map fun a _ => hf a)

theorem Yields.seq {f : Intake (α → β)} {x : Intake α} (hf : f.Yields fun g => ∀ a, P a → Q (g a))
    (hx : x.Yields P) : (f <*> x).Yields Q :=
  yields_iff_agrees.mpr <| Agrees.seq (R := fun a _ => P a)
    (fun d hd supply _ a _ => hf d hd supply a) (yields_iff_agrees.mp hx)

/-- Where nothing is asked of the second value. -/
theorem Yields.seq_all {f : Intake (α → β)} {x : Intake α} (hf : f.Yields fun g => ∀ a, Q (g a)) :
    (f <*> x).Yields Q :=
  Yields.seq (fun d hd supply a (_ : True) => hf d hd supply a) (.of_forall fun _ => trivial)

theorem yields_field {f : Field} {read : Json → Intake α} {absent : Intake α}
    {es : List (String × Json)} (hread : ∀ k v, f.find? es = some (k, v) → (read v).Yields P)
    (habsent : f.find? es = none → absent.Yields P) : (field f read absent es).Yields P :=
  yields_iff_agrees.mpr <| agrees_field (fun k v hv => yields_iff_agrees.mp (hread k v hv))
    fun hnone => yields_iff_agrees.mp (habsent hnone)

/-! ### Values that are read as they are -/

theorem itemsFrom_map {read : Json → Intake α} {write : α → Json} {as : List α}
    (h : ∀ a ∈ as, read (write a) = done a) (i : Nat) :
    itemsFrom read i (as.map write) = done as := by
  induction as generalizing i with
  | nil => rfl
  | cons a as ih =>
    rw [List.map_cons, itemsFrom, h a List.mem_cons_self,
      ih fun b hb => h b (List.mem_cons_of_mem _ hb)]
    rfl

end QueryComposer.Intake
