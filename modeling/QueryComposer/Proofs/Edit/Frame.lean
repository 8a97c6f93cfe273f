import Mathlib.Data.List.Forall2
import QueryComposer.Proofs.Edit.Locality

/-!
# What an edit leaves alone

An edit of a query is about its settings, about one list of its parts, about its subqueries, or
about its conditions and its subqueries. Everything else stays as it is. In a list of parts some
part is added, or those with one identifier are changed or removed, and there may be several of
them. Of the subqueries one comes, goes or gives way.

A change is described by the values of the fields, under the names that the change itself uses: each
field has the value that was given for it, or else the value that it had. That also covers what
becomes of conditions whose subquery is attached or detached.

## Main definitions

* `Entries.overlay` puts given values in the place of others.
* `DescribedPart` is the class of the parts that are settled by the values of their fields.
* `Action` is what becomes of a list of parts, `Shift` what becomes of the subqueries.
* `Edit.Frames` says what an edit does to a query as a whole.

## Main results

* `Part.values_of_change`, `Query.settings_of_setFields`: a change reaches what it names.
* `Edit.frames`: every edit.
-/

namespace QueryComposer

open Intake

/-! ### Given values -/

/-- The entries with the values that are given for their keys in the place of their own. -/
def Entries.overlay {α : Type} (given es : Entries α) : Entries α :=
  es.map fun e => (e.1, (find? e.1 given).getD e.2)

namespace Entries

variable {α : Type} {key : String}

@[simp] theorem overlay_nil (es : Entries α) : overlay [] es = es := by
  simp [overlay, find?]

@[simp] theorem overlay_cons_right (given : Entries α) (e : String × α) (es : Entries α) :
    overlay given (e :: es) = (e.1, (find? e.1 given).getD e.2) :: overlay given es := rfl

@[simp] theorem overlay_nil_right (given : Entries α) : overlay given [] = [] := rfl

theorem find?_append (key : String) (es ds : Entries α) :
    find? key (es ++ ds) = (find? key es).or (find? key ds) := by
  induction es with
  | nil => rfl
  | cons e es ih =>
    rw [List.cons_append, find?, find?, ih]
    split <;> rfl

/-- What is given last counts. -/
theorem overlay_overlay (given given' es : Entries α) :
    overlay given' (overlay given es) = overlay (given' ++ given) es := by
  rw [overlay, overlay, overlay, List.map_map]
  refine List.map_congr_left fun e _ => ?_
  rw [Function.comp_apply, find?_append]
  cases find? e.1 given' <;> rfl

end Entries

/-! ### Fields that are read from a change -/

variable {changes : List (String × Json)}

theorem Intake.yields_text (v : Json) : (text v).Yields fun s => .string s = v := by
  cases v with
  | string s => exact yields_done rfl
  | _ => exact yields_fail _

theorem Intake.yields_choice {α : Type} [Choice α] (v : Json) :
    (choice α v).Yields fun a => .string (Choice.name a) = v := by
  cases v with
  | string s =>
    cases ha : (Choice.ofName? s : Option α) with
    | some a =>
      simp only [choice, ha]
      exact yields_done (congrArg Json.string (Choice.name_of_ofName? ha))
    | none =>
      simp only [choice, ha]
      exact yields_fail _
  | _ => exact yields_fail _

/-- A text that may be missing, as it stands in a change. -/
def Json.ofText? : Option String → Json
  | some s => .string s
  | none => .null

theorem Intake.yields_optionalText (v : Json) :
    (optionalText v).Yields fun s => Json.ofText? s = v := by
  cases v with
  | null => exact yields_done rfl
  | string s => exact yields_done rfl
  | _ => exact yields_fail _

/-- A field of a change gives the value that stands under its second name, if there is one. Its
first name is that one too, or it is strange. -/
theorem Intake.yields_given {α : Type} {fields : List Field} {f : Field} {read : Json → Intake α}
    {write : α → Json} (hnames : strangeNames fields changes = [])
    (hread : ∀ v, (read v).Yields fun a => write a = v)
    (hf : f.key = f.altKey ∨ f.key ∉ fields.map Field.altKey) (a : α) :
    (field f read (done a) changes).Yields fun b =>
      write b = (Entries.find? f.altKey changes).getD (write a) := by
  refine yields_field (fun k v hv => ?_) fun hnone => ?_
  · obtain ⟨hk, hfind⟩ := Field.find?_eq_some hv
    have halt : k = f.altKey := by
      rcases hk with rfl | rfl
      · rcases hf with heq | hstrange
        · exact heq
        · rw [find?_of_strangeNames_eq_nil hnames hstrange] at hfind
          cases hfind
      · rfl
    rw [← halt, hfind]
    exact hread v
  · rw [(Field.find?_eq_none_iff.mp hnone).2]
    exact yields_done rfl

/-! ### Parts as the values of their fields -/

/-- Names that are found again tell the choices apart. -/
theorem Choice.name_injective {α : Type} [Choice α]
    (h : ∀ a : α, Choice.ofName? (Choice.name a) = some a) :
    Function.Injective (Choice.name : α → String) := by
  intro a b heq
  have hname := h a
  rw [heq, h b] at hname
  exact (Option.some.inj hname).symm

theorem Json.ofText?_injective : Function.Injective Json.ofText? := by
  intro s t h
  cases s <;> cases t <;> simp_all [Json.ofText?]

/-- The parts that are settled by the values of their fields, each under the name that a change
uses. -/
class DescribedPart (α : Type) [Part α] where
  blank : String → α
  values : α → List (String × Json)
  keys_values : ∀ a, Entries.keys (values a) = (Part.fields α).map Field.altKey
  values_injective : Function.Injective values
  yields_values : ∀ (a : α) (changes : List (String × Json)),
    strangeNames (Part.fields α) changes = [] →
      (Part.revise a changes).Yields fun b => values b = Entries.overlay changes (values a)

instance : DescribedPart Pair where
  blank := Pair.blank
  values p := [(Field.id.altKey, .string p.id), (Field.column.altKey, .string p.column),
    (Field.value.altKey, .string p.value)]
  keys_values _ := rfl
  values_injective p r h := by
    cases p
    cases r
    simpa using h
  yields_values p changes hnames := by
    have hid := yields_given hnames yields_text (f := .id) (by decide) p.id
    have hcolumn := yields_given hnames yields_text (f := .column) (by decide) p.column
    have hvalue := yields_given hnames yields_text (f := .value) (by decide) p.value
    refine Yields.seq (Yields.seq (hid.map ?_) hcolumn) hvalue
    intro id hid column hcolumn value hvalue
    simp [hid, hcolumn, hvalue]

instance : DescribedPart Condition where
  blank := Condition.blank
  values c := [(Field.id.altKey, .string c.id), (Field.column.altKey, .string c.column),
    (Field.operator.altKey, .string (Choice.name c.operator)),
    (Field.value.altKey, .string c.value), (Field.gate.altKey, .string (Choice.name c.gate)),
    (Field.subqueryId.altKey, Json.ofText? c.subqueryId)]
  keys_values _ := rfl
  values_injective c d h := by
    have hoperator : Function.Injective (Choice.name : Operator → String) :=
      Choice.name_injective fun o => by cases o <;> rfl
    have hgate : Function.Injective (Choice.name : Gate → String) :=
      Choice.name_injective fun g => by cases g <;> rfl
    cases c
    cases d
    simpa [hoperator.eq_iff, hgate.eq_iff, Json.ofText?_injective.eq_iff] using h
  yields_values c changes hnames := by
    have hid := yields_given hnames yields_text (f := .id) (by decide) c.id
    have hcolumn := yields_given hnames yields_text (f := .column) (by decide) c.column
    have hoperator := yields_given hnames yields_choice (f := .operator) (by decide) c.operator
    have hvalue := yields_given hnames yields_text (f := .value) (by decide) c.value
    have hgate := yields_given hnames yields_choice (f := .gate) (by decide) c.gate
    have hlink :=
      yields_given hnames yields_optionalText (f := .subqueryId) (by decide) c.subqueryId
    refine Yields.seq (Yields.seq (Yields.seq (Yields.seq (Yields.seq (hid.map ?_) hcolumn)
      hoperator) hvalue) hgate) hlink
    intro id hid column hcolumn operator hoperator value hvalue gate hgate subqueryId hlink
    simp [hid, hcolumn, hoperator, hvalue, hgate, hlink]

instance : DescribedPart Join where
  blank := Join.blank
  values j := [(Field.id.altKey, .string j.id), (Field.kind.altKey, .string (Choice.name j.kind)),
    (Field.table.altKey, .string j.table), (Field.left.altKey, .string j.left),
    (Field.right.altKey, .string j.right)]
  keys_values _ := rfl
  values_injective i j h := by
    have hkind : Function.Injective (Choice.name : JoinKind → String) :=
      Choice.name_injective fun k => by cases k <;> rfl
    cases i
    cases j
    simpa [hkind.eq_iff] using h
  yields_values j changes hnames := by
    have hid := yields_given hnames yields_text (f := .id) (by decide) j.id
    have hkind := yields_given hnames yields_choice (f := .kind) (by decide) j.kind
    have htable := yields_given hnames yields_text (f := .table) (by decide) j.table
    have hleft := yields_given hnames yields_text (f := .left) (by decide) j.left
    have hright := yields_given hnames yields_text (f := .right) (by decide) j.right
    refine Yields.seq (Yields.seq (Yields.seq (Yields.seq (hid.map ?_) hkind) htable) hleft) hright
    intro id hid kind hkind table htable left hleft right hright
    simp [hid, hkind, htable, hleft, hright]

instance : DescribedPart SortKey where
  blank := SortKey.blank
  values s := [(Field.id.altKey, .string s.id), (Field.column.altKey, .string s.column),
    (Field.direction.altKey, .string (Choice.name s.direction))]
  keys_values _ := rfl
  values_injective s t h := by
    have hdirection : Function.Injective (Choice.name : Direction → String) :=
      Choice.name_injective fun d => by cases d <;> rfl
    cases s
    cases t
    simpa [hdirection.eq_iff] using h
  yields_values s changes hnames := by
    have hid := yields_given hnames yields_text (f := .id) (by decide) s.id
    have hcolumn := yields_given hnames yields_text (f := .column) (by decide) s.column
    have hdirection := yields_given hnames yields_choice (f := .direction) (by decide) s.direction
    refine Yields.seq (Yields.seq (hid.map ?_) hcolumn) hdirection
    intro id hid column hcolumn direction hdirection
    simp [hid, hcolumn, hdirection]

/-- A change gives each field the value that it names for it, and no other field another value. -/
theorem Part.values_of_change {α : Type} [Part α] [DescribedPart α] {a b : α}
    (h : Part.change changes a = .ok b) :
    DescribedPart.values b = Entries.overlay changes (DescribedPart.values a) :=
  Part.change_ok h fun hnames => DescribedPart.yields_values a changes hnames

theorem Condition.subqueryId_of_values {c d : Condition}
    (h : DescribedPart.values d = Entries.overlay changes (DescribedPart.values c)) :
    Json.ofText? d.subqueryId =
      (Entries.find? Field.subqueryId.altKey changes).getD (Json.ofText? c.subqueryId) := by
  simp only [DescribedPart.values, Entries.overlay_cons_right, List.cons.injEq, Prod.mk.injEq,
    true_and] at h
  exact h.2.2.2.2.2.1

theorem Condition.operator_of_values {c d : Condition} {operator : Json}
    (hgiven : Entries.find? Field.operator.altKey changes = some operator)
    (h : DescribedPart.values d = Entries.overlay changes (DescribedPart.values c)) :
    operator = .string (Choice.name d.operator) := by
  simp only [DescribedPart.values, Entries.overlay_cons_right, hgiven, List.cons.injEq,
    Prod.mk.injEq, true_and] at h
  exact h.2.2.1.symm

/-! ### Lists of parts -/

theorem forall₂_of_mapM {ε α β : Type} {f : α → Except ε β} {as : List α} {bs : List β}
    (h : as.mapM f = .ok bs) : List.Forall₂ (fun a b => f a = .ok b) as bs := by
  induction as generalizing bs with
  | nil =>
    cases h
    exact .nil
  | cons a as ih =>
    rw [List.mapM_cons] at h
    obtain ⟨b, hb, h⟩ := Except.bind_eq_ok h
    obtain ⟨cs, hcs, h⟩ := Except.bind_eq_ok h
    cases h
    exact .cons hb (ih hcs)

theorem forall₂_trans {α β γ : Type} {R : α → β → Prop} {S : β → γ → Prop} {T : α → γ → Prop}
    (hT : ∀ a b c, R a b → S b c → T a c) {as : List α} {bs : List β} {cs : List γ}
    (h : List.Forall₂ R as bs) (h' : List.Forall₂ S bs cs) : List.Forall₂ T as cs := by
  induction h generalizing cs with
  | nil =>
    cases h'
    exact .nil
  | cons hab _ ih =>
    cases h' with
    | cons hbc h' => exact .cons (hT _ _ _ hab hbc) (ih h')

theorem Part.find_cons {α : Type} [Part α] (id : String) (a : α) (as : List α) :
    Part.find id (a :: as) = if Part.id a = id then .ok a else Part.find id as := by
  rw [Part.find, Part.find, List.find?_cons]
  by_cases ha : Part.id a = id <;> simp [ha]

/-- Where the parts keep their identifiers, the first one with an identifier comes from the first
one with it. -/
theorem Part.find_of_forall₂ {α : Type} [Part α] {R : α → α → Prop} {id : String} {as bs : List α}
    (hR : ∀ a b, R a b → Part.id b = Part.id a) (h : List.Forall₂ R as bs) {b : α}
    (hb : Part.find id bs = .ok b) : ∃ a, Part.find id as = .ok a ∧ R a b := by
  induction h with
  | nil => cases hb
  | @cons a b' as bs hab _ ih =>
    rw [Part.find_cons, hR a b' hab] at hb
    rw [Part.find_cons]
    split at hb
    · next ha =>
      cases hb
      exact ⟨a, if_pos ha, hab⟩
    · next ha =>
      rw [if_neg ha]
      exact ih hb

/-- What becomes of a list of parts. -/
inductive Action where
  | keep
  | add
  | change (id : String) (changes : List (String × Json))
  | remove (id : String)

section Lists

variable {α : Type} [Part α] [DescribedPart α]

/-- A part keeps its identifier. It takes the values of a change that is meant for it, and stays as
it is otherwise. -/
def Part.Changed (id : String) (changes : List (String × Json)) (a b : α) : Prop :=
  Part.id b = Part.id a ∧
    if Part.id a = id then
      DescribedPart.values b = Entries.overlay changes (DescribedPart.values a)
    else b = a

/-- A part that is added gets the identifier `fresh`. -/
def Action.Takes (fresh : String) : Action → List α → List α → Prop
  | .keep, as, bs => bs = as
  | .add, as, bs => bs = as ++ [DescribedPart.blank fresh]
  | .change id changes, as, bs => List.Forall₂ (Part.Changed id changes) as bs
  | .remove id, as, bs => bs = as.filter fun a => Part.id a ≠ id

variable {fresh id : String} {changes' : List (String × Json)} {as bs cs : List α}

theorem Part.Changed.trans {a b c : α} (h : Part.Changed id changes a b)
    (h' : Part.Changed id changes' b c) : Part.Changed id (changes' ++ changes) a c := by
  obtain ⟨hid, h⟩ := h
  obtain ⟨hid', h'⟩ := h'
  refine ⟨hid'.trans hid, ?_⟩
  rw [hid] at h'
  split at h
  · next ha =>
    rw [if_pos ha] at h' ⊢
    rw [h', h, Entries.overlay_overlay]
  · next ha =>
    rw [if_neg ha] at h' ⊢
    exact h'.trans h

theorem Action.takes_update [LawfulPart α] (h : Part.update id changes as = .ok bs) :
    (change id changes).Takes fresh as bs := by
  unfold Part.update at h
  split at h
  · cases h
  next hid =>
  rw [Bool.not_eq_true, Option.isSome_eq_false_iff, Option.isNone_iff_eq_none] at hid
  split at h
  · refine (forall₂_of_mapM h).imp fun a b hb => ?_
    split at hb
    · next ha => exact ⟨Part.id_of_change hid hb, by rw [if_pos ha, Part.values_of_change hb]⟩
    · next ha =>
      cases hb
      exact ⟨rfl, by rw [if_neg ha]⟩
  · cases h

/-- Of two changes one after the other, what the second gives counts first. -/
theorem Action.Takes.change_change (h : (change id changes).Takes fresh as bs)
    (h' : (change id changes').Takes fresh bs cs) :
    (change id (changes' ++ changes)).Takes fresh as cs := by
  refine forall₂_trans ?_ h h'
  intro a b c
  exact Part.Changed.trans

/-- Parts that are rewritten one by one. -/
theorem Action.takes_map {f : α → α} (hid : ∀ a, Part.id (f a) = Part.id a)
    (hf : ∀ a, DescribedPart.values (f a) = Entries.overlay changes (DescribedPart.values a))
    (as : List α) :
    (change id changes).Takes fresh as (as.map fun a => if Part.id a = id then f a else a) := by
  rw [Takes, List.forall₂_map_right_iff, List.forall₂_same]
  intro a _
  by_cases ha : Part.id a = id
  · rw [if_pos ha]
    exact ⟨hid a, by rw [if_pos ha, hf]⟩
  · rw [if_neg ha]
    exact ⟨rfl, by rw [if_neg ha]⟩

end Lists

/-! ### Subqueries -/

/-- What becomes of the subqueries. -/
inductive Shift where
  | keep
  | attach (child : Query)
  | drop (key : Option String)
  | replace (key : String) (child : Query)

/-- A subquery that is attached comes last if its identifier is no key yet. -/
def Shift.Takes : Shift → List (String × Query) → List (String × Query) → Prop
  | .keep, es, ds => ds = es
  | .attach child, es, ds =>
    ds = Entries.put child.id child es ∧
      (child.id ∉ Entries.keys es → ds = es ++ [(child.id, child)])
  | .drop key, es, ds => ds = es.filter fun e => key ≠ some e.1
  | .replace key child, es, ds =>
    ∃ before old after, es = before ++ (key, old) :: after ∧ ds = before ++ (key, child) :: after

theorem Shift.takes_put (child : Query) (es : List (String × Query)) :
    (attach child).Takes es (Entries.put child.id child es) :=
  ⟨rfl, fun hnew => Entries.put_of_not_mem hnew⟩

/-! ### Edits of one query -/

/-- The fields that hold one value, each under the name that a change uses. -/
def Query.settings (q : Query) : List (String × Json) :=
  [(Field.operation.altKey, .string (Choice.name q.operation)),
    (Field.table.altKey, .string q.table), (Field.columns.altKey, .string q.columns),
    (Field.limit.altKey, .string q.limit)]

theorem Query.settings_of_setFields {q q' : Query} (h : q.setFields changes = .ok q') :
    q'.settings = Entries.overlay changes q.settings := by
  unfold setFields at h
  split at h
  · next hnames =>
    refine EditError.ofIntake_ok (P := fun q' => q'.settings = Entries.overlay changes q.settings)
      h ?_
    have hoperation := yields_given hnames yields_choice (f := .operation) (by decide) q.operation
    have htable := yields_given hnames yields_text (f := .table) (by decide) q.table
    have hcolumns := yields_given hnames yields_text (f := .columns) (by decide) q.columns
    have hlimit := yields_given hnames yields_text (f := .limit) (by decide) q.limit
    refine Yields.seq_all (Yields.seq (Yields.seq_all (Yields.seq_all (Yields.seq_all
      (Yields.seq_all (Yields.seq (Yields.seq (Yields.seq (Yields.map (P := fun _ => True)
        (.of_forall fun _ => trivial) ?_) hoperation) htable) hcolumns))))) hlimit)
    intro id _ operation hoperation table htable columns hcolumns pairs conditions joins sortKeys
      limit hlimit subqueries
    simp [settings, hoperation, htable, hcolumns, hlimit]
  · cases h

theorem Query.updateCondition_ok_update {q q' : Query} {id : String}
    (h : q.updateCondition id changes = .ok q') :
    Entries.find? Field.subqueryId.altKey changes = none ∧
      ∃ conditions, Part.update id changes q.conditions = .ok conditions ∧
        { q with conditions } = q' := by
  unfold updateCondition at h
  split at h
  · cases h
  · next hlink =>
    rw [Bool.not_eq_true, Option.isSome_eq_false_iff, Option.isNone_iff_eq_none] at hlink
    exact ⟨hlink, Except.map_eq_ok h⟩

namespace Edit

/-- The subquery that is attached when one is. -/
def attached (supply : Supply) : Query := ((Query.blank .select).run supply).1

/-- The operator, given by its name, usually takes a query. -/
def asksForQuery : Json → Bool
  | .string s => (Choice.ofName? s : Option Operator).any Operator.takesQuery
  | _ => false

/-- A change of the operator attaches a subquery if the operator asks for one, there is room for it
and the condition has none. -/
def attaches (q : Query) : Edit → Bool
  | .attach .. => true
  | .setOperator id operator depth =>
    asksForQuery operator && depth < maxDepth && (linkOf? id q.conditions).isNone
  | _ => false

/-- The list of parts that the edit is about, and what becomes of it. -/
def action? (supply : Supply) (q : Query) (e : Edit) : Option (Entity × Action) :=
  match e with
  | .setFields _ | .replaceSubquery .. => none
  | .addPair => some (.pair, .add)
  | .updatePair id changes => some (.pair, .change id changes)
  | .removePair id => some (.pair, .remove id)
  | .addCondition => some (.condition, .add)
  | .updateCondition id changes => some (.condition, .change id changes)
  | .removeCondition id => some (.condition, .remove id)
  | .addJoin => some (.join, .add)
  | .updateJoin id changes => some (.join, .change id changes)
  | .removeJoin id => some (.join, .remove id)
  | .addSortKey => some (.sortKey, .add)
  | .updateSortKey id changes => some (.sortKey, .change id changes)
  | .removeSortKey id => some (.sortKey, .remove id)
  | .setOperator id operator _ =>
    some (.condition, .change id <|
      if e.attaches q then
        [(Field.subqueryId.altKey, .string (attached supply).id), (Field.operator.altKey, operator)]
      else [(Field.operator.altKey, operator)])
  | .attach id _ =>
    some (.condition, .change id [(Field.subqueryId.altKey, .string (attached supply).id)])
  | .detach id =>
    some (.condition, .change id
      [(Field.subqueryId.altKey, .null), (Field.value.altKey, .string "")])

/-- What becomes of the parts of one kind. -/
def actionOn (supply : Supply) (q : Query) (e : Edit) (entity : Entity) : Action :=
  match e.action? supply q with
  | some (about, action) => if about = entity then action else .keep
  | none => .keep

/-- What becomes of the subqueries. -/
def shift (supply : Supply) (q : Query) (e : Edit) : Shift :=
  match e with
  | .setOperator .. => if e.attaches q then .attach (attached supply) else .keep
  | .attach .. => .attach (attached supply)
  | .removeCondition id | .detach id => .drop (linkOf? id q.conditions)
  | .replaceSubquery key child => .replace key child
  | _ => .keep

/-- The values that are given for the settings. -/
def given : Edit → List (String × Json)
  | .setFields changes => changes
  | _ => []

/-- The edit takes the one query to the other and touches nothing that it is not about. -/
structure Frames (e : Edit) (supply : Supply) (q q' : Query) : Prop where
  id : q'.id = q.id
  settings : q'.settings = Entries.overlay e.given q.settings
  pairs : (e.actionOn supply q .pair).Takes (supply.source supply.drawn) q.pairs q'.pairs
  conditions : (e.actionOn supply q .condition).Takes (supply.source supply.drawn)
    q.conditions q'.conditions
  joins : (e.actionOn supply q .join).Takes (supply.source supply.drawn) q.joins q'.joins
  sortKeys : (e.actionOn supply q .sortKey).Takes (supply.source supply.drawn)
    q.sortKeys q'.sortKeys
  subqueries : (e.shift supply q).Takes q.subqueries q'.subqueries

variable {e : Edit} {supply supply' : Supply} {q q' : Query}

theorem asksForQuery_name (o : Operator) :
    asksForQuery (.string (Choice.name o)) = o.takesQuery := by
  cases o <;> rfl

theorem takes_link {fresh : String} (key id : String) (cs : List Condition) :
    (Action.change id [(Field.subqueryId.altKey, .string key)]).Takes fresh cs
      (cs.map fun c => if c.id = id then { c with subqueryId := some key } else c) :=
  Action.takes_map (f := fun c => { c with subqueryId := some key }) (fun _ => rfl)
    (fun _ => rfl) cs

theorem takes_unlink {fresh : String} (id : String) (cs : List Condition) :
    (Action.change id [(Field.subqueryId.altKey, .null), (Field.value.altKey, .string "")]).Takes
      fresh cs
      (cs.map fun c => if c.id = id then { c with subqueryId := none, value := "" } else c) :=
  Action.takes_map (f := fun c => { c with subqueryId := none, value := "" }) (fun _ => rfl)
    (fun _ => rfl) cs

/-- What the first condition with the identifier is given decides whether a subquery is attached. -/
theorem setOperator_ok_attaches {id : String} {operator : Json} {depth : Int}
    (h : q.setOperator supply id operator depth = .ok (q', supply')) :
    ∃ conditions, Part.update id [(Field.operator.altKey, operator)] q.conditions = .ok conditions ∧
      if (setOperator id operator depth).attaches q then
        Query.attach { q with conditions } (attached supply) id depth = .ok q' ∧
          supply' = ((Query.blank .select).run supply).2
      else q' = { q with conditions } ∧ supply' = supply := by
  obtain ⟨q₁, hq₁, h⟩ := Except.bind_eq_ok h
  obtain ⟨c, hc, h⟩ := Except.bind_eq_ok h
  obtain ⟨-, conditions, hconditions, rfl⟩ := Query.updateCondition_ok_update hq₁
  refine ⟨conditions, hconditions, ?_⟩
  -- The condition that is looked at comes from the first one with the identifier: its operator is
  -- the one that was given, and its link is the old one.
  have htakes : (Action.change id [(Field.operator.altKey, operator)]).Takes "" q.conditions
    conditions := Action.takes_update hconditions
  obtain ⟨d, hd, hid, hchanged⟩ := Part.find_of_forall₂ (fun _ _ hab => hab.1) htakes hc
  rw [if_pos (Part.find_ok hd).2] at hchanged
  have hlink : c.link? = d.link? :=
    congrArg (·.filter (· ≠ "")) (Json.ofText?_injective (Condition.subqueryId_of_values hchanged))
  have hattaches : (setOperator id operator depth).attaches q ↔
      c.operator.takesQuery ∧ depth < maxDepth ∧ c.link? = none := by
    rw [attaches, Condition.operator_of_values rfl hchanged, asksForQuery_name,
      linkOf?_of_find hd, hlink]
    simp [and_assoc]
  split at h
  · next hyes =>
    obtain ⟨q₂, hq₂, h⟩ := Except.bind_eq_ok h
    cases h
    rw [if_pos (hattaches.mpr hyes)]
    exact ⟨hq₂, rfl⟩
  · next hno =>
    cases h
    rw [if_neg (mt hattaches.mp hno)]
    exact ⟨rfl, rfl⟩

/-- **Every edit touches only what it is about.** -/
theorem frames (h : e.apply supply q = .ok (q', supply')) : e.Frames supply q q' := by
  have hsettings := (Entries.overlay_nil q.settings).symm
  cases e with
  | setFields changes =>
    obtain ⟨hr, rfl⟩ := keeping_ok h
    obtain ⟨hid, hpairs, hconditions, hjoins, hkeys, hsubqueries⟩ := Query.setFields_ok hr
    exact ⟨hid, Query.settings_of_setFields hr, hpairs, hconditions, hjoins, hkeys, hsubqueries⟩
  | addPair | addCondition | addJoin | addSortKey =>
    cases h
    exact ⟨rfl, hsettings, rfl, rfl, rfl, rfl, rfl⟩
  | updatePair id changes =>
    obtain ⟨hr, rfl⟩ := keeping_ok h
    obtain ⟨pairs, hpairs, rfl⟩ := Except.map_eq_ok hr
    exact ⟨rfl, hsettings, Action.takes_update hpairs, rfl, rfl, rfl, rfl⟩
  | updateJoin id changes =>
    obtain ⟨hr, rfl⟩ := keeping_ok h
    obtain ⟨joins, hjoins, rfl⟩ := Except.map_eq_ok hr
    exact ⟨rfl, hsettings, rfl, rfl, Action.takes_update hjoins, rfl, rfl⟩
  | updateSortKey id changes =>
    obtain ⟨hr, rfl⟩ := keeping_ok h
    obtain ⟨sortKeys, hkeys, rfl⟩ := Except.map_eq_ok hr
    exact ⟨rfl, hsettings, rfl, rfl, rfl, Action.takes_update hkeys, rfl⟩
  | removePair id =>
    obtain ⟨hr, rfl⟩ := keeping_ok h
    obtain ⟨pairs, hpairs, rfl⟩ := Except.map_eq_ok hr
    exact ⟨rfl, hsettings, Part.remove_ok hpairs, rfl, rfl, rfl, rfl⟩
  | removeJoin id =>
    obtain ⟨hr, rfl⟩ := keeping_ok h
    obtain ⟨joins, hjoins, rfl⟩ := Except.map_eq_ok hr
    exact ⟨rfl, hsettings, rfl, rfl, Part.remove_ok hjoins, rfl, rfl⟩
  | removeSortKey id =>
    obtain ⟨hr, rfl⟩ := keeping_ok h
    obtain ⟨sortKeys, hkeys, rfl⟩ := Except.map_eq_ok hr
    exact ⟨rfl, hsettings, rfl, rfl, rfl, Part.remove_ok hkeys, rfl⟩
  | updateCondition id changes =>
    obtain ⟨hr, rfl⟩ := keeping_ok h
    obtain ⟨-, conditions, hconditions, rfl⟩ := Query.updateCondition_ok_update hr
    exact ⟨rfl, hsettings, rfl, Action.takes_update hconditions, rfl, rfl, rfl⟩
  | removeCondition id =>
    obtain ⟨hr, rfl⟩ := keeping_ok h
    obtain ⟨conditions, hconditions, rfl⟩ := removeCondition_ok_iff.mp hr
    exact ⟨rfl, hsettings, rfl, Part.remove_ok hconditions, rfl, rfl, rfl⟩
  | setOperator id operator depth =>
    obtain ⟨conditions, hconditions, hr⟩ := setOperator_ok_attaches h
    have hchange : (Action.change id [(Field.operator.altKey, operator)]).Takes
      (supply.source supply.drawn) q.conditions conditions := Action.takes_update hconditions
    split at hr
    · next hattaches =>
      obtain ⟨-, -, -, -, -, rfl⟩ := Query.attach_ok hr.1
      refine ⟨rfl, hsettings, rfl, ?_, rfl, rfl, ?_⟩
      · rw [actionOn, action?, if_pos hattaches]
        exact hchange.change_change (takes_link _ id conditions)
      · rw [shift, if_pos hattaches]
        exact Shift.takes_put _ _
    · next hattaches =>
      obtain ⟨rfl, -⟩ := hr
      refine ⟨rfl, hsettings, rfl, ?_, rfl, rfl, ?_⟩
      · rw [actionOn, action?, if_neg hattaches]
        exact hchange
      · rw [shift, if_neg hattaches]
        rfl
  | attach id depth =>
    obtain ⟨hr, rfl⟩ := apply_attach_ok h
    obtain ⟨-, -, -, -, -, rfl⟩ := Query.attach_ok hr
    exact ⟨rfl, hsettings, rfl, takes_link _ id q.conditions, rfl, rfl, Shift.takes_put _ _⟩
  | detach id =>
    obtain ⟨hr, rfl⟩ := keeping_ok h
    obtain ⟨conditions, hconditions, rfl⟩ := detach_ok_iff.mp hr
    refine ⟨rfl, hsettings, rfl, ?_, rfl, rfl, rfl⟩
    simp only [onConditions] at hconditions
    split at hconditions
    · cases hconditions
      exact takes_unlink id q.conditions
    · cases hconditions
  | replaceSubquery key child =>
    obtain ⟨hr, rfl⟩ := keeping_ok h
    obtain ⟨⟨old, hold⟩, -, rfl⟩ := Query.replaceSubquery_ok hr
    obtain ⟨before, after, hes, hput⟩ := Entries.exists_put_eq hold
    exact ⟨rfl, hsettings, rfl, rfl, rfl, rfl, before, old, after, hes, hput child⟩

end Edit

end QueryComposer
