import Mathlib.Data.List.Induction
import QueryComposer.Proofs.Edit.Frame
import QueryComposer.Proofs.Supply

/-!
# Changes of an operator, one after the other

A change of the operator reaches every condition with the identifier, and it may attach a subquery
to them. Whether it does is decided by the link of the first of these conditions, and after an
attachment there is one. So however often the operator is changed, back and forth between literals,
null tests and queries, one subquery is attached at most, and it is never lost.

What the changes come to is therefore settled by two things: the last operator that was named, and
whether a query was ever asked for where there was room. `Session.settled` is the session for these
two, and a change leads from one such session to another. That what is drawn is not empty is
load-bearing: an empty identifier is no link, and the next change would attach again.

## Main definitions

* `Session.after` is the session that steps lead to, through those that fail as well.
* `Query.settle` gives conditions an operator and, if one comes in, a subquery.
* `Switch` is a change of an operator as it is asked for.
* `Session.settled` is the closed form of what changes come to.

## Main results

* `Session.run_append`: a run goes on from the session that its first steps lead to.
* `Query.setOperator_of_named`, `Query.setOperator_of_unnamed`: one change.
* `Session.afterSwitches_eq`: any number of them.
* `Session.operator_switches`: one subquery at most, and the last operator stays.
-/

namespace QueryComposer

open Intake Query

/-! ### The session that steps lead to -/

/-- The session after some steps. A step that fails leaves the session as it was. -/
def Session.after (s : Session) : List (List String × Command) → Session
  | [] => s
  | (path, c) :: steps =>
    match s.advance path c with
    | .ok s' => after s' steps
    | .error _ => after s steps

namespace Session

variable {s t : Session} {path : List String} {c : Command}
  {steps steps' : List (List String × Command)}

theorem after_append (s : Session) (steps steps' : List (List String × Command)) :
    s.after (steps ++ steps') = (s.after steps).after steps' := by
  induction steps generalizing s with
  | nil => rfl
  | cons step steps ih =>
    obtain ⟨path, c⟩ := step
    rw [List.cons_append, after, after]
    split <;> exact ih _

/-- A run goes on from the session that its first steps lead to. -/
theorem run_append (s : Session) (steps steps' : List (List String × Command)) :
    s.run (steps ++ steps') = s.run steps ++ (s.after steps).run steps' := by
  induction steps generalizing s with
  | nil => rfl
  | cons step steps ih =>
    obtain ⟨path, c⟩ := step
    rw [List.cons_append, run, run, after]
    cases s.advance path c with
    | ok s' =>
      dsimp only
      rw [ih, List.cons_append]
    | error e =>
      dsimp only
      rw [ih, List.cons_append]

theorem after_concat_of_ok (h : (s.after steps).advance path c = .ok t) :
    s.after (steps ++ [(path, c)]) = t := by
  rw [after_append, after, h]
  rfl

theorem after_concat_of_error {e : EditError} (h : (s.after steps).advance path c = .error e) :
    s.after (steps ++ [(path, c)]) = s.after steps := by
  rw [after_append, after, h]
  rfl

end Session

/-! ### The operator that a value names -/

/-- The operator of that name. -/
def Operator.ofJson? : Json → Option Operator
  | .string s => Choice.ofName? s
  | _ => none

/-- Why a value is refused that names no operator. -/
def Operator.unnamed : EditError :=
  .invalid .condition
    [⟨[.key Field.operator.key], .notAmong ((Choice.all : List Operator).map Choice.name)⟩]

/-- A condition takes the operator that is named. -/
theorem Condition.change_operator (v : Json) (c : Condition) :
    Part.change [(Field.operator.altKey, v)] c =
      match Operator.ofJson? v with
      | some operator => .ok { c with operator }
      | none => .error Operator.unnamed := by
  have hchoice : choice Operator v =
      match Operator.ofJson? v with
      | some operator => done operator
      | none => fail (.notAmong ((Choice.all : List Operator).map Choice.name)) := by
    cases v with
    | string name =>
      rw [choice, Operator.ofJson?]
      cases (Choice.ofName? name : Option Operator) <;> rfl
    | _ => rfl
  change EditError.ofIntake .condition (Condition.mk <$> done c.id <*> done c.column
    <*> (choice Operator v).under (.key Field.operator.key) <*> done c.value <*> done c.gate
      <*> done c.subqueryId) = _
  rw [hchoice]
  cases Operator.ofJson? v <;> rfl

namespace Part

variable {α : Type} [Part α] {id : String} {changes : List (String × Json)} {as : List α}

/-- A change that suits every part reaches all parts with the identifier. -/
theorem update_of_forall_ok {f : α → α} (hid : Entries.find? Field.id.altKey changes = none)
    (hmem : ∃ a ∈ as, Part.id a = id) (hf : ∀ a, change changes a = .ok (f a)) :
    update id changes as = .ok (as.map fun a => if Part.id a = id then f a else a) := by
  have hany : (as.any fun a => Part.id a = id) = true := by simpa using hmem
  have hchange : (fun a => if Part.id a = id then change changes a else .ok a) =
      fun a => (pure (if Part.id a = id then f a else a) : Except EditError α) := by
    funext a
    rw [hf]
    split <;> rfl
  rw [update, hid, if_neg (by simp), if_pos hany, hchange, List.mapM_pure]
  rfl

/-- A change that suits no part fails, if there is one to change. -/
theorem update_of_forall_error {e : EditError}
    (hid : Entries.find? Field.id.altKey changes = none) (hmem : ∃ a ∈ as, Part.id a = id)
    (he : ∀ a : α, change changes a = .error e) : update id changes as = .error e := by
  have hany : (as.any fun a => Part.id a = id) = true := by simpa using hmem
  rw [update, hid, if_neg (by simp), if_pos hany]
  cases hresult : as.mapM fun a => if Part.id a = id then change changes a else .ok a with
  | ok bs =>
    obtain ⟨a, ha, rfl⟩ := hmem
    obtain ⟨b, hb⟩ := (mapM_eq_ok_iff.mp hresult).1 a ha
    rw [if_pos rfl, he] at hb
    cases hb
  | error e' =>
    obtain ⟨a, -, ha⟩ := exists_error_of_mapM hresult
    split at ha
    · cases ha.symm.trans (he a)
      rfl
    · cases ha

/-- The first part with the identifier is found changed as well. -/
theorem find_map {f : α → α} (hf : ∀ a, Part.id (f a) = Part.id a) (id : String) (as : List α) :
    find id (as.map fun a => if Part.id a = id then f a else a) = (find id as).map f := by
  induction as with
  | nil => rfl
  | cons a as ih =>
    rw [List.map_cons, find_cons, find_cons, ih]
    by_cases ha : Part.id a = id
    · rw [if_pos ha, if_pos ha, if_pos ((hf a).trans ha)]
      rfl
    · rw [if_neg ha, if_neg ha, if_neg ha]

theorem exists_find (hmem : ∃ a ∈ as, Part.id a = id) : ∃ a, find id as = .ok a := by
  obtain ⟨a, ha⟩ := Option.isSome_iff_exists.mp
    (List.find?_isSome (p := fun a => decide (Part.id a = id)).mpr (by simpa using hmem))
  exact ⟨a, by rw [find, ha]⟩

end Part

/-! ### One change -/

/-- The condition with the operator and the link that are given, and else those that it has. -/
def Condition.settle (operator : Option Operator) (link : Option String) (c : Condition) :
    Condition :=
  { c with operator := operator.getD c.operator, subqueryId := link.or c.subqueryId }

/-- The conditions with an identifier settled, and linked to the subquery if one comes in. -/
def Query.settle (q : Query) (id : String) (operator : Option Operator) (child : Option Query) :
    Query :=
  { q with
    conditions := q.mapConditions id (Condition.settle operator (child.map Query.id))
    subqueries := child.elim q.subqueries fun child => Entries.put child.id child q.subqueries }

theorem Condition.settle_settle (operator operator' : Option Operator) (link link' : Option String)
    (c : Condition) : (c.settle operator link).settle operator' link' =
      c.settle (operator'.or operator) (link'.or link) := by
  cases operator' <;> cases link' <;> rfl

namespace Query

variable {q : Query} {id : String} {v : Json} {depth : Int} {operator : Operator}

theorem mapConditions_settle (q : Query) (id : String) (o : Option Operator)
    (child : Option Query) (link : Option String) (o' : Option Operator) :
    (q.settle id o child).mapConditions id (Condition.settle o' link) =
      q.mapConditions id (Condition.settle (o'.or o) (link.or (child.map Query.id))) := by
  rw [settle, mapConditions, mapConditions, mapConditions, List.map_map]
  refine List.map_congr_left fun c _ => ?_
  rw [Function.comp_apply]
  by_cases hc : c.id = id
  · rw [if_pos hc, if_pos hc, ← Condition.settle_settle]
    exact if_pos hc
  · rw [if_neg hc, if_neg hc, if_neg hc]

/-- What is settled twice has the last operator. A subquery comes in at one of the two times. -/
theorem settle_settle (q : Query) (id : String) (o o' : Option Operator) (child : Query) :
    (q.settle id o none).settle id o' (some child) = q.settle id (o'.or o) (some child) ∧
      ∀ child?, (q.settle id o child?).settle id o' none = q.settle id (o'.or o) child? := by
  constructor
  · rw [settle, mapConditions_settle]
    rfl
  · intro child?
    rw [settle, mapConditions_settle]
    rfl

theorem settle_none (q : Query) (id : String) : q.settle id none none = q := by
  cases q
  simp [settle, mapConditions, Condition.settle]

theorem exists_mem_settle (hid : ∃ c ∈ q.conditions, c.id = id) (o : Option Operator)
    (child : Option Query) : ∃ c ∈ (q.settle id o child).conditions, c.id = id := by
  obtain ⟨c, hc, rfl⟩ := hid
  exact ⟨_, List.mem_map.mpr ⟨c, hc, if_pos rfl⟩, rfl⟩

theorem find_settle (q : Query) (id : String) (o : Option Operator) (child : Option Query) :
    Part.find id (q.settle id o child).conditions =
      (Part.find id q.conditions).map (Condition.settle o (child.map Query.id)) :=
  Part.find_map (f := Condition.settle o (child.map Query.id)) (fun _ => rfl) id q.conditions

/-- The first of the conditions has the link that was given, or else the one that it had. -/
theorem linkOf?_settle (hid : ∃ c ∈ q.conditions, c.id = id) (o : Option Operator)
    (child : Option Query) (hne : ∀ r, child = some r → r.id ≠ "") :
    Edit.linkOf? id (q.settle id o child).conditions =
      (child.map Query.id).or (Edit.linkOf? id q.conditions) := by
  obtain ⟨c, hc⟩ : ∃ c, Part.find id q.conditions = .ok c := Part.exists_find hid
  have hfind := find_settle q id o child
  rw [hc] at hfind
  rw [Edit.linkOf?_of_find hc, Edit.linkOf?_of_find hfind]
  cases child with
  | none => rfl
  | some r => simp [Condition.link?, Condition.settle, hne r rfl]

theorem updateCondition_of_named (hid : ∃ c ∈ q.conditions, c.id = id)
    (hv : Operator.ofJson? v = some operator) :
    q.updateCondition id [(Field.operator.key, v)] = .ok (q.settle id (some operator) none) := by
  have hchange : ∀ c : Condition, Part.change [(Field.operator.altKey, v)] c =
      .ok (c.settle (some operator) none) := fun c => by
    rw [Condition.change_operator, hv]
    rfl
  have hlink : (Entries.find? Field.subqueryId.altKey [(Field.operator.key, v)]).isSome = false :=
    rfl
  rw [updateCondition, hlink, if_neg Bool.false_ne_true]
  exact congrArg (Except.map fun conditions => { q with conditions })
    (Part.update_of_forall_ok rfl hid hchange)

theorem updateCondition_of_unnamed (hid : ∃ c ∈ q.conditions, c.id = id)
    (hv : Operator.ofJson? v = none) :
    q.updateCondition id [(Field.operator.key, v)] = .error Operator.unnamed := by
  have hchange : ∀ c : Condition, Part.change [(Field.operator.altKey, v)] c =
      .error Operator.unnamed := fun c => by rw [Condition.change_operator, hv]
  have hlink : (Entries.find? Field.subqueryId.altKey [(Field.operator.key, v)]).isSome = false :=
    rfl
  rw [updateCondition, hlink, if_neg Bool.false_ne_true]
  exact congrArg (Except.map fun conditions => { q with conditions })
    (Part.update_of_forall_error rfl hid hchange)

/-- Where there is room a subquery is attached. -/
theorem attach_of_linkOf? (hid : ∃ c ∈ q.conditions, c.id = id) (hdepth : depth < maxDepth)
    (hlink : Edit.linkOf? id q.conditions = none) (child : Query) :
    q.attach child id depth = .ok (q.settle id none (some child)) := by
  obtain ⟨c, hc⟩ : ∃ c, Part.find id q.conditions = .ok c := Part.exists_find hid
  rw [Edit.linkOf?_of_find hc] at hlink
  rw [attach, if_neg (Int.not_le.mpr hdepth), hc]
  simp only [bind, Except.bind, hlink]
  rfl

/-- **A change to an operator that there is** reaches every condition with the identifier. It
attaches a subquery if the operator takes one, there is room for it and the first of the conditions
has none. -/
theorem setOperator_of_named (hid : ∃ c ∈ q.conditions, c.id = id)
    (hv : Operator.ofJson? v = some operator) (supply : Supply) (depth : Int) :
    q.setOperator supply id v depth =
      if operator.takesQuery ∧ depth < maxDepth ∧ Edit.linkOf? id q.conditions = none then
        .ok (q.settle id (some operator) (some (Edit.attached supply)),
          ((blank .select).run supply).2)
      else .ok (q.settle id (some operator) none, supply) := by
  have hmem := exists_mem_settle hid (some operator) none
  have hlink := linkOf?_settle hid (some operator) none nofun
  obtain ⟨c, hc⟩ : ∃ c, Part.find id q.conditions = .ok c := Part.exists_find hid
  have hfind := find_settle q id (some operator) none
  rw [hc] at hfind
  rw [setOperator, updateCondition_of_named hid hv, Edit.linkOf?_of_find hc]
  simp only [bind, Except.bind, hfind, Except.map]
  change (if operator.takesQuery ∧ depth < maxDepth ∧ c.link? = none then _ else _) = _
  split
  · next hroom =>
    rw [Edit.linkOf?_of_find hc, hroom.2.2] at hlink
    change (attach _ (Edit.attached supply) id depth >>= fun q' => pure (q', _)) = _
    rw [attach_of_linkOf? hmem hroom.2.1 hlink, (settle_settle q id _ _ _).1]
    rfl
  · rfl

theorem setOperator_of_unnamed (hid : ∃ c ∈ q.conditions, c.id = id)
    (hv : Operator.ofJson? v = none) (supply : Supply) (depth : Int) :
    q.setOperator supply id v depth = .error Operator.unnamed := by
  rw [setOperator, updateCondition_of_unnamed hid hv]
  rfl

end Query

/-! ### Many changes -/

/-- A change of an operator, as it is asked for. -/
structure Switch where
  operator : Json
  depth : Int

namespace Switch

/-- The operator that is named, if there is one of the name. -/
def named? (w : Switch) : Option Operator := Operator.ofJson? w.operator

/-- The operator takes a query, and there is room for one. -/
def asks (w : Switch) : Bool := w.named?.any Operator.takesQuery && w.depth < maxDepth

/-- The change, for the conditions with an identifier. -/
def command (id : String) (w : Switch) : Command := .edit (.setOperator id w.operator w.depth)

theorem asks_of_named {w : Switch} {operator : Operator} (hw : w.named? = some operator) :
    w.asks ↔ operator.takesQuery ∧ w.depth < maxDepth := by
  simp [asks, hw]

theorem not_asks_of_unnamed {w : Switch} (hw : w.named? = none) : w.asks = false := by
  simp [asks, hw]

end Switch

namespace Session

variable {s : Session} {id : String} {w : Switch} {switches : List Switch}

/-- The session after some changes of the operator of the conditions with an identifier. -/
def afterSwitches (s : Session) (id : String) (switches : List Switch) : Session :=
  s.after (switches.map fun w => ([], w.command id))

/-- A query is asked for where the first of the conditions has none. -/
def Attaches (s : Session) (id : String) (switches : List Switch) : Prop :=
  Edit.linkOf? id s.query.conditions = none ∧ ∃ w ∈ switches, w.asks

instance (s : Session) (id : String) (switches : List Switch) :
    Decidable (s.Attaches id switches) :=
  inferInstanceAs (Decidable (_ ∧ _))

/-- What changes come to: the last operator that was named, and a subquery if one was attached. -/
def settled (s : Session) (id : String) (switches : List Switch) : Session :=
  let operator := (switches.filterMap Switch.named?).getLast?
  if s.Attaches id switches then
    ⟨s.query.settle id operator (some (Edit.attached s.supply)), ((blank .select).run s.supply).2⟩
  else ⟨s.query.settle id operator none, s.supply⟩

theorem advance_of_unnamed (hid : ∃ c ∈ s.query.conditions, c.id = id) (hw : w.named? = none) :
    s.advance [] (w.command id) = .error Operator.unnamed := by
  change (s.query.setOperator s.supply id w.operator w.depth >>= fun r =>
    pure (⟨r.1, r.2⟩ : Session)) = _
  rw [setOperator_of_unnamed hid hw]
  rfl

theorem advance_of_named (hid : ∃ c ∈ s.query.conditions, c.id = id) {operator : Operator}
    (hw : w.named? = some operator) :
    s.advance [] (w.command id) =
      if w.asks ∧ Edit.linkOf? id s.query.conditions = none then
        .ok ⟨s.query.settle id (some operator) (some (Edit.attached s.supply)),
          ((blank .select).run s.supply).2⟩
      else .ok ⟨s.query.settle id (some operator) none, s.supply⟩ := by
  change (s.query.setOperator s.supply id w.operator w.depth >>= fun r =>
    pure (⟨r.1, r.2⟩ : Session)) = _
  rw [setOperator_of_named hid hw]
  simp only [Switch.asks_of_named hw, and_assoc]
  split <;> rfl

theorem attaches_concat (s : Session) (id : String) (switches : List Switch) (w : Switch) :
    s.Attaches id (switches ++ [w]) ↔
      s.Attaches id switches ∨ w.asks ∧ Edit.linkOf? id s.query.conditions = none := by
  simp only [Attaches, List.mem_append, List.mem_singleton, or_and_right, exists_or, exists_eq_left,
    and_or_left, and_comm]

theorem settled_concat_of_unnamed (s : Session) (id : String) (switches : List Switch)
    (hw : w.named? = none) : s.settled id (switches ++ [w]) = s.settled id switches := by
  have hnamed : (switches ++ [w]).filterMap Switch.named? = switches.filterMap Switch.named? := by
    simp [hw]
  simp only [settled, attaches_concat, hnamed, Switch.not_asks_of_unnamed hw, Bool.false_eq_true,
    false_and, or_false]

/-- **A change leads from one settled session to the next.** -/
theorem advance_settled (hid : ∃ c ∈ s.query.conditions, c.id = id)
    (hne : (Edit.attached s.supply).id ≠ "") (switches : List Switch) {operator : Operator}
    (hw : w.named? = some operator) :
    (s.settled id switches).advance [] (w.command id) = .ok (s.settled id (switches ++ [w])) := by
  have hlast : ((switches ++ [w]).filterMap Switch.named?).getLast? = some operator := by
    simp [hw]
  simp only [settled, attaches_concat, hlast]
  by_cases hattaches : s.Attaches id switches
  -- The first of the conditions is linked by now, so nothing is attached again.
  · rw [if_pos hattaches, if_pos (.inl hattaches),
      advance_of_named (exists_mem_settle hid _ _) hw,
      linkOf?_settle hid _ _ fun r hr => Option.some.inj hr ▸ hne, if_neg (by simp),
      (settle_settle s.query id _ _ (Edit.attached s.supply)).2]
    rfl
  · have hlink := linkOf?_settle hid (switches.filterMap Switch.named?).getLast? none nofun
    rw [Option.map_none, Option.none_or] at hlink
    rw [if_neg hattaches, advance_of_named (exists_mem_settle hid _ _) hw, hlink,
      (settle_settle s.query id _ _ (Edit.attached s.supply)).1,
      (settle_settle s.query id _ _ (Edit.attached s.supply)).2]
    by_cases hasks : w.asks ∧ Edit.linkOf? id s.query.conditions = none
    · rw [if_pos hasks, if_pos (.inr hasks)]
      rfl
    · rw [if_neg hasks, if_neg (not_or.mpr ⟨hattaches, hasks⟩)]
      rfl

theorem exists_mem_settled (hid : ∃ c ∈ s.query.conditions, c.id = id) (switches : List Switch) :
    ∃ c ∈ (s.settled id switches).query.conditions, c.id = id := by
  rw [settled]
  split <;> exact exists_mem_settle hid _ _

/-- **What any number of changes come to.** -/
theorem afterSwitches_eq (hid : ∃ c ∈ s.query.conditions, c.id = id)
    (hne : (Edit.attached s.supply).id ≠ "") (switches : List Switch) :
    s.afterSwitches id switches = s.settled id switches := by
  induction switches using List.reverseRecOn with
  | nil =>
    have hnever : ¬s.Attaches id [] := by simp [Attaches]
    rw [settled, if_neg hnever]
    exact (congrArg (Session.mk · s.supply) (settle_none s.query id)).symm
  | append_singleton switches w ih =>
    rw [afterSwitches] at ih
    rw [afterSwitches, List.map_append, List.map_singleton]
    cases hw : w.named? with
    | none =>
      have hrefused := advance_of_unnamed (exists_mem_settled hid switches) hw
      rw [← ih] at hrefused
      rw [after_concat_of_error hrefused, ih, settled_concat_of_unnamed s id switches hw]
    | some operator =>
      have hdone := advance_settled hid hne switches hw
      rw [← ih] at hdone
      exact after_concat_of_ok hdone

/-! ### The last operator, and one subquery -/

theorem mem_mapConditions {q : Query} {f : Condition → Condition} {c : Condition}
    (hc : c ∈ q.mapConditions id f) (hid : c.id = id) :
    ∃ d ∈ q.conditions, c = f d := by
  obtain ⟨d, hd, rfl⟩ := List.mem_map.mp hc
  by_cases hdid : d.id = id
  · exact ⟨d, hd, if_pos hdid⟩
  · rw [if_neg hdid] at hid
    exact absurd hid hdid

theorem mem_settled {c : Condition} (hc : c ∈ (s.settled id switches).query.conditions)
    (hid : c.id = id) : ∃ d ∈ s.query.conditions,
      c = d.settle (switches.filterMap Switch.named?).getLast?
        (if s.Attaches id switches then some (Edit.attached s.supply).id else none) := by
  rw [settled] at hc
  split at hc
  · next hattaches =>
    rw [if_pos hattaches]
    exact mem_mapConditions hc hid
  · next hattaches =>
    rw [if_neg hattaches]
    exact mem_mapConditions hc hid

theorem settled_of_attaches (h : s.Attaches id switches) :
    (s.settled id switches).query.subqueries =
        Entries.put (Edit.attached s.supply).id (Edit.attached s.supply) s.query.subqueries ∧
      (s.settled id switches).supply = ((blank .select).run s.supply).2 := by
  rw [settled, if_pos h]
  exact ⟨rfl, rfl⟩

theorem settled_of_not_attaches (h : ¬s.Attaches id switches) :
    (s.settled id switches).query.subqueries = s.query.subqueries ∧
      (s.settled id switches).query.conditions.map Condition.subqueryId =
        s.query.conditions.map Condition.subqueryId ∧
      (s.settled id switches).supply = s.supply := by
  rw [settled, if_neg h]
  refine ⟨rfl, ?_, rfl⟩
  change (s.query.mapConditions id _).map _ = _
  rw [mapConditions, List.map_map]
  refine List.map_congr_left fun c _ => ?_
  rw [Function.comp_apply]
  split <;> rfl

theorem settled_append_of_unnamed {refused : List Switch} (h : ∀ w ∈ refused, w.named? = none) :
    s.settled id (switches ++ refused) = s.settled id switches := by
  induction refused generalizing switches with
  | nil => rw [List.append_nil]
  | cons w refused ih =>
    obtain ⟨hw, hrefused⟩ := List.forall_mem_cons.mp h
    rw [List.append_cons, ih hrefused, settled_concat_of_unnamed s id switches hw]

/-- A change that is repeated changes nothing. -/
theorem settled_concat_self (w : Switch) (hw : w.named?.isSome) :
    s.settled id (switches ++ [w] ++ [w]) = s.settled id (switches ++ [w]) := by
  obtain ⟨operator, hoperator⟩ := Option.isSome_iff_exists.mp hw
  simp only [settled, attaches_concat, or_assoc, or_self, List.filterMap_append,
    List.filterMap_cons, hoperator, List.filterMap_nil, List.getLast?_append,
    List.getLast?_singleton, Option.some_or]

/-- **Changes of an operator attach one subquery at most and never lose it.** Let a condition have
the identifier, and let what is drawn next be no empty identifier. A change succeeds exactly if it
names an operator, and changes nothing otherwise. After any number of changes all conditions with
the identifier have the operator that was named last. If the first of them had no link at the start,
they are linked to one new subquery from the first change on that asks for a query where there is
room; up to there, and otherwise forever, links, subqueries and supply are those of the start. A
change that was the last to succeed can be repeated and then comes to nothing. -/
theorem operator_switches (s : Session) (id : String) (hid : ∃ c ∈ s.query.conditions, c.id = id)
    (hne : (Edit.attached s.supply).id ≠ "") :
    (∀ (switches : List Switch) (w : Switch),
      if w.named?.isSome then
        (s.afterSwitches id switches).advance [] (w.command id) =
          .ok (s.afterSwitches id (switches ++ [w]))
      else
        (∃ e, (s.afterSwitches id switches).advance [] (w.command id) = .error e) ∧
          s.afterSwitches id (switches ++ [w]) = s.afterSwitches id switches) ∧
    (∀ (switches : List Switch) (operator : Operator),
      (switches.filterMap Switch.named?).getLast? = some operator →
      ∀ c ∈ (s.afterSwitches id switches).query.conditions, c.id = id → c.operator = operator) ∧
    (∀ switches : List Switch,
      let t := s.afterSwitches id switches
      let child := Edit.attached s.supply
      if Edit.linkOf? id s.query.conditions = none ∧ ∃ w ∈ switches, w.asks then
        t.query.subqueries = Entries.put child.id child s.query.subqueries ∧
          (∀ c ∈ t.query.conditions, c.id = id → c.subqueryId = some child.id) ∧
          t.supply = ((blank .select).run s.supply).2
      else
        t.query.subqueries = s.query.subqueries ∧
          t.query.conditions.map Condition.subqueryId =
            s.query.conditions.map Condition.subqueryId ∧
          t.supply = s.supply) ∧
    ∀ (switches : List Switch) (w : Switch) (refused : List Switch),
      w.named?.isSome → (∀ v ∈ refused, v.named? = none) →
      let t := s.afterSwitches id (switches ++ w :: refused)
      t.advance [] (w.command id) = .ok t := by
  simp only [afterSwitches_eq hid hne]
  refine ⟨fun switches w => ?_, fun switches operator hlast c hc hcid => ?_, fun switches => ?_,
    fun switches w refused hw hrefused => ?_⟩
  · cases hw : w.named? with
    | some operator => exact advance_settled hid hne switches hw
    | none =>
      exact ⟨⟨_, advance_of_unnamed (exists_mem_settled hid switches) hw⟩,
        settled_concat_of_unnamed s id switches hw⟩
  · obtain ⟨d, -, rfl⟩ := mem_settled hc hcid
    rw [hlast]
    rfl
  · change if s.Attaches id switches then _ else _
    split
    · next hattaches =>
      obtain ⟨hsubqueries, hsupply⟩ := settled_of_attaches hattaches
      refine ⟨hsubqueries, fun c hc hcid => ?_, hsupply⟩
      obtain ⟨d, -, rfl⟩ := mem_settled hc hcid
      rw [if_pos hattaches]
      rfl
    · next hattaches => exact settled_of_not_attaches hattaches
  · obtain ⟨operator, hoperator⟩ := Option.isSome_iff_exists.mp hw
    rw [List.append_cons, settled_append_of_unnamed hrefused,
      advance_settled hid hne (switches ++ [w]) hoperator, settled_concat_self w hw]

/-- Two conditions with one identifier, the second of which has a subquery. -/
def unlinkedFirst : Query :=
  { bare "root" .select with
    conditions := [⟨"c", "id", .equal, "1", .and, none⟩,
      ⟨"c", "owner_id", .among, "", .or, some "old"⟩, ⟨"d", "age", .less, "9", .and, none⟩]
    subqueries := [("old", bare "old" .select)] }

/-- There is no room for the first query that is asked for, and the last change names no operator.
Both conditions are linked to the subquery of the third change. -/
theorem operator_switches_unlinkedFirst :
    let s : Session := ⟨unlinkedFirst, .ofSource numbered⟩
    let child := Edit.attached s.supply
    let switches : List Switch := [⟨.string "IN", 3⟩, ⟨.string "BETWEEN", 0⟩,
      ⟨.string "EXISTS", 2⟩, ⟨.string "LIKE", 0⟩, ⟨.string "NOT IN", -1⟩, ⟨.null, 0⟩]
    let t := s.afterSwitches "c" switches
    (∃ c ∈ s.query.conditions, c.id = "c") ∧ child.id ≠ "" ∧
      (∃ e, (s.afterSwitches "c" []).advance [] (Switch.command "c" ⟨.null, 0⟩) = .error e) ∧
      (∀ c ∈ t.query.conditions, c.id = "c" → c.operator = .notAmong) ∧
      (∀ c ∈ t.query.conditions, c.id = "c" → c.subqueryId = some child.id) ∧
      t.query.subqueries = [("old", bare "old" .select), (child.id, child)] ∧
      t.advance [] (Switch.command "c" ⟨.string "NOT IN", -1⟩) = .ok t := by
  intro s child switches t
  have hid : ∃ c ∈ s.query.conditions, c.id = "c" := ⟨_, List.mem_cons_self, rfl⟩
  have hne : child.id ≠ "" := numbered_ne_empty 1
  have hnew : numbered 1 ∉ ["old"] := by decide
  obtain ⟨hcalls, hoperator, hattached, hrepeated⟩ := operator_switches s "c" hid hne
  have hroom := hattached switches
  rw [if_pos ⟨rfl, ⟨.string "EXISTS", 2⟩, by simp [switches], rfl⟩] at hroom
  have hrefused := hcalls [] ⟨.null, 0⟩
  rw [if_neg (by decide)] at hrefused
  exact ⟨hid, hne, hrefused.1, hoperator switches .notAmong rfl, hroom.2.1,
    hroom.1.trans (Entries.put_of_not_mem hnew),
    hrepeated (switches.take 4) ⟨.string "NOT IN", -1⟩ [⟨.null, 0⟩] rfl
      (List.forall_mem_singleton.mpr rfl)⟩

end Session

end QueryComposer
