import QueryComposer.Intake.Issue
import QueryComposer.Query.Field
import QueryComposer.Supply

/-!
# Reading data with all of its issues

An intake either lists everything that is wrong with some data, or gives a value that may still
have to draw fresh identifiers. Intakes are combined side by side: the issues of all parts are
collected, in the order of the parts, and identifiers are drawn in that order too. What is wrong
with data therefore never depends on the supply.

## Main definitions

* `Intake` with its applicative structure, `Intake.fail` and `Intake.fresh`.
* `Intake.under` moves issues one step further in.
* `Intake.text`, `Intake.choice`, `Intake.items` and `Intake.field` read the parts of an object.
-/

namespace QueryComposer

/-- All that is wrong with some data, or a value that may draw identifiers. -/
def Intake (α : Type) : Type := Except (List Issue) (Draw α)

namespace Intake

variable {α β : Type}

/-- A value that was read without an issue. -/
def done (a : α) : Intake α := .ok (pure a)

/-- One problem, at the place that is read. -/
def fail (p : Problem) : Intake α := .error [⟨[], p⟩]

/-- One fresh identifier. -/
def fresh : Intake String := .ok Draw.fresh

/-- The value changes, issues stay. -/
protected def map (f : α → β) : Intake α → Intake β
  | .ok d => .ok (f <$> d)
  | .error issues => .error issues

/-- Both parts, with the issues of the first before those of the second. -/
protected def seq (f : Intake (α → β)) (x : Intake α) : Intake β :=
  match f, x with
  | .ok f, .ok x => .ok (f <*> x)
  | .ok _, .error b => .error b
  | .error a, .ok _ => .error a
  | .error a, .error b => .error (a ++ b)

instance : Applicative Intake where
  map := Intake.map
  pure := done
  seq f x := Intake.seq f (x ())

/-- The same intake for a value one step further in. -/
def under (s : Step) : Intake α → Intake α
  | .ok d => .ok d
  | .error issues => .error (issues.map fun i => { i with path := s :: i.path })

/-- The value, with identifiers from the supply, and the supply that is left. -/
def run (x : Intake α) (supply : Supply) : Except (List Issue) (α × Supply) :=
  match x with
  | .ok d => .ok (d.run supply)
  | .error issues => .error issues

/-- The value of an intake that draws nothing, which is the same with every supply. -/
def value (x : Intake α) : Except (List Issue) α :=
  (x.run (Supply.ofSource fun _ => "")).map Prod.fst

/-- A value that is made from what was read, with fresh identifiers. -/
def thenDraw (x : Intake α) (make : α → Draw β) : Intake β :=
  match x with
  | .ok d => .ok (d >>= make)
  | .error issues => .error issues

/-! ### Values -/

/-- A text. Nothing else is taken for one. -/
def text : Json → Intake String
  | .string s => done s
  | _ => fail .notText

/-- A text, or null for none. -/
def optionalText : Json → Intake (Option String)
  | .null => done none
  | .string s => done (some s)
  | _ => fail .notText

/-- One of finitely many values, given by its name. -/
def choice (α : Type) [Choice α] (v : Json) : Intake α :=
  let named : Option α :=
    match v with
    | .string s => Choice.ofName? s
    | _ => none
  match named with
  | some a => done a
  | none => fail (.notAmong ((Choice.all : List α).map Choice.name))

/-- The items of a list, the first of them at position `i`. -/
def itemsFrom (read : Json → Intake α) (i : Nat) : List Json → Intake (List α)
  | [] => done []
  | v :: vs => List.cons <$> (read v).under (.item i) <*> itemsFrom read (i + 1) vs

/-- The items of a list. -/
def items (read : Json → Intake α) : Json → Intake (List α)
  | .array vs => itemsFrom read 0 vs
  | _ => fail .notList

/-! ### Objects -/

/-- The entries of an object are read, and anything else is no value of the kind. -/
def object (m : Model) (read : List (String × Json) → Intake α) : Json → Intake α
  | .object es => read es
  | _ => fail (.notModel m)

/-- A field of an object. An issue names the key as it stands in the object. -/
def field (f : Field) (read : Json → Intake α) (absent : Intake α) (es : List (String × Json)) :
    Intake α :=
  match f.find? es with
  | some (k, v) => (read v).under (.key k)
  | none => absent

/-- A field without which an object is no value. -/
def required (f : Field) (read : Json → Intake α) (es : List (String × Json)) : Intake α :=
  field f read ((fail .missing).under (.key f.key)) es

end Intake

end QueryComposer
