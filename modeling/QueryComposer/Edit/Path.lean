import QueryComposer.Edit.Basic

/-!
# Edits at a path

A path is a list of identifiers that leads from a query through its subqueries to the one that is
edited. Each query on the way back takes the new subquery in the place of the old one.

## Main definitions

* `Query.editAt` does an edit at the end of a path.

## Implementation notes

An edit may give something besides the new query, such as the supply that is left; it is passed on.
-/

namespace QueryComposer

variable {α : Type}

/-- The query with the one at the end of the path edited. A path that leads nowhere is an error, and
so is a query on the way that does not carry the identifier of its place. -/
def Query.editAt (edit : Query → Except EditError (Query × α)) :
    List String → Query → Except EditError (Query × α)
  | [], q => edit q
  | key :: path, q =>
    match Entries.find? key q.subqueries with
    | none => .error (.notFound .subquery key)
    | some child => do
      let (child, rest) ← child.editAt edit path
      let q ← q.replaceSubquery key child
      pure (q, rest)

end QueryComposer
