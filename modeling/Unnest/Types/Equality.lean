import Unnest.Types.Basic

/-!
# Equality of types

Two types are equal when they are the same type, or when both are routine types
and the first signature of the one matches a signature of the other: as many
parameters, equal one by one, and equal results.

## Termination

A table may hold routine types whose signatures mention each other, so the
recursion follows the table and not the data.  It is given fuel.  The answer for a
pair depends on the pair and the table alone, so a comparison that comes back to a
pair it is inside of never ends, and one that ends visits no pair twice on the way
down.  There are `n * n` pairs in a table of `n` types: with more fuel than that,
every comparison that has an answer finds it.

## Checked answers

`equal?` answers `none` when it would have to look at a type that is not there.
A type is looked at only if it must be: an index is equal to itself whether or not
the table holds it, and lists of different lengths differ whatever is in them.
-/

namespace Unnest.TypeTable

/-- Whether two lists have one length and the test holds of every pair. -/
def allPairs (test : TypeId → TypeId → Option Bool) (as bs : List TypeId) : Option Bool :=
  if as.length = bs.length then (as.zip bs).allM fun p => test p.1 p.2 else some false

/-- Whether two results agree: both are missing, or the test holds of them. -/
def sameResult (test : TypeId → TypeId → Option Bool) :
    Option TypeId → Option TypeId → Option Bool
  | none, none => some true
  | some a, some b => test a b
  | none, some _ | some _, none => some false

/-- Whether two signatures take and give the same; their names are not looked at. -/
def sameSignature (test : TypeId → TypeId → Option Bool) (s c : Signature) : Option Bool := do
  if ← allPairs test s.params c.params then sameResult test s.result c.result else return false

/-- Equality of types, to a depth. -/
def equalWithin (t : TypeTable) : Nat → TypeId → TypeId → Option Bool
  | 0, _, _ => none
  | depth + 1, a, b =>
    if a = b then some true
    else do
      let lhs ← t.get? a
      let rhs ← t.get? b
      if lhs.form = .routine ∧ rhs.form = .routine then
        match lhs.routines with
        | [] => return false
        | s :: _ => rhs.routines.anyM (sameSignature (equalWithin t depth) s)
      else return false

/-- Equality of types; `none` when a type that has to be looked at is missing. -/
def equal? (t : TypeTable) (a b : TypeId) : Option Bool :=
  t.equalWithin (t.size * t.size + 1) a b

/-- Equality of types; what cannot be compared is different. -/
def equal (t : TypeTable) (a b : TypeId) : Bool := (t.equal? a b).getD false

/-- Equality of argument lists, one by one; `none` as for `equal?`. -/
def argsEqual? (t : TypeTable) (as bs : List TypeId) : Option Bool := allPairs t.equal? as bs

/-- Equality of argument lists, one by one. -/
def argsEqual (t : TypeTable) (as bs : List TypeId) : Bool := (t.argsEqual? as bs).getD false

/-- A type is equal to itself, in the table or not. -/
@[simp] theorem equal?_self (t : TypeTable) (a : TypeId) : t.equal? a a = some true := by
  simp [equal?, equalWithin]

@[simp] theorem equal_self (t : TypeTable) (a : TypeId) : t.equal a a = true := by
  simp [equal]

end Unnest.TypeTable
