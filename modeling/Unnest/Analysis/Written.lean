import Unnest.Analysis.State
import Unnest.Tree.Basic

/-!
# Resolving written types

A written type resolves when every name in it does.  Each name that does not is
reported, in the order in which the names are written, and the others are resolved
all the same.  A routine type is made anew each time it is written; two of them are
one type by their signatures, not by their index.
-/

namespace Unnest.Analyze

mutual

/-- The type that a written type stands for. -/
def resolve : WrittenType → Analyze (Option TypeId)
  | .named name => do
    let found ← resolveType name.name
    if found.isNone then report (.typeNotFound name.name) name.span
    return found
  | .routine params result _ => do
    let params ← resolveAll params
    let result ← resolveResult result
    match params, result with
    | some params, some result => return some (← addRoutineType params result)
    | _, _ => return none

/-- The types that written types stand for; `none` if any of them stands for none. -/
def resolveAll : List WrittenType → Analyze (Option (List TypeId))
  | [] => return some []
  | t :: ts => do
    let first ← resolve t
    let rest ← resolveAll ts
    return first.bind fun type => rest.map (type :: ·)

/-- The result that is written, where one is written at all. -/
def resolveResult : Option WrittenType → Analyze (Option (Option TypeId))
  | none => return some none
  | some t => return (← resolve t).map some

end

end Unnest.Analyze
