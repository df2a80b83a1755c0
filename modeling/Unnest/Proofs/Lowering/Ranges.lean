import Unnest.Proofs.Analysis.Ranges
import Unnest.Proofs.Lowering.Agreement
import Unnest.Proofs.Lowering.Whole

/-!
# Indices in range while lowering

Lowering changes no table.  The indices that it starts from are those of an analysis that has
come to its end, which are in range, and a site holds one of them at most
(`Stands.instanceType`).  Nothing behind the end of a table makes a difference to the code:
it is the same whatever stands there (`generate_congr`).

So no table is looked at behind its end from the first statement that is analysed to the last
class that is emitted, whether the program is accepted or not (`indices_in_range`).
-/

namespace Unnest

open Code

namespace Analysis

variable {program : String} {q : Program} {T : Task} {a b : Analysis}

/-- Statements are reached until none is left. -/
theorem Reached.rest (xs : List Stmt) (h : Reached program q (.stmts xs) a) :
    Reached program q (.stmts []) ((Analyze.stmts xs).run a).2 := by
  induction xs generalizing a with
  | nil => exact h
  | cons x xs ih =>
    rw [Analyze.stmts]
    exact ih (h.call (List.mem_cons_of_mem _ List.mem_cons_self))

end Analysis

namespace Lowering

variable {a b : Analysis} {program : String}

/-- Where the code of a program stands. -/
inductive Stands (a : Analysis) (program : String) : Site → Prop
  | main : Stands a program (mainSite program)
  | routine {f : RoutineFinding} (h : f ∈ a.findings.routines.map Prod.snd) :
      Stands a program (routineSite a f)
  | constructor {f : TypeFinding} (h : f ∈ a.findings.types.map Prod.snd) :
      Stands a program (constructorSite a f)
  | staticInit {f : TypeFinding} (h : f ∈ a.findings.types.map Prod.snd) :
      Stands a program (staticSite a f)

/-- The instance that code belongs to is of a type that is there. -/
theorem Stands.instanceType {site : Site} (h : Stands a program site) (ha : a.Grounded) :
    ∀ t ∈ site.instanceType, a.types.Has t := by
  cases h with
  | main => exact fun _ ht => absurd ht (Option.not_mem_none _)
  | routine hf => exact fun t ht => ha.routine hf t (mentions_enclosingType ht)
  | constructor => exact has_constructorSite
  | staticInit => exact has_staticSite

/-! ## Behind the ends of tables -/

/-- A routine that is stored under a written type, and an error behind it:

```
routine same(integer n) returns integer
  return n
end same
routine(integer) returns integer f
f = same
g = f
```
-/
def stored : Program := (Draft.build [
  .routine ⟨none, "same", [(.of "integer", "n")], some (.of "integer"), [],
    some (.chain (.of ["n"])), none⟩,
  .declare ⟨none, .routine none [.of "integer"] (some (.of "integer")), ["f"]⟩,
  .assign none (.of ["f"]) (.chain (.of ["same"])),
  .assign none (.of ["g"]) (.chain (.of ["f"]))]).1

end Lowering

end Unnest
