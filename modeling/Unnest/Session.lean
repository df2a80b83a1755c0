import Unnest.Analysis.Stmt
import Unnest.Lowering.Program

/-!
# Compiling

A program is analysed to its end and then, if no check failed, lowered.  Several
programs can be compiled in one session: they have one program name, and labels go
on being numbered from one to the next.  A program with errors takes no labels.
-/

namespace Unnest

open Code

/-- What stays from one program to the next. -/
structure Session where
  program : String
  /-- How many labels were given out. -/
  labels : Nat := 0
  deriving DecidableEq, Repr, Inhabited

/-- What compiling a program comes to: classes, or errors and no classes. -/
structure Compiled where
  classes : List ClassFile
  errors : List SemanticError
  deriving Repr, Inhabited

/-- Whether a program was accepted. -/
def Compiled.isSuccess (c : Compiled) : Bool := c.errors.isEmpty

namespace Session

/-- Gives out the next label. -/
def nextLabel (s : Session) : Label × Session :=
  (⟨s.labels + 1⟩, { s with labels := s.labels + 1 })

/-- Gives out labels one after the other. -/
def nextLabels (s : Session) : Nat → List Label × Session
  | 0 => ([], s)
  | n + 1 =>
    let (first, s) := s.nextLabel
    let (rest, s) := s.nextLabels n
    (first :: rest, s)

/-- Lowers an analysed program, whether or not its analysis has errors. -/
def generate (s : Session) (a : Analysis) (p : Program) : Generated × Session :=
  let g := Unnest.generate a s.program p s.labels
  (g, { s with labels := g.labels })

/-- Compiles a program. -/
def compile (s : Session) (p : Program) : Compiled × Session :=
  let a := analyze s.program p
  if a.hasErrors then (⟨[], a.errors⟩, s)
  else
    let (g, s) := s.generate a p
    (⟨g.classes, []⟩, s)

end Session

end Unnest
