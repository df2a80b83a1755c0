import Unnest.Lowering.Class

/-!
# Lowering statements

Statements are lowered in order.  Control flow becomes labels and jumps: each
branch of an `if` tests its condition and goes on to the next branch when it is
false, and a branch that was taken jumps past the others; a loop tests its
condition at the top.

A definition in the middle of a body leaves two things behind: its class, which is
complete before the class around it is, and the code that makes the routine object
or runs the static method of the type.

## What lowering remembers

Labels are numbered through a whole compilation, whatever method they are in, and
completed classes are kept in the order of their completion.
-/

namespace Unnest

open Code

/-- What lowering has produced so far. -/
structure Output where
  /-- How many labels were given out. -/
  labels : Nat := 0
  /-- The classes that are complete. -/
  classes : List ClassFile := []
  /-- How many lookups found nothing. -/
  gaps : Nat := 0
  deriving DecidableEq, Repr, Inhabited

/-- A step of lowering. -/
abbrev Lower := StateM Output

namespace Lower

/-- The next label. -/
def freshLabel : Lower Label :=
  modifyGet fun o => (⟨o.labels + 1⟩, { o with labels := o.labels + 1 })

/-- Takes the instructions of a fragment and counts its gaps. -/
def place (f : Fragment) : Lower (List Instruction) := do
  modify fun o => { o with gaps := o.gaps + f.gaps }
  return f.code

/-- A lookup that found nothing. -/
def skip : Lower (List Instruction) := place .gap

/-- Adds a complete class. -/
def complete (c : ClassFile) : Lower Unit :=
  modify fun o => { o with classes := o.classes ++ [c] }

end Lower

namespace Lowering

variable (a : Analysis)

/-- The findings about routines that were declared, each with its definition. -/
def declaredRoutines (defs : List RoutineDef) : List RoutineFinding :=
  defs.filterMap fun r => a.findings.routines.find? r.node

/-- Makes a routine and puts it into its slot. -/
def bindRoutine (site : Site) (r : RoutineFinding) : Fragment :=
  match r.binding.slot with
  | some slot => makeRoutine a site r ++ .ofList [.store slot]
  | none => .gap

/-- Completes the class of a routine whose body is lowered. -/
def completeRoutine (r : RoutineFinding) (ret : Option ReturnClause)
    (body : List Instruction) : Lower Unit := do
  let final ← Lower.place (routineEnd a r ret)
  Lower.complete (routineClass a r (body ++ final))

/-- Completes the class of a type whose member routines are lowered. -/
def completeType (t : TypeFinding) (routines staticRoutines : List RoutineFinding)
    (fields : List StaticField) : Lower Unit := do
  let constructor ← Lower.place (constructorCode a t routines)
  let staticInit ← Lower.place (staticInitCode a t staticRoutines fields)
  Lower.complete (typeClass a t routines staticRoutines constructor staticInit)

mutual

/-- The code of a statement. -/
def stmt (site : Site) : Stmt → Lower (List Instruction)
  | .declare d => Lower.place (varDecl a d)
  | .define d => Lower.place (initDecl a site d)
  | .assign x => Lower.place (assign a site x)
  | .call c => Lower.place (callStmt a site c)
  | .branch gs otherwise _ => do
    let done ← Lower.freshLabel
    let taken ← branches site done gs
    let other ← elseBlock site otherwise
    return taken ++ other ++ [.label done]
  | .loop g => loop site g
  | .routine r => routine site r
  | .type t => typeDef site t

/-- A branch of an `if`: jumps to `done` after its body. -/
def branch (site : Site) (done : Label) : Guarded → Lower (List Instruction)
  | ⟨_, condition, body, _⟩ => do
    let next ← Lower.freshLabel
    let test ← Lower.place (jumpUnless a site condition next)
    let body ← stmts site body
    return test ++ body ++ [.jump done, .label next]

/-- A loop: jumps back to its condition after its body. -/
def loop (site : Site) : Guarded → Lower (List Instruction)
  | ⟨_, condition, body, _⟩ => do
    let top ← Lower.freshLabel
    let done ← Lower.freshLabel
    let test ← Lower.place (jumpUnless a site condition done)
    let body ← stmts site body
    return .label top :: test ++ body ++ [.jump top, .label done]

/-- What an `if` does when no condition holds. -/
def elseBlock (site : Site) : Else → Lower (List Instruction)
  | .absent => return []
  | .block _ body _ => stmts site body

/-- A routine outside types: its class, and a routine object in its slot. -/
def routine (site : Site) : RoutineDef → Lower (List Instruction)
  | ⟨node, _, _, _, _, body, ret, _⟩ => do
    match a.findings.routines.find? node with
    | some r =>
      let body ← stmts (routineSite a r) body
      completeRoutine a r ret body
      Lower.place (bindRoutine a site r)
    | none => Lower.skip

/-- A member routine: its class alone. -/
def memberRoutine : RoutineDef → Lower Unit
  | ⟨node, _, _, _, _, body, ret, _⟩ => do
    match a.findings.routines.find? node with
    | some r =>
      let body ← stmts (routineSite a r) body
      completeRoutine a r ret body
    | none => discard Lower.skip

/-- A type: the classes of its member routines, its own, and its static method. -/
def typeDef (site : Site) : TypeDef → Lower (List Instruction)
  | ⟨node, _, _, _, fields, routines, staticRoutines, _⟩ => do
    match a.findings.types.find? node with
    | some t =>
      memberRoutines routines
      memberRoutines staticRoutines
      completeType a t (declaredRoutines a routines) (declaredRoutines a staticRoutines) fields
      Lower.place (initType a site t)
    | none => Lower.skip

/-- The code of statements in order. -/
def stmts (site : Site) : List Stmt → Lower (List Instruction)
  | [] => return []
  | s :: ss => do
    let first ← stmt site s
    let rest ← stmts site ss
    return first ++ rest

/-- The code of branches in order. -/
def branches (site : Site) (done : Label) : List Guarded → Lower (List Instruction)
  | [] => return []
  | g :: gs => do
    let first ← branch site done g
    let rest ← branches site done gs
    return first ++ rest

/-- The classes of member routines in order. -/
def memberRoutines : List RoutineDef → Lower Unit
  | [] => return ()
  | r :: rs => do
    memberRoutine r
    memberRoutines rs

end

end Lowering

end Unnest
