import Unnest.Analysis.Declare

/-!
# Analysing statements

Statements are analysed in order, each in the state that the ones before it left.
A condition belongs to the block that it guards, so the block is opened first.

## Definitions

The members of a type are all declared before the first of their bodies is
analysed: fields, then static fields with their initial values, then the signatures
of the routines.  The bodies follow in the same order.  What a definition captured
is known only after its bodies, and is looked up from the scope around it.
-/

namespace Unnest

namespace Analyze

/-! ## Assignments -/

/-- Whether a link loads the routine whose body it is in. -/
def loadsItself (f : Findings) (c : Chain) : Bool :=
  match c.last?.bind fun l => f.links.find? l.node with
  | some (.load _ .itself) => true
  | _ => false

/-- Decides an assignment whose parts have types: to copy, to store, or to refuse.
A routine's own name inside its body is no binding that could be stored to. -/
def writeTarget (x : Assignment) (finding : ChainFinding) (target value : TypeId) :
    Analyze Unit := do
  let a ← get
  let t := a.types
  let hasBinding := finding.binding.isSome && !loadsItself a.findings x.target
  if t.assignable hasBinding target value then
    record fun f => { f with
      assigns := f.assigns.write x.node { target, mode := writeMode t target value } }
  else if t.equal target value then report .invalidTarget x.target.span
  else report (.conversion (t.name value) (t.name target)) x.span

/-- An assignment.  Its target is analysed as a chain and may yield nothing; then
it cannot be assigned. -/
def assign (x : Assignment) : Analyze Unit := do
  let target ← chain x.target
  let some value ← operand x.value | return ()
  let some finding := (← get).findings.chains.find? x.target.node | return ()
  match target with
  | none => report .invalidTarget x.target.span
  | some target => writeTarget x finding target value

/-! ## Blocks -/

/-- Opens the scope of a block under a new token. -/
def openBlock (node : NodeId) : Analyze ScopeId := do
  let name ← modifyGet fun a =>
    let (name, scopes) := a.scopes.nextBlockName a.current
    (name, { a with scopes })
  let unit ← planUnit name .block none
  let scope ← openScope .block name unit
  record fun f => { f with blocks := f.blocks.write node scope }
  return scope

/-- A condition has to be a `bool`. -/
def checkCondition (condition : Expr) : Analyze Unit := do
  let some type ← operand condition | return ()
  let t ← types
  unless t.equal type .bool do report (.notBool (t.name type)) condition.span

/-! ## Definitions -/

/-- A return clause has to be there exactly when a result is promised, and to have
the promised type. -/
def checkReturn (r : RoutineDef) (result : Option TypeId) : Analyze Unit := do
  match r.ret, result with
  | none, none => return ()
  | none, some type => report (.missingReturn r.name.name (← typeName type)) r.closing.span
  | some ret, none =>
    discard <| expr ret.value
    report (.unexpectedReturn r.name.name) ret.span
  | some ret, some type =>
    let some value ← operand ret.value | return ()
    let t ← types
    unless t.equal type value do report (.conversion (t.name value) (t.name type)) ret.span

/-- Completes a routine after its body: its captures, and its closing name. -/
def finishRoutine (r : RoutineDef) (scope : ScopeId) : Analyze Unit := do
  let captures ← captureSources scope
  record fun f => { f with routines := f.routines.change r.node ({ · with captures }) }
  checkClosing .routineNotClosed r.name r.closing

/-- Completes a type after the bodies of its routines. -/
def finishType (d : TypeDef) (finding : TypeFinding) : Analyze Unit := do
  let captures ← captureSources finding.scope
  record fun f => { f with types := f.types.write d.node { finding with captures } }
  checkClosing .typeNotClosed d.name d.closing

mutual

/-- A statement. -/
def stmt : Stmt → Analyze Unit
  | .declare d => discard <| varDecl .var none d
  | .define d => initDecl d
  | .assign x => assign x
  | .call c => discard <| chain c
  | .branch branches otherwise _ => do
    guardedAll branches
    elseBlock otherwise
  | .loop block => guarded block
  | .routine r => do
    let some declared ← declareRoutine none r | return ()
    routineBody declared r
  | .type d => typeDef d

/-- A body under a condition; the condition belongs to the block. -/
def guarded : Guarded → Analyze Unit
  | ⟨node, condition, body, _⟩ => do
    let scope ← openBlock node
    inScope scope do
      checkCondition condition
      stmts body

/-- What an `if` does when no condition holds. -/
def elseBlock : Else → Analyze Unit
  | .absent => return ()
  | .block node body _ => do
    let scope ← openBlock node
    inScope scope (stmts body)

/-- The body of a routine that was declared. -/
def routineBody (declared : DeclaredRoutine) : RoutineDef → Analyze Unit
  | ⟨node, name, closing, params, result, body, ret, span⟩ => do
    let r : RoutineDef := ⟨node, name, closing, params, result, body, ret, span⟩
    inScope declared.scope do
      stmts body
      checkReturn r declared.result
    finishRoutine r declared.scope

/-- A type definition, members before bodies. -/
def typeDef : TypeDef → Analyze Unit
  | ⟨node, name, closing, fields, statics, routines, staticRoutines, span⟩ => do
    let d : TypeDef := ⟨node, name, closing, fields, statics, routines, staticRoutines, span⟩
    let some finding ← openType name | return ()
    inScope finding.scope do
      instanceFields finding.type fields
      staticFields finding.type finding.fieldInit statics
      let declared ← declareMembers ⟨finding.type, false⟩ routines
      let declaredStatic ← declareMembers ⟨finding.type, true⟩ staticRoutines
      routineBodies declared routines
      routineBodies declaredStatic staticRoutines
    finishType d finding

/-- Statements, in order. -/
def stmts : List Stmt → Analyze Unit
  | [] => return ()
  | s :: ss => do
    stmt s
    stmts ss

/-- The branches of an `if`, in order. -/
def guardedAll : List Guarded → Analyze Unit
  | [] => return ()
  | g :: gs => do
    guarded g
    guardedAll gs

/-- The bodies of those member routines that were declared. -/
def routineBodies : List (Option DeclaredRoutine) → List RoutineDef → Analyze Unit
  | some declared :: ds, r :: rs => do
    routineBody declared r
    routineBodies ds rs
  | none :: ds, _ :: rs => routineBodies ds rs
  | _, _ => return ()

end

end Analyze

/-- Analyses a program to its end. -/
def analyze (program : String) (p : Program) : Analysis :=
  ((Analyze.stmts p.stmts).run (.initial program)).2

end Unnest
