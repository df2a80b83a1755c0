import Unnest.Tree.Builder

/-!
# Drafts

A draft is a program before it is numbered: the same constructs, without ids and
without spans, where any construct may name the line it stands on.  `build` turns
a draft into a tree through the building operations alone.

## Lines

A construct that names a line moves there twice: before its parts are built, so
that parts which name no line stand on it, and again before the construct itself
is built, because its parts may have moved on.  A construct that names no line
stands wherever its last part, or the construct before it, left the builder.

## Order

Parts are built in the order in which they are listed, and a construct after its
parts; ids are therefore numbered in post-order.  A routine or type that names how
it is closed is built as closed by its own name first and then once more, so it
takes two ids and keeps the second.
-/

namespace Unnest.Draft

/-- A written type. -/
inductive Written where
  | named (line : Option Nat) (name : String)
  | routine (line : Option Nat) (params : List Draft.Written) (result : Option Draft.Written)

mutual

/-- An expression. -/
inductive Expr where
  | literal (line : Option Nat) (value : Literal)
  | binary (line : Option Nat) (op : BinaryOp) (left right : Draft.Expr)
  | unary (line : Option Nat) (op : UnaryOp) (operand : Draft.Expr)
  | paren (line : Option Nat) (inner : Draft.Expr)
  | chain (chain : Draft.Chain)

/-- A chain of links. -/
structure Chain where
  line : Option Nat
  links : List Draft.Link

/-- One link of a chain. -/
inductive Link where
  | bare (line : Option Nat) (name : String)
  | call (line : Option Nat) (name : String) (args : List Draft.Expr)

end

/-- Names declared with one type. -/
structure VarDecl where
  line : Option Nat
  type : Draft.Written
  names : List String

/-- Names declared with one type and one value: a local definition, or a static
member. -/
structure InitDecl where
  line : Option Nat
  type : Draft.Written
  names : List String
  value : Draft.Expr

/-- The name that closes a definition. -/
structure Closing where
  line : Option Nat
  name : String

mutual

/-- A statement. -/
inductive Stmt where
  | declare (decl : Draft.VarDecl)
  | define (decl : Draft.InitDecl)
  | assign (line : Option Nat) (target : Draft.Chain) (value : Draft.Expr)
  | call (chain : Draft.Chain)
  | branch (line : Option Nat) (branches : List Draft.Guarded) (otherwise : Draft.Else)
  | loop (block : Draft.Guarded)
  | routine (routine : Draft.RoutineDef)
  | type (type : Draft.TypeDef)

/-- A body under a condition. -/
structure Guarded where
  line : Option Nat
  condition : Draft.Expr
  body : List Draft.Stmt

/-- What an `if` does when no condition holds.  It stands on the line of its `if`. -/
inductive Else where
  | absent
  | block (body : List Draft.Stmt)

/-- A routine. -/
structure RoutineDef where
  line : Option Nat
  name : String
  params : List (Draft.Written × String)
  result : Option Draft.Written
  body : List Draft.Stmt
  ret : Option Draft.Expr
  closing : Option Draft.Closing

/-- A user type. -/
structure TypeDef where
  line : Option Nat
  name : String
  fields : List Draft.VarDecl
  staticFields : List Draft.InitDecl
  routines : List Draft.RoutineDef
  staticRoutines : List Draft.RoutineDef
  closing : Option Draft.Closing

end

/-- Moves to a line, if one is named. -/
def move : Option Nat → Builder Unit
  | none => pure ()
  | some line => Builder.atLine line

/-- Builds on a line: moves there before the parts and again before the whole. -/
def onLine {α β : Type} (line : Option Nat) (parts : Builder α) (whole : α → Builder β) :
    Builder β := do
  move line
  let parts ← parts
  move line
  whole parts

mutual

/-- Builds a written type. -/
def Written.build : Draft.Written → Builder WrittenType
  | .named line name => onLine line (pure ()) fun _ => Builder.namedType name
  | .routine line params result =>
    onLine line (do return (← Written.buildAll params, ← Written.buildOptional result)) fun (ps, r) =>
      Builder.routineType ps r

/-- Builds written types from left to right. -/
def Written.buildAll : List Draft.Written → Builder (List WrittenType)
  | [] => return []
  | t :: ts => return (← t.build) :: (← Written.buildAll ts)

/-- Builds a written type that may be missing. -/
def Written.buildOptional : Option Draft.Written → Builder (Option WrittenType)
  | none => return none
  | some t => return some (← t.build)

end

mutual

/-- Builds an expression. -/
def Expr.build : Draft.Expr → Builder Unnest.Expr
  | .literal line value => onLine line (pure ()) fun _ => Builder.literal value
  | .binary line op left right =>
    onLine line (do return (← left.build, ← right.build)) fun (l, r) => Builder.binary op l r
  | .unary line op operand => onLine line operand.build (Builder.unary op)
  | .paren line inner => onLine line inner.build Builder.paren
  | .chain c => return .chain (← c.build)

/-- Builds a chain. -/
def Chain.build : Draft.Chain → Builder Unnest.Chain
  | ⟨line, links⟩ => onLine line (Link.buildAll links) Builder.chain

/-- Builds a link. -/
def Link.build : Draft.Link → Builder Unnest.Link
  | .bare line name => onLine line (pure ()) fun _ => Builder.bareLink name
  | .call line name args => onLine line (Expr.buildAll args) (Builder.callLink name)

/-- Builds links from left to right. -/
def Link.buildAll : List Draft.Link → Builder (List Unnest.Link)
  | [] => return []
  | l :: ls => return (← l.build) :: (← Link.buildAll ls)

/-- Builds expressions from left to right. -/
def Expr.buildAll : List Draft.Expr → Builder (List Unnest.Expr)
  | [] => return []
  | e :: es => return (← e.build) :: (← Expr.buildAll es)

end

/-- Builds an expression that may be missing. -/
def Expr.buildOptional : Option Draft.Expr → Builder (Option Unnest.Expr)
  | none => return none
  | some e => return some (← e.build)

/-- Builds a declaration. -/
def VarDecl.build (d : Draft.VarDecl) : Builder Unnest.VarDecl :=
  onLine d.line d.type.build fun type => Builder.varDecl type d.names

/-- Builds a local definition. -/
def InitDecl.build (d : Draft.InitDecl) : Builder Unnest.InitDecl :=
  onLine d.line (do return (← d.type.build, ← d.value.build)) fun (type, value) =>
    Builder.initDecl type d.names value

/-- Builds a static member. -/
def InitDecl.buildStatic (d : Draft.InitDecl) : Builder StaticField :=
  onLine d.line (do return (← d.type.build, ← d.value.build)) fun (type, value) =>
    Builder.staticField type d.names value

/-- Builds the types of parameters from left to right. -/
def buildParams (params : List (Draft.Written × String)) :
    Builder (List (WrittenType × String)) := do
  let types ← Written.buildAll (params.map (·.1))
  return types.zip (params.map (·.2))

/-- Closes a routine by another name, if one is given. -/
def closeRoutine (routine : Unnest.RoutineDef) : Option Draft.Closing → Builder Unnest.RoutineDef
  | none => return routine
  | some closing => do
    move closing.line
    Builder.closeRoutine routine closing.name

/-- Closes a type by another name, if one is given. -/
def closeType (type : Unnest.TypeDef) : Option Draft.Closing → Builder Unnest.TypeDef
  | none => return type
  | some closing => do
    move closing.line
    Builder.closeType type closing.name

mutual

/-- Builds a statement. -/
def Stmt.build : Draft.Stmt → Builder Unnest.Stmt
  | .declare decl => return .declare (← decl.build)
  | .define decl => return .define (← decl.build)
  | .assign line target value =>
    onLine line (do return (← target.build, ← value.build)) fun (target, value) =>
      return .assign (← Builder.assignment target value)
  | .call chain => return .call (← chain.build)
  | .branch line branches otherwise => do
    move line
    let branches ← Guarded.buildAll branches
    let otherwise ← otherwise.build line
    move line
    Builder.branch branches otherwise
  | .loop block => return .loop (← block.build)
  | .routine r => return .routine (← r.build)
  | .type t => return .type (← t.build)

/-- Builds a body under a condition. -/
def Guarded.build : Draft.Guarded → Builder Unnest.Guarded
  | ⟨line, condition, body⟩ =>
    onLine line (do return (← condition.build, ← Stmt.buildAll body)) fun (condition, body) =>
      Builder.guarded condition body

/-- Builds an `else`, on the line of its `if`. -/
def Else.build : Draft.Else → Option Nat → Builder Unnest.Else
  | .absent, _ => return .absent
  | .block body, line => do
    let body ← Stmt.buildAll body
    move line
    Builder.elseBlock body

/-- Builds a routine. -/
def RoutineDef.build : Draft.RoutineDef → Builder Unnest.RoutineDef
  | ⟨line, name, params, result, body, ret, closing⟩ => do
    let routine ← onLine line
      (do return (← buildParams params, ← Written.buildOptional result, ← Stmt.buildAll body,
        ← Expr.buildOptional ret))
      fun (params, result, body, ret) => Builder.routine name params result body ret
    closeRoutine routine closing

/-- Builds a type. -/
def TypeDef.build : Draft.TypeDef → Builder Unnest.TypeDef
  | ⟨line, name, fields, staticFields, routines, staticRoutines, closing⟩ => do
    let type ← onLine line
      (do return (← fields.mapM VarDecl.build, ← staticFields.mapM InitDecl.buildStatic,
        ← RoutineDef.buildAll routines, ← RoutineDef.buildAll staticRoutines))
      fun (fields, staticFields, routines, staticRoutines) =>
        Builder.type name fields staticFields routines staticRoutines
    closeType type closing

/-- Builds statements from left to right. -/
def Stmt.buildAll : List Draft.Stmt → Builder (List Unnest.Stmt)
  | [] => return []
  | s :: ss => return (← s.build) :: (← Stmt.buildAll ss)

/-- Builds branches from left to right. -/
def Guarded.buildAll : List Draft.Guarded → Builder (List Unnest.Guarded)
  | [] => return []
  | g :: gs => return (← g.build) :: (← Guarded.buildAll gs)

/-- Builds member routines from left to right. -/
def RoutineDef.buildAll : List Draft.RoutineDef → Builder (List Unnest.RoutineDef)
  | [] => return []
  | r :: rs => return (← r.build) :: (← RoutineDef.buildAll rs)

end

/-- Builds a program from its first line on, and says how many ids it took. -/
def build (stmts : List Draft.Stmt) : Program × Nat :=
  let (stmts, cursor) := (Stmt.buildAll stmts).run {}
  (Builder.program stmts, cursor.nextNode)

end Unnest.Draft
