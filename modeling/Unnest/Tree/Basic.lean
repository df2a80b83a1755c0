import Unnest.Id
import Unnest.Span
import Unnest.Tree.Operator

/-!
# Syntax trees

A program is a list of statements.  Every node that analysis can decide something
about carries its own `NodeId`; what is decided is kept in tables under that id,
never on the tree, so the tree that is lowered is the tree that was analysed.

## Chains

A name, a member access and a call are one construct: `a`, `a.b`, `a(x)` and
`a.b(x).c` are chains of links that are resolved from left to right.  A bare link
and a call without arguments are different links, which is why `Link` has two
constructors instead of a list of arguments that may be missing.

## Shape

The recursion of the types runs through lists only.  Every function below is
structural, with one case per constructor and one function per list, and the same
shape serves proofs by induction.  An `if` without an `else` has a constructor of
its own for the same reason.
-/

namespace Unnest

/-- A name and where it is written. -/
structure Ident where
  name : String
  span : Span
  deriving DecidableEq, Repr, Inhabited

/-- A type as a program writes it. -/
inductive WrittenType where
  /-- A predefined or user type, by name. -/
  | named (name : Ident)
  /-- The type of routine values with these parameters and this result. -/
  | routine (params : List WrittenType) (result : Option WrittenType) (span : Span)

/-- A constant.  A real is kept as the bits of its double, so that every value,
the zeros and the values that are no number included, is told apart. -/
inductive Literal where
  | int (value : Int)
  | real (bits : UInt64)
  | bool (value : Bool)
  | string (text : String)
  deriving DecidableEq, Repr

mutual

/-- An expression. -/
inductive Expr where
  | literal (node : NodeId) (value : Literal) (span : Span)
  | binary (node : NodeId) (op : BinaryOp) (left right : Expr) (span : Span)
  | unary (node : NodeId) (op : UnaryOp) (operand : Expr) (span : Span)
  | paren (node : NodeId) (inner : Expr) (span : Span)
  | chain (chain : Chain)

/-- Links resolved from left to right.  A well-formed chain has at least one; an
empty one is treated as an expression that yields nothing. -/
structure Chain where
  node : NodeId
  links : List Link
  span : Span

/-- One link of a chain. -/
inductive Link where
  /-- A name on its own. -/
  | bare (node : NodeId) (name : Ident) (span : Span)
  /-- A name with arguments, possibly none of them. -/
  | call (node : NodeId) (name : Ident) (args : List Expr) (span : Span)

end

/-- Names declared with one type; each gets a default value. -/
structure VarDecl where
  node : NodeId
  type : WrittenType
  names : List Ident
  span : Span

/-- Names declared with one type and one initial value. -/
structure InitDecl where
  node : NodeId
  type : WrittenType
  names : List Ident
  value : Expr
  span : Span

/-- A value written into an existing binding. -/
structure Assignment where
  node : NodeId
  target : Chain
  value : Expr
  span : Span

/-- A routine's parameter. -/
structure Param where
  type : WrittenType
  name : Ident

/-- The value a routine returns at its end. -/
structure ReturnClause where
  value : Expr
  span : Span

/-- A static member with its initial value. -/
structure StaticField where
  decl : VarDecl
  init : Expr

mutual

/-- A statement. -/
inductive Stmt where
  | declare (decl : VarDecl)
  | define (decl : InitDecl)
  | assign (assignment : Assignment)
  | call (chain : Chain)
  | branch (branches : List Guarded) (otherwise : Else) (span : Span)
  | loop (block : Guarded)
  | routine (routine : RoutineDef)
  | type (type : TypeDef)

/-- A body that runs under a condition: a branch of an `if`, or a loop. -/
structure Guarded where
  node : NodeId
  condition : Expr
  body : List Stmt
  span : Span

/-- What an `if` does when no condition holds. -/
inductive Else where
  | absent
  | block (node : NodeId) (body : List Stmt) (span : Span)

/-- A routine.  It is closed by the name written after its end, which has to be
its own. -/
structure RoutineDef where
  node : NodeId
  name : Ident
  closing : Ident
  params : List Param
  result : Option WrittenType
  body : List Stmt
  ret : Option ReturnClause
  span : Span

/-- A user type, with its members grouped by kind. -/
structure TypeDef where
  node : NodeId
  name : Ident
  closing : Ident
  fields : List VarDecl
  staticFields : List StaticField
  routines : List RoutineDef
  staticRoutines : List RoutineDef
  span : Span

end

/-- A program: the body of its main unit. -/
structure Program where
  stmts : List Stmt
  span : Span

instance : Inhabited WrittenType := ⟨.named default⟩
instance : Inhabited Expr := ⟨.literal default (.int 0) default⟩
instance : Inhabited Chain := ⟨⟨default, [], default⟩⟩
instance : Inhabited Stmt := ⟨.call default⟩

/-- The node an expression is decided under. -/
def Expr.node : Expr → NodeId
  | .literal node _ _ | .binary node _ _ _ _ | .unary node _ _ _ | .paren node _ _ => node
  | .chain c => c.node

/-- Where an expression starts. -/
def Expr.span : Expr → Span
  | .literal _ _ span | .binary _ _ _ _ span | .unary _ _ _ span | .paren _ _ span => span
  | .chain c => c.span

/-- The node a link is decided under. -/
def Link.node : Link → NodeId
  | .bare node _ _ | .call node _ _ _ => node

/-- The name a link looks up. -/
def Link.name : Link → Ident
  | .bare _ name _ | .call _ name _ _ => name

/-- Where a link starts. -/
def Link.span : Link → Span
  | .bare _ _ span | .call _ _ _ span => span

/-- The link an assignment writes through. -/
def Chain.last? (c : Chain) : Option Link := c.links.getLast?

end Unnest
