import Unnest.Tree.Basic

/-!
# Building trees

Trees are built from the leaves up.  Every building operation takes the parts of
a node that exist already, gives the node the next unused id and stamps it with
the current line.  Ids are therefore distinct, and the id of a node is larger
than the ids of all nodes below it.

The current line is a piece of state that the operations read and only `atLine`
writes.  Names take it at the moment the node that holds them is built.
-/

namespace Unnest

/-- What building a tree has to remember. -/
structure Cursor where
  nextNode : Nat := 0
  line : Nat := 1
  deriving DecidableEq, Repr, Inhabited

/-- A building operation. -/
abbrev Builder := StateM Cursor

namespace Builder

/-- The next unused id. -/
def fresh : Builder NodeId :=
  modifyGet fun c => (⟨c.nextNode⟩, { c with nextNode := c.nextNode + 1 })

/-- The start of the current line. -/
def here : Builder Span := return Span.ofLine (← get).line

/-- Moves to a line. -/
def atLine (line : Nat) : Builder Unit := modify fun c => { c with line }

/-- A name on the current line. -/
def ident (name : String) : Builder Ident := return ⟨name, ← here⟩

/-- Names on the current line. -/
def idents (names : List String) : Builder (List Ident) :=
  return names.map (⟨·, ← here⟩)

/-! ## Expressions -/

def literal (value : Literal) : Builder Expr := return .literal (← fresh) value (← here)

def binary (op : BinaryOp) (left right : Expr) : Builder Expr :=
  return .binary (← fresh) op left right (← here)

def unary (op : UnaryOp) (operand : Expr) : Builder Expr :=
  return .unary (← fresh) op operand (← here)

def paren (inner : Expr) : Builder Expr := return .paren (← fresh) inner (← here)

def bareLink (name : String) : Builder Link :=
  return .bare (← fresh) (← ident name) (← here)

def callLink (name : String) (args : List Expr) : Builder Link :=
  return .call (← fresh) (← ident name) args (← here)

def chain (links : List Link) : Builder Chain := return ⟨← fresh, links, ← here⟩

/-! ## Types -/

def namedType (name : String) : Builder WrittenType := return .named (← ident name)

def routineType (params : List WrittenType) (result : Option WrittenType) :
    Builder WrittenType :=
  return .routine params result (← here)

/-! ## Statements -/

def varDecl (type : WrittenType) (names : List String) : Builder VarDecl :=
  return ⟨← fresh, type, ← idents names, ← here⟩

def initDecl (type : WrittenType) (names : List String) (value : Expr) : Builder InitDecl :=
  return ⟨← fresh, type, ← idents names, value, ← here⟩

def assignment (target : Chain) (value : Expr) : Builder Assignment :=
  return ⟨← fresh, target, value, ← here⟩

def guarded (condition : Expr) (body : List Stmt) : Builder Guarded :=
  return ⟨← fresh, condition, body, ← here⟩

def elseBlock (body : List Stmt) : Builder Else := return .block (← fresh) body (← here)

def branch (branches : List Guarded) (otherwise : Else) : Builder Stmt :=
  return .branch branches otherwise (← here)

/-! ## Definitions -/

/-- A routine closed by its own name. -/
def routine (name : String) (params : List (WrittenType × String))
    (result : Option WrittenType) (body : List Stmt) (ret : Option Expr) :
    Builder RoutineDef := do
  let span ← here
  return {
    node := ← fresh
    name := ⟨name, span⟩
    closing := ⟨name, span⟩
    params := params.map fun p => ⟨p.1, p.2, span⟩
    result
    body
    ret := ret.map (⟨·, span⟩)
    span }

/-- The same routine under a new id, closed by `name`. -/
def closeRoutine (routine : RoutineDef) (name : String) : Builder RoutineDef :=
  return { routine with node := ← fresh, closing := ← ident name }

/-- A static member with its initial value. -/
def staticField (type : WrittenType) (names : List String) (init : Expr) :
    Builder StaticField :=
  return ⟨← varDecl type names, init⟩

/-- A type closed by its own name. -/
def type (name : String) (fields : List VarDecl) (staticFields : List StaticField)
    (routines staticRoutines : List RoutineDef) : Builder TypeDef := do
  let span ← here
  return {
    node := ← fresh
    name := ⟨name, span⟩
    closing := ⟨name, span⟩
    fields
    staticFields
    routines
    staticRoutines
    span }

/-- The same type under a new id, closed by `name`. -/
def closeType (type : TypeDef) (name : String) : Builder TypeDef :=
  return { type with node := ← fresh, closing := ← ident name }

/-- A program starts on the first line, wherever its statements are. -/
def program (stmts : List Stmt) : Program := ⟨stmts, Span.ofLine 1⟩

end Builder

end Unnest
