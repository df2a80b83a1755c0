import Unnest.Lowering.Basic
import Unnest.Tree.Basic

/-!
# Lowering expressions

The code of an expression pushes its value.  A chain that ends in a routine without
a result pushes nothing.  Expressions need no labels and emit no classes, so their
code is a function of the tree and the findings alone.
-/

namespace Unnest.Lowering

open Code

variable (a : Analysis) (site : Site)

/-- Makes a library value from a constant. -/
def makeConstant (type : TypeId) (constant : Instruction) (descriptor : String) :
    List Instruction :=
  let path := a.types.path type
  [.new path, .dup, constant,
    .invokeSpecial ⟨path, Reserved.constructor, ⟨[descriptor], none⟩⟩]

/-- Pushes the value of a constant. -/
def literal : Literal → List Instruction
  | .int value => makeConstant a .integer (.int value) "I"
  | .real bits => makeConstant a .real (.double bits) "D"
  | .bool value => makeConstant a .bool (.int (if value then 1 else 0)) "I"
  | .string text => makeConstant a .string (.text text) Reserved.textDescriptor

/-- The code of a link, given the code of its arguments. -/
def linkCode (args : Fragment) : LinkFinding → Fragment
  | .load b access => load a site b access
  | .typeName _ => {}
  | .construct type => .ofList (defaultValue a type)
  | .field owner b => .ofList (readMember a owner b false)
  | .call owner routine (.binding b access) =>
    load a site b access ++ callRoutine a owner routine false args
  | .call owner routine (.member isStatic) => callRoutine a owner routine isStatic args
  | .call owner routine (.fieldValue b isStatic) =>
    match b.owner with
    | some fieldOwner =>
      .ofList (readMember a fieldOwner b isStatic) ++ callRoutine a owner routine false args
    | none => .gap

/-- The code of what is written about a link. -/
def linkAt (node : NodeId) (args : Fragment) : Fragment :=
  match a.findings.links.find? node with
  | some finding => linkCode a site args finding
  | none => .gap

mutual

/-- The code that pushes the value of an expression. -/
def expr : Expr → Fragment
  | .literal _ value _ => .ofList (literal a value)
  | .binary node _ left right _ =>
    match a.findings.operators.find? node with
    | some op => expr left ++ callRoutine a op.owner op.routine op.isStatic (expr right)
    | none => .gap
  | .unary node _ operand _ =>
    match a.findings.operators.find? node with
    | some op => callRoutine a op.owner op.routine op.isStatic (expr operand)
    | none => .gap
  | .paren _ inner _ => expr inner
  | .chain c => chain c

/-- The code of a chain: its links from left to right. -/
def chain : Chain → Fragment
  | ⟨_, parts, _⟩ => links parts

/-- The code of a link. -/
def link : Link → Fragment
  | .bare node _ _ => linkAt a site node {}
  | .call node _ args _ => linkAt a site node (exprs args)

/-- The code of links from left to right. -/
def links : List Link → Fragment
  | [] => {}
  | l :: ls => link l ++ links ls

/-- The code of arguments from left to right. -/
def exprs : List Expr → Fragment
  | [] => {}
  | e :: es => expr e ++ exprs es

end

/-- Everything but the last link: the receiver that an assignment writes to. -/
def receiver (c : Chain) : Fragment := links a site c.links.dropLast

/-- Evaluates a condition and jumps when it is false. -/
def jumpUnless (condition : Expr) (target : Label) : Fragment :=
  expr a site condition ++
    .ofList [.getField ⟨a.types.path .bool, Reserved.boolFlag, "I"⟩, .jumpIfZero target]

end Unnest.Lowering
