import Unnest.Analysis.Chain

/-!
# Analysing expressions

An expression yields a type, or nothing.  It yields nothing when a check failed,
and when it ends in a call without a result; only where a value is needed are the
two told apart, by whether anything was reported.

Both operands of an operator and all arguments of a call are analysed, whatever
happens to the first of them, so that independent errors are reported together.
-/

namespace Unnest

/-- The type of a constant. -/
def Literal.type : Literal → TypeId
  | .int _ => .integer
  | .real _ => .real
  | .bool _ => .bool
  | .string _ => .string

namespace Analyze

mutual

/-- The type of an expression, if it yields a value. -/
def expr : Expr → Analyze (Option TypeId)
  | .literal node value _ => typed node (return some value.type)
  | .binary node op left right span => typed node do
    let left ← required left.span (expr left)
    let right ← required right.span (expr right)
    match left, right with
    | some left, some right => operator node op.routine left false [right] span
    | _, _ => return none
  | .unary node op operand span => typed node do
    match ← required operand.span (expr operand) with
    | some operand => operator node op.routine operand true [operand] span
    | none => return none
  | .paren node inner _ => typed node (expr inner)
  | .chain c => typed c.node (chain c)

/-- The type of a chain, if it yields a value. -/
def chain : Chain → Analyze (Option TypeId)
  | ⟨_, [], _⟩ => return none
  | ⟨node, head :: rest, span⟩ => do
    let some first ← headLink (!rest.isEmpty) head | return none
    let some last ← memberLinks first rest | return none
    finishChain node span last

/-- What the first link of a chain produces. -/
def headLink (hasMore : Bool) : Link → Analyze (Option Produced)
  | .bare node name span => bareHead node name.name span hasMore
  | .call node name args span => callHead node name.name span (arguments args)

/-- What a later link produces. -/
def memberLink (before : Produced) : Link → Analyze (Option Produced)
  | .bare node name span =>
    onReceiver before span fun owner isStatic => bareMember owner isStatic node name.name span
  | .call node name args span =>
    onReceiver before span fun owner isStatic =>
      callMember owner isStatic node name.name span (arguments args)

/-- What the last of later links produces; a link that fails ends the chain. -/
def memberLinks (before : Produced) : List Link → Analyze (Option Produced)
  | [] => return some before
  | l :: ls => do
    let some produced ← memberLink before l | return none
    memberLinks produced ls

/-- The types of arguments, if all of them have a value. -/
def arguments : List Expr → ArgumentTypes
  | [] => return some []
  | e :: es => do
    let first ← required e.span (expr e)
    let rest ← arguments es
    return first.bind fun type => rest.map (type :: ·)

end

/-- The type of an expression where a value is needed. -/
def operand (e : Expr) : Analyze (Option TypeId) := required e.span (expr e)

end Analyze

end Unnest
