import Unnest.Reserved

/-!
# Operators

An operator has no meaning of its own: it names a routine that the type of its
operand has to provide.  A binary operator is an instance routine of its left
operand's type, a unary one a static routine of its operand's type.
-/

namespace Unnest

/-- The operators between two operands. -/
inductive BinaryOp where
  | add | sub | mul | div | mod
  | equal | notEqual | less | greater | lessEqual | greaterEqual
  | and | or
  deriving DecidableEq, Repr

/-- The operators in front of one operand. -/
inductive UnaryOp where
  | not | neg
  deriving DecidableEq, Repr

/-- The instance routine that a binary operator calls on its left operand. -/
def BinaryOp.routine : BinaryOp → String
  | .add => Reserved.plus
  | .sub => Reserved.minus
  | .mul => Reserved.star
  | .div => Reserved.slash
  | .mod => Reserved.modulo
  | .equal => Reserved.equals
  | .notEqual => Reserved.notEquals
  | .less => Reserved.lessThan
  | .greater => Reserved.greaterThan
  | .lessEqual => Reserved.lessEquals
  | .greaterEqual => Reserved.greaterEquals
  | .and => Reserved.conjunction
  | .or => Reserved.disjunction

/-- The operator as it is written. -/
def BinaryOp.symbol : BinaryOp → String
  | .add => "+"
  | .sub => "-"
  | .mul => "*"
  | .div => "/"
  | .mod => "mod"
  | .equal => "="
  | .notEqual => "<>"
  | .less => "<"
  | .greater => ">"
  | .lessEqual => "<="
  | .greaterEqual => ">="
  | .and => "and"
  | .or => "or"

/-- The static routine that a unary operator calls with its operand. -/
def UnaryOp.routine : UnaryOp → String
  | .not => Reserved.negation
  | .neg => Reserved.unaryMinus

/-- The operator as it is written. -/
def UnaryOp.symbol : UnaryOp → String
  | .not => "not"
  | .neg => "-"

/-- Every binary operator, for reading one from its symbol. -/
def BinaryOp.all : List BinaryOp :=
  [.add, .sub, .mul, .div, .mod, .equal, .notEqual, .less, .greater, .lessEqual,
    .greaterEqual, .and, .or]

/-- The binary operator written as `symbol`. -/
def BinaryOp.ofSymbol? (symbol : String) : Option BinaryOp :=
  BinaryOp.all.find? (·.symbol == symbol)

/-- The unary operator written as `symbol`. -/
def UnaryOp.ofSymbol? (symbol : String) : Option UnaryOp :=
  [UnaryOp.not, UnaryOp.neg].find? (·.symbol == symbol)

end Unnest
