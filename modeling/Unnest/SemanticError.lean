import Unnest.Span

/-!
# Semantic errors

Analysis never stops at an error: the construct is left undecided, the error is
recorded, and the walk goes on.  An error is a `Fault`, which says what is wrong,
at a span, which says where.  The two are kept apart because they have different
laws: the faults of a program do not depend on its layout, its spans do.

Types and argument lists are carried as the text a message shows (`integer`,
`(integer, real)`), so that a fault can be read without the tables it came from.

## Diagnostics

Errors are collected in the order in which they are reported.  Whether an
evaluation has explained its own failure is asked by comparing counts: a mark is
the number of errors at some moment, and errors were reported since exactly when
there are more of them now.
-/

namespace Unnest

/-- What is wrong with a construct. -/
inductive Fault where
  /-- A name is declared twice in one scope. -/
  | duplicateName (name : String)
  /-- A type of this name is visible already. -/
  | duplicateType (name : String)
  /-- A value is given the name of a visible type. -/
  | nameIsType (name : String)
  /-- A written type names nothing visible. -/
  | typeNotFound (name : String)
  /-- A value of type `source` is written where `target` is expected. -/
  | conversion (source target : String)
  /-- The target of an assignment cannot be assigned. -/
  | invalidTarget
  /-- A condition is a value of another type than `bool`. -/
  | notBool (found : String)
  /-- A name stands for nothing: in scope, or among the members of `owner`. -/
  | undeclared (name : String) (owner : Option String)
  /-- A name stands for no static member of `owner`. -/
  | undeclaredStatic (name owner : String)
  /-- No routine has this name and exactly these argument types. -/
  | routineNotFound (name args : String) (owner : Option String)
  /-- A member routine shares its name with one of the other staticness. -/
  | duplicateRoutine (name args : String)
  /-- A routine promises a value and has no return statement. -/
  | missingReturn (name type : String)
  /-- A routine promises nothing and has a return statement. -/
  | unexpectedReturn (name : String)
  /-- A routine is closed by another name than its own. -/
  | routineNotClosed (expected found : String)
  /-- A type definition is closed by another name than its own. -/
  | typeNotClosed (expected found : String)
  /-- A value is needed, none is produced, and no other error says why. -/
  | noValue
  /-- A type's name stands alone where a value is needed. -/
  | typeAsValue (name : String)
  deriving DecidableEq, Repr

/-- The wording of a fault, without its position. -/
def Fault.message : Fault → String
  | .duplicateName name =>
    s!"the identifier '{name}' has already been declared in the local scope"
  | .duplicateType name => s!"type '{name}' already exists"
  | .nameIsType name => s!"the identifier '{name}' has already been declared as a type"
  | .typeNotFound name => s!"cannot find type '{name}'"
  | .conversion source target => s!"cannot convert type '{source}' to '{target}'"
  | .invalidTarget => "invalid left-hand side assignment"
  | .notBool found => s!"{found} is not a bool"
  | .undeclared name none => s!"identifier '{name}' has not been declared"
  | .undeclared name (some owner) =>
    s!"identifier '{name}' has not been declared for type '{owner}'"
  | .undeclaredStatic name owner =>
    s!"static identifier '{name}' has not been declared for type '{owner}'"
  | .routineNotFound name args none => s!"no routine named '{name}' that accepts {args} exists"
  | .routineNotFound name args (some owner) =>
    s!"no routine named '{name}' that accepts {args} exists for type '{owner}'"
  | .duplicateRoutine name args =>
    s!"routine named '{name}' that accepts {args} already exists"
  | .missingReturn name type =>
    s!"routine '{name}' returns type '{type}'. No return statement found"
  | .unexpectedReturn name => s!"invalid return statement. '{name}' does not return a value"
  | .routineNotClosed expected found =>
    s!"expecting '{expected}' to close routine. Got '{found}'"
  | .typeNotClosed expected found =>
    s!"expecting '{expected}' to close type definition. Got '{found}'"
  | .noValue => "expression doesn't return object"
  | .typeAsValue name => s!"cannot call type '{name}' without any modifiers"

/-- A fault and the place it was found at. -/
structure SemanticError where
  fault : Fault
  span : Span
  deriving DecidableEq, Repr

/-- The message as printed: the position, then the wording. -/
def SemanticError.message (e : SemanticError) : String :=
  s!"at {e.span.describe}: {e.fault.message}"

/-- The errors of one analysis, in the order in which they were reported. -/
structure Diagnostics where
  errors : List SemanticError := []
  deriving Repr, Inhabited

namespace Diagnostics

/-- Adds one error at the end. -/
def report (d : Diagnostics) (e : SemanticError) : Diagnostics := ⟨d.errors ++ [e]⟩

/-- How many errors there are. -/
def count (d : Diagnostics) : Nat := d.errors.length

/-- Whether anything was reported at all. -/
def isEmpty (d : Diagnostics) : Bool := d.errors.isEmpty

/-- Whether there are more errors than at the moment `mark` was taken as the count. -/
def hasErrorsSince (d : Diagnostics) (mark : Nat) : Bool := decide (mark < d.count)

@[simp] theorem errors_report (d : Diagnostics) (e : SemanticError) :
    (d.report e).errors = d.errors ++ [e] := rfl

@[simp] theorem count_report (d : Diagnostics) (e : SemanticError) :
    (d.report e).count = d.count + 1 := by
  simp [report, count]

/-- Nothing has been reported since now. -/
@[simp] theorem hasErrorsSince_count (d : Diagnostics) : d.hasErrorsSince d.count = false := by
  simp [hasErrorsSince]

end Diagnostics

end Unnest
