/-!
# Reserved names

Operators are ordinary routines under fixed names, and the classes of the runtime
library sit under fixed paths.  Every such text is written here once: analysis
looks routines up under these names, lowering addresses classes and members by
them, and the two agree because they read the same definition.
-/

namespace Unnest.Reserved

/-! ## Operator routines -/

/-- Copies a value into an existing one. -/
def assignment : String := "operator_assignment"

/-- Calls a routine value, or converts to a type when static. -/
def call : String := "operator_parenthesis"

def plus : String := "operator_plus"
def minus : String := "operator_minus"
def star : String := "operator_star"
def slash : String := "operator_slash"
def modulo : String := "operator_mod"
def equals : String := "operator_equals"
def notEquals : String := "operator_not_equals"
def lessThan : String := "operator_less_than"
def greaterThan : String := "operator_greater_than"
def lessEquals : String := "operator_less_equals"
def greaterEquals : String := "operator_greater_equals"
def conjunction : String := "operator_and"
def disjunction : String := "operator_or"
def negation : String := "operator_not"
def unaryMinus : String := "unary_minus"

/-- The one library routine that is not an operator. -/
def substring : String := "substring"

/-! ## Predefined types and values, as written in a program -/

def integer : String := "integer"
def real : String := "real"
def string : String := "string"
def bool : String := "bool"
def print : String := "print"
def read : String := "read"

/-! ## Classes and members of the emitted code -/

/-- The directory of the runtime library's classes. -/
def libraryDirectory : String := "library/"

/-- The class that every routine extends, and the name of routine types. -/
def routine : String := "routine"

/-- The field through which an instance routine reaches its instance. -/
def enclosingInstance : String := "this$type"

/-- The static method that stores a type's captures and static members. -/
def staticInit : String := "$static_init"

/-- The flag inside a runtime `bool`, `0` or `1`. -/
def boolFlag : String := "value"

/-- The class at the root of every class's ancestry. -/
def object : String := "java/lang/Object"

/-- The runtime's own text class, which string constants are built from. -/
def textDescriptor : String := "Ljava/lang/String;"

/-- The array of texts that a program is started with. -/
def argumentsDescriptor : String := "[Ljava/lang/String;"

def constructor : String := "<init>"
def main : String := "main"
def arguments : String := "args"
def this : String := "this"

end Unnest.Reserved
