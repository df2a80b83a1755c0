import Unnest.Host.ExitStatus
import Unnest.SemanticError

/-!
# Errors that end a compilation

Semantic errors are collected and end a compilation together.  The others end it at
once: the reader of the source found errors of its own, a file could not be written,
or the assembler failed or could not be started.
-/

namespace Unnest

/-- Why a compilation ended without its result. -/
inductive CompileError where
  /-- The source was not read without errors, and was not analysed. -/
  | syntaxErrors (count : Nat)
  | semantic (errors : List SemanticError)
  /-- A directory or file could not be made. -/
  | write (path : String)
  /-- The assembler was started and did not end well. -/
  | assembler (command : String) (status : ExitStatus)
  /-- The assembler could not be started. -/
  | noAssembler (command : String)
  deriving Repr

namespace CompileError

/-- The wording for errors in the program, of which there are `count`. -/
def countMessage (count : Nat) (what : String) : String :=
  s!"there were {count} {what} errors; object files not created or modified"

/-- The wording of an error.  What the host says about a failed write or start is
its own and not part of it. -/
def message : CompileError → String
  | .syntaxErrors count => countMessage count "syntax"
  | .semantic errors => countMessage errors.length "semantic"
  | .write path => s!"cannot write '{path}'"
  | .assembler command status => s!"assembler '{command}' failed: {status.text}"
  | .noAssembler command => s!"cannot run assembler '{command}'"

end CompileError

end Unnest
