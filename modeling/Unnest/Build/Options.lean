import Unnest.Host.Path

/-!
# Options of a build

The program's name decides the names of all classes and where they go: the main
class at the top of the output directory, every other class in a directory of its
own beside it.
-/

namespace Unnest

/-- The assembler to run on the written files, which follow the arguments. -/
structure Assembler where
  program : String
  args : List String := []
  deriving DecidableEq, Repr, Inhabited

/-- The command as it would be typed, without quotes. -/
def Assembler.commandLine (a : Assembler) : String := " ".intercalate (a.program :: a.args)

/-- The assembler that is used when no other is asked for. -/
def Assembler.standard : Assembler := ⟨"java", ["-jar", "jasmin.jar"]⟩

/-- How to build a program. -/
structure Options where
  programName : String := "main"
  outputDirectory : String := "."
  /-- Whether to run the assembler on the written files. -/
  assemble : Bool := true
  assembler : Assembler := .standard
  deriving DecidableEq, Repr, Inhabited

namespace Options

/-- The options for a source file: the program has the name of the file. -/
def ofSource (path : String) : Options :=
  match Path.fileStem? path with
  | some programName => { programName }
  | none => {}

/-- The directory of every class but the main one. -/
def binDirectory (o : Options) : String := Path.join o.outputDirectory (o.programName ++ "_bin")

end Options

end Unnest
