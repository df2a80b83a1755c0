import Unnest.Build.Options
import Unnest.CompileError
import Unnest.Host.Basic
import Unnest.Session

/-!
# Building a program

A build compiles a program, writes one file for each class and, if asked to, runs
the assembler on the files.  Nothing is written unless the program was accepted.  A
write that fails ends the build, and what was written before it stays.
-/

namespace Unnest

open Code

/-- Compiles a program on its own: its classes, or all of its errors. -/
def compile (program : String) (p : Program) : Except CompileError (List ClassFile) :=
  let (result, _) := ({ program } : Session).compile p
  if result.isSuccess then .ok result.classes else .error (.semantic result.errors)

namespace Build

/-- The files of a build, relative to the output directory, and its classes. -/
structure Built where
  classes : List ClassFile
  files : List String
  deriving Repr, Inhabited

/-- The file of a class, relative to the output directory. -/
def fileOf (c : ClassFile) : String := fileOfPath c.path

/-- Writes one class into the output directory. -/
def writeClass (outputDirectory : String) (d : Disk) (c : ClassFile) :
    Disk × Except CompileError Unit :=
  let path := Path.join outputDirectory (fileOf c)
  let parent := Path.parent path
  match d.makeDirectories parent with
  | none => (d, .error (.write parent))
  | some d =>
    match d.writeFile path c.text with
    | none => (d, .error (.write path))
    | some d => (d, .ok ())

/-- Writes classes in order, up to the first that cannot be written. -/
def writeClasses (outputDirectory : String) (d : Disk) :
    List ClassFile → Disk × Except CompileError Unit
  | [] => (d, .ok ())
  | c :: cs =>
    match writeClass outputDirectory d c with
    | (d, .ok ()) => writeClasses outputDirectory d cs
    | (d, .error e) => (d, .error e)

/-- Runs the assembler on files, in the directory that they are relative to.  The
empty path can be written under and is still no directory to start a program in. -/
def assemble (host : Host) (a : Assembler) (directory : String) (files : List String) (d : Disk) :
    Disk × Except CompileError Unit :=
  let ended := if directory = "" then none
    else host { program := a.program, args := a.args ++ files, directory } d
  match ended with
  | none => (d, .error (.noAssembler a.commandLine))
  | some e =>
    (e.disk, if e.status = .success then .ok () else .error (.assembler a.commandLine e.status))

/-- Builds a program whose source was read with `syntaxErrors` errors. -/
def run (host : Host) (o : Options) (syntaxErrors : Nat) (p : Program) (d : Disk) :
    Disk × Except CompileError Built :=
  if syntaxErrors > 0 then (d, .error (.syntaxErrors syntaxErrors))
  else
    match compile o.programName p with
    | .error e => (d, .error e)
    | .ok classes =>
      let built : Built := { classes, files := classes.map fileOf }
      match writeClasses o.outputDirectory d classes with
      | (d, .error e) => (d, .error e)
      | (d, .ok ()) =>
        if o.assemble then
          let (d, result) := assemble host o.assembler o.outputDirectory built.files d
          (d, result.map fun _ => built)
        else (d, .ok built)

end Build

end Unnest
