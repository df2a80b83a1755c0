import Unnest.Lowering.Stmt
import Unnest.Tree.Basic

/-!
# Whole programs

A program becomes the class that runs it, the classes of its definitions in the
order in which they are completed, and last the class that every routine extends.
The last one declares each call signature that is used: those that are called
through it, and those that some routine implements.
-/

namespace Unnest

open Code

namespace Lowering

variable (a : Analysis)

/-- Makes `print` and `read` and puts them into their slots. -/
def makePredefined : List (String × TypeId) → Fragment
  | [] => {}
  | (name, type) :: rest =>
    (match (a.scopes.get Scopes.rootId).binding? name |>.bind (·.slot) with
      | some slot => .ofList (defaultValue a type ++ [.store slot])
      | none => .gap) ++ makePredefined rest

/-- The class that runs a program with this code. -/
def mainClass (program : String) (code : List Instruction) : ClassFile :=
  let arguments : LocalVar := ⟨0, Reserved.arguments, Reserved.argumentsDescriptor⟩
  ({ path := program, superPath := Reserved.object : ClassFile }
    |>.addMethod (plainConstructor Reserved.object))
    |>.addMethod (.assemble Reserved.main ⟨[Reserved.argumentsDescriptor], none⟩ .staticMember
      (localVars a Scopes.rootId ++ [arguments]) (a.scopes.get Scopes.rootId).numLocals code)

/-- Lowers the body of a program to its class. -/
def mainUnit (program : String) (p : Program) : Lower ClassFile := do
  let site : Site := { kind := .main, path := program }
  let start ← Lower.place (makePredefined a Predefined.routines)
  let body ← stmts a site p.stmts
  return mainClass a program (start ++ body ++ [.returnNothing])

/-! ## The routine base -/

/-- The signature that an instruction calls through the routine base. -/
def calledSignature? (base : String) : Instruction → Option Descriptor
  | .invokeVirtual m => if m.owner = base ∧ m.name = Reserved.call then some m.descriptor else none
  | _ => none

/-- The signatures that a class calls through the routine base, and those that it
implements if it extends it. -/
def signaturesOf (base : String) (c : ClassFile) : List Descriptor :=
  c.methods.flatMap fun m =>
    (if c.superPath = base ∧ m.name = Reserved.call then [m.descriptor] else []) ++
      m.code.filterMap (calledSignature? base)

/-- Puts a signature in its place in an ordered list, unless it is there. -/
def insertSignature (d : Descriptor) : List Descriptor → List Descriptor
  | [] => [d]
  | e :: rest =>
    match compare d e with
    | .lt => d :: e :: rest
    | .eq => e :: rest
    | .gt => e :: insertSignature d rest

/-- The signatures that classes use, each once and in order. -/
def usedSignatures (base : String) (cs : List ClassFile) : List Descriptor :=
  (cs.flatMap (signaturesOf base)).foldl (fun ds d => insertSignature d ds) []

/-- The method of the routine base for a signature: it gives nothing back. -/
def baseMethod (d : Descriptor) : Method :=
  .assemble Reserved.call d .instanceMember [] (1 + d.params.length)
    (if d.result.isSome then [.null, .returnValue] else [.returnNothing])

/-- The class that every routine extends. -/
def baseClass (base : String) (ds : List Descriptor) : ClassFile where
  path := base
  superPath := Reserved.object
  methods := plainConstructor Reserved.object :: ds.map baseMethod

end Lowering

/-- What lowering a program comes to. -/
structure Generated where
  classes : List ClassFile
  /-- How many labels were given out, the ones before this program included. -/
  labels : Nat
  gaps : Nat
  deriving DecidableEq, Repr

/-- Lowers an analysed program, with labels numbered on from `labels`. -/
def generate (a : Analysis) (program : String) (p : Program) (labels : Nat) : Generated :=
  let (main, out) := (Lowering.mainUnit a program p).run { labels }
  let classes := main :: out.classes
  let base := a.types.routineBase
  { classes := classes ++ [Lowering.baseClass base (Lowering.usedSignatures base classes)]
    labels := out.labels
    gaps := out.gaps }

end Unnest
