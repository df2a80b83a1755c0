import Unnest.Code.Descriptor
import Unnest.Text.Decimal
import Unnest.Text.Quoted

/-!
# Instructions

The instructions that lowering uses, each with its line of text and its effect on
the depth of the operand stack.  A label is kept among the instructions, where it
stands; it does nothing.
-/

namespace Unnest.Code

/-- One line of a method. -/
inductive Instruction where
  /-- Makes an object of a class, which is to be constructed. -/
  | new (path : String)
  | dup
  | pop
  | null
  /-- Pushes a whole number. -/
  | int (value : Int)
  /-- Pushes a text. -/
  | text (value : String)
  /-- Pushes the double with these bits; it takes two cells. -/
  | double (bits : UInt64)
  | load (slot : Nat)
  | store (slot : Nat)
  | getField (field : FieldRef)
  | putField (field : FieldRef)
  | getStatic (field : FieldRef)
  | putStatic (field : FieldRef)
  | invokeVirtual (method : MethodRef)
  | invokeSpecial (method : MethodRef)
  | invokeStatic (method : MethodRef)
  /-- Takes a whole number and jumps when it is zero. -/
  | jumpIfZero (target : Label)
  | jump (target : Label)
  /-- Where jumps to the label arrive. -/
  | label (label : Label)
  | returnValue
  | returnNothing
  deriving DecidableEq, Repr

namespace Instruction

/-- The shortest instruction that pushes a whole number. -/
def intText (value : Int) : String :=
  if value = -1 then "iconst_m1"
  else if 0 ≤ value ∧ value ≤ 5 then s!"iconst_{value}"
  else if -128 ≤ value ∧ value ≤ 127 then s!"bipush {value}"
  else if -32768 ≤ value ∧ value ≤ 32767 then s!"sipush {value}"
  else s!"ldc {value}"

/-- The instruction as it is written. -/
def line : Instruction → String
  | .new path => "new " ++ path
  | .dup => "dup"
  | .pop => "pop"
  | .null => "aconst_null"
  | .int value => intText value
  | .text value => "ldc " ++ Quoted.quote value
  | .double bits => "ldc2_w " ++ Decimal.ofBits bits
  | .load slot => s!"aload {slot}"
  | .store slot => s!"astore {slot}"
  | .getField field => "getfield " ++ field.text
  | .putField field => "putfield " ++ field.text
  | .getStatic field => "getstatic " ++ field.text
  | .putStatic field => "putstatic " ++ field.text
  | .invokeVirtual method => "invokevirtual " ++ method.text
  | .invokeSpecial method => "invokespecial " ++ method.text
  | .invokeStatic method => "invokestatic " ++ method.text
  | .jumpIfZero target => "ifeq " ++ target.text
  | .jump target => "goto " ++ target.text
  | .label l => l.text ++ ":"
  | .returnValue => "areturn"
  | .returnNothing => "return"

/-- By how many cells the stack is deeper afterwards. -/
def effect : Instruction → Int
  | .new _ | .dup | .null | .int _ | .text _ | .load _ => 1
  | .double _ => 2
  | .pop | .store _ | .jumpIfZero _ | .returnValue => -1
  | .getField field => Descriptor.cells field.descriptor - 1
  | .putField field => -1 - Descriptor.cells field.descriptor
  | .getStatic field => Descriptor.cells field.descriptor
  | .putStatic field => -Descriptor.cells field.descriptor
  | .invokeVirtual method | .invokeSpecial method =>
    method.descriptor.resultCells - method.descriptor.paramCells - 1
  | .invokeStatic method => method.descriptor.resultCells - method.descriptor.paramCells
  | .jump _ | .label _ | .returnNothing => 0

/-- Labels stand at the margin, everything else is indented. -/
def indented (i : Instruction) : String :=
  match i with
  | .label _ => i.line
  | _ => "    " ++ i.line

end Instruction

/-- The depth after an instruction.  Depths are never negative. -/
def depthAfter (depth : Int) (i : Instruction) : Int := max 0 (depth + i.effect)

/-- The largest depth after any instruction, read in order from a depth on. -/
def peakFrom : Int → List Instruction → Int
  | _, [] => 0
  | depth, i :: rest => max (depthAfter depth i) (peakFrom (depthAfter depth i) rest)

/-- The stack that a method needs.  Statements leave the stack as they find it, so
the depth at a label is the same on every way to it, and reading the code once in
order is exact. -/
def maxStack (code : List Instruction) : Nat := (peakFrom 0 code).toNat

end Unnest.Code
