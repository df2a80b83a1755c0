import Unnest.Code.Instruction

/-!
# Classes

The output of a compilation is one class for each unit, as lines of text.  A class
has fields, each name once, and methods, which state their limits: how deep the
operand stack gets, and how many local slots there are.
-/

namespace Unnest.Code

/-- The modifiers of a field or method. -/
structure Modifiers where
  isPublic : Bool := false
  isPrivate : Bool := false
  isStatic : Bool := false
  isFinal : Bool := false
  deriving DecidableEq, Repr, Inhabited

namespace Modifiers

/-- What every emitted instance member has. -/
def instanceMember : Modifiers := { isPublic := true }

/-- What every emitted static member has. -/
def staticMember : Modifiers := { isPublic := true, isStatic := true }

/-- The modifiers in a word that has one bit for each; other bits mean nothing. -/
def ofBits (bits : Nat) : Modifiers where
  isPublic := bits.testBit 0
  isPrivate := bits.testBit 1
  isStatic := bits.testBit 3
  isFinal := bits.testBit 4

/-- The words for the modifiers, in a fixed order. -/
def words (m : Modifiers) : List String :=
  (if m.isPublic then ["public"] else []) ++ (if m.isPrivate then ["private"] else []) ++
    (if m.isStatic then ["static"] else []) ++ (if m.isFinal then ["final"] else [])

def text (m : Modifiers) : String := " ".intercalate m.words

end Modifiers

/-- The name of a local slot. -/
structure LocalVar where
  slot : Nat
  name : String
  descriptor : String
  deriving DecidableEq, Repr

/-- A method with its limits. -/
structure Method where
  name : String
  descriptor : Descriptor
  modifiers : Modifiers
  vars : List LocalVar
  code : List Instruction
  maxStack : Nat
  maxLocals : Nat
  deriving DecidableEq, Repr

namespace Method

/-- A method with the limits that its code and its variables ask for.  There are at
least `slots` local slots, and one more than the slot of every variable. -/
def assemble (name : String) (descriptor : Descriptor) (modifiers : Modifiers)
    (vars : List LocalVar) (slots : Nat) (code : List Instruction) : Method where
  name
  descriptor
  modifiers
  vars := vars.mergeSort fun a b => decide (a.slot ≤ b.slot)
  code
  maxStack := Code.maxStack code
  maxLocals := vars.foldl (fun n v => max n (v.slot + 1)) slots

/-- The lines of a method. -/
def lines (m : Method) : List String :=
  [s!".method {m.modifiers.text} {m.name}{m.descriptor.text}",
    s!"    .limit stack {m.maxStack}",
    s!"    .limit locals {m.maxLocals}"] ++
  m.vars.map (fun v => s!"    .var {v.slot} is {v.name} {v.descriptor}") ++
  m.code.map Instruction.indented ++ [".end method"]

/-- Lines as text, each of them ended. -/
def textOfLines (lines : List String) : String := String.join (lines.map (· ++ "\n"))

/-- A method as text. -/
def text (m : Method) : String := textOfLines m.lines

end Method

/-- A field of a class. -/
structure FieldDecl where
  name : String
  descriptor : String
  modifiers : Modifiers
  deriving DecidableEq, Repr

/-- A class as it is written to a file. -/
structure ClassFile where
  path : String
  superPath : String
  fields : List FieldDecl := []
  methods : List Method := []
  deriving DecidableEq, Repr, Inhabited

namespace ClassFile

/-- Whether there is a field of this name. -/
def hasField (c : ClassFile) (name : String) : Bool := c.fields.any (·.name == name)

/-- Adds a field, unless there is one of its name. -/
def addField (c : ClassFile) (f : FieldDecl) : ClassFile :=
  if c.hasField f.name then c else { c with fields := c.fields ++ [f] }

/-- Adds fields in order. -/
def addFields (c : ClassFile) (fs : List FieldDecl) : ClassFile := fs.foldl addField c

/-- Adds a method at the end. -/
def addMethod (c : ClassFile) (m : Method) : ClassFile := { c with methods := c.methods ++ [m] }

/-- The first method of this name. -/
def method? (c : ClassFile) (name : String) : Option Method := c.methods.find? (·.name == name)

/-- The lines of a class, with an empty one before each method. -/
def lines (c : ClassFile) : List String :=
  [".class public " ++ c.path, ".super " ++ c.superPath] ++
  c.fields.map (fun f => s!".field {f.modifiers.text} {f.name} {f.descriptor}") ++
  c.methods.flatMap fun m => "" :: m.lines

/-- A class as text. -/
def text (c : ClassFile) : String := Method.textOfLines c.lines

@[simp] theorem path_addField (c : ClassFile) (f : FieldDecl) : (c.addField f).path = c.path := by
  unfold addField; split <;> rfl

@[simp] theorem methods_addField (c : ClassFile) (f : FieldDecl) :
    (c.addField f).methods = c.methods := by
  unfold addField; split <;> rfl

end ClassFile

end Unnest.Code
