/-!
# Descriptors

A method is addressed by its owner, its name and its descriptor, a field by its
owner, its name and the descriptor of its value.  A descriptor also says how much
of the operand stack a value takes: two cells for the two wide kinds, `D` and `J`,
and one for every other.
-/

namespace Unnest.Code

/-- What a method takes and gives. -/
structure Descriptor where
  params : List String
  /-- `none` when the method gives nothing. -/
  result : Option String
  deriving DecidableEq, Repr, Inhabited

/-- Descriptors are listed by their parameters, and then by their result, with none
before any. -/
instance : Ord Descriptor where
  compare a b := (compare a.params b.params).then (compare a.result b.result)

namespace Descriptor

/-- A method that takes nothing and gives nothing. -/
def void : Descriptor := ⟨[], none⟩

/-- The descriptor as it is written. -/
def text (d : Descriptor) : String :=
  "(" ++ String.join d.params ++ ")" ++ d.result.getD "V"

/-- The stack cells that a value takes. -/
def cells (descriptor : String) : Nat :=
  if descriptor = "D" ∨ descriptor = "J" then 2 else 1

/-- The stack cells that the arguments take. -/
def paramCells (d : Descriptor) : Nat := d.params.foldr (fun p n => cells p + n) 0

/-- The stack cells that the result takes. -/
def resultCells (d : Descriptor) : Nat := (d.result.map cells).getD 0

end Descriptor

/-- A method and the class it is looked up on. -/
structure MethodRef where
  owner : String
  name : String
  descriptor : Descriptor
  deriving DecidableEq, Repr

/-- The method as it is written. -/
def MethodRef.text (m : MethodRef) : String := m.owner ++ "/" ++ m.name ++ m.descriptor.text

/-- A field and the class it is looked up on. -/
structure FieldRef where
  owner : String
  name : String
  descriptor : String
  deriving DecidableEq, Repr

/-- The field as it is written. -/
def FieldRef.text (f : FieldRef) : String := f.owner ++ "/" ++ f.name ++ " " ++ f.descriptor

/-- A place in a method that can be jumped to.  Labels are numbered from one. -/
structure Label where
  number : Nat
  deriving DecidableEq, Repr, Inhabited

/-- A label as it is written: its number with at least three digits. -/
def Label.text (l : Label) : String :=
  "L" ++ String.ofList ((toString l.number).toList.leftpad 3 '0')

end Unnest.Code
