import Unnest.Types.Basic

/-!
# Predefined types

Every program starts with the six types of the runtime library.  Their classes
exist already: emitted code calls their methods by name and descriptor, so these
tables have to say exactly what the classes offer.
-/

namespace Unnest

namespace TypeId

def integer : TypeId := ⟨0⟩
def real : TypeId := ⟨1⟩
def string : TypeId := ⟨2⟩
def bool : TypeId := ⟨3⟩

/-- The type of the `print` routine. -/
def print : TypeId := ⟨4⟩

/-- The type of the `read` routine. -/
def read : TypeId := ⟨5⟩

end TypeId

namespace Predefined

/-- The class of a library type. -/
def libraryPath (name : String) : String := Reserved.libraryDirectory ++ name

/-- The operators between two numbers that give a number.  Only integers have a
remainder. -/
def arithmetic (hasRemainder : Bool) : List String :=
  [Reserved.plus, Reserved.minus, Reserved.star, Reserved.slash] ++
    if hasRemainder then [Reserved.modulo] else []

/-- The operators between two numbers that give a `bool`. -/
def comparisons : List String :=
  [Reserved.equals, Reserved.notEquals, Reserved.lessThan, Reserved.greaterThan,
    Reserved.lessEquals, Reserved.greaterEquals]

/-- A type of numbers, converted from texts, from the `other` numbers and from
`bool`. -/
def numeric (name : String) (self other : TypeId) (hasRemainder : Bool) : TypeDecl where
  name
  form := .library
  path := some (libraryPath name)
  routines :=
    ⟨Reserved.assignment, [self], none⟩ ::
      (arithmetic hasRemainder).map (⟨·, [self], some self⟩) ++
      comparisons.map (⟨·, [self], some .bool⟩)
  staticRoutines :=
    ⟨Reserved.unaryMinus, [self], some self⟩ ::
      [TypeId.string, other, .bool].map (⟨Reserved.call, [·], some self⟩)

def integer : TypeDecl := numeric Reserved.integer .integer .real true

def real : TypeDecl := numeric Reserved.real .real .integer false

def string : TypeDecl where
  name := Reserved.string
  form := .library
  path := some (libraryPath Reserved.string)
  routines := [
    ⟨Reserved.assignment, [.string], none⟩,
    ⟨Reserved.plus, [.string], some .string⟩,
    ⟨Reserved.substring, [.integer, .integer], some .string⟩,
    ⟨Reserved.equals, [.string], some .bool⟩,
    ⟨Reserved.notEquals, [.string], some .bool⟩]
  staticRoutines := [TypeId.real, .integer, .bool].map (⟨Reserved.call, [·], some .string⟩)

def bool : TypeDecl where
  name := Reserved.bool
  form := .library
  path := some (libraryPath Reserved.bool)
  routines := [
    ⟨Reserved.assignment, [.bool], none⟩,
    ⟨Reserved.equals, [.bool], some .bool⟩,
    ⟨Reserved.notEquals, [.bool], some .bool⟩,
    ⟨Reserved.disjunction, [.bool], some .bool⟩,
    ⟨Reserved.conjunction, [.bool], some .bool⟩]
  staticRoutines := [
    ⟨Reserved.negation, [.bool], some .bool⟩,
    ⟨Reserved.call, [.string], some .bool⟩]

def print : TypeDecl where
  name := Reserved.print
  form := .builtin
  path := some (libraryPath Reserved.print)
  routines := [⟨Reserved.call, [.string], none⟩]

def read : TypeDecl where
  name := Reserved.read
  form := .builtin
  path := some (libraryPath Reserved.read)
  routines := [⟨Reserved.call, [], some .string⟩]

/-- The types whose names a program can write. -/
def namedTypes : List (String × TypeId) :=
  [(Reserved.integer, .integer), (Reserved.real, .real), (Reserved.string, .string),
    (Reserved.bool, .bool)]

/-- The routines a program can call without defining them. -/
def routines : List (String × TypeId) :=
  [(Reserved.print, .print), (Reserved.read, .read)]

end Predefined

/-- The table that every compilation starts with. -/
def TypeTable.predefined (routineBase : String) : TypeTable where
  types := #[Predefined.integer, Predefined.real, Predefined.string, Predefined.bool,
    Predefined.print, Predefined.read]
  routineBase

@[simp] theorem TypeTable.size_predefined (routineBase : String) :
    (TypeTable.predefined routineBase).size = 6 := rfl

end Unnest
