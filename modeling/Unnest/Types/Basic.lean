import Unnest.Binding
import Unnest.Reserved

/-!
# Types

Types live in one table and are named by their index.  A type is its members: the
signatures of its routines and the bindings of its fields, each once for instances
and once for the type itself.

## Forms

How values are represented decides how members are reached.  Routines of a library
type are methods of a runtime class.  Routines of a user type are fields that hold
routine values.  A routine type has no class of its own: its values are addressed
through the class that every routine extends, and its signatures all carry the
name of the call routine.
-/

namespace Unnest

/-- One callable signature.  The result takes no part in choosing a routine. -/
structure Signature where
  name : String
  params : List TypeId
  /-- `none` when calling yields no value. -/
  result : Option TypeId
  deriving DecidableEq, Repr, Inhabited

/-- How values of a type are represented in the emitted code. -/
inductive TypeForm where
  /-- A value class of the runtime library. -/
  | library
  /-- A callable object of the runtime library. -/
  | builtin
  /-- Values that are routines. -/
  | routine
  /-- A class emitted for a type definition. -/
  | user
  deriving DecidableEq, Repr, Inhabited

/-- A type with all of its members. -/
structure TypeDecl where
  name : String
  form : TypeForm
  /-- Where the class is, once it is known. -/
  path : Option String := none
  routines : List Signature := []
  staticRoutines : List Signature := []
  fields : List Binding := []
  staticFields : List Binding := []
  deriving DecidableEq, Repr, Inhabited

namespace TypeDecl

/-- The routines of one staticness. -/
def routinesOf (d : TypeDecl) (isStatic : Bool) : List Signature :=
  if isStatic then d.staticRoutines else d.routines

/-- The fields of one staticness. -/
def fieldsOf (d : TypeDecl) (isStatic : Bool) : List Binding :=
  if isStatic then d.staticFields else d.fields

/-- Adds a routine after the others of its staticness. -/
def addRoutine (d : TypeDecl) (isStatic : Bool) (s : Signature) : TypeDecl :=
  if isStatic then { d with staticRoutines := d.staticRoutines ++ [s] }
  else { d with routines := d.routines ++ [s] }

/-- Adds fields after the others of their staticness. -/
def addFields (d : TypeDecl) (isStatic : Bool) (bs : List Binding) : TypeDecl :=
  if isStatic then { d with staticFields := d.staticFields ++ bs }
  else { d with fields := d.fields ++ bs }

@[simp] theorem routinesOf_addRoutine (d : TypeDecl) (b c : Bool) (s : Signature) :
    (d.addRoutine b s).routinesOf c = d.routinesOf c ++ (if b = c then [s] else []) := by
  cases b <;> cases c <;> simp [addRoutine, routinesOf]

@[simp] theorem fieldsOf_addRoutine (d : TypeDecl) (b c : Bool) (s : Signature) :
    (d.addRoutine b s).fieldsOf c = d.fieldsOf c := by
  cases b <;> cases c <;> rfl

@[simp] theorem fieldsOf_addFields (d : TypeDecl) (b c : Bool) (bs : List Binding) :
    (d.addFields b bs).fieldsOf c = d.fieldsOf c ++ (if b = c then bs else []) := by
  cases b <;> cases c <;> simp [addFields, fieldsOf]

@[simp] theorem routinesOf_addFields (d : TypeDecl) (b c : Bool) (bs : List Binding) :
    (d.addFields b bs).routinesOf c = d.routinesOf c := by
  cases b <;> cases c <;> rfl

/-- The type of routine values with the given signatures. -/
def ofSignatures (signatures : List Signature) : TypeDecl :=
  { name := Reserved.routine, form := .routine, routines := signatures }

end TypeDecl

/-- Which member routines a value stands for. -/
structure MemberKey where
  owner : TypeId
  name : String
  isStatic : Bool
  deriving DecidableEq, Repr

/-- Every type known to a compilation. -/
structure TypeTable where
  types : Array TypeDecl
  /-- The path of the class that every routine extends. -/
  routineBase : String
  /-- The routine types made for reading member routines as values.  Each is made
  once and found again here. -/
  memberTypes : List (MemberKey × TypeId) := []
  deriving Repr, Inhabited

namespace TypeTable

/-- The type at an index, if there is one. -/
def get? (t : TypeTable) (id : TypeId) : Option TypeDecl := t.types[id.index]?

/-- The type at an index; beyond the table, a type without members. -/
def get (t : TypeTable) (id : TypeId) : TypeDecl := (t.get? id).getD default

/-- The number of types. -/
def size (t : TypeTable) : Nat := t.types.size

/-- Adds a type at the end. -/
def add (t : TypeTable) (d : TypeDecl) : TypeId × TypeTable :=
  (⟨t.types.size⟩, { t with types := t.types.push d })

/-- Changes one type and no other. -/
def update (t : TypeTable) (id : TypeId) (f : TypeDecl → TypeDecl) : TypeTable :=
  { t with types := t.types.modify id.index f }

/-- Records where the class of a type is. -/
def setPath (t : TypeTable) (id : TypeId) (path : String) : TypeTable :=
  t.update id fun d => { d with path := some path }

/-- The name of a type. -/
def name (t : TypeTable) (id : TypeId) : String := (t.get id).name

/-- The form of a type. -/
def form (t : TypeTable) (id : TypeId) : TypeForm := (t.get id).form

/-- The class through which values of a type are addressed.  Routine values are
always addressed through the routine base; a type whose class is not known yet
goes by its name. -/
def path (t : TypeTable) (id : TypeId) : String :=
  match (t.get id).form with
  | .routine => t.routineBase
  | .library | .builtin | .user => (t.get id).path.getD (t.get id).name

/-- The descriptor of values of a class. -/
def classDescriptor (path : String) : String := s!"L{path};"

/-- The descriptor of values of a type. -/
def descriptor (t : TypeTable) (id : TypeId) : String := classDescriptor (t.path id)

/-- Makes the type of routine values with one signature. -/
def addRoutineType (t : TypeTable) (params : List TypeId) (result : Option TypeId) :
    TypeId × TypeTable :=
  t.add (.ofSignatures [⟨Reserved.call, params, result⟩])

/-- An argument list as messages show it. -/
def describeArgs (t : TypeTable) (args : List TypeId) : String :=
  "(" ++ ", ".intercalate (args.map t.name) ++ ")"

@[simp] theorem size_add (t : TypeTable) (d : TypeDecl) : (t.add d).2.size = t.size + 1 := by
  simp [add, size]

@[simp] theorem size_update (t : TypeTable) (id : TypeId) (f : TypeDecl → TypeDecl) :
    (t.update id f).size = t.size := by
  simp [update, size]

/-- A new type is found under its index, and every older one where it was. -/
theorem get?_add (t : TypeTable) (d : TypeDecl) (id : TypeId) :
    (t.add d).2.get? id = if id = (t.add d).1 then some d else t.get? id := by
  obtain ⟨i⟩ := id
  simp [add, get?, Array.getElem?_push]

/-- A change is seen at its own index only. -/
theorem get?_update (t : TypeTable) (id other : TypeId) (f : TypeDecl → TypeDecl) :
    (t.update id f).get? other = if id = other then (t.get? other).map f else t.get? other := by
  obtain ⟨i⟩ := id
  obtain ⟨j⟩ := other
  simp [update, get?, Array.getElem?_modify]

end TypeTable

end Unnest
