import Unnest.Analysis.State
import Unnest.Code.ClassFile

/-!
# Reading and writing bindings

Lowering reads an analysis and writes instructions.  What the findings say about a
binding is how it is reached; where the instructions are going to stand decides
what that means.  A captured value is a field of the routine object inside a
routine, and a static field of its class everywhere else.

## Gaps

Lowering also accepts an analysis with errors.  Where it finds nothing written
about a node it emits nothing and counts a gap.  An analysis without errors leaves
no gaps; this is what makes skipping harmless.
-/

namespace Unnest

open Code

/-- Instructions, and how many lookups on the way to them found nothing. -/
structure Fragment where
  code : List Instruction := []
  gaps : Nat := 0
  deriving DecidableEq, Repr, Inhabited

namespace Fragment

/-- Instructions that needed no lookup, or found what they looked for. -/
def ofList (code : List Instruction) : Fragment := ⟨code, 0⟩

/-- A lookup that found nothing. -/
def gap : Fragment := ⟨[], 1⟩

instance : Append Fragment := ⟨fun f g => ⟨f.code ++ g.code, f.gaps + g.gaps⟩⟩

@[simp] theorem code_append (f g : Fragment) : (f ++ g).code = f.code ++ g.code := rfl
@[simp] theorem gaps_append (f g : Fragment) : (f ++ g).gaps = f.gaps + g.gaps := rfl
@[simp] theorem code_ofList (code : List Instruction) : (ofList code).code = code := rfl
@[simp] theorem gaps_ofList (code : List Instruction) : (ofList code).gaps = 0 := rfl
@[simp] theorem code_gap : gap.code = [] := rfl
@[simp] theorem gaps_gap : gap.gaps = 1 := rfl

/-- Fragments one after the other. -/
def concat : List Fragment → Fragment
  | [] => {}
  | f :: fs => f ++ concat fs

end Fragment

/-- Which method of a class instructions are for. -/
inductive SiteKind where
  /-- The method that runs the program. -/
  | main
  /-- The call method of a routine's class. -/
  | routine
  /-- The constructor of a type's class. -/
  | constructor
  /-- The static method of a type's class. -/
  | staticInit
  deriving DecidableEq, Repr

/-- Where instructions are going to stand. -/
structure Site where
  kind : SiteKind
  /-- The class that the method is in. -/
  path : String
  /-- The type whose instance the routine belongs to. -/
  instanceType : Option TypeId := none
  deriving DecidableEq, Repr

namespace Lowering

variable (a : Analysis) (site : Site)

/-! ## Values -/

/-- The descriptor of a signature. -/
def descriptorOf (s : Signature) : Descriptor :=
  ⟨s.params.map a.types.descriptor, s.result.map a.types.descriptor⟩

/-- Makes an object of a class with a constructor that takes nothing. -/
def makeObject (path : String) : List Instruction :=
  [.new path, .dup, .invokeSpecial ⟨path, Reserved.constructor, .void⟩]

/-- Pushes the value that a binding of a type starts with: nothing for routines, a
new object for every other type. -/
def defaultValue (type : TypeId) : List Instruction :=
  match a.types.form type with
  | .routine => [.null]
  | .library | .builtin | .user => makeObject (a.types.path type)

/-- The field that holds a member of a type. -/
def memberField (owner : TypeId) (b : Binding) : FieldRef :=
  ⟨a.types.path owner, b.name, a.types.descriptor b.type⟩

/-- The field of the class being emitted that holds a captured value. -/
def capturedField (b : Binding) : FieldRef := ⟨site.path, b.name, a.types.descriptor b.type⟩

/-- Pushes the instance that the routine being emitted belongs to. -/
def loadInstance : Fragment :=
  match site.instanceType with
  | some owner => .ofList [.load 0,
      .getField ⟨site.path, Reserved.enclosingInstance, a.types.descriptor owner⟩]
  | none => .gap

/-- Pushes the value of a binding. -/
def load (b : Binding) : Access → Fragment
  | .slot slot => .ofList [.load slot]
  | .itself => .ofList [.load 0]
  | .static owner => .ofList [.getStatic (memberField a owner b)]
  | .captured =>
    match site.kind with
    | .routine => .ofList [.load 0, .getField (capturedField a site b)]
    | .main | .constructor | .staticInit => .ofList [.getStatic (capturedField a site b)]
  | .enclosing =>
    match site.instanceType with
    | some owner => loadInstance a site ++ .ofList [.getField (memberField a owner b)]
    | none => .gap

/-- Pushes what has to be under a value that is going to be stored. -/
def beforeStore : Access → Fragment
  | .captured =>
    match site.kind with
    | .routine => .ofList [.load 0]
    | .main | .constructor | .staticInit => {}
  | .enclosing => loadInstance a site
  | .slot _ | .static _ | .itself => {}

/-- Stores the value on the stack into a binding.  A routine cannot be replaced in
its own body; such a value is dropped. -/
def store (b : Binding) : Access → Fragment
  | .slot slot => .ofList [.store slot]
  | .static owner => .ofList [.putStatic (memberField a owner b)]
  | .captured =>
    match site.kind with
    | .routine => .ofList [.putField (capturedField a site b)]
    | .main | .constructor | .staticInit => .ofList [.putStatic (capturedField a site b)]
  | .enclosing =>
    match site.instanceType with
    | some owner => .ofList [.putField (memberField a owner b)]
    | none => .gap
  | .itself => .ofList [.pop]

/-! ## Calls -/

/-- Calls the routine value under the arguments through the routine base. -/
def invokeRoutine (d : Descriptor) : List Instruction :=
  [.invokeVirtual ⟨a.types.routineBase, Reserved.call, d⟩]

/-- Calls a routine of a type.  Unless the call is static, the receiver is on the
stack already.  Library routines are methods; routines of a user type are fields
that hold routine values; a routine value is called as it is. -/
def callRoutine (owner : TypeId) (routine : Signature) (isStatic : Bool) (args : Fragment) :
    Fragment :=
  let descriptor := descriptorOf a routine
  let path := a.types.path owner
  match a.types.form owner with
  | .library | .builtin =>
    let method : MethodRef := ⟨path, routine.name, descriptor⟩
    args ++ .ofList [if isStatic then .invokeStatic method else .invokeVirtual method]
  | .user =>
    let field : FieldRef :=
      ⟨path, routine.name, TypeTable.classDescriptor a.types.routineBase⟩
    .ofList [if isStatic then .getStatic field else .getField field] ++ args ++
      .ofList (invokeRoutine a descriptor)
  | .routine => args ++ .ofList (invokeRoutine a descriptor)

/-- Reads a member: of the value on the stack, or a static one. -/
def readMember (owner : TypeId) (b : Binding) (isStatic : Bool) : List Instruction :=
  let field := memberField a owner b
  [if isStatic || b.role == .staticField then .getStatic field else .getField field]

/-! ## Objects of emitted classes -/

/-- Pushes captured values from where the capturing class is made. -/
def loadCaptures : List CaptureSource → Fragment
  | [] => {}
  | c :: cs =>
    load a site { name := c.name, type := c.type, role := .nonlocal } c.access ++
      loadCaptures cs

/-- The descriptors of captured values. -/
def captureDescriptors (cs : List CaptureSource) : List String :=
  cs.map fun c => a.types.descriptor c.type

/-- The type whose instance a routine belongs to; static routines belong to none. -/
def enclosingType (r : RoutineFinding) : Option TypeId :=
  if r.isStatic then none else r.memberOf

/-- What the constructor of a routine's class takes, and the fields it fills: the
instance that the routine belongs to, and then the captured values. -/
def routineFields (r : RoutineFinding) : List (String × String) :=
  ((enclosingType r).map fun owner =>
    (Reserved.enclosingInstance, a.types.descriptor owner)).toList ++
  r.captures.map fun c => (c.name, a.types.descriptor c.type)

/-- Pushes a new object of a routine's class.  A member routine gets the instance
that is being constructed. -/
def makeRoutine (r : RoutineFinding) : Fragment :=
  let path := a.units.path r.unit
  let receiver : Fragment :=
    if (enclosingType r).isSome then .ofList [.load 0] else {}
  .ofList [.new path, .dup] ++ receiver ++ loadCaptures a site r.captures ++
    .ofList [.invokeSpecial
      ⟨path, Reserved.constructor, ⟨(routineFields a r).map (·.2), none⟩⟩]

/-- Runs the static method of a type's class, with what the type captured. -/
def initType (t : TypeFinding) : Fragment :=
  loadCaptures a site t.captures ++
    .ofList [.invokeStatic ⟨a.types.path t.type, Reserved.staticInit,
      ⟨captureDescriptors a t.captures, none⟩⟩]

end Lowering

end Unnest
