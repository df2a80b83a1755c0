import Unnest.Lowering.Declare

/-!
# Emitted classes

A routine becomes a class with one object for each time its definition is reached.
The object's fields hold what the routine captured; its call method is the body.

A type becomes a class whose objects hold the fields and the member routines, the
latter as routine objects that are bound to the instance when it is constructed.
What the type captured, its static routines and its static fields are static fields
of the class, filled by a static method where the type is defined.
-/

namespace Unnest.Lowering

open Code

variable (a : Analysis)

/-! ## Constructors -/

/-- The call of the constructor of the class above. -/
def constructSuper (superPath : String) : List Instruction :=
  [.load 0, .invokeSpecial ⟨superPath, Reserved.constructor, .void⟩]

/-- The constructor of a class without fields. -/
def plainConstructor (superPath : String) : Method :=
  .assemble Reserved.constructor .void .instanceMember [] 1
    (constructSuper superPath ++ [.returnNothing])

/-- Stores arguments into the fields of the same names, from an argument slot on. -/
def storeFields (path : String) : Nat → List (String × String) → List Instruction
  | _, [] => []
  | slot, (name, descriptor) :: rest =>
    [.load 0, .load slot, .putField ⟨path, name, descriptor⟩] ++
      storeFields path (slot + 1) rest

/-- The constructor that takes a value for each field. -/
def fieldConstructor (path superPath : String) (fields : List (String × String)) : Method :=
  .assemble Reserved.constructor ⟨fields.map (·.2), none⟩ .instanceMember [] (1 + fields.length)
    (constructSuper superPath ++ storeFields path 1 fields ++ [.returnNothing])

/-! ## Local variables -/

/-- The named slots of the method that a scope owns. -/
def localVars (scope : ScopeId) : List LocalVar :=
  (a.scopes.methodLocals scope).filterMap fun b =>
    b.slot.map fun slot => ⟨slot, b.name, a.types.descriptor b.type⟩

/-- The variable that stands for the receiver. -/
def thisVar (path : String) : LocalVar := ⟨0, Reserved.this, TypeTable.classDescriptor path⟩

/-! ## Routines -/

/-- Where the body of a routine stands. -/
def routineSite (r : RoutineFinding) : Site where
  kind := .routine
  path := a.units.path r.unit
  instanceType := enclosingType r

/-- The end of a routine: its value if it promises one and has one. -/
def routineEnd (r : RoutineFinding) : Option ReturnClause → Fragment
  | some ret =>
    if r.signature.result.isSome then
      expr a (routineSite a r) ret.value ++ .ofList [.returnValue]
    else .ofList [.returnNothing]
  | none => .ofList [.returnNothing]

/-- The class of a routine with this code. -/
def routineClass (r : RoutineFinding) (code : List Instruction) : ClassFile :=
  let path := a.units.path r.unit
  let base := a.types.routineBase
  let fields := routineFields a r
  ({ path, superPath := base : ClassFile }.addFields
      (fields.map fun f => ⟨f.1, f.2, .instanceMember⟩))
    |>.addMethod (fieldConstructor path base fields)
    |>.addMethod (.assemble Reserved.call (descriptorOf a r.signature) .instanceMember
      (localVars a r.scope ++ [thisVar path]) (a.scopes.get r.scope).numLocals code)

/-! ## Types -/

/-- Where the constructor of a type's class stands. -/
def constructorSite (t : TypeFinding) : Site := ⟨.constructor, a.types.path t.type, none⟩

/-- Where the static method of a type's class stands. -/
def staticSite (t : TypeFinding) : Site := ⟨.staticInit, a.types.path t.type, none⟩

/-- The fields of a type's class: data, member routines and captures. -/
def typeFields (t : TypeFinding) (routines staticRoutines : List RoutineFinding) :
    List FieldDecl :=
  let field (modifiers : Modifiers) (b : Binding) : FieldDecl :=
    ⟨b.name, a.types.descriptor b.type, modifiers⟩
  let d := a.types.get t.type
  d.fields.map (field .instanceMember) ++
  routines.map (fun r => field .instanceMember r.binding) ++
  d.staticFields.map (field .staticMember) ++
  staticRoutines.map (fun r => field .staticMember r.binding) ++
  t.captures.map fun c => ⟨c.name, a.types.descriptor c.type, .staticMember⟩

/-- Gives an instance's data fields their default values.  A field of the type
itself would be constructed without end, and one of a routine type starts with
nothing; both are left out. -/
def defaultFields (t : TypeFinding) : List Instruction :=
  ((a.types.get t.type).fields.filter fun b =>
      b.type != t.type && a.types.form b.type != .routine).flatMap fun b =>
    .load 0 :: defaultValue a b.type ++ [.putField (memberField a t.type b)]

/-- Binds member routines to an instance. -/
def bindRoutines (t : TypeFinding) : List RoutineFinding → Fragment
  | [] => {}
  | r :: rs =>
    .ofList [.load 0] ++ makeRoutine a (constructorSite a t) r ++
      .ofList [.putField (memberField a t.type r.binding)] ++ bindRoutines t rs

/-- The constructor of a type's class. -/
def constructorCode (t : TypeFinding) (routines : List RoutineFinding) : Fragment :=
  .ofList (constructSuper Reserved.object ++ defaultFields a t) ++
    bindRoutines a t routines ++ .ofList [.returnNothing]

/-- Stores the arguments of the static method, from a slot on, as captured values. -/
def storeCaptures (path : String) : Nat → List CaptureSource → List Instruction
  | _, [] => []
  | slot, c :: cs =>
    [.load slot, .putStatic ⟨path, c.name, a.types.descriptor c.type⟩] ++
      storeCaptures path (slot + 1) cs

/-- Makes the static routines of a type. -/
def makeStaticRoutines (t : TypeFinding) : List RoutineFinding → Fragment
  | [] => {}
  | r :: rs =>
    makeRoutine a (staticSite a t) r ++
      .ofList [.putStatic (memberField a t.type r.binding)] ++ makeStaticRoutines t rs

/-- Runs the initial values of static members in order. -/
def staticFields (t : TypeFinding) : List StaticField → Fragment
  | [] => {}
  | f :: fs => staticField a (staticSite a t) f ++ staticFields t fs

/-- The static method of a type's class: captures, then routines, then fields. -/
def staticInitCode (t : TypeFinding) (staticRoutines : List RoutineFinding)
    (fields : List StaticField) : Fragment :=
  .ofList (storeCaptures a (a.types.path t.type) 0 t.captures) ++
    makeStaticRoutines a t staticRoutines ++ staticFields a t fields ++
    .ofList [.returnNothing]

/-- The class of a type with this code for its two methods. -/
def typeClass (t : TypeFinding) (routines staticRoutines : List RoutineFinding)
    (constructor staticInit : List Instruction) : ClassFile :=
  let path := a.types.path t.type
  ({ path, superPath := Reserved.object : ClassFile }.addFields
      (typeFields a t routines staticRoutines))
    |>.addMethod (.assemble Reserved.constructor .void .instanceMember [thisVar path] 0 constructor)
    |>.addMethod (.assemble Reserved.staticInit ⟨captureDescriptors a t.captures, none⟩
      .staticMember [] t.captures.length staticInit)

end Unnest.Lowering
