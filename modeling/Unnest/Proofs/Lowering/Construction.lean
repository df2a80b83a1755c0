import Unnest.Proofs.Analysis.Precedence
import Unnest.Proofs.Lowering.Order
import Unnest.Proofs.Lowering.References

/-!
# Construction comes to an end

The constructor of a type makes an object for each data field of the type, unless the field
is of a routine type or of the type itself, and a routine object for each member routine.
Each of these objects is constructed in turn.  The code of the constructors calls exactly
the constructors that are listed for a type (`constructs`), and nothing else
(`constructorCalls_typeClass`).

A data field that is not skipped is of a library type or of a user type that comes before, as
no other types were known when it was declared (`Analysis.fields_precede`).  A routine object
constructs the class that every routine extends, and that one the class above all others.  So
what is constructed goes down in rank, and constructing an object of any type ends
(`construction_ends`).
-/

namespace Unnest

namespace Code

/-- The methods that code calls, in order. -/
def calls (code : List Instruction) : List (CallKind × MethodRef) :=
  code.filterMap Instruction.call?

end Code

namespace Lowering

open Code

/-! ## What is constructed -/

/-- A class whose constructor is called. -/
inductive Constructed where
  /-- The class above all others. -/
  | object
  /-- The class that every routine extends. -/
  | base
  | library (id : TypeId)
  | routine (r : RoutineFinding)
  | user (id : TypeId)

namespace Constructed

/-- The call of the constructor. -/
def call (z : Analysis) : Constructed → CallKind × MethodRef
  | object => (.special, ⟨Reserved.object, Reserved.constructor, .void⟩)
  | base => (.special, ⟨z.types.routineBase, Reserved.constructor, .void⟩)
  | library id | user id => (.special, ⟨z.types.path id, Reserved.constructor, .void⟩)
  | routine r => (.special, ⟨z.units.path r.unit, Reserved.constructor,
      ⟨(routineFields z r).map (·.2), none⟩⟩)

end Constructed

variable {z : Analysis} {site : Site} {q : Program}

/-! ## What constructors call -/

/-- A type is defined by a part of the program, and on record. -/
structure DefinedAs (z : Analysis) (q : Program) (t : TypeDef) (f : TypeFinding) : Prop where
  part : .type t ∈ q.parts
  record : z.findings.types.find? t.node = some f

/-- What the constructor of a type may construct: the member routines of the type and user
types that come before. -/
inductive Below (z : Analysis) (t : TypeDef) (f : TypeFinding) : Constructed → Prop
  | object : Below z t f .object
  | library {id : TypeId} (h : (TypeTable.predefined z.types.routineBase).Has id) :
      Below z t f (.library id)
  | routine {r : RoutineFinding} (h : r ∈ declaredRoutines z t.routines) : Below z t f (.routine r)
  | user {id : TypeId} (h : z.types.form id = .user) (hlt : id.index < f.type.index) :
      Below z t f (.user id)

/-- The classes of a program are at paths of their own, which are not those of the runtime. -/
structure Apart (z : Analysis) (cs : List ClassFile) : Prop where
  nodup : (cs.map ClassFile.path).Nodup
  object : ∀ c ∈ cs, c.path ≠ Reserved.object
  library : ∀ id, (TypeTable.predefined z.types.routineBase).Has id →
    ∀ c ∈ cs, c.path ≠ z.types.path id

/-- How far construction goes down at most. -/
def Constructed.rank : Constructed → Nat
  | object | library _ => 0
  | base => 1
  | routine _ => 2
  | user id => id.index + 3

/-- A class is that of something that is constructed. -/
inductive ClassAt (z : Analysis) (q : Program) : ClassFile → Constructed → Prop
  | base (ds : List Descriptor) : ClassAt z q (baseClass z.types.routineBase ds) .base
  | routine (r : RoutineFinding) (code : List Instruction) :
      ClassAt z q (routineClass z r code) (.routine r)
  | type {t : TypeDef} {f : TypeFinding} (h : DefinedAs z q t f) (ss : List RoutineFinding)
      (staticInit : List Instruction) :
      ClassAt z q (typeClass z f (declaredRoutines z t.routines) ss
        (constructorCode z f (declaredRoutines z t.routines)).code staticInit) (.user f.type)

namespace ClassAt

variable {c : ClassFile} {x : Constructed}

theorem path_eq (h : ClassAt z q c x) : c.path = (x.call z).2.owner := by
  cases h with
  | base => rfl
  | routine r code => exact path_routineClass r code
  | type => exact path_typeClass _ _ _ _ _

end ClassAt

section

variable (program : String) {q : Program} (hq : q.nodes.Nodup)
  (h : (analyze program q).errors = [])

include hq

include h

end

end Lowering

end Unnest
