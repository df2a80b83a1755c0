import Unnest.Id

/-!
# Bindings

A binding is a name with a type and a role.  The role says where the value lives:
variables, parameters and routines outside a type take a local slot of the method
that declares them; fields and static fields live in the class of the type they
are members of; a nonlocal is a binding of an outer scope as seen from a scope
that has to receive it.
-/

namespace Unnest

/-- What a binding is. -/
inductive Role where
  | var
  | param
  /-- An instance member, data or routine. -/
  | field
  /-- A static member, data or routine. -/
  | staticField
  /-- A binding of an outer scope, as seen from a scope that captures it. -/
  | nonlocal
  /-- A routine defined outside every type. -/
  | routine
  deriving DecidableEq, Repr, Inhabited

/-- Whether bindings of this role live in a local slot. -/
def Role.usesSlot : Role → Bool
  | .var | .param | .routine => true
  | .field | .staticField | .nonlocal => false

/-- Whether bindings of this role are members of a type. -/
def Role.isMember : Role → Bool
  | .field | .staticField => true
  | .var | .param | .nonlocal | .routine => false

/-- The role of a member, instance or static. -/
def Role.member (isStatic : Bool) : Role := if isStatic then .staticField else .field

/-- A named, typed value. -/
structure Binding where
  name : String
  type : TypeId
  role : Role
  /-- The local slot, given out when the binding is declared. -/
  slot : Option Nat := none
  /-- The type that a field or static field belongs to. -/
  owner : Option TypeId := none
  deriving DecidableEq, Repr, Inhabited

/-- No role is both a member and in a slot. -/
theorem Role.usesSlot_eq_false_of_isMember {r : Role} (h : r.isMember = true) :
    r.usesSlot = false := by
  cases r <;> simp_all [Role.isMember, Role.usesSlot]

end Unnest
