import Unnest.Scope.Resolve

/-!
# Access to bindings

Resolving a name says which binding it means.  How the code of the using method
gets at the value depends on where the two stand: a slot of the method itself is
read directly, a static member through its class, a member of the own instance
through the instance, and everything else has to be captured.

## Hidden members

An instance member is reached only from inside an instance routine of its type.
The scope that decides is the one on the way out whose parent is the type's scope.
If it is a static routine, or the scope of the static initial values, there is no
instance, and the member is hidden.  A hidden member stays the meaning of its name:
no outer binding of the same name shows through.
-/

namespace Unnest

/-- How the code of a method reaches a value. -/
inductive Access where
  /-- In a local slot of the method. -/
  | slot (slot : Nat)
  /-- In a field of the class being emitted, copied there when it was made. -/
  | captured
  /-- In a field of the instance that the routine being emitted belongs to. -/
  | enclosing
  /-- In a static field of a type. -/
  | static (type : TypeId)
  /-- The routine being emitted itself. -/
  | itself
  deriving DecidableEq, Repr, Inhabited

/-- What looking a name up can come to. -/
inductive Lookup where
  | found (resolved : Scopes.Resolved) (access : Access)
  /-- The name means an instance member, and there is no instance. -/
  | hidden
  /-- The name means no value. -/
  | missing
  deriving DecidableEq, Repr

namespace Scopes

/-- Whether a method is the body of the routine that a binding holds. -/
def isItself (t : Scopes) (method : ScopeId) (r : Resolved) : Bool :=
  let scope := t.get method
  scope.kind == .routine && scope.parent == some r.owner && scope.name == r.binding.name

/-- The methods around a scope, its own one first. -/
def methods (t : Scopes) (id : ScopeId) : List ScopeId :=
  (t.path id).filter fun id => (t.get id).kind.ownsMethod

/-- Access to an instance member of the type whose scope is `r.owner`. -/
def memberAccess (t : Scopes) (id : ScopeId) (r : Resolved) : Lookup :=
  match (t.methods id).find? fun m => t.parent m == some r.owner with
  | none => .hidden
  | some m =>
    let scope := t.get m
    if scope.kind = .routine ∧ scope.isStatic = false then
      .found r (if m = t.owningMethod id then .enclosing else .captured)
    else .hidden

/-- Access to a binding that is in no slot of the method. -/
def outerAccess (t : Scopes) (id : ScopeId) (r : Resolved) : Lookup :=
  match r.binding.role with
  | .staticField =>
    match r.binding.owner with
    | some type => .found r (.static type)
    | none => .missing
  | .field => t.memberAccess id r
  | .routine => .found r (if t.isItself (t.owningMethod id) r then .itself else .captured)
  | .var | .param | .nonlocal => .found r .captured

/-- Access to a binding from a scope. -/
def accessTo (t : Scopes) (id : ScopeId) (r : Resolved) : Lookup :=
  match r.binding.slot with
  | some slot =>
    if t.isAncestorOrSelf (t.owningMethod id) r.owner then .found r (.slot slot)
    else t.outerAccess id r
  | none => t.outerAccess id r

/-- What a name means in a scope, and how it is reached from there. -/
def lookup (t : Scopes) (id : ScopeId) (name : String) : Lookup :=
  match t.resolveValue id name with
  | some r => t.accessTo id r
  | none => .missing

end Scopes

end Unnest
