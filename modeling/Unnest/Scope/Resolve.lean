import Unnest.Scope.Basic

/-!
# Resolution and captures

A name is looked for along the path of a scope, the nearest scope first.  A scope
answers with what it declares, or else with what it has captured; a captured
binding is answered as its owner declared it, so a capture changes how fast a name
is found and not what it means.

## Where a capture is recorded

A use of an outer binding is recorded on the using scope and on the scopes around
it, so that each hands the binding to the next.  The record goes outwards until it
meets the owner, a scope that knows the name already, or a scope that has another
way to the binding: an instance routine reaches the members of its type through
its instance, and a routine reaches its own value as itself.
-/

namespace Unnest.Scopes

/-- What a name turned out to mean. -/
structure Resolved where
  /-- The binding as its owner declared it. -/
  binding : Binding
  owner : ScopeId
  deriving DecidableEq, Repr

/-- What a scope answers for a name without looking outwards. -/
def answer? (t : Scopes) (name : String) (id : ScopeId) : Option Resolved :=
  match (t.get id).binding? name with
  | some b => some ⟨b, id⟩
  | none => ((t.get id).capture? name).map fun c => ⟨c.binding, c.owner⟩

/-- The value that a name means in a scope. -/
def resolveValue (t : Scopes) (id : ScopeId) (name : String) : Option Resolved :=
  (t.path id).findSome? (t.answer? name)

/-- The type that a name means in a scope. -/
def resolveType (t : Scopes) (id : ScopeId) (name : String) : Option TypeId :=
  (t.path id).findSome? fun id => (t.get id).type? name

/-- Whether a scope reaches a binding of the scope around it without capturing it. -/
def reachesDirectly (t : Scopes) (b : Binding) (owner id : ScopeId) : Bool :=
  let scope := t.get id
  scope.kind == .routine && scope.parent == some owner &&
    match b.role with
    | .field => !scope.isStatic && scope.memberOf.isSome && scope.memberOf == b.owner
    | .routine => scope.name == b.name
    | .var | .param | .staticField | .nonlocal => false

/-- The scopes that record a use of `b`, declared by `owner`, in `id`.  The using
scope itself records it even where it could reach the binding directly. -/
def captureSites (t : Scopes) (id : ScopeId) (b : Binding) (owner : ScopeId) : List ScopeId :=
  let stops (s : ScopeId) : Bool := s == owner || (t.get s).knows b.name
  match t.path id with
  | [] => []
  | s :: rest =>
    if stops s then []
    else s :: rest.takeWhile fun s => !(stops s || t.reachesDirectly b owner s)

/-- Records one capture at the end of a scope's list. -/
def pushCapture (c : Capture) (t : Scopes) (id : ScopeId) : Scopes :=
  t.update id fun s => { s with captures := s.captures ++ [c] }

/-- Records that `id` uses `b`, declared by the outer scope `owner`. -/
def capture (t : Scopes) (id : ScopeId) (b : Binding) (owner : ScopeId) : Scopes :=
  (t.captureSites id b owner).foldl (pushCapture ⟨b, owner⟩) t

end Unnest.Scopes
