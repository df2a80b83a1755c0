import Unnest.Binding
import Unnest.SemanticError

/-!
# Scopes

The scopes of a program form a tree: the program's body at the root, and below it
one scope for every definition and every block.  A scope holds what is declared in
it, which are values and types under one set of names, and the bindings of outer
scopes that it has to receive.

## Methods and slots

Emitted code has one flat space of local slots for each method, whatever blocks
the method's body has.  Every kind of scope but a block owns a method, and a block
shares the slots of the nearest scope around it that does.  A binding that lives
in a slot takes the next one of that method when it is declared and keeps it.

Slot `0` is taken from the start where the method has a receiver or an argument of
its own: the argument array in the main body, the routine object in a routine.

## Paths

Everything that looks outwards from a scope (resolution, the owning method, the
propagation of captures) is a function of one list: the scopes from it to the
root.  A parent is opened before its children, so its index is smaller, and an
index bounds the length of its path.  A scope that is opened inside itself has
nothing around it: it is the last of its path, as a root is.
-/

namespace Unnest

/-- What opens a scope. -/
inductive ScopeKind where
  /-- The body of the program. -/
  | main
  /-- A type definition. -/
  | type
  /-- A routine. -/
  | routine
  /-- A body under a condition, or an `else`. -/
  | block
  /-- The static initial values of a type. -/
  | fieldInit
  deriving DecidableEq, Repr, Inhabited

/-- Whether a scope of this kind has local slots of its own. -/
def ScopeKind.ownsMethod : ScopeKind → Bool
  | .block => false
  | .main | .type | .routine | .fieldInit => true

/-- How many slots are taken before anything is declared. -/
def ScopeKind.reservedSlots : ScopeKind → Nat
  | .main | .routine => 1
  | .type | .block | .fieldInit => 0

/-- A binding of an outer scope that a scope has to receive. -/
structure Capture where
  /-- The binding as its owner declared it. -/
  binding : Binding
  /-- The scope that declared it. -/
  owner : ScopeId
  deriving DecidableEq, Repr

/-- The name that is captured. -/
def Capture.name (c : Capture) : String := c.binding.name

/-- The binding as the capturing scope sees it: no slot, and nonlocal. -/
def Capture.inner (c : Capture) : Binding :=
  { c.binding with role := .nonlocal, slot := none }

/-- A lexical scope. -/
structure Scope where
  parent : Option ScopeId
  kind : ScopeKind
  /-- The name of the routine or type, or the token of a block. -/
  name : String
  /-- The unit that the scope's code goes to. -/
  unit : UnitId
  /-- The type that is being defined, or that the routine is a member of. -/
  memberOf : Option TypeId := none
  /-- Whether the scope is that of a static member routine. -/
  isStatic : Bool := false
  children : List ScopeId := []
  /-- What is declared here, in order. -/
  entries : List Binding := []
  /-- What has to be received, in the order of first use. -/
  captures : List Capture := []
  types : List (String × TypeId) := []
  /-- The slots taken so far; it counts only where the scope owns a method. -/
  numLocals : Nat := 0
  /-- How many tokens were given to blocks of this scope. -/
  blockCount : Nat := 0
  deriving DecidableEq, Repr, Inhabited

namespace Scope

/-- A scope without contents. -/
def empty (parent : Option ScopeId) (kind : ScopeKind) (name : String) (unit : UnitId) : Scope :=
  { parent, kind, name, unit, numLocals := kind.reservedSlots }

/-- The binding declared here under a name. -/
def binding? (s : Scope) (name : String) : Option Binding := s.entries.find? (·.name == name)

/-- The capture recorded here under a name. -/
def capture? (s : Scope) (name : String) : Option Capture := s.captures.find? (·.name == name)

/-- The type declared here under a name. -/
def type? (s : Scope) (name : String) : Option TypeId :=
  (s.types.find? (·.1 == name)).map (·.2)

/-- Whether a name is a value here without looking outwards. -/
def knows (s : Scope) (name : String) : Bool :=
  (s.binding? name).isSome || (s.capture? name).isSome

end Scope

/-- The scopes of a program. -/
structure Scopes where
  scopes : Array Scope
  deriving Repr, Inhabited

namespace Scopes

/-- The tree of the body of a program and nothing else. -/
def root (name : String) (unit : UnitId) : Scopes := ⟨#[.empty none .main name unit]⟩

/-- The root of every tree. -/
def rootId : ScopeId := ⟨0⟩

/-- The scope at an index, if there is one. -/
def get? (t : Scopes) (id : ScopeId) : Option Scope := t.scopes[id.index]?

/-- The scope at an index; beyond the table, an empty scope without a parent. -/
def get (t : Scopes) (id : ScopeId) : Scope := (t.get? id).getD default

/-- The number of scopes. -/
def size (t : Scopes) : Nat := t.scopes.size

/-- The index of every scope, in order. -/
def ids (t : Scopes) : List ScopeId := (List.range t.size).map (⟨·⟩)

/-- Changes one scope and no other. -/
def update (t : Scopes) (id : ScopeId) (f : Scope → Scope) : Scopes :=
  ⟨t.scopes.modify id.index f⟩

/-- The scope around a scope. -/
def parent (t : Scopes) (id : ScopeId) : Option ScopeId := (t.get id).parent

/-- Opens a scope inside `parent`. -/
def openScope (t : Scopes) (parent : ScopeId) (kind : ScopeKind) (name : String)
    (unit : UnitId) : ScopeId × Scopes :=
  let id : ScopeId := ⟨t.size⟩
  let t : Scopes := ⟨t.scopes.push (.empty (some parent) kind name unit)⟩
  (id, t.update parent fun s => { s with children := s.children ++ [id] })

/-- Says what type a scope belongs to, and whether it is static. -/
def markMember (t : Scopes) (id : ScopeId) (memberOf : Option TypeId) (isStatic : Bool) : Scopes :=
  t.update id fun s => { s with memberOf, isStatic }

/-- The next token for a block opened inside a scope.  Tokens of one scope differ. -/
def nextBlockName (t : Scopes) (id : ScopeId) : String × Scopes :=
  (s!"inner{(t.get id).blockCount}",
    t.update id fun s => { s with blockCount := s.blockCount + 1 })

/-! ## Paths -/

/-- The scopes from one outwards, at most `n` of them.  Every step outwards is to a
scope that was opened earlier, so no scope is met twice. -/
def pathWithin (t : Scopes) : Nat → ScopeId → List ScopeId
  | 0, _ => []
  | n + 1, id =>
    id :: match t.parent id with
      | none => []
      | some parent => if parent.index < id.index then t.pathWithin n parent else []

/-- The scopes from one to the root, both included. -/
def path (t : Scopes) (id : ScopeId) : List ScopeId := t.pathWithin (id.index + 1) id

/-- Whether `ancestor` is on the path of `id`. -/
def isAncestorOrSelf (t : Scopes) (ancestor id : ScopeId) : Bool := (t.path id).contains ancestor

/-- The start of a path up to the first scope that owns a method, that included. -/
def uptoMethod (t : Scopes) : List ScopeId → List ScopeId
  | [] => []
  | id :: rest => id :: if (t.get id).kind.ownsMethod then [] else t.uptoMethod rest

/-- A scope and the blocks around it, up to the scope whose slots they share. -/
def methodPath (t : Scopes) (id : ScopeId) : List ScopeId := t.uptoMethod (t.path id)

/-- The nearest scope, this one included, that owns a method. -/
def owningMethod (t : Scopes) (id : ScopeId) : ScopeId := (t.methodPath id).getLast?.getD id

/-- The number of slots of the method that a scope belongs to. -/
def numLocals (t : Scopes) (id : ScopeId) : Nat := (t.get (t.owningMethod id)).numLocals

/-- The bindings in the slots of a method, blocks at any depth included, by slot. -/
def methodLocals (t : Scopes) (method : ScopeId) : List Binding :=
  let inside := t.ids.filter fun id => (t.methodPath id).contains method
  let locals := inside.flatMap fun id => (t.get id).entries.filter (·.slot.isSome)
  locals.mergeSort fun a b => decide (a.slot.getD 0 ≤ b.slot.getD 0)

/-! ## Declaring -/

/-- Gives a binding the next slot of its method, if its role lives in one. -/
def takeSlot (t : Scopes) (id : ScopeId) (b : Binding) : Binding × Scopes :=
  if b.role.usesSlot then
    ({ b with slot := some (t.numLocals id) },
      t.update (t.owningMethod id) fun s => { s with numLocals := s.numLocals + 1 })
  else (b, t)

/-- Declares a value.  Its name must be new among the values and types of the
scope; a refusal changes nothing. -/
def declare (t : Scopes) (id : ScopeId) (b : Binding) (span : Span) :
    Except SemanticError (Binding × Scopes) :=
  let scope := t.get id
  if (scope.binding? b.name).isSome || (scope.type? b.name).isSome then
    .error ⟨.duplicateName b.name, span⟩
  else
    let (b, t) := t.takeSlot id b
    .ok (b, t.update id fun s => { s with entries := s.entries ++ [b] })

/-- Declares a type.  Its name must be new among the types and values of the
scope; a refusal changes nothing. -/
def declareType (t : Scopes) (id : ScopeId) (name : String) (type : TypeId) (span : Span) :
    Except SemanticError Scopes :=
  let scope := t.get id
  if (scope.type? name).isSome then .error ⟨.duplicateType name, span⟩
  else if (scope.binding? name).isSome then .error ⟨.duplicateName name, span⟩
  else .ok (t.update id fun s => { s with types := s.types ++ [(name, type)] })

@[simp] theorem size_update (t : Scopes) (id : ScopeId) (f : Scope → Scope) :
    (t.update id f).size = t.size := by
  simp [update, size]

@[simp] theorem size_openScope (t : Scopes) (parent : ScopeId) (kind : ScopeKind)
    (name : String) (unit : UnitId) :
    (t.openScope parent kind name unit).2.size = t.size + 1 := by
  simp [openScope, update, size]

/-- A path never comes back: what is on it was opened no later than its start. -/
theorem index_le_of_mem_pathWithin (t : Scopes) {n : Nat} {id other : ScopeId}
    (h : other ∈ t.pathWithin n id) : other.index ≤ id.index := by
  induction n generalizing id with
  | zero => simp [pathWithin] at h
  | succ n ih =>
    rw [pathWithin, List.mem_cons] at h
    rcases h with rfl | h
    · exact Nat.le_refl _
    · split at h
      · simp at h
      · split at h
        · exact Nat.le_of_lt (Nat.lt_of_le_of_lt (ih h) ‹_›)
        · simp at h

/-- A change is seen at its own index only. -/
theorem get?_update (t : Scopes) (id other : ScopeId) (f : Scope → Scope) :
    (t.update id f).get? other = if id = other then (t.get? other).map f else t.get? other := by
  obtain ⟨i⟩ := id
  obtain ⟨j⟩ := other
  simp [update, get?, Array.getElem?_modify]

end Scopes

end Unnest
