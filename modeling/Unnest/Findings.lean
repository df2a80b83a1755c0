import Unnest.Scope.Access
import Unnest.Types.Basic

/-!
# Findings

What analysis decides about a tree is written down here, under the ids of the
nodes, and the tree stays as it is.  Lowering reads it back.  A node about which
nothing is written failed its checks, and a failed check has reported an error.

A table is the list of what was written into it, the latest first.  Reading takes
the latest entry, and since every node is analysed once there is no other: the
keys of a table stay distinct.  The one record that changes later is a routine's,
which is written when the routine is declared and learns its captures when its
body has been analysed.
-/

namespace Unnest

/-- A captured value, and how the scope that makes the capturing class reaches it. -/
structure CaptureSource where
  name : String
  type : TypeId
  access : Access
  deriving DecidableEq, Repr

/-- The routine that an operator calls. -/
structure OperatorCall where
  owner : TypeId
  routine : Signature
  isStatic : Bool
  deriving DecidableEq, Repr

/-- What a call link calls. -/
inductive Callee where
  /-- A routine value in a binding: `f(x)`. -/
  | binding (binding : Binding) (access : Access)
  /-- A routine of the value before the link, or of a type: `a.f(x)`, `T.f(x)`. -/
  | member (isStatic : Bool)
  /-- A routine value in a field of the value before the link, or of a type. -/
  | fieldValue (field : Binding) (isStatic : Bool)
  deriving DecidableEq, Repr

/-- What a link does. -/
inductive LinkFinding where
  /-- Loads a binding: `a`. -/
  | load (binding : Binding) (access : Access)
  /-- Names the type of the static link that follows: `T` in `T.f`. -/
  | typeName (type : TypeId)
  /-- Makes a default value of a user type: `T()`. -/
  | construct (type : TypeId)
  /-- Reads a member of the value before the link, or of a type: `.f`. -/
  | field (owner : TypeId) (field : Binding)
  /-- Calls a routine. -/
  | call (owner : TypeId) (routine : Signature) (callee : Callee)
  deriving DecidableEq, Repr

/-- What a chain yields. -/
structure ChainFinding where
  /-- `none` when the chain ends in a call that yields nothing. -/
  type : Option TypeId
  /-- The binding that the chain ends on, which is what an assignment writes. -/
  binding : Option Binding
  deriving DecidableEq, Repr

/-- How a value gets into a binding. -/
inductive WriteMode where
  /-- The target's own assignment routine copies it. -/
  | copy (routine : Signature)
  /-- The binding refers to it from now on. -/
  | store
  deriving DecidableEq, Repr

/-- What a declaration declares. -/
structure DeclFinding where
  type : TypeId
  bindings : List Binding
  /-- How the initial value is written, where there is one. -/
  mode : Option WriteMode
  deriving DecidableEq, Repr

/-- What an assignment does. -/
structure AssignFinding where
  target : TypeId
  mode : WriteMode
  deriving DecidableEq, Repr

/-- A routine that was declared. -/
structure RoutineFinding where
  signature : Signature
  /-- The binding that holds the routine in the scope around it. -/
  binding : Binding
  unit : UnitId
  scope : ScopeId
  /-- The type that it is a member of. -/
  memberOf : Option TypeId
  isStatic : Bool
  params : List Binding
  /-- What it receives when it is made. -/
  captures : List CaptureSource
  deriving DecidableEq, Repr

/-- A type that was defined. -/
structure TypeFinding where
  type : TypeId
  unit : UnitId
  scope : ScopeId
  /-- The scope of the static initial values. -/
  fieldInit : ScopeId
  /-- What its static fields receive where it is defined. -/
  captures : List CaptureSource
  deriving DecidableEq, Repr

/-- A table under node ids: what was written, the latest first. -/
abbrev NodeTable (α : Type) := List (NodeId × α)

namespace NodeTable

variable {α : Type}

/-- What is written under a node. -/
def find? : NodeTable α → NodeId → Option α
  | [], _ => none
  | (n, a) :: t, node => if n = node then some a else find? t node

/-- Writes under a node. -/
def write (t : NodeTable α) (node : NodeId) (a : α) : NodeTable α := (node, a) :: t

/-- Changes what is written under a node. -/
def change (t : NodeTable α) (node : NodeId) (f : α → α) : NodeTable α :=
  t.map fun p => if p.1 = node then (p.1, f p.2) else p

theorem find?_write (t : NodeTable α) (node other : NodeId) (a : α) :
    (t.write node a).find? other = if node = other then some a else t.find? other := rfl

theorem find?_change (t : NodeTable α) (node other : NodeId) (f : α → α) :
    (t.change node f).find? other =
      if node = other then (t.find? other).map f else t.find? other := by
  induction t with
  | nil => simp [change, find?]
  | cons p t ih =>
    obtain ⟨n, a⟩ := p
    simp only [change, List.map_cons, find?] at ih ⊢
    grind [find?]

end NodeTable

/-- Everything that analysis found out about a tree. -/
structure Findings where
  exprTypes : NodeTable TypeId := []
  operators : NodeTable OperatorCall := []
  links : NodeTable LinkFinding := []
  chains : NodeTable ChainFinding := []
  blocks : NodeTable ScopeId := []
  decls : NodeTable DeclFinding := []
  assigns : NodeTable AssignFinding := []
  routines : NodeTable RoutineFinding := []
  types : NodeTable TypeFinding := []
  deriving Repr, Inhabited

end Unnest
