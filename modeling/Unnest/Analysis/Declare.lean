import Unnest.Analysis.Expr
import Unnest.Analysis.Written

/-!
# Declaring values, routines and types

Everything here decides one declaration and comes before any body is analysed.  A
declaration is either accepted, and then has a finding, or rejected, and then has
reported why and declared nothing.  Declaring several names of one type is the
exception that the language makes: each name stands for itself, and a name that is
taken is reported and left out.
-/

namespace Unnest

/-- Whose member a routine is. -/
structure Membership where
  type : TypeId
  isStatic : Bool
  deriving DecidableEq, Repr

/-- A routine whose signature was accepted and whose body is still to come. -/
structure DeclaredRoutine where
  scope : ScopeId
  result : Option TypeId
  deriving DecidableEq, Repr

namespace Analyze

/-- Records what a declaration declares. -/
def recordDecl (node : NodeId) (f : DeclFinding) : Analyze Unit :=
  record fun t => { t with decls := t.decls.write node f }

/-! ## Names -/

/-- Reports why a name cannot be declared in the current scope, if it cannot: it is
declared there already, or it is the name of a visible type. -/
def refuseName (name : Ident) : Analyze Bool := do
  let a ← get
  if ((a.scopes.get a.current).binding? name.name).isSome then
    report (.duplicateName name.name) name.span
    return true
  else if (a.scopes.resolveType a.current name.name).isSome then
    report (.nameIsType name.name) name.span
    return true
  else return false

/-- Declares names of one type in the current scope; those that are refused are
left out. -/
def declareNames (type : TypeId) (role : Role) (owner : Option TypeId) :
    List Ident → Analyze (List Binding)
  | [] => return []
  | name :: rest => do
    let declared ←
      if ← refuseName name then pure none
      else declare (← currentScope) { name := name.name, type, role, owner } name.span
    let others ← declareNames type role owner rest
    return declared.toList ++ others

/-- Declares names with default values. -/
def varDecl (role : Role) (owner : Option TypeId) (d : VarDecl) : Analyze (List Binding) := do
  let some type ← resolve d.type | return []
  let bindings ← declareNames type role owner d.names
  recordDecl d.node { type, bindings, mode := none }
  return bindings

/-! ## Initial values -/

/-- How a value of one type is written into a binding of another, when it may be. -/
def writeMode (t : TypeTable) (target value : TypeId) : WriteMode :=
  match t.lookup target false Reserved.assignment [value] with
  | some routine => .copy routine
  | none => .store

/-- How an initial value is written, or a report that it cannot be. -/
def initialMode (target value : TypeId) (span : Span) : Analyze (Option WriteMode) := do
  let t ← types
  if t.assignable true target value then return some (writeMode t target value)
  else
    report (.conversion (t.name value) (t.name target)) span
    return none

/-- Declares names with an initial value, once its type and the declared one are
known; both have been analysed even if one of them failed. -/
def declareInit (node : NodeId) (role : Role) (owner : Option TypeId) (names : List Ident)
    (type value : Option TypeId) (valueSpan : Span) : Analyze (List Binding) := do
  let (some type, some value) := (type, value) | return []
  let some mode ← initialMode type value valueSpan | return []
  let bindings ← declareNames type role owner names
  recordDecl node { type, bindings, mode := some mode }
  return bindings

/-- A local definition.  Its names are declared after its value, which therefore
cannot use them. -/
def initDecl (d : InitDecl) : Analyze Unit := do
  let type ← resolve d.type
  let value ← operand d.value
  discard <| declareInit d.node .var none d.names type value d.value.span

/-- A static member with its initial value.  The value is analysed in the scope of
the initial values and the names are declared in the type's own. -/
def staticField (type : TypeId) (fieldInit : ScopeId) (f : StaticField) : Analyze Unit := do
  let value ← inScope fieldInit (operand f.init)
  let declared ← resolve f.decl.type
  let bindings ←
    declareInit f.decl.node .staticField (some type) f.decl.names declared value f.init.span
  updateTypes fun t => t.update type fun d => d.addFields true bindings

/-- Static members, in order. -/
def staticFields (type : TypeId) (fieldInit : ScopeId) : List StaticField → Analyze Unit
  | [] => return ()
  | f :: fs => do
    staticField type fieldInit f
    staticFields type fieldInit fs

/-- Instance members that hold data, in order. -/
def instanceFields (type : TypeId) : List VarDecl → Analyze Unit
  | [] => return ()
  | d :: ds => do
    let bindings ← varDecl .field (some type) d
    updateTypes fun t => t.update type fun d => d.addFields false bindings
    instanceFields type ds

/-! ## Routines -/

/-- Whether a type has a routine of this name and the other staticness. -/
def conflicts (t : TypeTable) (m : Membership) (name : String) : Bool :=
  ((t.get m.type).routinesOf (!m.isStatic)).any (·.name == name)

/-- Reports that a member routine takes the name of one of the other staticness. -/
def refuseMember (member : Option Membership) (name : Ident) (args : List TypeId) :
    Analyze Bool := do
  let t ← types
  match member with
  | none => return false
  | some m =>
    if conflicts t m name.name then
      report (.duplicateRoutine name.name (t.describeArgs args)) name.span
      return true
    else return false

/-- The binding that holds a routine: a member of its type, or a value of its own. -/
def routineBinding (member : Option Membership) (name : String) (type : TypeId) : Binding :=
  match member with
  | some m => { name, type, role := .member m.isStatic, owner := some m.type }
  | none => { name, type, role := .routine }

/-- Declares the parameters of a routine in its scope; a repeated one is left out. -/
def declareParams (scope : ScopeId) : List (Param × TypeId) → Analyze (List Binding)
  | [] => return []
  | (p, type) :: rest => do
    let declared ← declare scope { name := p.name.name, type, role := .param } p.name.span
    let others ← declareParams scope rest
    return declared.toList ++ others

/-- Adds a routine to the type it is a member of. -/
def addMember (member : Option Membership) (s : Signature) : Analyze Unit :=
  match member with
  | some m => updateTypes fun t => t.update m.type fun d => d.addRoutine m.isStatic s
  | none => return ()

/-- Plans the unit of an accepted routine, opens its scope, declares its parameters
and records it. -/
def openRoutine (r : RoutineDef) (member : Option Membership) (signature : Signature)
    (binding : Binding) : Analyze DeclaredRoutine := do
  let unit ← planUnit r.name.name .routine none
  let scope ← openScope .routine r.name.name unit
  let memberOf := member.map (·.type)
  let isStatic := (member.map (·.isStatic)).getD false
  updateScopes fun t => t.markMember scope memberOf isStatic
  let params ← declareParams scope (r.params.zip signature.params)
  record fun f => { f with
    routines := f.routines.write r.node
      { signature, binding, unit, scope, memberOf, isStatic, params, captures := [] } }
  return { scope, result := signature.result }

/-- Decides a routine's signature and name.  The body is left for later, so that
members of one type see each other. -/
def declareRoutine (member : Option Membership) (r : RoutineDef) :
    Analyze (Option DeclaredRoutine) := do
  let params ← resolveAll (r.params.map (·.type))
  let result ← resolveResult r.result
  let (some params, some result) := (params, result) | return none
  if ← refuseMember member r.name params then return none
  if ← refuseName r.name then return none
  let type ← addRoutineType params result
  let some binding ←
    declare (← currentScope) (routineBinding member r.name.name type) r.name.span | return none
  let signature : Signature := ⟨r.name.name, params, result⟩
  addMember member signature
  return some (← openRoutine r member signature binding)

/-- Decides the signatures of member routines, in order. -/
def declareMembers (member : Membership) :
    List RoutineDef → Analyze (List (Option DeclaredRoutine))
  | [] => return []
  | r :: rs => do
    let first ← declareRoutine (some member) r
    let rest ← declareMembers member rs
    return first :: rest

/-! ## Types -/

/-- Reports why a type cannot be defined in the current scope, if it cannot: its
name is a visible type, or a visible value. -/
def refuseType (name : Ident) : Analyze Bool := do
  let a ← get
  if (a.scopes.resolveType a.current name.name).isSome then
    report (.duplicateType name.name) name.span
    return true
  else if (a.scopes.resolveValue a.current name.name).isSome then
    report (.duplicateName name.name) name.span
    return true
  else return false

/-- Declares a type under a new name, plans its unit and opens its scopes. -/
def openType (name : Ident) : Analyze (Option TypeFinding) := do
  if ← refuseType name then return none
  let type ← addType { name := name.name, form := .user }
  unless ← declareType (← currentScope) name.name type name.span do return none
  let unit ← planUnit name.name .type (some type)
  let path := (← get).units.path unit
  updateTypes fun t => t.setPath type path
  let scope ← openScope .type name.name unit
  updateScopes fun t => t.markMember scope (some type) false
  let fieldInit ← inScope scope (openScope .fieldInit name.name unit)
  updateScopes fun t => t.markMember fieldInit (some type) false
  return some { type, unit, scope, fieldInit, captures := [] }

/-! ## Captures -/

/-- Where the current scope finds each of these names. -/
def sourcesOf : List (String × TypeId) → Analyze (List CaptureSource)
  | [] => return []
  | (name, type) :: rest => do
    let source : Option CaptureSource ←
      match ← lookup name with
      | .found _ access => pure (some { name, type, access })
      | .hidden | .missing => pure none
    let others ← sourcesOf rest
    return source.toList ++ others

/-- Where the current scope finds what `scope` captured.  The lookups can capture
in their turn, on the scopes further out. -/
def captureSources (scope : ScopeId) : Analyze (List CaptureSource) := do
  let captures := ((← get).scopes.get scope).captures
  sourcesOf (captures.map fun c => (c.name, c.binding.type))

/-- Reports that a definition is closed by another name than its own. -/
def checkClosing (fault : String → String → Fault) (name closing : Ident) : Analyze Unit := do
  if closing.name ≠ name.name then report (fault name.name closing.name) closing.span

end Analyze

end Unnest
