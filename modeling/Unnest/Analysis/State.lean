import Unnest.Findings
import Unnest.Scope.Access
import Unnest.Types.Lookup
import Unnest.Types.Predefined
import Unnest.Units

/-!
# The state of an analysis

Analysis walks a tree once and grows four tables on the way: scopes, types, planned
units and findings.  None of them ever shrinks.  A failed check reports an error
and leaves its construct without a finding; the walk always goes on to the end.

The state is also the result.  This module holds it together with the steps that
the walk is made of, so that what a step can change is said in one place.
-/

namespace Unnest

/-- The state of an analysis, and its result. -/
structure Analysis where
  scopes : Scopes
  types : TypeTable
  units : Units
  findings : Findings := {}
  diagnostics : Diagnostics := {}
  /-- The scope that the walk is in. -/
  current : ScopeId := Scopes.rootId
  deriving Repr, Inhabited

namespace Analysis

/-- Whether any check failed. -/
def hasErrors (a : Analysis) : Bool := !a.diagnostics.isEmpty

/-- The errors in the order in which they were reported. -/
def errors (a : Analysis) : List SemanticError := a.diagnostics.errors

/-- The tables of a program before anything is declared. -/
def blank (program : String) : Analysis :=
  let units := Units.ofProgram program
  { scopes := .root program Units.mainId
    types := .predefined units.routineBase
    units }

end Analysis

/-- A step of an analysis. -/
abbrev Analyze := StateM Analysis

namespace Analyze

/-- Adds an error. -/
def reportError (e : SemanticError) : Analyze Unit :=
  modify fun a => { a with diagnostics := a.diagnostics.report e }

/-- Adds an error with this fault at this place. -/
def report (fault : Fault) (span : Span) : Analyze Unit := reportError ⟨fault, span⟩

/-- Changes the scopes. -/
def updateScopes (f : Scopes → Scopes) : Analyze Unit :=
  modify fun a => { a with scopes := f a.scopes }

/-- Changes the types. -/
def updateTypes (f : TypeTable → TypeTable) : Analyze Unit :=
  modify fun a => { a with types := f a.types }

/-- Changes the findings. -/
def record (f : Findings → Findings) : Analyze Unit :=
  modify fun a => { a with findings := f a.findings }

/-- The scope that the walk is in. -/
def currentScope : Analyze ScopeId := return (← get).current

/-- The types known so far. -/
def types : Analyze TypeTable := return (← get).types

/-- The name of a type. -/
def typeName (type : TypeId) : Analyze String := return (← get).types.name type

/-- Runs a part of the walk in another scope and comes back. -/
def inScope {α : Type} (scope : ScopeId) (part : Analyze α) : Analyze α := do
  let outer ← currentScope
  modify fun a => { a with current := scope }
  let result ← part
  modify fun a => { a with current := outer }
  return result

/-- Opens a scope inside the current one, without going there. -/
def openScope (kind : ScopeKind) (name : String) (unit : UnitId) : Analyze ScopeId :=
  modifyGet fun a =>
    let (id, scopes) := a.scopes.openScope a.current kind name unit
    (id, { a with scopes })

/-- Plans a unit inside the one that the current scope's code goes to. -/
def planUnit (name : String) (kind : UnitKind) (ownerType : Option TypeId) : Analyze UnitId :=
  modifyGet fun a =>
    let (id, units) := a.units.plan (a.scopes.get a.current).unit name kind ownerType
    (id, { a with units })

/-- Adds a type. -/
def addType (d : TypeDecl) : Analyze TypeId :=
  modifyGet fun a =>
    let (id, types) := a.types.add d
    (id, { a with types })

/-- Adds the type of routine values with one signature. -/
def addRoutineType (params : List TypeId) (result : Option TypeId) : Analyze TypeId :=
  modifyGet fun a =>
    let (id, types) := a.types.addRoutineType params result
    (id, { a with types })

/-- Declares a value in a scope, or reports why not. -/
def declare (scope : ScopeId) (b : Binding) (span : Span) : Analyze (Option Binding) := do
  match (← get).scopes.declare scope b span with
  | .ok (b, scopes) =>
    updateScopes fun _ => scopes
    return some b
  | .error e =>
    reportError e
    return none

/-- Declares a type in a scope, or reports why not. -/
def declareType (scope : ScopeId) (name : String) (type : TypeId) (span : Span) :
    Analyze Bool := do
  match (← get).scopes.declareType scope name type span with
  | .ok scopes =>
    updateScopes fun _ => scopes
    return true
  | .error e =>
    reportError e
    return false

/-- The type that a name means in the current scope. -/
def resolveType (name : String) : Analyze (Option TypeId) := do
  let a ← get
  return a.scopes.resolveType a.current name

/-- Looks a name up from a scope.  What has to be captured is recorded there. -/
def lookupFrom (scope : ScopeId) (name : String) : Analyze Lookup := do
  let result := (← get).scopes.lookup scope name
  if let .found r .captured := result then
    updateScopes fun t => t.capture scope r.binding r.owner
  return result

/-- Looks a name up from the current scope. -/
def lookup (name : String) : Analyze Lookup := do lookupFrom (← currentScope) name

/-- Declares values of the root one after the other. -/
def declareRoutines : List (String × TypeId) → Analyze Unit
  | [] => return ()
  | (name, type) :: rest => do
    discard <| declare Scopes.rootId { name, type, role := .routine } .unknown
    declareRoutines rest

/-- Declares types of the root one after the other. -/
def declareTypes : List (String × TypeId) → Analyze Unit
  | [] => return ()
  | (name, type) :: rest => do
    discard <| declareType Scopes.rootId name type .unknown
    declareTypes rest

/-- Declares what every program can use without defining it. -/
def predefine : Analyze Unit := do
  declareTypes Predefined.namedTypes
  declareRoutines Predefined.routines

end Analyze

/-- The state in which the walk over a program starts. -/
def Analysis.initial (program : String) : Analysis :=
  (Analyze.predefine.run (.blank program)).2

end Unnest
