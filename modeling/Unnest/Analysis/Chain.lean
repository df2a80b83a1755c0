import Unnest.Analysis.State
import Unnest.Tree.Basic

/-!
# Links and operators

A chain is resolved link by link.  The first link names a binding or a type; every
later one is looked up on the type that the links before it produce, as a field
when it is bare and as a routine when it is called.

This module decides single links and operators.  What they need to know of their
parts comes as an argument: the types of an operator's operands, and for a call the
step that analyses its arguments, since arguments are analysed only once the name
in front of them has been found.
-/

namespace Unnest

/-- What the links so far produce. -/
inductive Produced where
  /-- A value, held by the binding if the last link names one. -/
  | value (type : TypeId) (binding : Option Binding)
  /-- Nothing: the last link calls a routine without a result. -/
  | nothing
  /-- No value but a type, for a static link to follow. -/
  | typeName (type : TypeId)
  deriving DecidableEq, Repr

namespace Produced

/-- What calling a routine produces. -/
def ofCall (routine : Signature) : Produced :=
  match routine.result with
  | some type => .value type none
  | none => .nothing

/-- The type that the next link is looked up on, and whether statically. -/
def receiver? : Produced → Option (TypeId × Bool)
  | .value type _ => some (type, false)
  | .typeName type => some (type, true)
  | .nothing => none

end Produced

/-- The types of arguments, or `none` if one of them has no value. -/
abbrev ArgumentTypes := Analyze (Option (List TypeId))

namespace Analyze

/-- Records what a link does. -/
def recordLink (node : NodeId) (f : LinkFinding) : Analyze Unit :=
  record fun t => { t with links := t.links.write node f }

/-- Records a call and says what it produces. -/
def recordCall (node : NodeId) (owner : TypeId) (routine : Signature) (callee : Callee) :
    Analyze (Option Produced) := do
  recordLink node (.call owner routine callee)
  return some (.ofCall routine)

/-- Reports that no routine takes these arguments. -/
def reportNoRoutine (name : String) (args : List TypeId) (owner : Option TypeId) (span : Span) :
    Analyze (Option Produced) := do
  let t ← types
  report (.routineNotFound name (t.describeArgs args) (owner.map t.name)) span
  return none

/-- Reports that a name means nothing. -/
def reportUndeclared (name : String) (span : Span) : Analyze (Option Produced) := do
  report (.undeclared name none) span
  return none

/-! ## The first link -/

/-- A bare first link: a binding, or a type that a static link follows. -/
def bareHead (node : NodeId) (name : String) (span : Span) (hasMore : Bool) :
    Analyze (Option Produced) := do
  match ← lookup name with
  | .found r access =>
    recordLink node (.load r.binding access)
    return some (.value r.binding.type (some r.binding))
  | .hidden => reportUndeclared name span
  | .missing =>
    match ← resolveType name with
    | none => reportUndeclared name span
    | some type =>
      if hasMore then
        recordLink node (.typeName type)
        return some (.typeName type)
      else
        report (.typeAsValue name) span
        return none

/-- A type that is called: a static call routine, or else the default value of a
user type when there are no arguments. -/
def callType (node : NodeId) (type : TypeId) (span : Span) (args : ArgumentTypes) :
    Analyze (Option Produced) := do
  let some args ← args | return none
  let t ← types
  match t.lookup type true Reserved.call args with
  | some routine => recordCall node type routine (.member true)
  | none =>
    if args = [] ∧ t.form type = .user then
      recordLink node (.construct type)
      return some (.value type none)
    else reportNoRoutine Reserved.call args (some type) span

/-- A first link that is called: a routine value in a binding, or a type. -/
def callHead (node : NodeId) (name : String) (span : Span) (args : ArgumentTypes) :
    Analyze (Option Produced) := do
  match ← lookup name with
  | .found r access =>
    let some args ← args | return none
    match (← types).lookup r.binding.type false Reserved.call args with
    | some routine => recordCall node r.binding.type routine (.binding r.binding access)
    | none => reportNoRoutine name args none span
  | .hidden => reportUndeclared name span
  | .missing =>
    match ← resolveType name with
    | none => reportUndeclared name span
    | some type => callType node type span args

/-! ## Later links -/

/-- The member routines of a type as one value. -/
def memberRoutine (owner : TypeId) (isStatic : Bool) (name : String) :
    Analyze (Option Binding) :=
  modifyGet fun a =>
    let (b, types) := a.types.memberRoutine owner isStatic name
    (b, { a with types })

/-- The member that a bare link reads: a field, or else the routines of that name. -/
def readMember (owner : TypeId) (isStatic : Bool) (name : String) : Analyze (Option Binding) := do
  match (← types).lookupField owner isStatic name with
  | some field => return some field
  | none => memberRoutine owner isStatic name

/-- A bare link on a type. -/
def bareMember (owner : TypeId) (isStatic : Bool) (node : NodeId) (name : String)
    (span : Span) : Analyze (Option Produced) := do
  match ← readMember owner isStatic name with
  | some field =>
    recordLink node (.field owner field)
    return some (.value field.type (some field))
  | none =>
    let ownerName ← typeName owner
    if isStatic then report (.undeclaredStatic name ownerName) span
    else report (.undeclared name (some ownerName)) span
    return none

/-- The field of a type whose routine value takes exactly these arguments. -/
def callableField (t : TypeTable) (owner : TypeId) (isStatic : Bool) (name : String)
    (args : List TypeId) : Option (Binding × Signature) := do
  let field ← t.lookupField owner isStatic name
  let routine ← t.lookup field.type false Reserved.call args
  return (field, routine)

/-- A called link on a type: a routine of the type, or a routine value in a field. -/
def callMember (owner : TypeId) (isStatic : Bool) (node : NodeId) (name : String)
    (span : Span) (args : ArgumentTypes) : Analyze (Option Produced) := do
  let some args ← args | return none
  let t ← types
  match t.lookup owner isStatic name args with
  | some routine => recordCall node owner routine (.member isStatic)
  | none =>
    match callableField t owner isStatic name args with
    | some (field, routine) =>
      recordCall node field.type routine (.fieldValue field isStatic)
    | none => reportNoRoutine name args (some owner) span

/-- A later link, once it is known what it is looked up on; nothing can be looked
up on nothing. -/
def onReceiver (before : Produced) (span : Span)
    (link : TypeId → Bool → Analyze (Option Produced)) : Analyze (Option Produced) :=
  match before.receiver? with
  | some (owner, isStatic) => link owner isStatic
  | none => do
    report .noValue span
    return none

/-- The end of a chain: records what it yields.  A type is no value. -/
def finishChain (node : NodeId) (span : Span) (last : Produced) : Analyze (Option TypeId) := do
  let finish (f : ChainFinding) : Analyze (Option TypeId) := do
    record fun t => { t with chains := t.chains.write node f }
    return f.type
  match last with
  | .value type binding => finish ⟨some type, binding⟩
  | .nothing => finish ⟨none, none⟩
  | .typeName type =>
    report (.typeAsValue (← typeName type)) span
    return none

/-! ## Operators -/

/-- An operator on operands of known types: the routine that `owner` has for it. -/
def operator (node : NodeId) (name : String) (owner : TypeId) (isStatic : Bool)
    (args : List TypeId) (span : Span) : Analyze (Option TypeId) := do
  let t ← types
  match t.lookup owner isStatic name args with
  | some routine =>
    record fun f => { f with operators := f.operators.write node ⟨owner, routine, isStatic⟩ }
    return routine.result
  | none =>
    report (.routineNotFound name (t.describeArgs args) (some (t.name owner))) span
    return none

/-- Where a value is needed: reports that there is none, unless the part that
failed to produce it has reported something itself. -/
def required (span : Span) (part : Analyze (Option TypeId)) : Analyze (Option TypeId) := do
  let before := (← get).diagnostics.count
  let type ← part
  if type.isNone then
    if !(← get).diagnostics.hasErrorsSince before then report .noValue span
  return type

/-- Records the type of an expression that has one. -/
def typed (node : NodeId) (part : Analyze (Option TypeId)) : Analyze (Option TypeId) := do
  let type ← part
  if let some type := type then
    record fun f => { f with exprTypes := f.exprTypes.write node type }
  return type

end Analyze

end Unnest
