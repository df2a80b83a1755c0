import Unnest.Lowering.Expr

/-!
# Lowering declarations and assignments

Initial values come in two modes.  Where the type copies, every name gets a value
of its own: the first one copies the initial value, which is evaluated once, and
the others copy the first.  Otherwise all names refer to the one value.

The same code initialises local slots and static fields.  It is written once, over
a `Place`: how a name is written and how it is read.
-/

namespace Unnest.Lowering

open Code

variable (a : Analysis) (site : Site)

/-- Somewhere a value can be written and read back without anything below it. -/
structure Place where
  write : Instruction
  read : Instruction
  deriving DecidableEq, Repr

/-- A local slot. -/
def Place.slot (slot : Nat) : Place := ⟨.store slot, .load slot⟩

/-- A static field. -/
def Place.staticField (field : FieldRef) : Place := ⟨.putStatic field, .getStatic field⟩

/-- Gives a place a default value and copies a value into it. -/
def copyInto (type : TypeId) (routine : Signature) (value : Fragment) (p : Place) : Fragment :=
  .ofList (defaultValue a type ++ [p.write, p.read]) ++ callRoutine a type routine false value

/-- Gives places their initial value. -/
def initPlaces (type : TypeId) (mode : WriteMode) (value : Fragment) : List Place → Fragment
  | [] => {}
  | first :: rest =>
    match mode with
    | .copy routine =>
      copyInto a type routine value first ++
        .concat (rest.map (copyInto a type routine (.ofList [first.read])))
    | .store =>
      value ++ .ofList (rest.map fun _ => .dup) ++
        .ofList ((first :: rest).map (·.write))

/-- The slots of bindings; a binding without one is a gap. -/
def slots (bs : List Binding) : List Nat × Nat :=
  let slots := bs.filterMap (·.slot)
  (slots, bs.length - slots.length)

/-- Gives every declared name a default value. -/
def declareSlots : List Binding → Fragment
  | [] => {}
  | b :: bs =>
    (match b.slot with
      | some slot => .ofList (defaultValue a b.type ++ [.store slot])
      | none => .gap) ++ declareSlots bs

/-- The code of a declaration. -/
def varDecl (d : VarDecl) : Fragment :=
  match a.findings.decls.find? d.node with
  | some finding => declareSlots a finding.bindings
  | none => .gap

/-- The code of a local definition. -/
def initDecl (d : InitDecl) : Fragment :=
  match a.findings.decls.find? d.node with
  | some { type, bindings, mode := some mode } =>
    let (slots, missing) := slots bindings
    ⟨[], missing⟩ ++ initPlaces a type mode (expr a site d.value) (slots.map .slot)
  | _ => .gap

/-- The code of a static member's initial value, in the class at `site`. -/
def staticField (f : StaticField) : Fragment :=
  match a.findings.decls.find? f.decl.node with
  | some { type, bindings, mode := some mode } =>
    initPlaces a type mode (expr a site f.init)
      (bindings.map fun b => .staticField (capturedField a site b))
  | _ => .gap

/-- Stores a value through the last link of a target. -/
def storeTarget (target : Chain) (value : Fragment) : Fragment :=
  match target.last?.bind fun l => a.findings.links.find? l.node with
  | some (.load b access) => beforeStore a site access ++ value ++ store a site b access
  | some (.field owner b) =>
    let field := memberField a owner b
    receiver a site target ++ value ++
      .ofList [if b.role = .staticField then .putStatic field else .putField field]
  | _ => .gap

/-- The code of an assignment. -/
def assign (x : Assignment) : Fragment :=
  match a.findings.assigns.find? x.node with
  | some { target, mode := .copy routine } =>
    chain a site x.target ++ callRoutine a target routine false (expr a site x.value)
  | some { target := _, mode := .store } => storeTarget a site x.target (expr a site x.value)
  | none => .gap

/-- The code of a chain as a statement: a value that it yields is dropped. -/
def callStmt (c : Chain) : Fragment :=
  chain a site c ++
    match a.findings.chains.find? c.node with
    | some { type := some _, .. } => .ofList [.pop]
    | some { type := none, .. } => {}
    | none => .gap

end Unnest.Lowering
