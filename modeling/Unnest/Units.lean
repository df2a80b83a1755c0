import Unnest.Id
import Unnest.Reserved

/-!
# Output units

Emitted code has neither nested classes nor nested routines: every type and every
routine becomes a unit of its own at the top level.  A unit's name starts with its
lineage, the names of the units around it, so that definitions of one name in
different places go to different files.

A block is planned too.  It emits nothing of its own, but the definitions inside
it carry its token in their lineage.
-/

namespace Unnest

/-- What a unit is planned for. -/
inductive UnitKind where
  | main
  | type
  | routine
  /-- A token in the names of what is inside; its code goes to its parent. -/
  | block
  deriving DecidableEq, Repr, Inhabited

/-- A planned unit. -/
structure UnitPlan where
  name : String
  /-- The names of the units around it, each followed by the separator. -/
  lineage : String
  /-- Where the unit is put, relative to the output. -/
  directory : String
  parent : Option UnitId
  kind : UnitKind
  /-- The type that a type's unit implements. -/
  ownerType : Option TypeId
  deriving DecidableEq, Repr, Inhabited

/-- What stands between the names in a lineage. -/
def UnitPlan.separator : String := "$"

/-- The name under which other units refer to this one. -/
def UnitPlan.path (u : UnitPlan) : String := u.directory ++ u.lineage ++ u.name

/-- The file of the class at a path, relative to the output. -/
def fileOfPath (path : String) : String := path ++ ".j"

/-- The planned units of a program. -/
structure Units where
  plans : Array UnitPlan
  /-- The directory of every unit but the main one. -/
  binDirectory : String
  deriving Repr, Inhabited

namespace Units

/-- The directory that holds everything but the main unit of a program. -/
def binDirectoryOf (program : String) : String := program ++ "_bin/"

/-- The plan of a program with nothing but its main unit. -/
def ofProgram (program : String) : Units where
  plans := #[{ name := program, lineage := "", directory := "", parent := none,
               kind := .main, ownerType := none }]
  binDirectory := binDirectoryOf program

/-- The main unit. -/
def mainId : UnitId := ⟨0⟩

/-- The unit at an index, if there is one. -/
def get? (t : Units) (id : UnitId) : Option UnitPlan := t.plans[id.index]?

/-- The unit at an index; beyond the table, a unit without a name. -/
def get (t : Units) (id : UnitId) : UnitPlan := (t.get? id).getD default

/-- The number of planned units. -/
def size (t : Units) : Nat := t.plans.size

/-- The path of the class that every routine extends. -/
def routineBase (t : Units) : String := t.binDirectory ++ Reserved.routine

/-- The path of a unit. -/
def path (t : Units) (id : UnitId) : String := (t.get id).path

/-- The lineage of the units planned inside `id`. -/
def lineageInside (t : Units) (id : UnitId) : String :=
  (t.get id).lineage ++ (t.get id).name ++ UnitPlan.separator

/-- Plans a unit inside `parent`. -/
def plan (t : Units) (parent : UnitId) (name : String) (kind : UnitKind)
    (ownerType : Option TypeId) : UnitId × Units :=
  let unit : UnitPlan :=
    { name, lineage := t.lineageInside parent, directory := t.binDirectory,
      parent := some parent, kind, ownerType }
  (⟨t.size⟩, { t with plans := t.plans.push unit })

@[simp] theorem size_ofProgram (program : String) : (ofProgram program).size = 1 := rfl

@[simp] theorem size_plan (t : Units) (parent : UnitId) (name : String) (kind : UnitKind)
    (ownerType : Option TypeId) : (t.plan parent name kind ownerType).2.size = t.size + 1 := by
  simp [plan, size]

@[simp] theorem binDirectory_plan (t : Units) (parent : UnitId) (name : String)
    (kind : UnitKind) (ownerType : Option TypeId) :
    (t.plan parent name kind ownerType).2.binDirectory = t.binDirectory := rfl

end Units

end Unnest
