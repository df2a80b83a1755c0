import Unnest.Lowering.Program
import Unnest.Proofs.Code.Machine

/-!
# Code without jumps

Only statements with bodies make jumps and labels.  Everything else that lowering
writes, from the code of an expression to the code that makes a routine, is executed
from its start to its end.  The code of an expression writes nothing, either (`isPure_expr`).
-/

namespace Unnest

namespace Code

/-- Whether an instruction writes to a slot or to a field. -/
def Instruction.isWrite : Instruction → Bool
  | .store _ | .putField _ | .putStatic _ => true
  | _ => false

/-- Whether an instruction is neither a write nor a jump, a label or a return. -/
def Instruction.isPure : Instruction → Bool
  | .store _ | .putField _ | .putStatic _ => false
  | .jumpIfZero _ | .jump _ | .label _ | .returnValue | .returnNothing => false
  | _ => true

theorem Instruction.isPlain_of_isPure {i : Instruction} (h : i.isPure = true) :
    i.isPlain = true := by
  cases i <;> first | rfl | exact absurd h Bool.false_ne_true

theorem Instruction.isWrite_of_isPure {i : Instruction} (h : i.isPure = true) :
    i.isWrite = false := by
  cases i <;> first | rfl | exact absurd h Bool.false_ne_true

/-- Code without jumps, labels and returns that writes nothing. -/
def IsPure (code : List Instruction) : Prop := ∀ i ∈ code, i.isPure = true

theorem IsPure.isPlain {code : List Instruction} (h : IsPure code) : IsPlain code :=
  fun i hi => Instruction.isPlain_of_isPure (h i hi)

@[simp] theorem isPure_nil : IsPure [] := List.forall_mem_nil _

@[simp] theorem isPure_append {c d : List Instruction} : IsPure (c ++ d) ↔ IsPure c ∧ IsPure d :=
  List.forall_mem_append

@[simp] theorem isPure_cons {i : Instruction} {c : List Instruction} :
    IsPure (i :: c) ↔ i.isPure = true ∧ IsPure c := List.forall_mem_cons

end Code

open Code

/-- A fragment without jumps, labels and returns. -/
def Fragment.IsPlain (f : Fragment) : Prop := Code.IsPlain f.code

/-- A fragment that writes nothing, either. -/
def Fragment.IsPure (f : Fragment) : Prop := Code.IsPure f.code

namespace Fragment

theorem IsPure.isPlain {f : Fragment} (h : f.IsPure) : f.IsPlain := Code.IsPure.isPlain h

@[simp] theorem isPure_empty : IsPure {} := Code.isPure_nil

@[simp] theorem isPure_gap : IsPure gap := Code.isPure_nil

@[simp] theorem isPure_ofList {code : List Instruction} :
    (ofList code).IsPure ↔ Code.IsPure code := Iff.rfl

@[simp] theorem isPure_append {f g : Fragment} : (f ++ g).IsPure ↔ f.IsPure ∧ g.IsPure :=
  Code.isPure_append

@[simp] theorem isPlain_empty : IsPlain {} := Code.isPlain_nil

@[simp] theorem isPlain_gap : IsPlain gap := Code.isPlain_nil

@[simp] theorem isPlain_ofList {code : List Instruction} :
    (ofList code).IsPlain ↔ Code.IsPlain code := Iff.rfl

@[simp] theorem isPlain_append {f g : Fragment} :
    (f ++ g).IsPlain ↔ f.IsPlain ∧ g.IsPlain := Code.isPlain_append

theorem isPlain_concat {fs : List Fragment} (h : ∀ f ∈ fs, f.IsPlain) : (concat fs).IsPlain := by
  induction fs with
  | nil => exact isPlain_empty
  | cons f fs ih =>
    rw [List.forall_mem_cons] at h
    exact isPlain_append.mpr ⟨h.1, ih h.2⟩

end Fragment

namespace Lowering

variable (a : Analysis) (site : Site)

/-! ## Values and calls -/

@[simp] theorem isPure_defaultValue (type : TypeId) : Code.IsPure (defaultValue a type) := by
  unfold defaultValue makeObject
  split <;> simp [Instruction.isPure]

@[simp] theorem isPure_loadInstance : (loadInstance a site).IsPure := by
  unfold loadInstance
  split <;> simp [Instruction.isPure]

@[simp] theorem isPure_load (b : Binding) (access : Access) : (load a site b access).IsPure := by
  cases access <;> simp only [load]
  case captured => split <;> simp [Instruction.isPure]
  case enclosing => split <;> simp [Instruction.isPure]
  all_goals simp [Instruction.isPure]

theorem isPure_callRoutine (owner : TypeId) (routine : Signature) (isStatic : Bool)
    {args : Fragment} (h : args.IsPure) : (callRoutine a owner routine isStatic args).IsPure := by
  unfold callRoutine invokeRoutine
  cases isStatic <;> dsimp only <;> split <;> simp [Instruction.isPure, h]

@[simp] theorem isPure_readMember (owner : TypeId) (b : Binding) (isStatic : Bool) :
    Code.IsPure (readMember a owner b isStatic) := by
  unfold readMember
  dsimp only
  split <;> simp [Instruction.isPure]

@[simp] theorem isPure_loadCaptures (cs : List CaptureSource) :
    (loadCaptures a site cs).IsPure := by
  induction cs with
  | nil => exact Fragment.isPure_empty
  | cons c cs ih => simp [loadCaptures, ih]

@[simp] theorem isPure_makeRoutine (r : RoutineFinding) : (makeRoutine a site r).IsPure := by
  unfold makeRoutine
  dsimp only
  split <;> simp [Instruction.isPure]

@[simp] theorem isPure_initType (t : TypeFinding) : (initType a site t).IsPure := by
  simp [initType, Instruction.isPure]

@[simp] theorem isPlain_defaultValue (type : TypeId) : Code.IsPlain (defaultValue a type) :=
  (isPure_defaultValue a type).isPlain

@[simp] theorem isPlain_loadInstance : (loadInstance a site).IsPlain :=
  (isPure_loadInstance a site).isPlain

@[simp] theorem isPlain_makeRoutine (r : RoutineFinding) : (makeRoutine a site r).IsPlain :=
  (isPure_makeRoutine a site r).isPlain

theorem isPlain_initType (t : TypeFinding) : (initType a site t).IsPlain :=
  (isPure_initType a site t).isPlain

/-! ## Expressions -/

theorem isPure_linkAt (node : NodeId) {args : Fragment} (h : args.IsPure) :
    (linkAt a site node args).IsPure := by
  unfold linkAt
  split
  · rename_i f _
    rcases f with ⟨b, access⟩ | _ | type | ⟨owner, b⟩ | ⟨owner, routine, callee⟩
    · exact isPure_load a site b access
    · exact Fragment.isPure_empty
    · exact isPure_defaultValue a type
    · exact isPure_readMember a owner b false
    · cases callee with
      | binding b access =>
        exact Fragment.isPure_append.mpr
          ⟨isPure_load a site b access, isPure_callRoutine a owner routine false h⟩
      | member isStatic => exact isPure_callRoutine a owner routine isStatic h
      | fieldValue b isStatic =>
        simp only [linkCode]
        split
        · exact Fragment.isPure_append.mpr
            ⟨isPure_readMember a _ b isStatic, isPure_callRoutine a owner routine false h⟩
        · exact Fragment.isPure_gap
  · exact Fragment.isPure_gap

mutual

theorem isPure_expr : ∀ e : Expr, (expr a site e).IsPure
  | .literal _ value _ => by
    rw [expr]
    cases value <;> simp [literal, makeConstant, Instruction.isPure]
  | .binary _ _ left right _ => by
    rw [expr]
    split
    · exact Fragment.isPure_append.mpr
        ⟨isPure_expr left, isPure_callRoutine a _ _ _ (isPure_expr right)⟩
    · exact Fragment.isPure_gap
  | .unary _ _ operand _ => by
    rw [expr]
    split
    · exact isPure_callRoutine a _ _ _ (isPure_expr operand)
    · exact Fragment.isPure_gap
  | .paren _ inner _ => by
    rw [expr]
    exact isPure_expr inner
  | .chain c => by
    rw [expr]
    exact isPure_chain c

theorem isPure_chain : ∀ c : Chain, (chain a site c).IsPure
  | ⟨_, ls, _⟩ => by
    rw [chain]
    exact isPure_links ls

theorem isPure_link : ∀ l : Link, (link a site l).IsPure
  | .bare node _ _ => by
    rw [link]
    exact isPure_linkAt a site node Fragment.isPure_empty
  | .call node _ args _ => by
    rw [link]
    exact isPure_linkAt a site node (isPure_exprs args)

theorem isPure_links : ∀ ls : List Link, (links a site ls).IsPure
  | [] => by
    rw [links]
    exact Fragment.isPure_empty
  | l :: ls => by
    rw [links]
    exact Fragment.isPure_append.mpr ⟨isPure_link l, isPure_links ls⟩

theorem isPure_exprs : ∀ es : List Expr, (exprs a site es).IsPure
  | [] => by
    rw [exprs]
    exact Fragment.isPure_empty
  | e :: es => by
    rw [exprs]
    exact Fragment.isPure_append.mpr ⟨isPure_expr e, isPure_exprs es⟩

end

theorem isPlain_expr (e : Expr) : (expr a site e).IsPlain := (isPure_expr a site e).isPlain

/-! ## Declarations and assignments -/

@[simp] theorem isPlain_beforeStore (access : Access) : (beforeStore a site access).IsPlain := by
  cases access <;> simp only [beforeStore]
  case captured => split <;> simp [Instruction.isPlain]
  all_goals simp

@[simp] theorem isPlain_store (b : Binding) (access : Access) :
    (store a site b access).IsPlain := by
  cases access <;> simp only [store]
  case captured => split <;> simp [Instruction.isPlain]
  case enclosing => split <;> simp [Instruction.isPlain]
  all_goals simp [Instruction.isPlain]

theorem isPlain_copyInto (type : TypeId) (routine : Signature) {value : Fragment} {p : Place}
    (hv : value.IsPure) (hr : p.read.isPure = true) (hw : p.write.isPlain = true) :
    (copyInto a type routine value p).IsPlain := by
  have hcall := (isPure_callRoutine a type routine false hv).isPlain
  simp [copyInto, Instruction.isPlain_of_isPure hr, hw, hcall]

theorem isPlain_initPlaces (type : TypeId) (mode : WriteMode) {value : Fragment} {ps : List Place}
    (hv : value.IsPure) (hr : ∀ p ∈ ps, p.read.isPure = true)
    (hw : ∀ p ∈ ps, p.write.isPlain = true) : (initPlaces a type mode value ps).IsPlain := by
  cases ps with
  | nil => exact Fragment.isPlain_empty
  | cons first rest =>
    obtain ⟨hr₁, hr₂⟩ := List.forall_mem_cons.mp hr
    obtain ⟨hw₁, hw₂⟩ := List.forall_mem_cons.mp hw
    cases mode with
    | copy routine =>
      have hread : Code.IsPure [first.read] := isPure_cons.mpr ⟨hr₁, isPure_nil⟩
      refine Fragment.isPlain_append.mpr ⟨isPlain_copyInto a type routine hv hr₁ hw₁, ?_⟩
      refine Fragment.isPlain_concat fun f hf => ?_
      obtain ⟨p, hp, rfl⟩ := List.mem_map.mp hf
      exact isPlain_copyInto a type routine hread (hr₂ p hp) (hw₂ p hp)
    | store =>
      have hdups : Code.IsPlain (rest.map fun _ => .dup) := by
        intro i hi
        obtain ⟨_, _, rfl⟩ := List.mem_map.mp hi
        rfl
      have hwrites : Code.IsPlain ((first :: rest).map (·.write)) := by
        intro i hi
        obtain ⟨p, hp, rfl⟩ := List.mem_map.mp hi
        exact hw p hp
      exact Fragment.isPlain_append.mpr ⟨Fragment.isPlain_append.mpr ⟨hv.isPlain, hdups⟩, hwrites⟩

@[simp] theorem isPlain_declareSlots (bs : List Binding) : (declareSlots a bs).IsPlain := by
  induction bs with
  | nil => exact Fragment.isPlain_empty
  | cons b bs ih =>
    rw [declareSlots]
    split <;> simp [Instruction.isPlain, ih]

theorem isPlain_varDecl (d : VarDecl) : (varDecl a d).IsPlain := by
  unfold varDecl
  split <;> simp

theorem isPlain_initDecl (d : InitDecl) : (initDecl a site d).IsPlain := by
  unfold initDecl
  split
  · refine Fragment.isPlain_append.mpr ⟨isPlain_nil, ?_⟩
    refine isPlain_initPlaces a _ _ (isPure_expr a site d.value) ?_ ?_ <;>
    · intro p hp
      obtain ⟨_, _, rfl⟩ := List.mem_map.mp hp
      rfl
  · exact Fragment.isPlain_gap

theorem isPlain_staticField (f : StaticField) : (staticField a site f).IsPlain := by
  unfold staticField
  split
  · refine isPlain_initPlaces a _ _ (isPure_expr a site f.init) ?_ ?_ <;>
    · intro p hp
      obtain ⟨_, _, rfl⟩ := List.mem_map.mp hp
      rfl
  · exact Fragment.isPlain_gap

theorem isPlain_storeTarget (target : Chain) {value : Fragment} (hv : value.IsPlain) :
    (storeTarget a site target value).IsPlain := by
  unfold storeTarget
  split
  · simp [hv]
  · dsimp only [receiver]
    refine Fragment.isPlain_append.mpr ⟨Fragment.isPlain_append.mpr ⟨?_, hv⟩, ?_⟩
    · exact (isPure_links a site _).isPlain
    · split <;> simp [Instruction.isPlain]
  · exact Fragment.isPlain_gap

theorem isPlain_assign (x : Assignment) : (assign a site x).IsPlain := by
  unfold assign
  split
  · exact (Fragment.isPure_append.mpr
      ⟨isPure_chain a site _, isPure_callRoutine a _ _ _ (isPure_expr a site _)⟩).isPlain
  · exact isPlain_storeTarget a site _ (isPlain_expr a site _)
  · exact Fragment.isPlain_gap

theorem isPlain_callStmt (c : Chain) : (callStmt a site c).IsPlain := by
  refine Fragment.isPlain_append.mpr ⟨(isPure_chain a site c).isPlain, ?_⟩
  split <;> simp [Instruction.isPlain]

theorem isPlain_bindRoutine (r : RoutineFinding) : (bindRoutine a site r).IsPlain := by
  unfold bindRoutine
  split <;> simp [Instruction.isPlain]

theorem isPlain_makePredefined (rs : List (String × TypeId)) :
    (makePredefined a rs).IsPlain := by
  induction rs with
  | nil => exact Fragment.isPlain_empty
  | cons r rs ih =>
    obtain ⟨name, type⟩ := r
    rw [makePredefined]
    refine Fragment.isPlain_append.mpr ⟨?_, ih⟩
    split <;> simp [Instruction.isPlain]

end Lowering

end Unnest
