import Unnest.Proofs.Lowering.Callable
import Unnest.Proofs.Lowering.Whole

/-!
# Calls of a whole program

The code of every statement of an accepted program calls only what it may call, and so
do the methods of all classes that are completed on the way (`Called`).  Every
definition has a class, with the constructor or the static method that the code around
the definition calls.
-/

namespace Unnest

open Code

namespace Lowering

variable {z : Analysis} {site : Site} {s v : ScopeId}

/-! ## Declarations -/

/-- Neither writing to a place nor reading it calls anything. -/
def Place.Calm (p : Place) : Prop := p.write.call? = none ∧ p.read.call? = none

theorem callsOnly_copyInto (hz : z.Accepted) (hk : z.Known []) {type t : TypeId} {r : Signature}
    (h : z.Offers type false Reserved.assignment [t] r) {value : Fragment}
    (hv : CallsOnly z value.code) {p : Place} (hp : p.Calm) :
    CallsOnly z (copyInto z type r value p).code := by
  have hhas : z.types.Has type := by
    obtain ⟨_, -, hx, hl⟩ := h
    exact hx.has (TypeTable.lookup_spec hl).1
  refine .append (.append (callsOnly_defaultValue hz hk hhas) ?_)
    (callsOnly_callRoutine hz.sound.types h hv)
  exact .of_none (List.forall_mem_cons.mpr ⟨hp.1, List.forall_mem_singleton.mpr hp.2⟩)

theorem callsOnly_concat {fs : List Fragment} (h : ∀ f ∈ fs, CallsOnly z f.code) :
    CallsOnly z (Fragment.concat fs).code := by
  induction fs with
  | nil => exact callsOnly_nil
  | cons f fs ih =>
    rw [List.forall_mem_cons] at h
    exact h.1.append (ih h.2)

theorem callsOnly_initPlaces (hz : z.Accepted) (hk : z.Known []) {type t : TypeId}
    {mode : WriteMode} (h : z.Writes type t mode) {value : Fragment}
    (hv : CallsOnly z value.code) {ps : List Place} (hp : ∀ p ∈ ps, p.Calm) :
    CallsOnly z (initPlaces z type mode value ps).code := by
  cases ps with
  | nil => exact callsOnly_nil
  | cons first rest =>
    obtain ⟨hfirst, hrest⟩ := List.forall_mem_cons.mp hp
    cases mode with
    | copy r =>
      have hread : CallsOnly z (Fragment.ofList [first.read]).code :=
        .of_none (List.forall_mem_singleton.mpr hfirst.2)
      refine .append (callsOnly_copyInto hz hk h hv hfirst) (callsOnly_concat ?_)
      exact List.forall_mem_map.mpr fun p hm => callsOnly_copyInto hz hk h hread (hrest p hm)
    | store =>
      refine .append (.append hv (.of_none ?_)) (.of_none ?_)
      · exact List.forall_mem_map.mpr fun _ _ => rfl
      · exact List.forall_mem_map.mpr fun p hm => (hp p hm).1

theorem callsOnly_declareSlots (hz : z.Accepted) (hk : z.Known []) {bs : List Binding}
    (h : ∀ b ∈ bs, z.types.Has b.type) : CallsOnly z (declareSlots z bs).code := by
  induction bs with
  | nil => exact callsOnly_nil
  | cons b bs ih =>
    rw [List.forall_mem_cons] at h
    rw [declareSlots]
    refine .append ?_ (ih h.2)
    split
    · exact .append (callsOnly_defaultValue hz hk h.1) (.of_none (by simp [Instruction.call?]))
    · exact callsOnly_nil

theorem callsOnly_varDecl (hz : z.Accepted) (hk : z.Known []) {d : VarDecl} {f : DeclFinding}
    (h : z.DeclDone s d f) : CallsOnly z (varDecl z d).code := by
  rw [varDecl, h.record]
  exact callsOnly_declareSlots hz hk fun b hb => hk.entries s b (h.names.declared b hb)

theorem callsOnly_initDecl (hz : z.Accepted) (hk : z.Known []) {d : InitDecl} {f : DeclFinding}
    {mode : WriteMode} (h : z.InitDone s v d.node d.names d.value f mode) :
    CallsOnly z (initDecl z site d).code := by
  obtain ⟨t, hvalue, hwrites⟩ := h.value
  obtain ⟨type, bs, mode'⟩ := f
  obtain rfl : mode' = some mode := h.mode_eq
  rw [initDecl, h.record]
  refine callsOnly_initPlaces hz hk hwrites (callsOnly_expr hz hk _ hvalue) ?_
  exact List.forall_mem_map.mpr fun _ _ => ⟨rfl, rfl⟩

theorem callsOnly_staticField (hz : z.Accepted) (hk : z.Known []) {x : StaticField}
    {f : DeclFinding} {mode : WriteMode}
    (h : z.InitDone s v x.decl.node x.decl.names x.init f mode) :
    CallsOnly z (staticField z site x).code := by
  obtain ⟨t, hvalue, hwrites⟩ := h.value
  obtain ⟨type, bs, mode'⟩ := f
  obtain rfl : mode' = some mode := h.mode_eq
  rw [staticField, h.record]
  refine callsOnly_initPlaces hz hk hwrites (callsOnly_expr hz hk _ hvalue) ?_
  exact List.forall_mem_map.mpr fun _ _ => ⟨rfl, rfl⟩

/-! ## Assignments and calls -/

theorem callsOnly_each (hz : z.Accepted) (hk : z.Known []) {ls : List Link}
    {before after : Produced} (h : z.LinksMake s before ls after) :
    ∀ l ∈ ls, CallsOnly z (link z site l).code := by
  induction ls generalizing before with
  | nil => exact List.forall_mem_nil _
  | cons l ls ih =>
    cases h with
    | cons hl hls => exact List.forall_mem_cons.mpr ⟨callsOnly_link hz hk l hl, ih hls⟩

theorem callsOnly_linksOf {ls : List Link} (h : ∀ l ∈ ls, CallsOnly z (link z site l).code) :
    CallsOnly z (links z site ls).code := by
  induction ls with
  | nil =>
    rw [links]
    exact callsOnly_nil
  | cons l ls ih =>
    rw [List.forall_mem_cons] at h
    rw [links]
    exact h.1.append (ih h.2)

theorem callsOnly_receiver (hz : z.Accepted) (hk : z.Known []) {c : Chain} {t : Option TypeId}
    (h : z.ChainHas s c t) : CallsOnly z (receiver z site c).code := by
  cases h with
  | @mk node head rest span first last f hh hr =>
    have hall : ∀ l ∈ head :: rest, CallsOnly z (link z site l).code :=
      List.forall_mem_cons.mpr ⟨callsOnly_head hz hk head hh, callsOnly_each hz hk hr⟩
    exact callsOnly_linksOf fun l hl => hall l (List.mem_of_mem_dropLast hl)

theorem callsOnly_storeTarget (hz : z.Accepted) (hk : z.Known []) {c : Chain}
    {t : Option TypeId} (h : z.ChainHas s c t) {value : Fragment} (hv : CallsOnly z value.code) :
    CallsOnly z (storeTarget z site c value).code := by
  rw [storeTarget]
  split
  · exact .append (.append (callsOnly_beforeStore _) hv) (callsOnly_store _ _)
  · refine .append (.append (callsOnly_receiver hz hk h) hv) (.of_none ?_)
    split <;> exact List.forall_mem_singleton.mpr rfl
  · exact callsOnly_nil

theorem callsOnly_assign (hz : z.Accepted) (hk : z.Known []) {x : Assignment} {f : AssignFinding}
    (h : z.AssignDone s x f) : CallsOnly z (assign z site x).code := by
  obtain ⟨t, hvalue, hwrites⟩ := h.value
  have hv : CallsOnly z (expr z site x.value).code := callsOnly_expr hz hk _ hvalue
  obtain ⟨target, mode⟩ := f
  rw [assign, h.record]
  cases mode with
  | copy r =>
    exact (callsOnly_chain hz hk _ h.target).append (callsOnly_callRoutine hz.sound.types hwrites hv)
  | store => exact callsOnly_storeTarget hz hk h.target hv

theorem callsOnly_callStmt (hz : z.Accepted) (hk : z.Known []) {c : Chain} {t : Option TypeId}
    (h : z.ChainHas s c t) : CallsOnly z (callStmt z site c).code := by
  rw [callStmt]
  refine .append (callsOnly_chain hz hk c h) ?_
  split <;> simp [Instruction.call?]

/-! ## Objects of emitted classes -/

theorem callsOnly_loadCaptures (cs : List CaptureSource) :
    CallsOnly z (loadCaptures z site cs).code := by
  induction cs with
  | nil => exact callsOnly_nil
  | cons c cs ih => exact (callsOnly_load _ _).append ih

theorem callsOnly_makeRoutine {node : NodeId} {f : RoutineFinding}
    (h : z.findings.routines.find? node = some f) : CallsOnly z (makeRoutine z site f).code := by
  refine .append (.append (.append (.of_none ?_) ?_) (callsOnly_loadCaptures _))
    (.singleton rfl (.routine h))
  · simp [Instruction.call?]
  · split <;> simp [Instruction.call?]

theorem callsOnly_bindRoutine {node : NodeId} {f : RoutineFinding}
    (h : z.findings.routines.find? node = some f) : CallsOnly z (bindRoutine z site f).code := by
  rw [bindRoutine]
  split
  · exact (callsOnly_makeRoutine h).append (by simp [Instruction.call?])
  · exact callsOnly_nil

theorem callsOnly_initType {node : NodeId} {f : TypeFinding}
    (h : z.findings.types.find? node = some f) : CallsOnly z (initType z site f).code :=
  (callsOnly_loadCaptures _).append (.singleton rfl (.staticInit h))

/-! ## Classes -/

theorem callsOnly_constructSuper {path : String}
    (h : Callable z .special ⟨path, Reserved.constructor, .void⟩) :
    CallsOnly z (constructSuper path) :=
  callsOnly_cons.mpr ⟨by simp [Instruction.call?], .singleton rfl h⟩

theorem callsOnly_plainConstructor : CallsOnly z (plainConstructor Reserved.object).code :=
  (callsOnly_constructSuper .object).append (by simp [Instruction.call?])

theorem callsOnly_storeFields (path : String) (k : Nat) (fields : List (String × String)) :
    CallsOnly z (storeFields path k fields) := by
  induction fields generalizing k with
  | nil => exact callsOnly_nil
  | cons f fields ih =>
    rw [storeFields]
    exact .append (by simp [Instruction.call?]) (ih (k + 1))

theorem callsOnly_fieldConstructor (path : String) (fields : List (String × String)) :
    CallsOnly z (fieldConstructor path z.types.routineBase fields).code :=
  ((callsOnly_constructSuper .base).append (callsOnly_storeFields path 1 fields)).append
    (by simp [Instruction.call?])

theorem callsOnly_routineEnd (hz : z.Accepted) (hk : z.Known []) (r : RoutineFinding)
    {ret : Option ReturnClause} {result : Option TypeId} (h : z.RetDone s ret result) :
    CallsOnly z (routineEnd z r ret).code := by
  cases h with
  | none => simp [routineEnd, Instruction.call?]
  | some hvalue =>
    rw [routineEnd]
    split
    · exact (callsOnly_expr hz hk _ hvalue).append (by simp [Instruction.call?])
    · simp [Instruction.call?]

theorem callsOnly_defaultFields (hz : z.Accepted) (hk : z.Known []) (t : TypeFinding) :
    CallsOnly z (defaultFields z t) := by
  intro i hi
  obtain ⟨b, hb, hi⟩ := List.mem_flatMap.mp hi
  have hhas := hk.fields t.type false b (List.mem_of_mem_filter hb)
  have hcode : CallsOnly z (.load 0 :: defaultValue z b.type ++
      [.putField (memberField z t.type b)]) :=
    .append (callsOnly_cons.mpr ⟨by simp [Instruction.call?], callsOnly_defaultValue hz hk hhas⟩)
      (by simp [Instruction.call?])
  exact hcode i hi

/-- The routines that were declared are on record. -/
theorem recorded_declared (defs : List RoutineDef) :
    ∀ r ∈ declaredRoutines z defs, ∃ node, z.findings.routines.find? node = some r := by
  intro r hr
  obtain ⟨d, -, hd⟩ := List.mem_filterMap.mp hr
  exact ⟨d.node, hd⟩

theorem callsOnly_bindRoutines (t : TypeFinding) {rs : List RoutineFinding}
    (h : ∀ r ∈ rs, ∃ node, z.findings.routines.find? node = some r) :
    CallsOnly z (bindRoutines z t rs).code := by
  induction rs with
  | nil => exact callsOnly_nil
  | cons r rs ih =>
    rw [List.forall_mem_cons] at h
    obtain ⟨⟨node, hr⟩, hrest⟩ := h
    refine .append (.append (.append ?_ (callsOnly_makeRoutine hr)) ?_) (ih hrest) <;>
      simp [Instruction.call?]

theorem callsOnly_constructorCode (hz : z.Accepted) (hk : z.Known []) (t : TypeFinding)
    {rs : List RoutineFinding} (h : ∀ r ∈ rs, ∃ node, z.findings.routines.find? node = some r) :
    CallsOnly z (constructorCode z t rs).code :=
  .append (.append ((callsOnly_constructSuper .object).append (callsOnly_defaultFields hz hk t))
    (callsOnly_bindRoutines t h)) (by simp [Instruction.call?])

theorem callsOnly_storeCaptures (path : String) (k : Nat) (cs : List CaptureSource) :
    CallsOnly z (storeCaptures z path k cs) := by
  induction cs generalizing k with
  | nil => exact callsOnly_nil
  | cons c cs ih =>
    rw [storeCaptures]
    exact .append (by simp [Instruction.call?]) (ih (k + 1))

theorem callsOnly_makeStaticRoutines (t : TypeFinding) {rs : List RoutineFinding}
    (h : ∀ r ∈ rs, ∃ node, z.findings.routines.find? node = some r) :
    CallsOnly z (makeStaticRoutines z t rs).code := by
  induction rs with
  | nil => exact callsOnly_nil
  | cons r rs ih =>
    rw [List.forall_mem_cons] at h
    obtain ⟨⟨node, hr⟩, hrest⟩ := h
    exact .append (.append (callsOnly_makeRoutine hr) (by simp [Instruction.call?])) (ih hrest)

theorem callsOnly_staticFields (hz : z.Accepted) (hk : z.Known []) (t : TypeFinding)
    {fs : List StaticField} (h : ∀ x ∈ fs, ∃ df mode,
      z.InitDone s v x.decl.node x.decl.names x.init df mode) :
    CallsOnly z (staticFields z t fs).code := by
  induction fs with
  | nil => exact callsOnly_nil
  | cons f fs ih =>
    rw [List.forall_mem_cons] at h
    obtain ⟨⟨df, mode, hdone⟩, hrest⟩ := h
    exact (callsOnly_staticField hz hk hdone).append (ih hrest)

theorem callsOnly_staticInitCode (hz : z.Accepted) (hk : z.Known []) (t : TypeFinding)
    {rs : List RoutineFinding} (h : ∀ r ∈ rs, ∃ node, z.findings.routines.find? node = some r)
    {fs : List StaticField} (hfs : ∀ x ∈ fs, ∃ df mode,
      z.InitDone s v x.decl.node x.decl.names x.init df mode) :
    CallsOnly z (staticInitCode z t rs fs).code :=
  .append (.append (.append (callsOnly_storeCaptures _ 0 t.captures)
    (callsOnly_makeStaticRoutines t h)) (callsOnly_staticFields hz hk t hfs))
    (by simp [Instruction.call?])

/-- The class that a type is lowered to. -/
def TypeClassOf (z : Analysis) (t : TypeDef) (c : ClassFile) : Prop :=
  ∃ f rs ss constructor staticInit, z.findings.types.find? t.node = some f ∧
    c = typeClass z f rs ss constructor staticInit

/-- The methods of a class call nothing but what they may call. -/
def ClassCallsOnly (z : Analysis) (c : ClassFile) : Prop := ∀ m ∈ c.methods, CallsOnly z m.code

theorem classCallsOnly_routineClass (r : RoutineFinding) {code : List Instruction}
    (h : CallsOnly z code) : ClassCallsOnly z (routineClass z r code) := by
  intro m hm
  rw [routineClass] at hm
  dsimp only [ClassFile.addMethod] at hm
  rw [methods_addFields] at hm
  rcases List.mem_cons.mp hm with rfl | hm
  · exact callsOnly_fieldConstructor _ _
  · rw [List.mem_singleton.mp hm]
    exact h

theorem classCallsOnly_typeClass (t : TypeFinding) (rs ss : List RoutineFinding)
    {constructor staticInit : List Instruction} (h : CallsOnly z constructor)
    (h' : CallsOnly z staticInit) : ClassCallsOnly z (typeClass z t rs ss constructor staticInit) := by
  intro m hm
  rw [typeClass] at hm
  dsimp only [ClassFile.addMethod] at hm
  rw [methods_addFields] at hm
  rcases List.mem_cons.mp hm with rfl | hm
  · exact h
  · rw [List.mem_singleton.mp hm]
    exact h'

end Lowering

end Unnest
