import Unnest.Proofs.Lowering.Writing

/-!
# Emitted classes

A definition becomes a class, and leaves code that makes an object of it or runs its
static method.  That code gets at every captured value, since the sources of a
definition are reached from where it stands.  The methods of a class are closed: each is
a regular body that is then left, and the body of a static method leaves what the copies
among its initial values leave.
-/

namespace Unnest

open Code

/-- A fragment that moves the stack without jumps is regular. -/
theorem Fragment.Moves.regular {f : Fragment} {n : Nat} (h : f.Moves 0 n) (hf : f.IsPlain) :
    Regular f.code n := .plain hf h.carries

namespace Lowering

variable {z : Analysis} {site : Site} {s d p : ScopeId}

/-! ## Sites -/

theorem houses_main (hz : z.scopes.Sound) (path : String) :
    Houses z { kind := .main, path } Scopes.rootId := by
  refine ⟨fun hk => ?_⟩
  rw [Scopes.owningMethod_of_owns (by rw [hz.root_kind]; rfl), hz.root_kind] at hk
  exact absurd hk (by simp)

theorem houses_routine {r : RoutineFinding} (hr : Analysis.RoutineSound z.scopes r) :
    Houses z (routineSite z r) r.scope := by
  have howns := Scopes.owningMethod_of_owns (t := z.scopes) (s := r.scope) (by rw [hr.kind]; rfl)
  refine ⟨fun _ hst => ?_⟩
  rw [howns, hr.isStatic] at hst
  rw [howns, hr.memberOf, routineSite, enclosingType, hst]
  rfl

/-- Nothing that a type captures, and no static initial value, is in an instance. -/
theorem houses_type {t : TypeFinding} (ht : Analysis.TypeSound z.scopes t) (site : Site) :
    Houses z site t.scope := by
  refine ⟨fun hk => ?_⟩
  rw [Scopes.owningMethod_of_owns (by rw [ht.kind]; rfl), ht.kind] at hk
  exact absurd hk (by simp)

theorem houses_fieldInit {t : TypeFinding} (ht : Analysis.TypeSound z.scopes t) (site : Site) :
    Houses z site t.fieldInit := by
  refine ⟨fun hk => ?_⟩
  rw [Scopes.owningMethod_of_owns (by rw [ht.innerKind]; rfl), ht.innerKind] at hk
  exact absurd hk (by simp)

/-! ## Captured values -/

/-- What a definition captured is reached from the scope around it. -/
theorem suits_of_receives (hz : z.Settled) (hf : z.Finished Scopes.rootId)
    {sources : List CaptureSource} (h : z.Receives d sources) (hp : z.scopes.parent d = some p)
    (hs : Houses z site p) : ∀ c ∈ sources, Suits site c.access := by
  obtain ⟨p', hp', hsources⟩ := Analysis.sourcesOf_receives hz hf h
  obtain rfl := Option.some.inj (hp'.symm.trans hp)
  intro c hc
  obtain ⟨x, -, hx⟩ := Analysis.exists_mem_zip_of_forall₂ hsources.flip hc
  exact hs.suits hz.sound.scopes hx.reaches

theorem loadCaptures_moves {cs : List CaptureSource} (h : ∀ c ∈ cs, Suits site c.access) :
    (loadCaptures z site cs).Moves 0 cs.length := by
  induction cs with
  | nil => exact .empty 0
  | cons c cs ih =>
    rw [List.forall_mem_cons] at h
    rw [loadCaptures, List.length_cons, Nat.add_comm]
    exact (load_moves _ h.1).above (ih h.2)

theorem cells_routineFields (r : RoutineFinding) :
    ∀ f ∈ routineFields z r, Descriptor.cells f.2 = 1 := by
  intro f hf
  rcases List.mem_append.mp hf with hf | hf
  · obtain ⟨owner, -, rfl⟩ := Option.map_eq_some_iff.mp (Option.mem_toList.mp hf)
    exact cells_descriptor _ _
  · obtain ⟨c, -, rfl⟩ := List.mem_map.mp hf
    exact cells_descriptor _ _

theorem length_routineFields (r : RoutineFinding) : (routineFields z r).length =
    (if (enclosingType r).isSome then 1 else 0) + r.captures.length := by
  rw [routineFields, List.length_append, List.length_map]
  cases enclosingType r <;> rfl

theorem makeRoutine_moves {r : RoutineFinding} (h : ∀ c ∈ r.captures, Suits site c.access) :
    (makeRoutine z site r).Moves 0 1 := by
  have hnew : (Fragment.ofList [.new (z.units.path r.unit), .dup]).Moves 0 2 :=
    .ofList (by simp [Carries, Instruction.effect])
  have hreceiver : (if (enclosingType r).isSome then Fragment.ofList [.load 0] else {}).Moves 0
      (if (enclosingType r).isSome then 1 else 0) := by
    split
    · exact .ofList (by simp [Carries, Instruction.effect])
    · exact .empty 0
  have hparams : Descriptor.paramCells ⟨(routineFields z r).map (·.2), none⟩ =
      (if (enclosingType r).isSome then 1 else 0) + r.captures.length := by
    rw [paramCells_eq (List.forall_mem_map.mpr (cells_routineFields r)), List.length_map,
      length_routineFields]
  refine ((hnew.above hreceiver).above (loadCaptures_moves h)).append (.ofList ?_)
  simp only [Carries, Instruction.effect, hparams, Descriptor.resultCells]
  simp only [Option.map_none, Option.getD_none]
  omega

theorem initType_moves {t : TypeFinding} (h : ∀ c ∈ t.captures, Suits site c.access) :
    (initType z site t).Moves 0 0 := by
  have hparams : Descriptor.paramCells ⟨captureDescriptors z t.captures, none⟩ =
      t.captures.length := by
    rw [captureDescriptors, paramCells_eq (List.forall_mem_map.mpr fun c _ => cells_descriptor _ _),
      List.length_map]
  refine (loadCaptures_moves h).append (.ofList ?_)
  simp only [Carries, Instruction.effect, hparams, Descriptor.resultCells]
  simp

theorem bindRoutine_moves {r : RoutineFinding} (hslot : r.binding.slot.isSome = true)
    (h : ∀ c ∈ r.captures, Suits site c.access) : (bindRoutine z site r).Moves 0 0 := by
  obtain ⟨k, hk⟩ := Option.isSome_iff_exists.mp hslot
  rw [bindRoutine, hk]
  exact (makeRoutine_moves h).append (.ofList (by simp [Carries, Instruction.effect]))

/-! ## Classes of routines -/

theorem methods_addFields (c : ClassFile) (fs : List FieldDecl) :
    (c.addFields fs).methods = c.methods := by
  rw [ClassFile.addFields]
  induction fs generalizing c with
  | nil => rfl
  | cons f fs ih => rw [List.foldl_cons, ih, ClassFile.methods_addField]

theorem constructSuper_moves (path : String) :
    (Fragment.ofList (constructSuper path)).Moves 0 0 :=
  .ofList (by simp [constructSuper, Carries, Instruction.effect, Descriptor.void,
    Descriptor.paramCells, Descriptor.resultCells])

theorem isPlain_constructSuper (path : String) :
    (Fragment.ofList (constructSuper path)).IsPlain := by
  simp [constructSuper, Instruction.isPlain]

theorem closed_plainConstructor (path : String) : Closed (plainConstructor path).code 0 :=
  .nothing ((constructSuper_moves path).regular (isPlain_constructSuper path))

theorem storeFields_moves (path : String) (k : Nat) {fields : List (String × String)}
    (h : ∀ f ∈ fields, Descriptor.cells f.2 = 1) :
    (Fragment.ofList (storeFields path k fields)).Moves 0 0 := by
  induction fields generalizing k with
  | nil => exact .empty 0
  | cons f fields ih =>
    rw [List.forall_mem_cons] at h
    have hfirst : (Fragment.ofList [.load 0, .load k, .putField ⟨path, f.1, f.2⟩]).Moves 0 0 :=
      .ofList (by simp [Carries, Instruction.effect, h.1])
    exact hfirst.append (ih (k + 1) h.2)

theorem isPlain_storeFields (path : String) (k : Nat) (fields : List (String × String)) :
    (Fragment.ofList (storeFields path k fields)).IsPlain := by
  induction fields generalizing k with
  | nil => exact Fragment.isPlain_empty
  | cons f fields ih =>
    rw [storeFields, Fragment.isPlain_ofList, isPlain_append]
    exact ⟨by simp [Instruction.isPlain], ih (k + 1)⟩

theorem closed_fieldConstructor (path superPath : String) {fields : List (String × String)}
    (h : ∀ f ∈ fields, Descriptor.cells f.2 = 1) :
    Closed (fieldConstructor path superPath fields).code 0 :=
  .nothing (((constructSuper_moves superPath).append (storeFields_moves path 1 h)).regular
    (Fragment.isPlain_append.mpr ⟨isPlain_constructSuper _, isPlain_storeFields _ _ _⟩))

/-- The class of a routine, when its call method is closed. -/
theorem leave_routineClass (r : RoutineFinding) {code : List Instruction} {n : Nat}
    (h : Closed code n) : Leave (routineClass z r code).methods n := by
  have hfields := closed_fieldConstructor (z.units.path r.unit) z.types.routineBase
    (cells_routineFields (z := z) r)
  rw [routineClass]
  dsimp only [ClassFile.addMethod]
  rw [methods_addFields, ← Nat.zero_add n]
  exact .cons hfields rfl (.assemble h)

/-- A routine gives a value exactly when it promises one. -/
theorem closed_routineEnd (hz : z.scopes.Sound) {r : RoutineFinding}
    (hr : Analysis.RoutineSound z.scopes r) {ret : Option ReturnClause}
    (h : z.RetDone r.scope ret r.signature.result) {c : List Instruction} {n : Nat}
    (hc : Regular c n) :
    (routineEnd z r ret).gaps = 0 ∧ Closed (c ++ (routineEnd z r ret).code) n := by
  cases ret with
  | none =>
    rw [routineEnd]
    exact ⟨rfl, .nothing hc⟩
  | some ret =>
    generalize hresult : r.signature.result = result at h
    cases h with
    | some hvalue =>
      have hmoves := expr_moves hz (houses_routine hr) _ hvalue
      rw [routineEnd, hresult]
      exact ⟨hmoves.gaps, .value hc (isPlain_expr z _ _) hmoves.carries⟩

/-! ## Classes of types -/

theorem defaultFields_moves (t : TypeFinding) :
    (Fragment.ofList (defaultFields z t)).Moves 0 0 := by
  rw [defaultFields]
  generalize (z.types.get t.type).fields.filter _ = bs
  induction bs with
  | nil => exact .empty 0
  | cons b bs ih =>
    have hthis : (Fragment.ofList [.load 0]).Moves 0 1 :=
      .ofList (by simp [Carries, Instruction.effect])
    have hput : (Fragment.ofList [.putField (memberField z t.type b)]).Moves 2 0 :=
      .ofList (by simp [Carries, Instruction.effect, memberField])
    rw [List.flatMap_cons]
    exact ((hthis.above (defaultValue_moves b.type)).append hput).append ih

theorem isPlain_defaultFields (t : TypeFinding) :
    (Fragment.ofList (defaultFields z t)).IsPlain := by
  intro i hi
  obtain ⟨b, -, hi⟩ := List.mem_flatMap.mp hi
  rw [List.cons_append, List.mem_cons, List.mem_append, List.mem_singleton] at hi
  rcases hi with rfl | hi | rfl
  · rfl
  · exact isPlain_defaultValue z b.type i hi
  · rfl

theorem bindRoutines_moves {t : TypeFinding} {rs : List RoutineFinding}
    (h : ∀ r ∈ rs, ∀ c ∈ r.captures, Suits (constructorSite z t) c.access) :
    (bindRoutines z t rs).Moves 0 0 := by
  induction rs with
  | nil => exact .empty 0
  | cons r rs ih =>
    rw [List.forall_mem_cons] at h
    have hthis : (Fragment.ofList [.load 0]).Moves 0 1 :=
      .ofList (by simp [Carries, Instruction.effect])
    have hput : (Fragment.ofList [.putField (memberField z t.type r.binding)]).Moves 2 0 :=
      .ofList (by simp [Carries, Instruction.effect, memberField])
    exact ((hthis.above (makeRoutine_moves h.1)).append hput).append (ih h.2)

theorem isPlain_bindRoutines (t : TypeFinding) (rs : List RoutineFinding) :
    (bindRoutines z t rs).IsPlain := by
  induction rs with
  | nil => exact Fragment.isPlain_empty
  | cons r rs ih => simp [bindRoutines, Instruction.isPlain, ih]

theorem makeStaticRoutines_moves {t : TypeFinding} {rs : List RoutineFinding}
    (h : ∀ r ∈ rs, ∀ c ∈ r.captures, Suits (staticSite z t) c.access) :
    (makeStaticRoutines z t rs).Moves 0 0 := by
  induction rs with
  | nil => exact .empty 0
  | cons r rs ih =>
    rw [List.forall_mem_cons] at h
    have hput : (Fragment.ofList [.putStatic (memberField z t.type r.binding)]).Moves 1 0 :=
      .ofList (by simp [Carries, Instruction.effect, memberField])
    exact ((makeRoutine_moves h.1).append hput).append (ih h.2)

theorem isPlain_makeStaticRoutines (t : TypeFinding) (rs : List RoutineFinding) :
    (makeStaticRoutines z t rs).IsPlain := by
  induction rs with
  | nil => exact Fragment.isPlain_empty
  | cons r rs ih => simp [makeStaticRoutines, Instruction.isPlain, ih]

theorem storeCaptures_moves (path : String) (k : Nat) (cs : List CaptureSource) :
    (Fragment.ofList (storeCaptures z path k cs)).Moves 0 0 := by
  induction cs generalizing k with
  | nil => exact .empty 0
  | cons c cs ih =>
    have hfirst : (Fragment.ofList [.load k,
        .putStatic ⟨path, c.name, z.types.descriptor c.type⟩]).Moves 0 0 :=
      .ofList (by simp [Carries, Instruction.effect])
    exact hfirst.append (ih (k + 1))

theorem isPlain_storeCaptures (path : String) (k : Nat) (cs : List CaptureSource) :
    (Fragment.ofList (storeCaptures z path k cs)).IsPlain := by
  induction cs generalizing k with
  | nil => exact Fragment.isPlain_empty
  | cons c cs ih =>
    rw [storeCaptures, Fragment.isPlain_ofList, isPlain_append]
    exact ⟨by simp [Instruction.isPlain], ih (k + 1)⟩

theorem isPlain_staticFields (t : TypeFinding) (fs : List StaticField) :
    (staticFields z t fs).IsPlain := by
  induction fs with
  | nil => exact Fragment.isPlain_empty
  | cons f fs ih => simp [staticFields, isPlain_staticField, ih]

/-- The constructor of a type's class. -/
theorem closed_constructorCode {t : TypeFinding} {rs : List RoutineFinding}
    (h : ∀ r ∈ rs, ∀ c ∈ r.captures, Suits (constructorSite z t) c.access) :
    (constructorCode z t rs).gaps = 0 ∧ Closed (constructorCode z t rs).code 0 := by
  have hmoves := ((constructSuper_moves Reserved.object).append (defaultFields_moves (z := z) t)).append
    (bindRoutines_moves h)
  refine ⟨hmoves.gaps, .nothing (hmoves.regular ?_)⟩
  exact Fragment.isPlain_append.mpr ⟨Fragment.isPlain_append.mpr
    ⟨isPlain_constructSuper _, isPlain_defaultFields t⟩, isPlain_bindRoutines t rs⟩

/-- The static method of a type's class leaves what its initial values leave. -/
theorem closed_staticInitCode {t : TypeFinding} {rs : List RoutineFinding} {fs : List StaticField}
    {n : Nat} (h : ∀ r ∈ rs, ∀ c ∈ r.captures, Suits (staticSite z t) c.access)
    (hfs : (staticFields z t fs).Moves 0 n) :
    (staticInitCode z t rs fs).gaps = 0 ∧ Closed (staticInitCode z t rs fs).code n := by
  have hmoves := ((storeCaptures_moves (z := z) (z.types.path t.type) 0 t.captures).append
    (makeStaticRoutines_moves h)).append hfs
  refine ⟨hmoves.gaps, .nothing (hmoves.regular ?_)⟩
  exact Fragment.isPlain_append.mpr ⟨Fragment.isPlain_append.mpr
    ⟨isPlain_storeCaptures _ _ _, isPlain_makeStaticRoutines t rs⟩, isPlain_staticFields t fs⟩

theorem leave_typeClass (t : TypeFinding) (rs ss : List RoutineFinding)
    {constructor staticInit : List Instruction} {n : Nat} (h : Closed constructor 0)
    (h' : Closed staticInit n) : Leave (typeClass z t rs ss constructor staticInit).methods n := by
  rw [typeClass]
  dsimp only [ClassFile.addMethod]
  rw [methods_addFields, ← Nat.zero_add n]
  exact .cons h rfl (.assemble h')

/-! ## The other classes of a program -/

theorem leave_mainClass (program : String) {code : List Instruction} {n : Nat}
    (h : Closed code n) : Leave (mainClass z program code).methods n := by
  rw [← Nat.zero_add n]
  exact .cons (closed_plainConstructor Reserved.object) rfl (.assemble h)

theorem closed_baseMethod (descriptor : Descriptor) : Closed (baseMethod descriptor).code 0 := by
  have hempty : Regular [] 0 := (Fragment.Moves.empty 0).regular Fragment.isPlain_empty
  rw [baseMethod]
  show Closed (if descriptor.result.isSome then _ else _) 0
  split
  · have hnull : (Fragment.ofList [.null]).Moves 0 1 :=
      .ofList (by simp [Carries, Instruction.effect])
    exact .value hempty (by simp [Instruction.isPlain]) hnull.carries
  · exact .nothing hempty

theorem leave_baseClass (base : String) (ds : List Descriptor) :
    Leave (baseClass base ds).methods 0 := by
  have hmethods : Leave (ds.map baseMethod) 0 := by
    induction ds with
    | nil => exact .nil
    | cons d ds ih => exact .cons (closed_baseMethod d) rfl ih
  exact .cons (closed_plainConstructor Reserved.object) rfl hmethods

end Lowering

end Unnest
