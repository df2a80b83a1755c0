import Unnest.Proofs.Lowering.Whole

/-!
# Labels of a program

Labels are taken before the code that they stand in is complete, and the classes of
nested definitions, with labels of their own, are completed in between.  `Places` holds
the account over any piece of lowering: what the completed classes and the piece place
is what the classes placed before and the labels that were given out since.  A piece may
jump to labels that are placed around it, in the same method; the body of a definition
starts over with none.

Nothing is asked of the analysis that is lowered.
-/

namespace Unnest.Lowering

open Code

variable {z : Analysis}

/-! ## Methods without labels -/

theorem isStraight_plainConstructor (superPath : String) :
    IsStraight (plainConstructor superPath).code :=
  isStraight_return (isPlain_constructSuper superPath) (.inr rfl)

theorem isStraight_fieldConstructor (path superPath : String) (fields : List (String × String)) :
    IsStraight (fieldConstructor path superPath fields).code :=
  isStraight_return (isPlain_append.mpr
    ⟨isPlain_constructSuper superPath, isPlain_storeFields path 1 fields⟩) (.inr rfl)

theorem isStraight_constructorCode (t : TypeFinding) (rs : List RoutineFinding) :
    IsStraight (constructorCode z t rs).code :=
  isStraight_return (Fragment.isPlain_append.mpr ⟨Fragment.isPlain_append.mpr
    ⟨isPlain_constructSuper _, isPlain_defaultFields t⟩, isPlain_bindRoutines t rs⟩) (.inr rfl)

theorem isStraight_staticInitCode (t : TypeFinding) (rs : List RoutineFinding)
    (fs : List StaticField) : IsStraight (staticInitCode z t rs fs).code :=
  isStraight_return (Fragment.isPlain_append.mpr ⟨Fragment.isPlain_append.mpr
    ⟨isPlain_storeCaptures _ _ _, isPlain_makeStaticRoutines t rs⟩,
    isPlain_staticFields t fs⟩) (.inr rfl)

theorem isStraight_baseMethod (s : Descriptor) : IsStraight (baseMethod s).code := by
  rw [baseMethod]
  show IsStraight (if s.result.isSome then _ else _)
  split
  · exact isStraight_return (c := [.null]) (by simp [Instruction.isPlain]) (.inl rfl)
  · exact isStraight_return isPlain_nil (.inr rfl)

/-! ## Classes -/

/-- A class with one method that may have labels, and what else it has is straight. -/
def Encloses (cls : ClassFile) (code : List Instruction) : Prop :=
  cls.placedLabels = placedLabels code ∧ (JumpsWithin [] code → cls.JumpsInside)

theorem encloses_of_methods {cls : ClassFile} {ms ms' : List Method} {m : Method}
    (h : cls.methods = ms ++ m :: ms') (hms : ∀ x ∈ ms ++ ms', IsStraight x.code) :
    Encloses cls m.code := by
  refine ⟨ClassFile.placedLabels_eq h hms, fun hm x hx => ?_⟩
  rw [h, List.mem_append, List.mem_cons] at hx
  rcases hx with hx | rfl | hx
  · exact .of_isStraight (hms x (List.mem_append_left _ hx))
  · exact hm
  · exact .of_isStraight (hms x (List.mem_append_right _ hx))

theorem encloses_routineClass (r : RoutineFinding) (code : List Instruction) :
    Encloses (routineClass z r code) code := by
  have hmethods : (routineClass z r code).methods =
      [fieldConstructor (z.units.path r.unit) z.types.routineBase (routineFields z r)] ++
        .assemble Reserved.call (descriptorOf z r.signature) .instanceMember
          (localVars z r.scope ++ [thisVar (z.units.path r.unit)])
          (z.scopes.get r.scope).numLocals code :: [] := by
    rw [routineClass]
    dsimp only [ClassFile.addMethod]
    rw [methods_addFields]
    rfl
  exact encloses_of_methods hmethods
    (List.forall_mem_singleton.mpr (isStraight_fieldConstructor _ _ _))

theorem encloses_typeClass (t : TypeFinding) (rs ss : List RoutineFinding)
    {constructor staticInit : List Instruction} (h : IsStraight constructor) :
    Encloses (typeClass z t rs ss constructor staticInit) staticInit := by
  have hmethods : (typeClass z t rs ss constructor staticInit).methods =
      [.assemble Reserved.constructor .void .instanceMember [thisVar (z.types.path t.type)] 0
        constructor] ++
        .assemble Reserved.staticInit ⟨captureDescriptors z t.captures, none⟩ .staticMember []
          t.captures.length staticInit :: [] := by
    rw [typeClass]
    dsimp only [ClassFile.addMethod]
    rw [methods_addFields]
    rfl
  exact encloses_of_methods hmethods (List.forall_mem_singleton.mpr h)

theorem encloses_mainClass (program : String) (code : List Instruction) :
    Encloses (mainClass z program code) code := by
  have hmethods : (mainClass z program code).methods =
      [plainConstructor Reserved.object] ++
        .assemble Reserved.main ⟨[Reserved.argumentsDescriptor], none⟩ .staticMember
          (localVars z Scopes.rootId ++ [⟨0, Reserved.arguments, Reserved.argumentsDescriptor⟩])
          (z.scopes.get Scopes.rootId).numLocals code :: [] := rfl
  exact encloses_of_methods hmethods (List.forall_mem_singleton.mpr (isStraight_plainConstructor _))

theorem encloses_baseClass (base : String) (ds : List Descriptor) :
    Encloses (baseClass base ds) [] := by
  have hmethods : (baseClass base ds).methods =
      [] ++ plainConstructor Reserved.object :: ds.map baseMethod := rfl
  refine encloses_of_methods hmethods ?_ |>.imp (fun h => ?_) fun h _ => h ?_
  · intro x hx
    obtain ⟨s, -, rfl⟩ := List.mem_map.mp hx
    exact isStraight_baseMethod s
  · exact h.trans (placedLabels_of_isStraight (isStraight_plainConstructor _))
  · exact .of_isStraight (isStraight_plainConstructor _)

/-! ## Pieces of lowering -/

/-- Lowering goes from one output to another with this code, and every label that it gives
out is placed, in the code or in a class. -/
structure Places (outer : List Label) (o : Output) (code : List Instruction) (o' : Output) :
    Prop where
  le : o.labels ≤ o'.labels
  placed : labelsOf o'.classes + placedLabels code =
    labelsOf o.classes + labelsBetween o.labels o'.labels
  within : JumpsWithin outer code
  inside : (∀ c ∈ o.classes, c.JumpsInside) → ∀ c ∈ o'.classes, c.JumpsInside

namespace Places

variable {outer : List Label} {o o₁ o' : Output} {c d : List Instruction} {l : Label}

theorem of_isStraight (h : IsStraight c) (hl : o'.labels = o.labels)
    (hc : o'.classes = o.classes) : Places outer o c o' where
  le := hl.ge
  placed := by rw [hl, hc, placedLabels_of_isStraight h, labelsBetween_self, Multiset.coe_nil]
  within := .of_isStraight h
  inside := by rw [hc]; exact id

theorem place {f : Fragment} (h : f.IsPlain) (o : Output) :
    Places outer o ((Lower.place f).run o).1 ((Lower.place f).run o).2 :=
  of_isStraight (isStraight_of_isPlain h) rfl rfl

theorem append (hc : Places outer o c o₁) (hd : Places outer o₁ d o') :
    Places outer o (c ++ d) o' where
  le := hc.le.trans hd.le
  placed := by
    rw [placedLabels_append, ← Multiset.coe_add, ← labelsBetween_add hc.le hd.le,
      add_comm (placedLabels c : Multiset Label), ← add_assoc, hd.placed, ← add_assoc, ← hc.placed]
    exact add_right_comm _ _ _
  within := hc.within.append hd.within
  inside h := hd.inside (hc.inside h)

/-- A jump to a label around. -/
theorem jumps {i : Instruction} (h : Places outer o c o') (hl : l ∈ outer)
    (hi : i.jumpsTo? = some l) (hp : i.placed? = none) : Places outer o (c ++ [i]) o' where
  le := h.le
  placed := by
    have hnil : placedLabels [i] = [] := by rw [placedLabels, List.filterMap_cons, hp]; rfl
    rw [placedLabels_append, hnil, List.append_nil, h.placed]
  within := h.within.append (.of_mem hl hi)
  inside := h.inside

/-- The next label is given out first and is placed anywhere in the code. -/
theorem label (h : Places (⟨o.labels + 1⟩ :: outer) o₁ (c ++ d) o')
    (hl : o₁.labels = o.labels + 1) (hc : o₁.classes = o.classes) :
    Places outer o (c ++ .label ⟨o.labels + 1⟩ :: d) o' where
  le := (Nat.le_succ _).trans (hl.symm.trans_le h.le)
  placed := by
    have hbetween : labelsBetween o.labels o'.labels =
        {⟨o.labels + 1⟩} + labelsBetween o₁.labels o'.labels := by
      rw [← labelsBetween_succ, ← hl, labelsBetween_add (by omega) h.le]
    rw [placedLabels_insert, hbetween, add_left_comm, h.placed, hc, add_left_comm]
  within := h.within.place
  inside := by rw [← hc]; exact h.inside

theorem labelBehind
    (h : Places (⟨o.labels + 1⟩ :: outer) { o with labels := o.labels + 1 } c o') :
    Places outer o (c ++ [.label ⟨o.labels + 1⟩]) o' := by
  rw [← List.append_nil c] at h
  exact h.label rfl rfl

theorem labelInFront
    (h : Places (⟨o.labels + 1⟩ :: outer) { o with labels := o.labels + 1 } d o') :
    Places outer o (.label ⟨o.labels + 1⟩ :: d) o' :=
  label (c := []) h rfl rfl

/-- A body becomes a method of a class, and other code stays in its place. -/
theorem complete {cls : ClassFile} (h : Places [] o c o₁) (hcls : Encloses cls c)
    (hd : IsStraight d) (hl : o'.labels = o₁.labels) (hc : o'.classes = o₁.classes ++ [cls]) :
    Places outer o d o' where
  le := hl ▸ h.le
  placed := by
    rw [hl, hc, labelsOf_append, labelsOf_singleton, hcls.1, placedLabels_of_isStraight hd,
      ← h.placed, Multiset.coe_nil, add_zero]
  within := .of_isStraight hd
  inside hin := by
    rw [hc]
    exact List.forall_mem_append.mpr
      ⟨h.inside hin, List.forall_mem_singleton.mpr (hcls.2 h.within)⟩

theorem nothing (o : Output) : Places outer o [] o :=
  of_isStraight (isStraight_of_isPlain isPlain_nil) rfl rfl

/-- A routine whose body is lowered. -/
theorem routineClass {r : RoutineFinding} (ret : Option ReturnClause) (h : Places [] o c o₁)
    (hd : IsStraight d) (hl : o'.labels = o₁.labels)
    (hc : o'.classes = o₁.classes ++ [Lowering.routineClass z r (c ++ (routineEnd z r ret).code)]) :
    Places outer o d o' :=
  (h.append (of_isStraight (isStraight_routineEnd r ret) rfl rfl)).complete
    (encloses_routineClass r _) hd hl hc

end Places

/-- A test jumps to a label around it when it fails. -/
theorem places_test (site : Site) (condition : Expr) {l : Label} {outer : List Label}
    (hl : l ∈ outer) (o : Output) : Places outer o (jumpUnless z site condition l).code
      { o with gaps := o.gaps + (jumpUnless z site condition l).gaps } := by
  have htest : Places outer o (testCode z site condition)
      { o with gaps := o.gaps + (jumpUnless z site condition l).gaps } :=
    .of_isStraight (isStraight_of_isPlain (isPlain_testCode z site condition)) rfl rfl
  rw [code_jumpUnless]
  exact htest.jumps hl rfl rfl

mutual

theorem places_stmt : (x : Stmt) → (site : Site) → (outer : List Label) → (o : Output) →
    Places outer o ((stmt z site x).run o).1 ((stmt z site x).run o).2
  | .declare d, site, outer, o => by
    rw [stmt]
    exact .place (isPlain_varDecl z d) o
  | .define d, site, outer, o => by
    rw [stmt]
    exact .place (isPlain_initDecl z site d) o
  | .assign x, site, outer, o => by
    rw [stmt]
    exact .place (isPlain_assign z site x) o
  | .call c, site, outer, o => by
    rw [stmt]
    exact .place (isPlain_callStmt z site c) o
  | .branch gs otherwise span, site, outer, o => by
    rw [run_if]
    exact ((places_branches gs site ⟨o.labels + 1⟩ _ List.mem_cons_self _).append
      (places_else otherwise site _ _)).labelBehind
  | .loop g, site, outer, o => by
    rw [stmt]
    exact places_loop g site outer o
  | .routine r, site, outer, o => by
    rw [stmt]
    exact places_routine r site outer o
  | .type t, site, outer, o => by
    rw [stmt]
    exact places_type t site outer o

theorem places_branch : (g : Guarded) → (site : Site) → (done : Label) → (outer : List Label) →
    done ∈ outer → (o : Output) →
    Places outer o ((branch z site done g).run o).1 ((branch z site done g).run o).2
  | ⟨node, condition, body, span⟩, site, done, outer, hdone, o => by
    rw [run_branch]
    dsimp only
    rw [List.append_cons]
    exact (((places_test site condition List.mem_cons_self _).append
      (places_stmts body site _ _)).jumps (List.mem_cons_of_mem _ hdone) rfl rfl).labelBehind

theorem places_loop : (g : Guarded) → (site : Site) → (outer : List Label) → (o : Output) →
    Places outer o ((loop z site g).run o).1 ((loop z site g).run o).2
  | ⟨node, condition, body, span⟩, site, outer, o => by
    rw [run_loop]
    dsimp only
    rw [List.append_cons, List.cons_append, List.cons_append, List.cons_append]
    -- The label behind the loop is given out after the one in front of it.
    exact (((places_test site condition List.mem_cons_self _).append (places_stmts body site _ _)).jumps
      (List.mem_cons_of_mem _ List.mem_cons_self) rfl rfl).labelBehind.labelInFront

theorem places_else : (e : Else) → (site : Site) → (outer : List Label) → (o : Output) →
    Places outer o ((elseBlock z site e).run o).1 ((elseBlock z site e).run o).2
  | .absent, site, outer, o => by
    rw [elseBlock]
    exact .nothing o
  | .block _ body _, site, outer, o => by
    rw [elseBlock]
    exact places_stmts body site outer o

theorem places_routine : (r : RoutineDef) → (site : Site) → (outer : List Label) →
    (o : Output) → Places outer o ((routine z site r).run o).1 ((routine z site r).run o).2
  | ⟨node, name, closing, params, result, body, ret, span⟩, site, outer, o => by
    have hbody := fun f => places_stmts body (routineSite z f) [] o
    set r : RoutineDef := ⟨node, name, closing, params, result, body, ret, span⟩
    cases h : z.findings.routines.find? r.node with
    | none =>
      rw [run_routine_none z site h]
      exact .of_isStraight (isStraight_of_isPlain isPlain_nil) rfl rfl
    | some f =>
      rw [run_routine_some z site h]
      exact (hbody f).routineClass ret (isStraight_of_isPlain (isPlain_bindRoutine z site f)) rfl rfl

theorem places_memberRoutine : (r : RoutineDef) → (outer : List Label) → (o : Output) →
    Places outer o [] ((memberRoutine z r).run o).2
  | ⟨node, name, closing, params, result, body, ret, span⟩, outer, o => by
    have hbody := fun f => places_stmts body (routineSite z f) [] o
    set r : RoutineDef := ⟨node, name, closing, params, result, body, ret, span⟩
    cases h : z.findings.routines.find? r.node with
    | none =>
      rw [run_memberRoutine_none z h]
      exact .of_isStraight (isStraight_of_isPlain isPlain_nil) rfl rfl
    | some f =>
      rw [run_memberRoutine_some z h]
      exact (hbody f).routineClass ret (isStraight_of_isPlain isPlain_nil) rfl rfl

theorem places_type : (t : TypeDef) → (site : Site) → (outer : List Label) → (o : Output) →
    Places outer o ((typeDef z site t).run o).1 ((typeDef z site t).run o).2
  | ⟨node, name, closing, fields, statics, routines, staticRoutines, span⟩, site, outer, o => by
    have hroutines := places_memberRoutines routines [] o
    have hstatics := places_memberRoutines staticRoutines []
      ((memberRoutines z routines).run o).2
    set t : TypeDef := ⟨node, name, closing, fields, statics, routines, staticRoutines, span⟩
    cases h : z.findings.types.find? t.node with
    | none =>
      rw [run_typeDef_none z site h]
      exact .of_isStraight (isStraight_of_isPlain isPlain_nil) rfl rfl
    | some f =>
      rw [run_typeDef_some z site h]
      have hmembers := (hroutines.append hstatics).append
        (.of_isStraight (isStraight_staticInitCode (z := z) f
          (declaredRoutines z t.staticRoutines) t.staticFields) rfl rfl)
      exact hmembers.complete (encloses_typeClass f _ _ (isStraight_constructorCode f _))
        (isStraight_of_isPlain (isPlain_initType z site f)) rfl rfl

theorem places_stmts : (xs : List Stmt) → (site : Site) → (outer : List Label) → (o : Output) →
    Places outer o ((stmts z site xs).run o).1 ((stmts z site xs).run o).2
  | [], site, outer, o => by
    rw [run_stmts_nil]
    exact .nothing o
  | x :: xs, site, outer, o => by
    rw [run_stmts_cons]
    exact (places_stmt x site outer o).append (places_stmts xs site outer _)

theorem places_branches : (gs : List Guarded) → (site : Site) → (done : Label) →
    (outer : List Label) → done ∈ outer → (o : Output) →
    Places outer o ((branches z site done gs).run o).1 ((branches z site done gs).run o).2
  | [], site, done, outer, _, o => by
    rw [run_branches_nil]
    exact .nothing o
  | g :: gs, site, done, outer, hdone, o => by
    rw [run_branches_cons]
    exact (places_branch g site done outer hdone o).append
      (places_branches gs site done outer hdone _)

theorem places_memberRoutines : (rs : List RoutineDef) → (outer : List Label) → (o : Output) →
    Places outer o [] ((memberRoutines z rs).run o).2
  | [], outer, o => by
    rw [run_memberRoutines_nil]
    exact .nothing o
  | r :: rs, outer, o => by
    rw [run_memberRoutines_cons]
    exact (places_memberRoutine r outer o).append (places_memberRoutines rs outer _)

end

/-! ## Whole programs -/

theorem labels_eq (z : Analysis) (program : String) (q : Program) (labels : Nat) :
    (generate z program q labels).labels = (mainBody z program q labels).2.labels := by
  rw [generate, run_mainUnit]

/-- The classes of a program place the labels that it takes, each once, and no jump leaves
its method. -/
theorem labels_generate (z : Analysis) (program : String) (q : Program) (labels : Nat) :
    labels ≤ (generate z program q labels).labels ∧
      labelsOf (generate z program q labels).classes =
        labelsBetween labels (generate z program q labels).labels ∧
      ∀ c ∈ (generate z program q labels).classes, c.JumpsInside := by
  have hreturn : IsStraight [.returnNothing] := isStraight_return isPlain_nil (.inr rfl)
  have hstart : Places [] { labels } (makePredefined z Predefined.routines).code
      { labels, gaps := (makePredefined z Predefined.routines).gaps } :=
    .of_isStraight (isStraight_of_isPlain (isPlain_makePredefined z Predefined.routines)) rfl rfl
  have hbody := (hstart.append (places_stmts (z := z) q.stmts (mainSite program) [] _)).append
    (.of_isStraight hreturn rfl rfl)
  have hmain := encloses_mainClass (z := z) program ((makePredefined z Predefined.routines).code ++
    (mainBody z program q labels).1 ++ [.returnNothing])
  obtain ⟨base, ds, hclasses⟩ := classes_generate z program q labels
  have hbase := encloses_baseClass base ds
  rw [labels_eq, hclasses]
  refine ⟨hbody.le, ?_, ?_⟩
  · have hplaced := hbody.placed
    rw [labelsOf_nil, zero_add] at hplaced
    rw [labelsOf_cons, labelsOf_append, labelsOf_singleton, hmain.1, hbase.1, placedLabels_nil,
      Multiset.coe_nil, add_zero, add_comm]
    exact hplaced
  · rw [List.forall_mem_cons, List.forall_mem_append, List.forall_mem_singleton]
    exact ⟨hmain.2 hbody.within, hbody.inside (List.forall_mem_nil _),
      hbase.2 (.of_isStraight (isStraight_of_isPlain isPlain_nil))⟩

end Unnest.Lowering
