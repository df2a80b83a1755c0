import Unnest.Proofs.Lowering.Labels

/-!
# Numbering from another label on

Lowering asks for labels and for nothing else that was counted before it.  Started with
`n` more labels given out, it writes the same instructions with every label `n` higher,
completes the same classes in the same order, and gives out as many labels.

`shift` raises the labels of instructions, and leaves everything else of a method as it
is, the limits included.
-/

namespace Unnest

namespace Code

variable {n : Nat} {c : List Instruction}

/-- The label that is `n` higher. -/
def Label.shift (n : Nat) (l : Label) : Label := ⟨l.number + n⟩

/-- The instruction with its label `n` higher, if it has one. -/
def Instruction.shift (n : Nat) : Instruction → Instruction
  | .jumpIfZero l => .jumpIfZero (l.shift n)
  | .jump l => .jump (l.shift n)
  | .label l => .label (l.shift n)
  | i => i

/-- The method with every label of its code `n` higher. -/
def Method.shift (n : Nat) (m : Method) : Method := { m with code := m.code.map (.shift n) }

/-- The class with every label of its methods `n` higher. -/
def ClassFile.shift (n : Nat) (c : ClassFile) : ClassFile :=
  { c with methods := c.methods.map (.shift n) }

theorem Instruction.shift_eq_self {i : Instruction} (h : i.placed? = none ∧ i.jumpsTo? = none) :
    i.shift n = i := by
  cases i with
  | label l => exact absurd h.1 (by simp [placed?])
  | jump l => exact absurd h.2 (by simp [jumpsTo?])
  | jumpIfZero l => exact absurd h.2 (by simp [jumpsTo?])
  | _ => rfl

theorem map_shift_of_isStraight (h : IsStraight c) : c.map (Instruction.shift n) = c :=
  List.map_congr_left (fun i hi => Instruction.shift_eq_self (h i hi)) |>.trans (List.map_id c)

@[simp] theorem effect_shift (i : Instruction) : (i.shift n).effect = i.effect := by
  cases i <;> rfl

theorem peakFrom_map_shift (d : Int) (c : List Instruction) :
    peakFrom d (c.map (Instruction.shift n)) = peakFrom d c := by
  induction c generalizing d with
  | nil => rfl
  | cons i c ih => simp only [List.map_cons, peakFrom, depthAfter, effect_shift, ih]

/-- A method asks for as much as before. -/
theorem shift_assemble (name : String) (descriptor : Descriptor) (modifiers : Modifiers)
    (vars : List LocalVar) (slots : Nat) (code : List Instruction) :
    (Method.assemble name descriptor modifiers vars slots code).shift n =
      .assemble name descriptor modifiers vars slots (code.map (.shift n)) := by
  rw [Method.shift, Method.assemble, Method.assemble, maxStack, maxStack, peakFrom_map_shift]

theorem shift_of_isStraight {m : Method} (h : IsStraight m.code) : m.shift n = m := by
  rw [Method.shift, map_shift_of_isStraight h]

theorem shift_addMethod (cls : ClassFile) (m : Method) :
    (cls.addMethod m).shift n = (cls.shift n).addMethod (m.shift n) := by
  rw [ClassFile.shift, ClassFile.addMethod, List.map_append, List.map_singleton]
  rfl

theorem shift_of_methods_nil {cls : ClassFile} (h : cls.methods = []) : cls.shift n = cls := by
  rw [ClassFile.shift, h, List.map_nil, ← h]

end Code

namespace Lowering

open Code

variable {z : Analysis} {n : Nat}

/-! ## Classes -/

theorem shift_addFields (cls : ClassFile) (fs : List FieldDecl) (h : cls.methods = []) :
    (cls.addFields fs).shift n = cls.addFields fs :=
  shift_of_methods_nil ((methods_addFields cls fs).trans h)

theorem shift_routineClass (r : RoutineFinding) (code : List Instruction) :
    (routineClass z r code).shift n = routineClass z r (code.map (.shift n)) := by
  rw [routineClass, shift_addMethod, shift_addMethod, shift_addFields _ _ rfl, shift_assemble,
    shift_of_isStraight (isStraight_fieldConstructor _ _ _)]
  rfl

theorem shift_typeClass (t : TypeFinding) (rs ss : List RoutineFinding)
    (constructor staticInit : List Instruction) :
    (typeClass z t rs ss constructor staticInit).shift n =
      typeClass z t rs ss (constructor.map (.shift n)) (staticInit.map (.shift n)) := by
  rw [typeClass, shift_addMethod, shift_addMethod, shift_addFields _ _ rfl, shift_assemble,
    shift_assemble]
  rfl

theorem shift_mainClass (program : String) (code : List Instruction) :
    (mainClass z program code).shift n = mainClass z program (code.map (.shift n)) := by
  rw [mainClass, shift_addMethod, shift_addMethod, shift_of_methods_nil rfl, shift_assemble,
    shift_of_isStraight (isStraight_plainConstructor _)]
  rfl

theorem shift_baseClass (base : String) (ds : List Descriptor) :
    (baseClass base ds).shift n = baseClass base ds := by
  have hbase : ds.map (Method.shift n ∘ baseMethod) = ds.map baseMethod :=
    List.map_congr_left fun d _ => shift_of_isStraight (isStraight_baseMethod d)
  rw [ClassFile.shift, baseClass, List.map_cons, List.map_map, hbase,
    shift_of_isStraight (isStraight_plainConstructor _)]

/-- Labels call nothing. -/
theorem signaturesOf_shift (base : String) (cls : ClassFile) :
    signaturesOf base (cls.shift n) = signaturesOf base cls := by
  have hcalled : calledSignature? base ∘ Instruction.shift n = calledSignature? base := by
    funext i
    cases i <;> rfl
  rw [signaturesOf, ClassFile.shift, List.flatMap_map, signaturesOf]
  refine List.flatMap_congr fun m _ => ?_
  rw [Method.shift, List.filterMap_map, hcalled]

theorem usedSignatures_shift (base : String) (cs : List ClassFile) :
    usedSignatures base (cs.map (ClassFile.shift n)) = usedSignatures base cs := by
  rw [usedSignatures, List.flatMap_map, usedSignatures]
  congr 1
  exact List.flatMap_congr fun c _ => signaturesOf_shift base c

/-! ## Lowering -/

/-- The output with `n` more labels given out, and numbered accordingly. -/
def shiftOutput (n : Nat) (o : Output) : Output :=
  { o with labels := o.labels + n, classes := o.classes.map (.shift n) }

/-- What lowering comes to, with every label `n` higher. -/
def shiftResult (n : Nat) (r : List Instruction × Output) : List Instruction × Output :=
  (r.1.map (.shift n), shiftOutput n r.2)

@[simp] theorem gaps_shiftOutput (o : Output) : (shiftOutput n o).gaps = o.gaps := rfl

/-- Taking labels commutes with the shift. -/
theorem shiftOutput_take (o : Output) (k gaps : Nat) :
    { shiftOutput n o with labels := (shiftOutput n o).labels + k, gaps } =
      shiftOutput n { o with labels := o.labels + k, gaps } := by
  rw [shiftOutput, shiftOutput, Nat.add_right_comm]

theorem fresh_shift (o : Output) (k : Nat) :
    (⟨(shiftOutput n o).labels + k⟩ : Label) = Label.shift n ⟨o.labels + k⟩ := by
  rw [shiftOutput, Label.shift, Nat.add_right_comm]

theorem shift_place {f : Fragment} (h : f.IsPlain) (o : Output) :
    (Lower.place f).run (shiftOutput n o) = shiftResult n ((Lower.place f).run o) := by
  rw [run_place, run_place, shiftResult, map_shift_of_isStraight (isStraight_of_isPlain h)]
  rfl

theorem shift_jumpUnless (site : Site) (condition : Expr) (l : Label) :
    (jumpUnless z site condition l).code.map (Instruction.shift n) =
      (jumpUnless z site condition (l.shift n)).code := by
  rw [code_jumpUnless, code_jumpUnless, List.map_append,
    map_shift_of_isStraight (isStraight_of_isPlain (isPlain_testCode z site condition))]
  rfl

/-- The gaps of a test do not depend on where it jumps to. -/
theorem gaps_jumpUnless (site : Site) (condition : Expr) (l l' : Label) :
    (jumpUnless z site condition l).gaps = (jumpUnless z site condition l').gaps := rfl

mutual

theorem shift_stmt : (x : Stmt) → (site : Site) → (o : Output) →
    (stmt z site x).run (shiftOutput n o) = shiftResult n ((stmt z site x).run o)
  | .declare d, site, o => by
    rw [stmt]
    exact shift_place (isPlain_varDecl z d) o
  | .define d, site, o => by
    rw [stmt]
    exact shift_place (isPlain_initDecl z site d) o
  | .assign x, site, o => by
    rw [stmt]
    exact shift_place (isPlain_assign z site x) o
  | .call c, site, o => by
    rw [stmt]
    exact shift_place (isPlain_callStmt z site c) o
  | .branch gs otherwise span, site, o => by
    have hgs := shift_branches gs site ⟨o.labels + 1⟩ { o with labels := o.labels + 1 }
    rw [run_if, run_if, fresh_shift]
    dsimp only
    rw [shiftOutput_take, gaps_shiftOutput, hgs, shiftResult, shift_else otherwise]
    simp only [shiftResult, List.map_append, List.map_singleton]
    rfl
  | .loop g, site, o => by
    rw [stmt]
    exact shift_loop g site o
  | .routine r, site, o => by
    rw [stmt]
    exact shift_routine r site o
  | .type t, site, o => by
    rw [stmt]
    exact shift_type t site o

theorem shift_branch : (g : Guarded) → (site : Site) → (done : Label) → (o : Output) →
    (branch z site (done.shift n) g).run (shiftOutput n o) =
      shiftResult n ((branch z site done g).run o)
  | ⟨node, condition, body, span⟩, site, done, o => by
    have hbody := shift_stmts body site { o with labels := o.labels + 1, gaps := o.gaps +
      (jumpUnless z site condition ⟨o.labels + 1⟩).gaps }
    rw [run_branch, run_branch, fresh_shift]
    dsimp only
    rw [← shift_jumpUnless, shiftOutput_take, gaps_shiftOutput, gaps_jumpUnless _ _ _ ⟨o.labels + 1⟩, hbody]
    simp only [shiftResult, List.map_append, List.map_cons, List.map_nil]
    rfl

theorem shift_loop : (g : Guarded) → (site : Site) → (o : Output) →
    (loop z site g).run (shiftOutput n o) = shiftResult n ((loop z site g).run o)
  | ⟨node, condition, body, span⟩, site, o => by
    have hbody := shift_stmts body site { o with labels := o.labels + 2, gaps := o.gaps +
      (jumpUnless z site condition ⟨o.labels + 2⟩).gaps }
    rw [run_loop, run_loop, fresh_shift, fresh_shift]
    dsimp only
    rw [← shift_jumpUnless, shiftOutput_take, gaps_shiftOutput, gaps_jumpUnless _ _ _ ⟨o.labels + 2⟩, hbody]
    simp only [shiftResult, List.map_append, List.map_cons, List.map_nil]
    rfl

theorem shift_else : (e : Else) → (site : Site) → (o : Output) →
    (elseBlock z site e).run (shiftOutput n o) = shiftResult n ((elseBlock z site e).run o)
  | .absent, site, o => by
    rw [elseBlock]
    rfl
  | .block _ body _, site, o => by
    rw [elseBlock]
    exact shift_stmts body site o

theorem shift_routine : (r : RoutineDef) → (site : Site) → (o : Output) →
    (routine z site r).run (shiftOutput n o) = shiftResult n ((routine z site r).run o)
  | ⟨node, name, closing, params, result, body, ret, span⟩, site, o => by
    have hbody := fun f => shift_stmts body (routineSite z f) o
    set r : RoutineDef := ⟨node, name, closing, params, result, body, ret, span⟩
    cases h : z.findings.routines.find? r.node with
    | none =>
      rw [run_routine_none z site h, run_routine_none z site h]
      rfl
    | some f =>
      rw [run_routine_some z site h, run_routine_some z site h]
      dsimp only
      rw [hbody f]
      simp only [shiftResult, shiftOutput, List.map_append, List.map_singleton, shift_routineClass,
        map_shift_of_isStraight (isStraight_routineEnd f _),
        map_shift_of_isStraight (isStraight_of_isPlain (isPlain_bindRoutine z site f))]
      rfl

theorem shift_memberRoutine : (r : RoutineDef) → (o : Output) →
    ((memberRoutine z r).run (shiftOutput n o)).2 = shiftOutput n ((memberRoutine z r).run o).2
  | ⟨node, name, closing, params, result, body, ret, span⟩, o => by
    have hbody := fun f => shift_stmts body (routineSite z f) o
    set r : RoutineDef := ⟨node, name, closing, params, result, body, ret, span⟩
    cases h : z.findings.routines.find? r.node with
    | none =>
      rw [run_memberRoutine_none z h, run_memberRoutine_none z h]
      rfl
    | some f =>
      rw [run_memberRoutine_some z h, run_memberRoutine_some z h]
      dsimp only
      rw [hbody f]
      simp only [shiftResult, shiftOutput, List.map_append, List.map_singleton, shift_routineClass,
        map_shift_of_isStraight (isStraight_routineEnd f _)]
      rfl

theorem shift_type : (t : TypeDef) → (site : Site) → (o : Output) →
    (typeDef z site t).run (shiftOutput n o) = shiftResult n ((typeDef z site t).run o)
  | ⟨node, name, closing, fields, statics, routines, staticRoutines, span⟩, site, o => by
    have hroutines := shift_memberRoutines routines o
    have hstatics := shift_memberRoutines staticRoutines ((memberRoutines z routines).run o).2
    set t : TypeDef := ⟨node, name, closing, fields, statics, routines, staticRoutines, span⟩
    cases h : z.findings.types.find? t.node with
    | none =>
      rw [run_typeDef_none z site h, run_typeDef_none z site h]
      rfl
    | some f =>
      rw [run_typeDef_some z site h, run_typeDef_some z site h]
      dsimp only
      rw [hroutines, hstatics]
      simp only [shiftResult, shiftOutput, List.map_append, List.map_singleton, shift_typeClass,
        map_shift_of_isStraight (isStraight_constructorCode f _),
        map_shift_of_isStraight (isStraight_staticInitCode f _ _),
        map_shift_of_isStraight (isStraight_of_isPlain (isPlain_initType z site f))]
      rfl

theorem shift_stmts : (xs : List Stmt) → (site : Site) → (o : Output) →
    (stmts z site xs).run (shiftOutput n o) = shiftResult n ((stmts z site xs).run o)
  | [], site, o => by
    rw [run_stmts_nil, run_stmts_nil]
    rfl
  | x :: xs, site, o => by
    rw [run_stmts_cons, run_stmts_cons, shift_stmt x]
    simp only [shiftResult, shift_stmts xs, List.map_append]

theorem shift_branches : (gs : List Guarded) → (site : Site) → (done : Label) → (o : Output) →
    (branches z site (done.shift n) gs).run (shiftOutput n o) =
      shiftResult n ((branches z site done gs).run o)
  | [], site, done, o => by
    rw [run_branches_nil, run_branches_nil]
    rfl
  | g :: gs, site, done, o => by
    rw [run_branches_cons, run_branches_cons, shift_branch g]
    simp only [shiftResult, shift_branches gs, List.map_append]

theorem shift_memberRoutines : (rs : List RoutineDef) → (o : Output) →
    ((memberRoutines z rs).run (shiftOutput n o)).2 = shiftOutput n ((memberRoutines z rs).run o).2
  | [], o => by
    rw [run_memberRoutines_nil, run_memberRoutines_nil]
  | r :: rs, o => by
    rw [run_memberRoutines_cons, run_memberRoutines_cons, shift_memberRoutine r,
      shift_memberRoutines rs]

end

/-! ## Whole programs -/

theorem shift_mainBody (z : Analysis) (program : String) (q : Program) (labels : Nat) :
    mainBody z program q (labels + n) = shiftResult n (mainBody z program q labels) :=
  shift_stmts q.stmts (mainSite program)
    { labels, gaps := (makePredefined z Predefined.routines).gaps }

theorem shift_programClasses (z : Analysis) (program : String) (q : Program) (labels : Nat) :
    programClasses z program q (labels + n) =
      (programClasses z program q labels).map (ClassFile.shift n) := by
  have hstart : (makePredefined z Predefined.routines).code.map (Instruction.shift n) =
      (makePredefined z Predefined.routines).code :=
    map_shift_of_isStraight (isStraight_of_isPlain (isPlain_makePredefined z Predefined.routines))
  rw [programClasses, programClasses, shift_mainBody, List.map_cons, shift_mainClass,
    List.map_append, List.map_append, hstart]
  rfl

/-- Lowering with `n` more labels given out before gives the same classes with every label
`n` higher. -/
theorem shift_generate (z : Analysis) (program : String) (q : Program) (labels : Nat) :
    generate z program q (labels + n) =
      { classes := (generate z program q labels).classes.map (.shift n)
        labels := (generate z program q labels).labels + n
        gaps := (generate z program q labels).gaps } := by
  have hclasses : (generate z program q (labels + n)).classes =
      (generate z program q labels).classes.map (ClassFile.shift n) := by
    rw [classes_eq, classes_eq, shift_programClasses, usedSignatures_shift, List.map_append,
      List.map_singleton, shift_baseClass]
  have hlabels : (generate z program q (labels + n)).labels =
      (generate z program q labels).labels + n := by
    rw [labels_eq, labels_eq, shift_mainBody]
    rfl
  have hgaps : (generate z program q (labels + n)).gaps = (generate z program q labels).gaps := by
    rw [gaps_generate, gaps_generate, shift_mainBody]
    rfl
  rw [← hclasses, ← hlabels, ← hgaps]

end Lowering

end Unnest
