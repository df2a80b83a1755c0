import Unnest.Proofs.Code.Labels
import Unnest.Proofs.Lowering.Emitted

/-!
# Whole programs

The body of an accepted program is lowered at the site of the class that runs it, and
every routine in it, however deep, has a class.  Both hold their body in one method: the
method that runs the program makes the predefined routines first and then returns, and
the call method of a routine ends as its return clause says.

The methods need the operand stack that they ask for, unless a value is copied by an
assignment routine that has a result (`disciplined_iff_nothing_left`).

Run from its entry, either method executes its body as the body is read, whatever the
conditions turn out to be, and arrives behind it (`control_flow_preserved`).
-/

namespace Unnest

open Code

namespace Lowering

/-- Where the body of a program stands. -/
def mainSite (program : String) : Site := { kind := .main, path := program }

variable {z : Analysis} {program : String} {q : Program}

theorem hosts_main (hz : z.scopes.Sound) (program : String) :
    Hosts z (mainSite program) Scopes.rootId :=
  ⟨houses_main hz program, by rw [hz.root_kind]; rfl⟩

/-- The predefined routines have slots of the program's body. -/
theorem makePredefined_moves (hz : z.scopes.Sound) {xs : List (String × TypeId)}
    (h : ∀ x ∈ xs, ∃ b ∈ (z.scopes.get Scopes.rootId).entries, b.name = x.1) :
    (makePredefined z xs).Moves 0 0 := by
  induction xs with
  | nil => exact .empty 0
  | cons x xs ih =>
    obtain ⟨name, type⟩ := x
    rw [List.forall_mem_cons] at h
    obtain ⟨⟨b, hb, hname⟩, hrest⟩ := h
    obtain ⟨b', hb'⟩ : ∃ b', (z.scopes.get Scopes.rootId).binding? name = some b' :=
      Option.isSome_iff_exists.mp (List.find?_isSome.mpr ⟨b, hb, beq_iff_eq.mpr hname⟩)
    obtain ⟨k, hk⟩ := Option.isSome_iff_exists.mp (slot_of_mem hz (by rw [hz.root_kind]; rfl)
      (List.mem_of_find?_eq_some hb'))
    rw [makePredefined, hb', Option.bind_some, hk]
    refine Fragment.Moves.append (.ofList ?_) (ih hrest)
    refine (defaultValue_moves (z := z) type).carries.append ?_
    simp [Carries, Instruction.effect]

/-! ## The classes of a program -/

/-- The body of a program, lowered behind the predefined routines. -/
def mainBody (z : Analysis) (program : String) (q : Program) (labels : Nat) :
    List Instruction × Output :=
  (stmts z (mainSite program) q.stmts).run
    { labels, gaps := (makePredefined z Predefined.routines).gaps }

theorem run_mainUnit (z : Analysis) (program : String) (q : Program) (labels : Nat) :
    (mainUnit z program q).run { labels } =
      (mainClass z program ((makePredefined z Predefined.routines).code ++
        (mainBody z program q labels).1 ++ [.returnNothing]), (mainBody z program q labels).2) := by
  rw [mainBody, ← Nat.zero_add (makePredefined z Predefined.routines).gaps]
  rfl

/-- The classes of a program, all but the one that every routine extends. -/
def programClasses (z : Analysis) (program : String) (q : Program) (labels : Nat) :
    List ClassFile :=
  mainClass z program ((makePredefined z Predefined.routines).code ++
    (mainBody z program q labels).1 ++ [.returnNothing]) :: (mainBody z program q labels).2.classes

theorem classes_eq (z : Analysis) (program : String) (q : Program) (labels : Nat) :
    (generate z program q labels).classes = programClasses z program q labels ++
      [baseClass z.types.routineBase
        (usedSignatures z.types.routineBase (programClasses z program q labels))] := by
  rw [generate, run_mainUnit]
  rfl

theorem classes_generate (z : Analysis) (program : String) (q : Program) (labels : Nat) :
    ∃ base ds, (generate z program q labels).classes =
      mainClass z program ((makePredefined z Predefined.routines).code ++
        (mainBody z program q labels).1 ++ [.returnNothing]) ::
      ((mainBody z program q labels).2.classes ++ [baseClass base ds]) :=
  ⟨_, _, classes_eq z program q labels⟩

theorem gaps_generate (z : Analysis) (program : String) (q : Program) (labels : Nat) :
    (generate z program q labels).gaps = (mainBody z program q labels).2.gaps := by
  rw [generate, run_mainUnit]

section

variable (program) (hq : q.nodes.Nodup) (h : (analyze program q).errors = []) (labels : Nat)

include hq h

theorem predefined_moves :
    (makePredefined (analyze program q) Predefined.routines).Moves 0 0 :=
  makePredefined_moves (Analysis.settled_analyze program hq).sound.scopes
    (Analysis.predefined_analyze program hq h)

/-- What the body of an accepted program is lowered to. -/
theorem emitted_program : Emitted (analyze program q) q.parts
    { labels, gaps := (makePredefined (analyze program q) Predefined.routines).gaps }
    (mainBody (analyze program q) program q labels).1
    (mainBody (analyze program q) program q labels).2 := by
  have hz := Analysis.settled_analyze program hq
  exact emitted_stmts hz (Analysis.finished_analyze program hq) q.stmts
    (Analysis.done_analyze program hq h) (hosts_main hz.sound.scopes program)
    (fun x hx => Analysis.silent_analyze program hq hx) _

/-- The methods of all classes leave what the copies of the program leave. -/
theorem leave_generate : Leave
    ((generate (analyze program q) program q labels).classes.flatMap ClassFile.methods)
    (Part.allLeft (analyze program q) q.parts) := by
  obtain ⟨cs, n, k, hcs, hcode, hleave, heq⟩ := (emitted_program program hq h labels).classes
  obtain ⟨base, ds, hclasses⟩ := classes_generate (analyze program q) program q labels
  have hstart := (predefined_moves program hq h).regular (isPlain_makePredefined _ _)
  have hmain := leave_mainClass (z := analyze program q) program (.nothing (hstart.append hcode))
  have hall := hmain.append (hleave.append (leave_baseClass base ds))
  rw [hclasses, hcs, List.nil_append, List.flatMap_cons, List.flatMap_append,
    List.flatMap_singleton, ← heq]
  rwa [Nat.zero_add, Nat.add_zero] at hall

/-- Every routine has a class. -/
theorem exists_class {r : RoutineDef} (hr : .routine r ∈ q.parts) :
    ∃ c ∈ (generate (analyze program q) program q labels).classes,
      ClassOf (analyze program q) r c := by
  obtain ⟨c, hc, hcr⟩ := (emitted_program program hq h labels).routines r hr
  obtain ⟨base, ds, hclasses⟩ := classes_generate (analyze program q) program q labels
  refine ⟨c, ?_, hcr⟩
  rw [hclasses]
  exact List.mem_cons_of_mem _ (List.mem_append_left _ hc)

end

/-! ## Control flow -/

/-- The code `before ++ body ++ after` has the body `xs` in it.  However `xs` is
executed, the machine that starts at the body executes the same instructions, uses up
the same outcomes and arrives where the body ends. -/
def RunsAs (z : Analysis) (site : Site) (xs : List Stmt) (code before after : List Instruction) :
    Prop :=
  ∃ body, code = before ++ body ++ after ∧ ∀ os tr, ExecutesAll z site xs os tr → ∀ rest t,
    Arrives code ⟨before.length, os ++ rest, t⟩ ⟨before.length + body.length, rest, t ++ tr⟩

theorem runsAs_stmts (z : Analysis) (site : Site) (xs : List Stmt) (o : Output)
    {before after : List Instruction} (hb : IsPlain before) (ha : placedLabels after = []) :
    RunsAs z site xs (before ++ ((stmts z site xs).run o).1 ++ after) before after := by
  refine ⟨_, rfl, fun os tr h rest t => ?_⟩
  have hunique : (placedLabels (before ++ ((stmts z site xs).run o).1 ++ after)).Nodup := by
    rw [placedLabels_append, placedLabels_append, placedLabels_of_isPlain hb, ha, List.nil_append,
      List.append_nil]
    exact (issued_stmts z site xs o).nodup
  exact arrives_stmts hunique h before.length o (.mid _ _ _) rest t

theorem isStraight_routineEnd {z : Analysis} (r : RoutineFinding) (ret : Option ReturnClause) :
    IsStraight (routineEnd z r ret).code := by
  have hnothing : IsStraight [.returnNothing] := isStraight_return isPlain_nil (.inr rfl)
  cases ret with
  | none => exact hnothing
  | some ret =>
    rw [routineEnd]
    split
    · exact isStraight_return (isPlain_expr z _ _) (.inl rfl)
    · exact hnothing

theorem path_addFields (c : ClassFile) (fs : List FieldDecl) : (c.addFields fs).path = c.path := by
  rw [ClassFile.addFields]
  induction fs generalizing c with
  | nil => rfl
  | cons f fs ih => rw [List.foldl_cons, ih, ClassFile.path_addField]

theorem path_routineClass {z : Analysis} (f : RoutineFinding) (code : List Instruction) :
    (routineClass z f code).path = z.units.path f.unit := path_addFields _ _

theorem path_typeClass {z : Analysis} (f : TypeFinding) (rs ss : List RoutineFinding)
    (constructor staticInit : List Instruction) :
    (typeClass z f rs ss constructor staticInit).path = z.types.path f.type := path_addFields _ _

/-- The class of a routine has its body in the call method. -/
theorem runsAs_of_classOf {r : RoutineDef} {c : ClassFile} (h : ClassOf z r c) :
    ∃ f, z.findings.routines.find? r.node = some f ∧ c.path = z.units.path f.unit ∧
      ∃ m ∈ c.methods, m.name = Reserved.call ∧
        RunsAs z (routineSite z f) r.body m.code [] (routineEnd z f r.ret).code := by
  obtain ⟨f, o, hf, rfl⟩ := h
  refine ⟨f, hf, path_routineClass f _, _, List.mem_append_right _ (List.mem_singleton_self _), rfl, ?_⟩
  exact runsAs_stmts z (routineSite z f) r.body o isPlain_nil
    (placedLabels_of_isStraight (isStraight_routineEnd f r.ret))

/-- Control flow is preserved.  The method that runs an accepted program executes the
body of the program as it is read, and the call method of every routine in it executes
the body of the routine. -/
theorem control_flow_preserved (program : String) {q : Program} (hq : q.nodes.Nodup)
    (h : (analyze program q).errors = []) (labels : Nat) :
    (∃ c ∈ (generate (analyze program q) program q labels).classes, c.path = program ∧
      ∃ m ∈ c.methods, m.name = Reserved.main ∧
        RunsAs (analyze program q) (mainSite program) q.stmts m.code
          (makePredefined (analyze program q) Predefined.routines).code [.returnNothing]) ∧
    ∀ r, .routine r ∈ q.parts →
      ∃ f, (analyze program q).findings.routines.find? r.node = some f ∧
        ∃ c ∈ (generate (analyze program q) program q labels).classes,
          c.path = (analyze program q).units.path f.unit ∧
            ∃ m ∈ c.methods, m.name = Reserved.call ∧
              RunsAs (analyze program q) (routineSite (analyze program q) f) r.body m.code []
                (routineEnd (analyze program q) f r.ret).code := by
  obtain ⟨base, ds, hclasses⟩ := classes_generate (analyze program q) program q labels
  have hmain : mainClass (analyze program q) program
      ((makePredefined (analyze program q) Predefined.routines).code ++
        (mainBody (analyze program q) program q labels).1 ++ [.returnNothing]) ∈
      (generate (analyze program q) program q labels).classes := by
    rw [hclasses]
    exact List.mem_cons_self
  refine ⟨⟨_, hmain, rfl, _, List.mem_append_right _ (List.mem_singleton_self _), rfl, ?_⟩,
    fun r hr => ?_⟩
  · exact runsAs_stmts _ (mainSite program) q.stmts _ (isPlain_makePredefined _ _) rfl
  · obtain ⟨c, hc, hcr⟩ := exists_class program hq h labels hr
    obtain ⟨f, hf, hpath, hm⟩ := runsAs_of_classOf hcr
    exact ⟨f, hf, c, hc, hpath, hm⟩

theorem control_flow_preserved_nested :
    ∃ c ∈ (generate (analyze "demo" nested) "demo" nested 0).classes, c.path = "demo" ∧
      ∃ m ∈ c.methods, m.name = Reserved.main ∧
        RunsAs (analyze "demo" nested) (mainSite "demo") nested.stmts m.code
          (makePredefined (analyze "demo" nested) Predefined.routines).code [.returnNothing] :=
  (control_flow_preserved "demo" nodup_nested Analysis.errors_nested 0).1

/-! ## The operand stack -/

/-- The methods of an accepted program keep to the operand stack that they ask for
exactly when no value is copied by an assignment routine that has a result.  Such a
result is left on the stack, and everything behind it stands higher than it should. -/
theorem disciplined_iff_nothing_left (program : String) {q : Program} (hq : q.nodes.Nodup)
    (h : (analyze program q).errors = []) (labels : Nat) :
    (∀ c ∈ (generate (analyze program q) program q labels).classes, ∀ m ∈ c.methods,
      Disciplined m) ↔ ∀ x ∈ q.parts, x.left (analyze program q) = 0 := by
  rw [← Part.allLeft_eq_zero, ← (leave_generate program hq h labels).disciplined_iff]
  simp only [List.mem_flatMap]
  exact ⟨fun hall m ⟨c, hc, hm⟩ => hall c hc m hm, fun hall c hc m hm => hall m ⟨c, hc, hm⟩⟩

theorem disciplined_iff_nothing_left_nested :
    (∀ x ∈ nested.parts, x.left (analyze "demo" nested) = 0) ∧
      ∀ c ∈ (generate (analyze "demo" nested) "demo" nested 0).classes, ∀ m ∈ c.methods,
        Disciplined m := by
  have hleft : ∀ x ∈ nested.parts, x.left (analyze "demo" nested) = 0 := by decide +kernel
  exact ⟨hleft, (disciplined_iff_nothing_left "demo" nodup_nested Analysis.errors_nested 0).mpr
    hleft⟩

/-- A program whose type has an assignment routine with a result:

```
type P
  routine operator_assignment(integer v) returns integer
    return v
  end operator_assignment
end P
P p
p = 5
```
-/
def resultful : Program := (Draft.build [
  .type ⟨none, "P", [], [], [⟨none, Reserved.assignment, [(.of "integer", "v")],
    some (.of "integer"), [], some (.chain (.of ["v"])), none⟩], [], none⟩,
  .declare ⟨none, .of "P", ["p"]⟩,
  .assign none (.of ["p"]) (.int 5)]).1

/-- Its assignment leaves the result on the stack. -/
theorem undisciplined_resultful : (analyze "demo" resultful).errors = [] ∧
    ¬ ∀ c ∈ (generate (analyze "demo" resultful) "demo" resultful 0).classes,
      ∀ m ∈ c.methods, Disciplined m := by
  have herrors : (analyze "demo" resultful).errors = [] := by decide +kernel
  refine ⟨herrors, fun hall => ?_⟩
  have hleft := (leave_generate "demo" (Draft.nodup_nodes_build _) herrors 0).disciplined_iff.mp
    fun m hm => by
      obtain ⟨c, hc, hm⟩ := List.mem_flatMap.mp hm
      exact hall c hc m hm
  exact absurd hleft (by decide +kernel)

end Lowering

end Unnest
