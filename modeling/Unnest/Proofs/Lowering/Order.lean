import Unnest.Proofs.Analysis.Recorded
import Unnest.Proofs.Lowering.Whole

/-!
# The order of the classes

Lowering completes a class for each definition that was recorded, and for nothing else: a
routine when its body is lowered, a type when its member routines are.  So the classes of a
tree are those of its definitions in the order in which they are listed
(`Lowering.classes_defined`), and they are at the paths of the definitions
(`Lowering.paths_generate`).  Since the tree lists every definition on record, from the
inside out, there is one class for each (`Lowering.one_class_each`).
-/

namespace Unnest

namespace Lowering

open Code

/-- The class that a definition among parts of a tree is lowered to. -/
def ClassFor (z : Analysis) (xs : List Part) : Defined z.findings → ClassFile → Prop
  | .routine node _ _, c => ∃ r, .routine r ∈ xs ∧ r.node = node ∧ ClassOf z r c
  | .type node f _, c => ∃ t, .type t ∈ xs ∧ t.node = node ∧
    c = typeClass z f (declaredRoutines z t.routines) (declaredRoutines z t.staticRoutines)
      (constructorCode z f (declaredRoutines z t.routines)).code
      (staticInitCode z f (declaredRoutines z t.staticRoutines) t.staticFields).code

variable {z : Analysis} {xs ys : List Part}

theorem ClassFor.mono {d : Defined z.findings} {c : ClassFile} (h : ClassFor z xs d c)
    (hxs : xs ⊆ ys) : ClassFor z ys d c := by
  cases d with
  | routine node f record =>
    obtain ⟨r, hr, hrest⟩ := h
    exact ⟨r, hxs hr, hrest⟩
  | type node f record =>
    obtain ⟨t, ht, hrest⟩ := h
    exact ⟨t, hxs ht, hrest⟩

theorem ClassFor.path_eq {d : Defined z.findings} {c : ClassFile} (h : ClassFor z xs d c) :
    c.path = d.path z := by
  cases d with
  | routine node f record =>
    obtain ⟨r, -, rfl, f', o, hf', rfl⟩ := h
    obtain rfl := Option.some.inj (record.symm.trans hf')
    exact path_routineClass f _
  | type node f record =>
    obtain ⟨t, -, -, rfl⟩ := h
    exact path_typeClass f _ _ _ _

/-- Lowering parts goes from one output to another and appends the classes of definitions. -/
def Appends (z : Analysis) (xs : List Part) (o : Output) (ds : List (Defined z.findings))
    (o' : Output) : Prop :=
  ∃ cs, o'.classes = o.classes ++ cs ∧ List.Forall₂ (ClassFor z xs) ds cs

namespace Appends

variable {o o₁ o' : Output} {ds ds' : List (Defined z.findings)}

theorem nothing (h : o'.classes = o.classes) : Appends z xs o [] o' :=
  ⟨[], by rw [h, List.append_nil], .nil⟩

theorem mono (h : Appends z xs o ds o') (hxs : xs ⊆ ys) : Appends z ys o ds o' := by
  obtain ⟨cs, hcs, hall⟩ := h
  exact ⟨cs, hcs, hall.imp fun _ _ hc => hc.mono hxs⟩

theorem trans (h : Appends z xs o ds o₁) (h' : Appends z xs o₁ ds' o') :
    Appends z xs o (ds ++ ds') o' := by
  obtain ⟨cs, hcs, hall⟩ := h
  obtain ⟨cs', hcs', hall'⟩ := h'
  exact ⟨cs ++ cs', by rw [hcs', hcs, List.append_assoc], List.rel_append hall hall'⟩

/-- One list of parts after another. -/
theorem append (h : Appends z xs o ds o₁) (h' : Appends z ys o₁ ds' o') :
    Appends z (xs ++ ys) o (ds ++ ds') o' :=
  (h.mono (List.subset_append_left _ _)).trans (h'.mono (List.subset_append_right _ _))

/-- Only the classes of an output matter. -/
theorem congr (h : Appends z xs o₁ ds o') (hstart : o₁.classes = o.classes) :
    Appends z xs o ds o' := by
  rwa [Appends, hstart] at h

/-- The class of a definition is completed behind those of what is inside of it. -/
theorem concat {x : Part} (h : Appends z xs o ds o₁) {c : ClassFile} {d : Defined z.findings}
    (hc : ClassFor z [x] d c) (hclasses : o'.classes = o₁.classes ++ [c]) :
    Appends z (x :: xs) o (ds ++ [d]) o' := by
  refine (h.mono (List.subset_cons_self x xs)).trans ⟨[c], hclasses, .cons ?_ .nil⟩
  exact hc.mono (List.cons_subset_cons x (List.nil_subset xs))

end Appends

mutual

theorem appends_stmt : (x : Stmt) → (site : Site) → (o : Output) →
    Appends z x.parts o (x.defined z.findings) ((stmt z site x).run o).2
  | .declare _, site, o | .define _, site, o | .assign _, site, o | .call _, site, o => by
    rw [stmt, run_place, Stmt.defined]
    exact .nothing rfl
  | .branch gs otherwise span, site, o => by
    rw [run_if, Stmt.defined, Stmt.parts]
    exact ((appends_branches gs site _ _).append (appends_else otherwise site _)).congr rfl
  | .loop g, site, o => by
    rw [stmt, Stmt.defined, Stmt.parts]
    exact appends_loop g site o
  | .routine r, site, o => by
    rw [stmt, Stmt.defined, Stmt.parts]
    exact appends_routine r site o
  | .type t, site, o => by
    rw [stmt, Stmt.defined, Stmt.parts]
    exact appends_type t site o

theorem appends_branch : (g : Guarded) → (site : Site) → (done : Label) → (o : Output) →
    Appends z g.parts o (g.defined z.findings) ((branch z site done g).run o).2
  | ⟨node, condition, body, span⟩, site, done, o => by
    rw [run_branch, Guarded.defined, Guarded.parts]
    exact ((appends_stmts body site _).mono (List.subset_cons_of_subset _
      (List.subset_append_right _ _))).congr rfl

theorem appends_loop : (g : Guarded) → (site : Site) → (o : Output) →
    Appends z g.parts o (g.defined z.findings) ((loop z site g).run o).2
  | ⟨node, condition, body, span⟩, site, o => by
    rw [run_loop, Guarded.defined, Guarded.parts]
    exact ((appends_stmts body site _).mono (List.subset_cons_of_subset _
      (List.subset_append_right _ _))).congr rfl

theorem appends_else : (e : Else) → (site : Site) → (o : Output) →
    Appends z e.parts o (e.defined z.findings) ((elseBlock z site e).run o).2
  | .absent, site, o => by
    rw [elseBlock, Else.defined]
    exact .nothing rfl
  | .block _ body _, site, o => by
    rw [elseBlock, Else.defined, Else.parts]
    exact (appends_stmts body site o).mono (List.subset_cons_self _ _)

theorem appends_routine : (r : RoutineDef) → (site : Site) → (o : Output) →
    Appends z r.parts o (r.defined z.findings) ((routine z site r).run o).2
  | ⟨node, name, closing, params, result, body, ret, span⟩, site, o => by
    have hbody := fun f => appends_stmts body (routineSite z f) o
    set r : RoutineDef := ⟨node, name, closing, params, result, body, ret, span⟩
    cases h : z.findings.routines.find? r.node with
    | none =>
      rw [run_routine_none z site h, RoutineDef.defined_none h]
      exact .nothing rfl
    | some f =>
      rw [run_routine_some z site h, RoutineDef.defined_some h, RoutineDef.parts_eq]
      exact ((hbody f).mono (List.subset_append_left _ _)).concat
        ⟨r, List.mem_cons_self, rfl, f, o, h, rfl⟩ rfl

theorem appends_memberRoutine : (r : RoutineDef) → (o : Output) →
    Appends z r.parts o (r.defined z.findings) ((memberRoutine z r).run o).2
  | ⟨node, name, closing, params, result, body, ret, span⟩, o => by
    have hbody := fun f => appends_stmts body (routineSite z f) o
    set r : RoutineDef := ⟨node, name, closing, params, result, body, ret, span⟩
    cases h : z.findings.routines.find? r.node with
    | none =>
      rw [run_memberRoutine_none z h, RoutineDef.defined_none h]
      exact .nothing rfl
    | some f =>
      rw [run_memberRoutine_some z h, RoutineDef.defined_some h, RoutineDef.parts_eq]
      exact ((hbody f).mono (List.subset_append_left _ _)).concat
        ⟨r, List.mem_cons_self, rfl, f, o, h, rfl⟩ rfl

theorem appends_type : (t : TypeDef) → (site : Site) → (o : Output) →
    Appends z t.parts o (t.defined z.findings) ((typeDef z site t).run o).2
  | ⟨node, name, closing, fields, statics, routines, staticRoutines, span⟩, site, o => by
    have hmembers := appends_memberRoutines routines o
    have hstatics := appends_memberRoutines staticRoutines
      ((memberRoutines z routines).run o).2
    set t : TypeDef := ⟨node, name, closing, fields, statics, routines, staticRoutines, span⟩
    cases h : z.findings.types.find? t.node with
    | none =>
      rw [run_typeDef_none z site h, TypeDef.defined_none h]
      exact .nothing rfl
    | some f =>
      rw [run_typeDef_some z site h, TypeDef.defined_some h, TypeDef.parts_eq, List.append_assoc]
      exact ((hmembers.append hstatics).mono (List.subset_append_right _ _)).concat
        ⟨t, List.mem_cons_self, rfl, rfl⟩ rfl

theorem appends_stmts : (xs : List Stmt) → (site : Site) → (o : Output) →
    Appends z (Stmt.allParts xs) o (Stmt.allDefined z.findings xs) ((stmts z site xs).run o).2
  | [], site, o => by
    rw [run_stmts_nil, Stmt.allDefined]
    exact .nothing rfl
  | x :: xs, site, o => by
    rw [run_stmts_cons, Stmt.allDefined, Stmt.allParts]
    exact (appends_stmt x site o).append (appends_stmts xs site _)

theorem appends_branches : (gs : List Guarded) → (site : Site) → (done : Label) →
    (o : Output) → Appends z (Guarded.allParts gs) o (Guarded.allDefined z.findings gs)
      ((branches z site done gs).run o).2
  | [], site, done, o => by
    rw [run_branches_nil, Guarded.allDefined]
    exact .nothing rfl
  | g :: gs, site, done, o => by
    rw [run_branches_cons, Guarded.allDefined, Guarded.allParts]
    exact (appends_branch g site done o).append (appends_branches gs site done _)

theorem appends_memberRoutines : (rs : List RoutineDef) → (o : Output) →
    Appends z (RoutineDef.allParts rs) o (RoutineDef.allDefined z.findings rs)
      ((memberRoutines z rs).run o).2
  | [], o => by
    rw [run_memberRoutines_nil, RoutineDef.allDefined]
    exact .nothing rfl
  | r :: rs, o => by
    rw [run_memberRoutines_cons, RoutineDef.allDefined, RoutineDef.allParts]
    exact (appends_memberRoutine r o).append (appends_memberRoutines rs _)

end

theorem ClassFor.paths_eq {ds : List (Defined z.findings)} {cs : List ClassFile}
    (h : List.Forall₂ (ClassFor z xs) ds cs) :
    cs.map ClassFile.path = ds.map (Defined.path z) := by
  induction h with
  | nil => rfl
  | cons hc _ ih => rw [List.map_cons, List.map_cons, hc.path_eq, ih]

/-- The classes of the definitions of a program, one for each. -/
theorem classes_defined (z : Analysis) (program : String) (q : Program) (labels : Nat) :
    List.Forall₂ (ClassFor z q.parts) (q.defined z.findings)
      (mainBody z program q labels).2.classes := by
  obtain ⟨cs, hcs, hall⟩ := appends_stmts (z := z) q.stmts (mainSite program)
    { labels, gaps := (makePredefined z Predefined.routines).gaps }
  have hclasses : (mainBody z program q labels).2.classes = [] ++ cs := hcs
  rw [hclasses]
  exact hall

/-- The paths of the classes of a program: its own, those of its definitions, and that of
the class that every routine extends. -/
theorem paths_generate (z : Analysis) (program : String) (q : Program) (labels : Nat) :
    (generate z program q labels).classes.map ClassFile.path =
      program :: ((q.defined z.findings).map (Defined.path z) ++ [z.types.routineBase]) := by
  rw [classes_eq, programClasses, List.cons_append, List.map_cons, List.map_append,
    ClassFor.paths_eq (classes_defined z program q labels)]
  rfl

/-- Definitions are at the paths of the units that were planned for them. -/
theorem path_of_unit (hz : z.Settled) (d : Defined z.findings) : d.path z = z.units.path d.unit := by
  cases d with
  | routine node f record => rfl
  | type node f record => exact (hz.sound.classes _ (NodeTable.mem_of_find? record)).path_eq

/-! ## One class for each definition -/

/-- Definitions of a program with their classes: each is on the list once that is on
record, and it comes before those that it stands inside of. -/
structure OneClassEach (z : Analysis) (q : Program) (ds : List (Defined z.findings))
    (cs : List ClassFile) : Prop where
  classes : List.Forall₂ (fun d c => ClassFor z q.parts d c ∧ c.path = z.units.path d.unit) ds cs
  complete : ∀ d, d ∈ ds
  nodup : (ds.map Defined.node).Nodup
  inner_first : ∀ {i j : Nat} {d e : Defined z.findings}, ds[i]? = some d → ds[j]? = some e →
    q.Nests d.node e.node → i < j

/-- A tree, with or without errors, is lowered to the class that runs it, one class for each
definition on record, and the class that every routine extends. -/
theorem one_class_each (program : String) {q : Program} (hq : q.nodes.Nodup) (labels : Nat) :
    ∃ code ds cs signatures, (generate (analyze program q) program q labels).classes =
        mainClass (analyze program q) program code ::
          (cs ++ [baseClass (analyze program q).types.routineBase signatures]) ∧
      OneClassEach (analyze program q) q ds cs := by
  have hz := Analysis.settled_analyze program hq
  refine ⟨_, q.defined (analyze program q).findings, _, _, classes_eq .., ?_,
    Analysis.mem_defined program q, Defined.nodup_nodes _ hq, Defined.inner_first _ hq⟩
  refine (classes_defined (analyze program q) program q labels).imp fun d c hc => ⟨hc, ?_⟩
  rw [hc.path_eq, path_of_unit hz]

theorem one_class_each_nested :
    ∃ code ds cs signatures, (generate (analyze "demo" nested) "demo" nested 0).classes =
        mainClass (analyze "demo" nested) "demo" code ::
          (cs ++ [baseClass (analyze "demo" nested).types.routineBase signatures]) ∧
      OneClassEach (analyze "demo" nested) nested ds cs :=
  one_class_each "demo" nodup_nested 0

end Lowering

end Unnest
