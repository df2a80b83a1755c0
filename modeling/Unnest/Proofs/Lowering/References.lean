import Unnest.Proofs.Lowering.Calls
import Unnest.Proofs.Lowering.Signatures

/-!
# References and declarations

The methods that the code of a program refers to are declared somewhere.  Every class is
complete before the program is, so a reference is resolved among all classes: a
definition that is on record is one of the program's, and its class was completed with
it.
-/

namespace Unnest

open Code

theorem Part.type_not_mem_of_isValue {xs : List Part} (h : ∀ x ∈ xs, x.isValue = true)
    (t : TypeDef) : .type t ∉ xs := fun ht => absurd (h _ ht) Bool.false_ne_true

theorem Code.ClassFile.method?_spec {c : ClassFile} {name : String} {m : Method}
    (h : c.method? name = some m) : m ∈ c.methods ∧ m.name = name := by
  rw [ClassFile.method?] at h
  have hname := List.find?_some h
  exact ⟨List.mem_of_find?_eq_some h, beq_iff_eq.mp hname⟩

namespace Lowering

variable {z : Analysis} {site : Site} {s : ScopeId} {xs ys : List Part}
  {cs cs₁ cs' : List ClassFile} {code code' : List Instruction}

/-! ## Steps of lowering -/

/-- What comes of lowering parts of the tree: code that calls only what it may call, and
classes whose methods do, one of them for each type. -/
structure Called (z : Analysis) (xs : List Part) (cs : List ClassFile) (code : List Instruction)
    (cs' : List ClassFile) : Prop where
  code : CallsOnly z code
  kept : cs ⊆ cs'
  classes : ∀ c ∈ cs', c ∈ cs ∨ ClassCallsOnly z c
  types : ∀ t, .type t ∈ xs → ∃ c ∈ cs', TypeClassOf z t c

namespace Called

theorem nothing (z : Analysis) (cs : List ClassFile) : Called z [] cs [] cs :=
  ⟨callsOnly_nil, List.Subset.refl _, fun _ h => Or.inl h, fun _ h => absurd h List.not_mem_nil⟩

theorem trans (h : Called z xs cs code cs₁) (h' : Called z ys cs₁ code' cs') :
    Called z (xs ++ ys) cs (code ++ code') cs' := by
  refine ⟨h.code.append h'.code, List.Subset.trans h.kept h'.kept, fun c hc => ?_, fun t ht => ?_⟩
  · rcases h'.classes c hc with hc | hc
    · exact h.classes c hc
    · exact Or.inr hc
  · rcases List.mem_append.mp ht with ht | ht
    · obtain ⟨c, hc, hct⟩ := h.types t ht
      exact ⟨c, h'.kept hc, hct⟩
    · exact h'.types t ht

/-- The parts of what was lowered, listed differently. -/
theorem conseq (h : Called z xs cs code cs') (ht : ∀ t, .type t ∈ ys → .type t ∈ xs) :
    Called z ys cs code cs' :=
  ⟨h.code, h.kept, h.classes, fun t hm => h.types t (ht t hm)⟩

theorem recode (h : Called z xs cs code cs') (hc : CallsOnly z code') :
    Called z xs cs code' cs' := ⟨hc, h.kept, h.classes, h.types⟩

/-- Code that stands for a part without a class. -/
theorem place (h : CallsOnly z code) (ht : ∀ t, .type t ∉ xs) : Called z xs cs code cs :=
  ⟨h, List.Subset.refl _, fun _ hc => Or.inl hc, fun t hm => absurd hm (ht t)⟩

/-- Code behind what was lowered. -/
theorem andCode (h : Called z xs cs code cs') (hc : CallsOnly z code') :
    Called z xs cs (code ++ code') cs' := h.recode (h.code.append hc)

/-- A class is completed. -/
theorem complete (h : Called z xs cs code cs') {c : ClassFile} (hc : ClassCallsOnly z c)
    (ht : ∀ t, .type t ∈ ys → .type t ∈ xs ∨ TypeClassOf z t c) :
    Called z ys cs [] (cs' ++ [c]) := by
  refine ⟨callsOnly_nil, List.Subset.trans h.kept (List.subset_append_left _ _), fun d hd => ?_,
    fun t hm => ?_⟩
  · rcases List.mem_append.mp hd with hd | hd
    · exact h.classes d hd
    · rw [List.mem_singleton.mp hd]
      exact Or.inr hc
  · rcases ht t hm with hm | htc
    · obtain ⟨d, hd, hdt⟩ := h.types t hm
      exact ⟨d, List.mem_append_left _ hd, hdt⟩
    · exact ⟨c, List.mem_append_right _ (List.mem_singleton_self c), htc⟩

end Called

/-! ## Statements -/

theorem callsOnly_jumpUnless (hz : z.Accepted) (hk : z.Known []) {condition : Expr} {t : TypeId}
    (h : z.ExprHas s condition t) (l : Label) :
    CallsOnly z (jumpUnless z site condition l).code :=
  (callsOnly_expr hz hk _ h).append (by simp [Instruction.call?])

/-- The code of a body behind its test. -/
theorem Called.guarded (hz : z.Accepted) (hk : z.Known []) {node : NodeId} {condition : Expr}
    {t : TypeId} (site : Site) (hc : z.ExprHas s condition t) (h : Called z xs cs code cs')
    (l l' : Label) :
    Called z (.block node :: (condition.parts ++ xs)) cs
      ((jumpUnless z site condition l).code ++ code ++ [.jump l', .label l]) cs' := by
  have hcode : CallsOnly z ((jumpUnless z site condition l).code ++ code ++
      [.jump l', .label l]) :=
    ((callsOnly_jumpUnless hz hk hc l).append h.code).append (by simp [Instruction.call?])
  refine (h.conseq fun t ht => ?_).recode hcode
  rcases List.mem_append.mp ((List.mem_cons.mp ht).resolve_left (by simp)) with ht | ht
  · exact absurd ht (Part.type_not_mem_of_isValue (fun x => condition.isValue_of_mem_parts) t)
  · exact ht

/-- Where a routine stands, nothing but its own class is called. -/
theorem Called.routine {r : RoutineDef} {site : Site} (h : z.RoutineDone s r) {o : Output}
    (hclass : Called z r.parts o.classes [] ((memberRoutine z r).run o).2.classes) :
    Called z r.parts o.classes ((routine z site r).run o).1 ((routine z site r).run o).2.classes := by
  cases h with
  | mk record =>
    rw [run_memberRoutine_some z record] at hclass
    rw [run_routine_some z site record]
    exact hclass.andCode (callsOnly_bindRoutine record)

mutual

/-- A statement that is decided is lowered to code that calls only what it may call. -/
theorem called_stmt (hz : z.Accepted) (hk : z.Known []) : (x : Stmt) → (site : Site) →
    {s : ScopeId} → z.StmtDone s x → (∀ y ∈ x.parts, z.Silent y) → (o : Output) →
      Called z x.parts o.classes ((stmt z site x).run o).1 ((stmt z site x).run o).2.classes
  | .declare d, site, s, h, _, o => by
    cases h with
    | declare hd =>
      rw [stmt, run_place]
      exact .place (callsOnly_varDecl hz hk hd) fun t ht => absurd (List.mem_singleton.mp ht) (by simp)
  | .define d, site, s, h, _, o => by
    cases h with
    | define hd =>
      rw [stmt, run_place]
      refine .place (callsOnly_initDecl hz hk hd) fun t ht => ?_
      rw [Stmt.parts, List.mem_cons] at ht
      exact Part.type_not_mem_of_isValue (fun y => d.value.isValue_of_mem_parts) t
        (ht.resolve_left (by simp))
  | .assign x, site, s, h, hq, o => by
    cases h with
    | assign ha =>
      rw [stmt, run_place]
      refine .place ?_ fun t ht => ?_
      · by_cases hlinks : x.target.links = []
        · have hnone : z.findings.assigns.find? x.node = none :=
            (hq (.assign x) List.mem_cons_self).assigns (by simp [Part.tables, hlinks])
          rw [assign, hnone]
          exact callsOnly_nil
        · obtain ⟨f, hdone⟩ := ha hlinks
          exact callsOnly_assign hz hk hdone
      · rw [Stmt.parts, Chain.parts, List.cons_append, List.mem_cons, List.mem_cons,
          List.mem_append] at ht
        rcases ht with ht | ht | ht | ht
        · exact absurd ht (by simp)
        · exact absurd ht (by simp)
        · exact absurd (x.target.isValue_of_mem_linkParts ht) Bool.false_ne_true
        · exact absurd (x.value.isValue_of_mem_parts ht) Bool.false_ne_true
  | .call c, site, s, h, hq, o => by
    cases h with
    | call hc =>
      rw [stmt, run_place]
      refine .place ?_ fun t ht => ?_
      · by_cases hlinks : c.links = []
        · have hnone := (hq (.chain c) List.mem_cons_self).chains (by simp [Part.tables, hlinks])
          obtain ⟨node, ls, span⟩ := c
          obtain rfl : ls = [] := hlinks
          rw [callStmt, chain, links]
          dsimp only
          rw [show z.findings.chains.find? node = none from hnone]
          exact callsOnly_nil
        · obtain ⟨t, hdone⟩ := hc hlinks
          exact callsOnly_callStmt hz hk hdone
      · rw [Stmt.parts, Chain.parts, List.mem_cons] at ht
        exact Part.type_not_mem_of_isValue (fun y => c.isValue_of_mem_linkParts) t
          (ht.resolve_left (by simp))
  | .branch gs otherwise span, site, s, h, hq, o => by
    cases h with
    | branch hgs he =>
      rw [Stmt.parts, List.forall_mem_append] at hq
      rw [run_if]
      have hbranches := called_branches hz hk gs site hgs hq.1 ⟨o.labels + 1⟩
        { o with labels := o.labels + 1 }
      exact (hbranches.trans (called_else hz hk otherwise site he hq.2 _)).andCode
        (by simp [Instruction.call?])
  | .loop g, site, s, h, hq, o => by
    cases h with
    | loop hg =>
      rw [stmt]
      exact called_loop hz hk g site hg hq o
  | .routine r, site, s, h, hq, o => by
    cases h with
    | routine hr =>
      rw [stmt]
      exact .routine hr (called_memberRoutine hz hk r hr hq o)
  | .type t, site, s, h, hq, o => by
    cases h with
    | type ht =>
      rw [stmt]
      exact called_typeDef hz hk t site ht hq o

theorem called_branch (hz : z.Accepted) (hk : z.Known []) : (g : Guarded) → (site : Site) →
    {s : ScopeId} → z.GuardedDone s g → (∀ y ∈ g.parts, z.Silent y) → (done : Label) →
      (o : Output) → Called z g.parts o.classes ((branch z site done g).run o).1
        ((branch z site done g).run o).2.classes
  | ⟨node, condition, body, span⟩, site, s, h, hq, done, o => by
    cases h with
    | mk record parent kind hc hb =>
      rw [Guarded.parts, List.forall_mem_cons, List.forall_mem_append] at hq
      rw [run_branch]
      exact .guarded hz hk site hc (called_stmts hz hk body site hb hq.2.2
        ⟨o.labels + 1, o.classes, o.gaps + (jumpUnless z site condition ⟨o.labels + 1⟩).gaps⟩)
        ⟨o.labels + 1⟩ done

theorem called_loop (hz : z.Accepted) (hk : z.Known []) : (g : Guarded) → (site : Site) →
    {s : ScopeId} → z.GuardedDone s g → (∀ y ∈ g.parts, z.Silent y) → (o : Output) →
      Called z g.parts o.classes ((loop z site g).run o).1 ((loop z site g).run o).2.classes
  | ⟨node, condition, body, span⟩, site, s, h, hq, o => by
    cases h with
    | mk record parent kind hc hb =>
      rw [Guarded.parts, List.forall_mem_cons, List.forall_mem_append] at hq
      rw [run_loop]
      have hloop : Called z (Guarded.parts ⟨node, condition, body, span⟩) o.classes
          (_ ++ [.jump ⟨o.labels + 1⟩, .label ⟨o.labels + 2⟩]) _ :=
        .guarded hz hk site hc (called_stmts hz hk body site hb hq.2.2
          ⟨o.labels + 2, o.classes, o.gaps + (jumpUnless z site condition ⟨o.labels + 2⟩).gaps⟩) _ _
      exact hloop.recode (callsOnly_cons.mpr ⟨by simp [Instruction.call?], hloop.code⟩)

theorem called_else (hz : z.Accepted) (hk : z.Known []) : (e : Else) → (site : Site) →
    {s : ScopeId} → z.ElseDone s e → (∀ y ∈ e.parts, z.Silent y) → (o : Output) →
      Called z e.parts o.classes ((elseBlock z site e).run o).1
        ((elseBlock z site e).run o).2.classes
  | .absent, site, s, h, hq, o => by
    rw [elseBlock]
    exact .nothing z o.classes
  | .block node body span, site, s, h, hq, o => by
    cases h with
    | block record parent kind hb =>
      rw [Else.parts, List.forall_mem_cons] at hq
      rw [elseBlock]
      exact (called_stmts hz hk body site hb hq.2 o).conseq fun t ht =>
        (List.mem_cons.mp ht).resolve_left (by simp)

theorem called_memberRoutine (hz : z.Accepted) (hk : z.Known []) : (r : RoutineDef) →
    {s : ScopeId} → z.RoutineDone s r → (∀ y ∈ r.parts, z.Silent y) → (o : Output) →
      Called z r.parts o.classes [] ((memberRoutine z r).run o).2.classes
  | ⟨node, name, closing, params, result, body, ret, span⟩, s, h, hq, o => by
    cases h with
    | @mk _ _ _ _ _ _ _ _ _ f record parent hb hret =>
      rw [RoutineDef.parts, List.forall_mem_cons, List.forall_mem_append] at hq
      have hbody := called_stmts hz hk body (routineSite z f) hb hq.2.1 o
      rw [run_memberRoutine_some z record]
      refine hbody.complete (classCallsOnly_routineClass f
        (hbody.code.append (callsOnly_routineEnd hz hk f hret))) fun t ht => Or.inl ?_
      rw [RoutineDef.parts, List.mem_cons, List.mem_append] at ht
      rcases ht with ht | ht | ht
      · exact absurd ht (by simp)
      · exact ht
      · exact absurd (ReturnClause.isValue_of_mem_optParts ht) Bool.false_ne_true

theorem called_typeDef (hz : z.Accepted) (hk : z.Known []) : (t : TypeDef) → (site : Site) →
    {s : ScopeId} → z.TypeDone s t → (∀ y ∈ t.parts, z.Silent y) → (o : Output) →
      Called z t.parts o.classes ((typeDef z site t).run o).1 ((typeDef z site t).run o).2.classes
  | ⟨node, name, closing, fields, statics, routines, staticRoutines, span⟩, site, s, h, hq, o => by
    cases h with
    | @mk _ _ _ _ _ _ _ _ _ f record parent hfields hstatics hr hsr =>
      rw [TypeDef.parts, List.forall_mem_cons, List.forall_mem_append, List.forall_mem_append] at hq
      have hmembers := (called_memberRoutines hz hk routines hr hq.2.1.2 o).trans
        (called_memberRoutines hz hk staticRoutines hsr hq.2.2 _)
      have hclass := classCallsOnly_typeClass f (declaredRoutines z routines)
        (declaredRoutines z staticRoutines)
        (callsOnly_constructorCode hz hk f (recorded_declared routines))
        (callsOnly_staticInitCode hz hk f (recorded_declared staticRoutines) hstatics)
      rw [run_typeDef_some z site record]
      refine (hmembers.complete hclass fun t ht => ?_).andCode (callsOnly_initType record)
      rw [TypeDef.parts, List.mem_cons, List.mem_append, List.mem_append, List.mem_append] at ht
      rcases ht with ht | ((ht | ht) | ht) | ht
      · obtain rfl := Part.type.inj ht
        exact Or.inr ⟨f, _, _, _, _, record, rfl⟩
      · obtain ⟨d, -, hd⟩ := List.mem_map.mp ht
        exact absurd hd (by simp)
      · obtain ⟨x, -, hx⟩ := List.mem_flatMap.mp ht
        rw [StaticField.parts, List.mem_cons] at hx
        exact absurd (x.init.isValue_of_mem_parts (hx.resolve_left (by simp))) Bool.false_ne_true
      · exact Or.inl (List.mem_append_left _ ht)
      · exact Or.inl (List.mem_append_right _ ht)

theorem called_stmts (hz : z.Accepted) (hk : z.Known []) : (xs : List Stmt) → (site : Site) →
    {s : ScopeId} → z.StmtsDone s xs → (∀ y ∈ Stmt.allParts xs, z.Silent y) → (o : Output) →
      Called z (Stmt.allParts xs) o.classes ((stmts z site xs).run o).1
        ((stmts z site xs).run o).2.classes
  | [], site, s, h, hq, o => by
    rw [run_stmts_nil]
    exact .nothing z o.classes
  | x :: xs, site, s, h, hq, o => by
    cases h with
    | cons hx hxs =>
      rw [Stmt.allParts, List.forall_mem_append] at hq
      rw [run_stmts_cons]
      exact (called_stmt hz hk x site hx hq.1 o).trans (called_stmts hz hk xs site hxs hq.2 _)

theorem called_branches (hz : z.Accepted) (hk : z.Known []) : (gs : List Guarded) →
    (site : Site) → {s : ScopeId} → z.GuardedAllDone s gs →
      (∀ y ∈ Guarded.allParts gs, z.Silent y) → (done : Label) → (o : Output) →
        Called z (Guarded.allParts gs) o.classes ((branches z site done gs).run o).1
          ((branches z site done gs).run o).2.classes
  | [], site, s, h, hq, done, o => by
    rw [run_branches_nil]
    exact .nothing z o.classes
  | g :: gs, site, s, h, hq, done, o => by
    cases h with
    | cons hg hgs =>
      rw [Guarded.allParts, List.forall_mem_append] at hq
      rw [run_branches_cons]
      exact (called_branch hz hk g site hg hq.1 done o).trans
        (called_branches hz hk gs site hgs hq.2 done _)

theorem called_memberRoutines (hz : z.Accepted) (hk : z.Known []) : (rs : List RoutineDef) →
    {s : ScopeId} → z.RoutinesDone s rs → (∀ y ∈ RoutineDef.allParts rs, z.Silent y) →
      (o : Output) → Called z (RoutineDef.allParts rs) o.classes []
        ((memberRoutines z rs).run o).2.classes
  | [], s, h, hq, o => by
    rw [run_memberRoutines_nil]
    exact .nothing z o.classes
  | r :: rs, s, h, hq, o => by
    cases h with
    | cons hr hrs =>
      rw [RoutineDef.allParts, List.forall_mem_append] at hq
      rw [run_memberRoutines_cons]
      exact (called_memberRoutine hz hk r hr hq.1 o).trans
        (called_memberRoutines hz hk rs hrs hq.2 _)

end

/-! ## Whole programs -/

theorem callsOnly_makePredefined (hz : z.Accepted) (hk : z.Known []) :
    (xs : List (String × TypeId)) → (∀ x ∈ xs, z.types.Has x.2) →
      CallsOnly z (makePredefined z xs).code
  | [], _ => callsOnly_nil
  | (name, type) :: xs, h => by
    rw [List.forall_mem_cons] at h
    rw [makePredefined]
    refine .append ?_ (callsOnly_makePredefined hz hk xs h.2)
    split
    · exact .append (callsOnly_defaultValue hz hk h.1) (by simp [Instruction.call?])
    · exact callsOnly_nil

theorem classCallsOnly_mainClass (program : String) (h : CallsOnly z code) :
    ClassCallsOnly z (mainClass z program code) := by
  intro m hm
  rcases List.mem_cons.mp hm with rfl | hm
  · exact callsOnly_plainConstructor
  · rw [List.mem_singleton.mp hm]
    exact h

theorem classCallsOnly_baseClass (base : String) (ds : List Descriptor) :
    ClassCallsOnly z (baseClass base ds) := by
  intro m hm
  rcases List.mem_cons.mp hm with rfl | hm
  · exact callsOnly_plainConstructor
  · obtain ⟨d, -, rfl⟩ := List.mem_map.mp hm
    rw [baseMethod, Method.assemble]
    dsimp only
    split <;> simp [Instruction.call?]

/-- One of the classes has this method, with exactly this descriptor and staticness. -/
def Declare (cs : List ClassFile) (isStatic : Bool) (m : MethodRef) : Prop :=
  ∃ c ∈ cs, c.path = m.owner ∧ ∃ d ∈ c.methods,
    d.name = m.name ∧ d.descriptor = m.descriptor ∧ d.modifiers.isStatic = isStatic

/-- A reference leads into the runtime library, or to a method that one of the classes
declares. -/
def Resolves (base : String) (cs : List ClassFile) (kind : CallKind) (m : MethodRef) : Prop :=
  (∃ isStatic, kind = .ofStatic isStatic ∧ Predefined.Lists base isStatic m) ∨
    kind = .special ∧ (Predefined.Constructs base m ∨
      m = ⟨Reserved.object, Reserved.constructor, .void⟩) ∨
    Declare cs (decide (kind = .static)) m

theorem declare_of_method? {cs : List ClassFile} {c : ClassFile} (hc : c ∈ cs) {m : MethodRef}
    (hpath : c.path = m.owner) {d : Method} (hd : c.method? m.name = some d)
    (hdescriptor : d.descriptor = m.descriptor) {isStatic : Bool}
    (hstatic : d.modifiers.isStatic = isStatic) : Declare cs isStatic m :=
  ⟨c, hc, hpath, d, (ClassFile.method?_spec hd).1, (ClassFile.method?_spec hd).2, hdescriptor,
    hstatic⟩

/-- The class of a routine has a constructor that takes what the routine received. -/
theorem constructor_of_classOf {r : RoutineDef} {c : ClassFile} (h : ClassOf z r c) :
    ∃ f, z.findings.routines.find? r.node = some f ∧ c.path = z.units.path f.unit ∧
      c.method? Reserved.constructor =
        some (fieldConstructor (z.units.path f.unit) z.types.routineBase (routineFields z f)) := by
  obtain ⟨f, o, hf, rfl⟩ := h
  refine ⟨f, hf, path_routineClass f _, ?_⟩
  rw [ClassFile.method?, routineClass]
  dsimp only [ClassFile.addMethod]
  rw [methods_addFields]
  rfl

/-- The class of a type has a constructor that takes nothing. -/
theorem constructor_of_typeClassOf {t : TypeDef} {c : ClassFile} (h : TypeClassOf z t c) :
    ∃ f code, z.findings.types.find? t.node = some f ∧ c.path = z.types.path f.type ∧
      c.method? Reserved.constructor = some (.assemble Reserved.constructor .void .instanceMember
        [thisVar (z.types.path f.type)] 0 code) := by
  obtain ⟨f, rs, ss, constructor, staticInit, hf, rfl⟩ := h
  refine ⟨f, constructor, hf, path_typeClass f rs ss _ _, ?_⟩
  rw [ClassFile.method?, typeClass]
  dsimp only [ClassFile.addMethod]
  rw [methods_addFields]
  rfl

/-- The class of a type has a static method that takes what the type received. -/
theorem staticInit_of_typeClassOf {t : TypeDef} {c : ClassFile} (h : TypeClassOf z t c) :
    ∃ f code, z.findings.types.find? t.node = some f ∧ c.path = z.types.path f.type ∧
      c.method? Reserved.staticInit = some (.assemble Reserved.staticInit
        ⟨captureDescriptors z f.captures, none⟩ .staticMember [] f.captures.length code) := by
  obtain ⟨f, rs, ss, constructor, staticInit, hf, rfl⟩ := h
  refine ⟨f, staticInit, hf, path_typeClass f rs ss _ _, ?_⟩
  rw [ClassFile.method?, typeClass]
  dsimp only [ClassFile.addMethod]
  rw [methods_addFields]
  rfl

theorem baseClass_mem (z : Analysis) (program : String) (q : Program) (labels : Nat) :
    baseClass z.types.routineBase
      (usedSignatures z.types.routineBase (programClasses z program q labels)) ∈
        (generate z program q labels).classes := by
  rw [classes_eq]
  exact List.mem_append_right _ (List.mem_singleton_self _)

section

variable (program : String) {q : Program} (hq : q.nodes.Nodup)
  (h : (analyze program q).errors = []) (labels : Nat)

include hq h

theorem called_program : Called (analyze program q) q.parts []
    (mainBody (analyze program q) program q labels).1
    (mainBody (analyze program q) program q labels).2.classes :=
  called_stmts (Analysis.accepted_analyze program hq h) (Analysis.known_analyze program q) q.stmts
    (mainSite program) (Analysis.done_analyze program hq h)
    (fun _ hx => Analysis.silent_analyze program hq hx)
    { labels, gaps := (makePredefined (analyze program q) Predefined.routines).gaps }

/-- No method of an accepted program calls what it may not call. -/
theorem classCallsOnly_generate :
    ∀ c ∈ (generate (analyze program q) program q labels).classes,
      ClassCallsOnly (analyze program q) c := by
  have hz := Analysis.accepted_analyze program hq h
  have hk := Analysis.known_analyze program q
  have hbody := called_program program hq h labels
  have hpredefined : ∀ x ∈ Predefined.routines, x.2.index < 6 := by decide
  have hstart := callsOnly_makePredefined hz hk Predefined.routines fun x hx =>
    (hz.sound.types.predefined x.2 (hpredefined x hx)).1
  rw [classes_eq, List.forall_mem_append]
  refine ⟨List.forall_mem_cons.mpr ⟨?_, fun c hc => ?_⟩,
    List.forall_mem_singleton.mpr (classCallsOnly_baseClass _ _)⟩
  · exact classCallsOnly_mainClass program
      ((hstart.append hbody.code).append (by simp [Instruction.call?]))
  · exact (hbody.classes c hc).resolve_left List.not_mem_nil

/-- Every type has a class. -/
theorem exists_typeClass {t : TypeDef} (ht : .type t ∈ q.parts) :
    ∃ c ∈ (generate (analyze program q) program q labels).classes,
      TypeClassOf (analyze program q) t c := by
  obtain ⟨c, hc, hct⟩ := (called_program program hq h labels).types t ht
  refine ⟨c, ?_, hct⟩
  rw [classes_eq]
  exact List.mem_append_left _ (List.mem_cons_of_mem _ hc)

/-- A routine on record is one of the program's. -/
theorem class_of_routine {node : NodeId} {f : RoutineFinding}
    (hf : (analyze program q).findings.routines.find? node = some f) :
    ∃ c ∈ (generate (analyze program q) program q labels).classes,
      c.path = (analyze program q).units.path f.unit ∧
        c.method? Reserved.constructor = some (fieldConstructor
          ((analyze program q).units.path f.unit) (analyze program q).types.routineBase
          (routineFields (analyze program q) f)) := by
  obtain ⟨_, hx, htable, rfl⟩ := Analysis.exists_part program (Findings.mem_keys_routines hf)
  obtain ⟨r, rfl⟩ := Part.eq_routine htable
  obtain ⟨c, hc, hclass⟩ := exists_class program hq h labels hx
  obtain ⟨f', hf', hpath, hm⟩ := constructor_of_classOf hclass
  obtain rfl := Option.some.inj (hf'.symm.trans hf)
  exact ⟨c, hc, hpath, hm⟩

/-- A type on record is one of the program's. -/
theorem class_of_type {node : NodeId} {f : TypeFinding}
    (hf : (analyze program q).findings.types.find? node = some f) :
    ∃ c ∈ (generate (analyze program q) program q labels).classes,
      ∃ t : TypeDef, t.node = node ∧ TypeClassOf (analyze program q) t c := by
  obtain ⟨_, hx, htable, rfl⟩ := Analysis.exists_part program (Findings.mem_keys_types hf)
  obtain ⟨t, rfl⟩ := Part.eq_type htable
  obtain ⟨c, hc, hclass⟩ := exists_typeClass program hq h labels hx
  exact ⟨c, hc, t, rfl, hclass⟩

/-- A method that code may call is one that there is. -/
theorem resolves_of_callable {kind : CallKind} {m : MethodRef}
    (hc : Callable (analyze program q) kind m)
    (hused : ∀ d, m = ⟨(analyze program q).types.routineBase, Reserved.call, d⟩ →
      kind = .virtual → d ∈ usedSignatures (analyze program q).types.routineBase
        (programClasses (analyze program q) program q labels)) :
    Resolves (analyze program q).types.routineBase
      (generate (analyze program q) program q labels).classes kind m := by
  have hbase := baseClass_mem (analyze program q) program q labels
  cases hc with
  | object => exact Or.inr (Or.inl ⟨rfl, Or.inr rfl⟩)
  | library hlists => exact Or.inl ⟨_, rfl, hlists⟩
  | libraryConstructor hconstructs => exact Or.inr (Or.inl ⟨rfl, Or.inl hconstructs⟩)
  | base =>
    exact Or.inr (Or.inr ⟨_, hbase, rfl, _, List.mem_cons_self, rfl, rfl, rfl⟩)
  | value d =>
    exact Or.inr (Or.inr ⟨_, hbase, rfl, _,
      List.mem_cons_of_mem _ (List.mem_map_of_mem (hused d rfl rfl)), rfl, rfl, rfl⟩)
  | routine hf =>
    obtain ⟨c, hc, hpath, hm⟩ := class_of_routine program hq h labels hf
    exact Or.inr (Or.inr (declare_of_method? hc hpath hm rfl rfl))
  | type hf =>
    obtain ⟨c, hc, t, rfl, hclass⟩ := class_of_type program hq h labels hf
    obtain ⟨f, code, hf', hpath, hm⟩ := constructor_of_typeClassOf hclass
    obtain rfl := Option.some.inj (hf'.symm.trans hf)
    exact Or.inr (Or.inr (declare_of_method? hc hpath hm rfl rfl))
  | staticInit hf =>
    obtain ⟨c, hc, t, rfl, hclass⟩ := class_of_type program hq h labels hf
    obtain ⟨f, code, hf', hpath, hm⟩ := staticInit_of_typeClassOf hclass
    obtain rfl := Option.some.inj (hf'.symm.trans hf)
    exact Or.inr (Or.inr (declare_of_method? hc hpath hm rfl rfl))

end

/-- The base declares the signatures that any of the classes uses. -/
theorem mem_usedSignatures_generate (z : Analysis) (program : String) (q : Program) (labels : Nat)
    {d : Descriptor} : d ∈ usedSignatures z.types.routineBase (programClasses z program q labels) ↔
      ∃ c ∈ (generate z program q labels).classes, Uses z.types.routineBase c d := by
  rw [mem_usedSignatures, classes_eq]
  refine ⟨fun ⟨c, hc, hu⟩ => ⟨c, List.mem_append_left _ hc, hu⟩, fun ⟨c, hc, hu⟩ => ?_⟩
  rcases List.mem_append.mp hc with hc | hc
  · exact ⟨c, hc, hu⟩
  · rw [List.mem_singleton.mp hc] at hu
    exact mem_usedSignatures.mp (uses_baseClass hu)

/-- Method references are closed.  Every method that the code of an accepted program
calls is one that the runtime library has, or one that a class of the program declares,
static exactly when it is called as a static method.

The object of a routine is made with the constructor of the routine's class, and a
definition of a type runs the static method of the type's class.  The class that every
routine extends declares each signature once, and exactly those that are called through
it or implemented by a class that extends it. -/
theorem references_closed (program : String) {q : Program} (hq : q.nodes.Nodup)
    (h : (analyze program q).errors = []) (labels : Nat) :
    (∀ c ∈ (generate (analyze program q) program q labels).classes, ∀ m ∈ c.methods,
      ∀ i ∈ m.code, ∀ kind ref, i.call? = some (kind, ref) →
        Resolves (analyze program q).types.routineBase
          (generate (analyze program q) program q labels).classes kind ref) ∧
    (∀ r, .routine r ∈ q.parts →
      ∃ f, (analyze program q).findings.routines.find? r.node = some f ∧
        ∃ c ∈ (generate (analyze program q) program q labels).classes,
          ClassOf (analyze program q) r c ∧ ∃ m, c.method? Reserved.constructor = some m ∧
            ∀ site, ∃ before, (makeRoutine (analyze program q) site f).code =
              before ++ [.invokeSpecial ⟨c.path, m.name, m.descriptor⟩]) ∧
    (∀ t, .type t ∈ q.parts →
      ∃ f, (analyze program q).findings.types.find? t.node = some f ∧
        ∃ c ∈ (generate (analyze program q) program q labels).classes,
          TypeClassOf (analyze program q) t c ∧ ∃ m, c.method? Reserved.staticInit = some m ∧
            m.modifiers.isStatic = true ∧
              ∀ site, ∃ before, (initType (analyze program q) site f).code =
                before ++ [.invokeStatic ⟨c.path, m.name, m.descriptor⟩]) ∧
    ∃ b ∈ (generate (analyze program q) program q labels).classes,
      b.path = (analyze program q).types.routineBase ∧ (callDescriptors b).Nodup ∧
        ∀ d, d ∈ callDescriptors b ↔
          ∃ c ∈ (generate (analyze program q) program q labels).classes,
            Uses (analyze program q).types.routineBase c d := by
  refine ⟨fun c hc m hm i hi kind ref hcall => ?_, fun r hr => ?_, fun t ht => ?_, ?_⟩
  · refine resolves_of_callable program hq h labels
      (classCallsOnly_generate program hq h labels c hc m hm i hi _ hcall) fun d hd hk => ?_
    refine (mem_usedSignatures_generate _ _ _ _).mpr ⟨c, hc, m, hm, Or.inl ?_⟩
    subst hd hk
    cases i with
    | invokeVirtual m =>
      obtain rfl := (Prod.mk.inj (Option.some.inj hcall)).2
      exact hi
    | _ => exact absurd hcall (by simp [Instruction.call?])
  · obtain ⟨c, hc, hclass⟩ := exists_class program hq h labels hr
    obtain ⟨f, hf, hpath, hm⟩ := constructor_of_classOf hclass
    refine ⟨f, hf, c, hc, hclass, _, hm, fun site => ?_⟩
    rw [hpath]
    exact ⟨_, rfl⟩
  · obtain ⟨c, hc, hclass⟩ := exists_typeClass program hq h labels ht
    obtain ⟨f, code, hf, hpath, hm⟩ := staticInit_of_typeClassOf hclass
    refine ⟨f, hf, c, hc, hclass, _, hm, rfl, fun site => ?_⟩
    rw [hpath]
    exact ⟨_, rfl⟩
  · refine ⟨_, baseClass_mem _ program q labels, rfl, ?_, fun d => ?_⟩
    · rw [callDescriptors_baseClass]
      exact nodup_usedSignatures
    · rw [callDescriptors_baseClass]
      exact mem_usedSignatures_generate _ _ _ _

theorem references_closed_nested : (analyze "demo" nested).errors = [] ∧
    ∀ c ∈ (generate (analyze "demo" nested) "demo" nested 0).classes, ∀ m ∈ c.methods,
      ∀ i ∈ m.code, ∀ kind ref, i.call? = some (kind, ref) →
        Resolves (analyze "demo" nested).types.routineBase
          (generate (analyze "demo" nested) "demo" nested 0).classes kind ref :=
  ⟨Analysis.errors_nested, (references_closed "demo" nodup_nested Analysis.errors_nested 0).1⟩

end Lowering

end Unnest
