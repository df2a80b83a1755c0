import Unnest.Proofs.Lowering.ControlFlow
import Unnest.Proofs.Lowering.Making

/-!
# What a statement is lowered to

The statements of an accepted program are lowered without gaps.  Their code is regular,
and so are the bodies of all methods that are completed on the way; what these leave on
the stack together is what the copies among their parts leave (`Part.left`).  Every
routine among the parts has a class, with the code of its body in the call method.

`Emitted z xs o code o'` says all of this of a step of lowering that goes from the output
`o` to `o'` and returns `code`, for the parts `xs` of the tree.  Steps that follow each
other are put together by `Emitted.trans`.
-/

namespace Unnest

open Code

/-! ## What copies leave -/

/-- The cells that a part leaves on the stack. -/
def Part.left (z : Analysis) : Part → Nat
  | .define d => declLeft d.node
  | .staticField f => declLeft f.decl.node
  | .assign x =>
    match z.findings.assigns.find? x.node with
    | some f => f.mode.left 1
    | none => 0
  | .expr _ | .chain _ | .link _ | .block _ | .declare _ | .routine _ | .type _ => 0
where
  /-- Every declared name gets a copy of its own. -/
  declLeft (node : NodeId) : Nat :=
    match z.findings.decls.find? node with
    | some { bindings, mode := some mode, .. } => mode.left bindings.length
    | _ => 0

/-- The cells that parts leave together. -/
def Part.allLeft (z : Analysis) (xs : List Part) : Nat := (xs.map (left z)).sum

namespace Part

variable (z : Analysis)

@[simp] theorem allLeft_nil : allLeft z [] = 0 := rfl

@[simp] theorem allLeft_cons (x : Part) (xs : List Part) :
    allLeft z (x :: xs) = x.left z + allLeft z xs := by
  rw [allLeft, List.map_cons, List.sum_cons, allLeft]

@[simp] theorem allLeft_append (xs ys : List Part) :
    allLeft z (xs ++ ys) = allLeft z xs + allLeft z ys := by
  rw [allLeft, List.map_append, List.sum_append, allLeft, allLeft]

theorem allLeft_eq_zero {xs : List Part} : allLeft z xs = 0 ↔ ∀ x ∈ xs, x.left z = 0 := by
  induction xs with
  | nil => exact ⟨fun _ => List.forall_mem_nil _, fun _ => rfl⟩
  | cons x xs ih => rw [allLeft_cons, Nat.add_eq_zero_iff, ih, List.forall_mem_cons]

variable {z}

/-- An expression copies nothing. -/
theorem allLeft_of_isValue {xs : List Part} (h : ∀ x ∈ xs, x.isValue = true) :
    allLeft z xs = 0 := by
  refine (allLeft_eq_zero z).mpr fun x hx => ?_
  have hvalue := h x hx
  cases x <;> first | rfl | exact absurd hvalue Bool.false_ne_true

theorem routine_not_mem_of_isValue {xs : List Part} (h : ∀ x ∈ xs, x.isValue = true)
    (r : RoutineDef) : .routine r ∉ xs := fun hr => absurd (h _ hr) Bool.false_ne_true

end Part

namespace Lowering

/-! ## Steps of lowering -/

/-- The class that a routine is lowered to, somewhere on the way. -/
def ClassOf (z : Analysis) (r : RoutineDef) (c : ClassFile) : Prop :=
  ∃ f o, z.findings.routines.find? r.node = some f ∧
    c = routineClass z f (((stmts z (routineSite z f) r.body).run o).1 ++ (routineEnd z f r.ret).code)

/-- What comes of lowering parts of the tree. -/
structure Emitted (z : Analysis) (xs : List Part) (o : Output) (code : List Instruction)
    (o' : Output) : Prop where
  gaps : (∀ c, .chain c ∈ xs → c.links ≠ []) → o'.gaps = o.gaps
  classes : ∃ cs n k, o'.classes = o.classes ++ cs ∧ Regular code n ∧
    Leave (cs.flatMap ClassFile.methods) k ∧ n + k = Part.allLeft z xs
  routines : ∀ r, .routine r ∈ xs → ∃ c ∈ o'.classes, ClassOf z r c

variable {z : Analysis} {site : Site} {s : ScopeId} {xs ys : List Part} {o o₁ o' : Output}
  {code code' : List Instruction}

namespace Emitted

theorem mem_classes (h : Emitted z xs o code o') {c : ClassFile} (hc : c ∈ o.classes) :
    c ∈ o'.classes := by
  obtain ⟨cs, n, k, hcs, -⟩ := h.classes
  rw [hcs]
  exact List.mem_append_left _ hc

theorem trans (h : Emitted z xs o code o₁) (h' : Emitted z ys o₁ code' o') :
    Emitted z (xs ++ ys) o (code ++ code') o' := by
  refine ⟨fun hl => ?_, ?_, fun r hr => ?_⟩
  · rw [h'.gaps fun c hc => hl c (List.mem_append_right _ hc),
      h.gaps fun c hc => hl c (List.mem_append_left _ hc)]
  · obtain ⟨cs, n, k, hcs, hcode, hleave, heq⟩ := h.classes
    obtain ⟨cs', n', k', hcs', hcode', hleave', heq'⟩ := h'.classes
    refine ⟨cs ++ cs', n + n', k + k', ?_, hcode.append hcode', ?_, ?_⟩
    · rw [hcs', hcs, List.append_assoc]
    · rw [List.flatMap_append]
      exact hleave.append hleave'
    · rw [Part.allLeft_append, ← heq, ← heq']
      omega
  · rcases List.mem_append.mp hr with hr | hr
    · obtain ⟨c, hc, hcr⟩ := h.routines r hr
      exact ⟨c, h'.mem_classes hc, hcr⟩
    · exact h'.routines r hr

/-- The parts of what was lowered, listed differently. -/
theorem conseq (h : Emitted z xs o code o') (hsub : ∀ x ∈ xs, x ∈ ys)
    (hroutines : ∀ r, .routine r ∈ ys → .routine r ∈ xs)
    (hleft : Part.allLeft z xs = Part.allLeft z ys) : Emitted z ys o code o' := by
  obtain ⟨cs, n, k, hcs, hcode, hleave, heq⟩ := h.classes
  exact ⟨fun hl => h.gaps fun c hc => hl c (hsub _ hc),
    ⟨cs, n, k, hcs, hcode, hleave, heq.trans hleft⟩, fun r hr => h.routines r (hroutines r hr)⟩

/-- Only the classes and the gaps of an output matter. -/
theorem start (h : Emitted z xs o₁ code o') (hclasses : o₁.classes = o.classes)
    (hgaps : o₁.gaps = o.gaps) : Emitted z xs o code o' := by
  refine ⟨fun hl => (h.gaps hl).trans hgaps, ?_, h.routines⟩
  rw [← hclasses]
  exact h.classes

/-- Nothing is emitted for nothing. -/
theorem nothing (z : Analysis) (o : Output) : Emitted z [] o [] o :=
  ⟨fun _ => rfl, ⟨[], 0, 0, (List.append_nil _).symm,
    (Fragment.Moves.empty 0).regular Fragment.isPlain_empty, .nil, rfl⟩,
    fun _ hr => absurd hr List.not_mem_nil⟩

/-- A fragment that stands for a part without a class. -/
theorem place {f : Fragment} (hf : f.IsPlain) (h : Carries 0 f.code (Part.allLeft z xs))
    (hgaps : (∀ c, .chain c ∈ xs → c.links ≠ []) → f.gaps = 0) (hr : ∀ r, .routine r ∉ xs) :
    Emitted z xs o f.code { o with gaps := o.gaps + f.gaps } := by
  refine ⟨fun hl => ?_, ?_, fun r hm => absurd hm (hr r)⟩
  · rw [hgaps hl, Nat.add_zero]
  · exact ⟨[], _, 0, (List.append_nil _).symm, .plain hf h, .nil, Nat.add_zero _⟩

theorem place_moves {f : Fragment} {n : Nat} (h : f.Moves 0 n) (hf : f.IsPlain)
    (hn : n = Part.allLeft z xs) (hr : ∀ r, .routine r ∉ xs) :
    Emitted z xs o f.code { o with gaps := o.gaps + f.gaps } :=
  place hf (hn ▸ h.carries) (fun _ => h.gaps) hr

/-- A fragment that stands for no part. -/
theorem andMoves (h : Emitted z xs o code o₁) {f : Fragment} (hf : f.Moves 0 0)
    (hp : f.IsPlain) : Emitted z xs o (code ++ f.code) { o₁ with gaps := o₁.gaps + f.gaps } := by
  have hplaced : Emitted z [] o₁ f.code { o₁ with gaps := o₁.gaps + f.gaps } :=
    .place_moves hf hp rfl fun _ => List.not_mem_nil
  rw [← List.append_nil xs]
  exact h.trans hplaced

/-- Labels are placed between statements. -/
theorem snoc_label (h : Emitted z xs o code o') (l : Label) :
    Emitted z xs o (code ++ [.label l]) o' := by
  obtain ⟨cs, n, k, hcs, hcode, hleave, heq⟩ := h.classes
  exact ⟨h.gaps, ⟨cs, n, k, hcs, hcode.append (.label l), hleave, heq⟩, h.routines⟩

theorem cons_label (h : Emitted z xs o code o') (l : Label) :
    Emitted z xs o (.label l :: code) o' := by
  obtain ⟨cs, n, k, hcs, hcode, hleave, heq⟩ := h.classes
  refine ⟨h.gaps, ⟨cs, n, k, hcs, ?_, hleave, heq⟩, h.routines⟩
  rw [← Nat.zero_add n]
  exact .append (.label l) hcode

/-- A body behind its test. -/
theorem guarded {node : NodeId} {condition : Expr} {l l' : Label}
    (htest : (expr z site condition).Moves 0 1)
    (h : Emitted z xs { o with gaps := o.gaps + (jumpUnless z site condition l).gaps } code o') :
    Emitted z (.block node :: (condition.parts ++ xs)) o
      ((jumpUnless z site condition l).code ++ code ++ [.jump l', .label l]) o' := by
  have hgaps : (jumpUnless z site condition l).gaps = 0 := htest.gaps
  have hvalue : ∀ x ∈ condition.parts, x.isValue = true := fun x => condition.isValue_of_mem_parts
  obtain ⟨cs, n, k, hcs, hcode, hleave, heq⟩ := h.classes
  refine ⟨fun hl => ?_, ⟨cs, n, k, hcs, ?_, hleave, ?_⟩, fun r hr => h.routines r ?_⟩
  · rw [h.gaps fun c hc => hl c (List.mem_cons_of_mem _ (List.mem_append_right _ hc)), hgaps]
    rfl
  · rw [code_jumpUnless]
    refine .guarded (isPlain_testCode z site condition) (htest.carries.append ?_) hcode
    simp [Carries, Instruction.effect, Descriptor.cells]
  · rw [heq, Part.allLeft_cons, Part.allLeft_append, Part.allLeft_of_isValue hvalue, Nat.zero_add]
    exact (Nat.zero_add _).symm
  · rcases List.mem_append.mp ((List.mem_cons.mp hr).resolve_left (by simp)) with hr | hr
    · exact absurd hr (Part.routine_not_mem_of_isValue hvalue r)
    · exact hr

/-- A method whose body was lowered, completed as one of a class. -/
theorem complete (h : Emitted z xs o code o') {c : ClassFile} {k gaps : Nat}
    (hc : ∀ n, Regular code n → Leave c.methods (k + n)) (hgaps : gaps = o'.gaps)
    (hroutines : ∀ r, .routine r ∈ ys → .routine r ∈ xs ∨ ClassOf z r c)
    (hsub : ∀ x ∈ xs, x ∈ ys) (hleft : Part.allLeft z xs + k = Part.allLeft z ys) :
    Emitted z ys o [] { o' with classes := o'.classes ++ [c], gaps } := by
  obtain ⟨cs, n, m, hcs, hcode, hleave, heq⟩ := h.classes
  refine ⟨fun hl => ?_, ⟨cs ++ [c], 0, m + (k + n), ?_, ?_, ?_, ?_⟩, fun r hr => ?_⟩
  · exact hgaps.trans (h.gaps fun c hc => hl c (hsub _ hc))
  · rw [hcs, List.append_assoc]
  · exact (Fragment.Moves.empty 0).regular Fragment.isPlain_empty
  · rw [List.flatMap_append, List.flatMap_singleton]
    exact hleave.append (hc n hcode)
  · rw [← hleft, ← heq]
    omega
  · rcases hroutines r hr with hr | hr
    · obtain ⟨c', hc', hcr⟩ := h.routines r hr
      exact ⟨c', List.mem_append_left _ hc', hcr⟩
    · exact ⟨c, List.mem_append_right _ (List.mem_singleton_self c), hr⟩

end Emitted

/-! ## Statements -/

/-- The statements of a body are lowered at a site. -/
structure Hosts (z : Analysis) (site : Site) (s : ScopeId) : Prop extends Houses z site s where
  body : (z.scopes.get s).kind.isBody = true

theorem Hosts.inner (h : Hosts z site s) (hz : z.scopes.Sound) {b : ScopeId}
    (hp : z.scopes.parent b = some s) (hk : (z.scopes.get b).kind = .block) : Hosts z site b :=
  ⟨h.block hz hp hk, by rw [hk]; rfl⟩

theorem hosts_routine {r : RoutineFinding} (hr : Analysis.RoutineSound z.scopes r) :
    Hosts z (routineSite z r) r.scope :=
  ⟨houses_routine hr, by rw [hr.kind]; rfl⟩

/-- A routine that is declared in the scope of a type, as its class finds it. -/
theorem suits_declared (hz : z.Settled) (hf : z.Finished Scopes.rootId)
    {defs : List RoutineDef} (h : z.RoutinesDone s defs) (hs : Houses z site s) :
    ∀ r ∈ declaredRoutines z defs, ∀ c ∈ r.captures, Suits site c.access := by
  intro r hr
  obtain ⟨d, hd, hfind⟩ := List.mem_filterMap.mp hr
  have hdone := h.mem hd
  cases hdone with
  | mk record parent =>
    obtain rfl := Option.some.inj (record.symm.trans hfind)
    exact suits_of_receives hz hf (.routine record) parent hs

/-- The static initial values of a type, in order. -/
theorem staticFields_moves (hz : z.Settled) {t : TypeFinding}
    (ht : Analysis.TypeSound z.scopes t) {fs : List StaticField} (h : ∀ x ∈ fs, ∃ df mode,
      z.InitDone t.scope t.fieldInit x.decl.node x.decl.names x.init df mode) :
    (staticFields z t fs).Moves 0 (Part.allLeft z (fs.flatMap StaticField.parts)) := by
  induction fs with
  | nil => exact .empty 0
  | cons x fs ih =>
    rw [List.forall_mem_cons] at h
    obtain ⟨⟨⟨type, bs, mode'⟩, mode, hdone⟩, hrest⟩ := h
    obtain rfl : mode' = some mode := hdone.mode_eq
    have hmoves := staticField_moves hz.sound.scopes (houses_fieldInit ht (staticSite z t)) hdone
    have hleft : Part.allLeft z x.parts = mode.left bs.length := by
      rw [StaticField.parts, Part.allLeft_cons,
        Part.allLeft_of_isValue fun y => x.init.isValue_of_mem_parts, Part.left, Part.left.declLeft,
        hdone.record]
      rfl
    rw [List.flatMap_cons, Part.allLeft_append, hleft]
    exact hmoves.above (ih hrest)

/-- A routine whose class has no gaps leaves none where it stands. -/
theorem Emitted.routine (hz : z.Settled) (hf : z.Finished Scopes.rootId) {r : RoutineDef}
    {site : Site} {s : ScopeId} (h : z.RoutineDone s r) (hs : Hosts z site s) {o : Output}
    (hclass : Emitted z r.parts o [] ((memberRoutine z r).run o).2) :
    Emitted z r.parts o ((routine z site r).run o).1 ((routine z site r).run o).2 := by
  cases h with
  | @mk node name closing params result body ret span _ f record parent hb hret =>
    have hr := hz.sound.routines _ (NodeTable.mem_of_find? record)
    have hslot : f.binding.slot.isSome = true := by
      obtain ⟨p, hp, hmem⟩ := hr.binding
      obtain rfl := Option.some.inj (hp.symm.trans parent)
      exact slot_of_mem hz.sound.scopes hs.body hmem
    have hmoves : (bindRoutine z site f).Moves 0 0 := bindRoutine_moves hslot
      (suits_of_receives hz hf (.routine record) parent hs.toHouses)
    rw [run_memberRoutine_some z record] at hclass
    rw [run_routine_some z site record]
    have hplaced := hclass.andMoves hmoves (isPlain_bindRoutine z site f)
    exact hplaced

mutual

/-- A statement that is decided is lowered without gaps. -/
theorem emitted_stmt (hz : z.Settled) (hf : z.Finished Scopes.rootId) : (x : Stmt) →
    {site : Site} → {s : ScopeId} → z.StmtDone s x → Hosts z site s →
      (∀ y ∈ x.parts, z.Silent y) → (o : Output) →
        Emitted z x.parts o ((stmt z site x).run o).1 ((stmt z site x).run o).2
  | .declare d, site, s, h, hs, _, o => by
    cases h with
    | declare hd =>
      rw [stmt, run_place]
      refine .place_moves (varDecl_moves hz.sound.scopes hs.body hd) (isPlain_varDecl z d) rfl ?_
      exact fun r hr => absurd (List.mem_singleton.mp hr) (by simp)
  | .define d, site, s, h, hs, _, o => by
    cases h with
    | @define _ _ f mode hd =>
      rw [stmt, run_place]
      refine .place_moves (initDecl_moves hz.sound.scopes hs.body hs.toHouses hd)
        (isPlain_initDecl z site d) ?_ fun r hr => ?_
      · obtain ⟨type, bs, mode'⟩ := f
        obtain rfl : mode' = some mode := hd.mode_eq
        rw [Stmt.parts, Part.allLeft_cons,
          Part.allLeft_of_isValue fun y => d.value.isValue_of_mem_parts, Part.left,
          Part.left.declLeft, hd.record]
        rfl
      · rw [Stmt.parts, List.mem_cons] at hr
        exact Part.routine_not_mem_of_isValue (fun y => d.value.isValue_of_mem_parts) r
          (hr.resolve_left (by simp))
  | .assign x, site, s, h, hs, hq, o => by
    cases h with
    | assign ha =>
      have hroutine : ∀ r, .routine r ∉ (Stmt.assign x).parts := by
        intro r hr
        rw [Stmt.parts, Chain.parts, List.cons_append, List.mem_cons, List.mem_cons,
          List.mem_append] at hr
        rcases hr with hr | hr | hr | hr
        · exact absurd hr (by simp)
        · exact absurd hr (by simp)
        · exact absurd (x.target.isValue_of_mem_linkParts hr) Bool.false_ne_true
        · exact absurd (x.value.isValue_of_mem_parts hr) Bool.false_ne_true
      have hleft : Part.allLeft z (Stmt.assign x).parts = (Part.assign x).left z := by
        rw [Stmt.parts, Part.allLeft_cons, Part.allLeft_append, Chain.parts, Part.allLeft_cons,
          Part.allLeft_of_isValue fun y => x.target.isValue_of_mem_linkParts,
          Part.allLeft_of_isValue fun y => x.value.isValue_of_mem_parts]
        rfl
      rw [stmt, run_place]
      by_cases hlinks : x.target.links = []
      · have hnone : z.findings.assigns.find? x.node = none :=
          (hq (.assign x) List.mem_cons_self).assigns (by simp [Part.tables, hlinks])
        have hcode : assign z site x = .gap := by
          rw [assign, hnone]
        rw [hcode]
        refine .place Fragment.isPlain_gap ?_ (fun hl => ?_) hroutine
        · rw [hleft, Part.left, hnone]
          exact ⟨Int.le_refl 0, rfl⟩
        · exact absurd hlinks (hl _ (List.mem_cons_of_mem _ List.mem_cons_self))
      · obtain ⟨f, hdone⟩ := ha hlinks
        refine .place_moves (assign_moves hz.sound.scopes hs.toHouses hdone) (isPlain_assign z site x)
          ?_ hroutine
        rw [hleft, Part.left, hdone.record]
  | .call c, site, s, h, hs, hq, o => by
    cases h with
    | call hc =>
      have hvalue : ∀ y ∈ c.linkParts, y.isValue = true := fun y => c.isValue_of_mem_linkParts
      have hroutine : ∀ r, .routine r ∉ (Stmt.call c).parts := by
        intro r hr
        rw [Stmt.parts, Chain.parts, List.mem_cons] at hr
        exact Part.routine_not_mem_of_isValue hvalue r (hr.resolve_left (by simp))
      have hleft : Part.allLeft z (Stmt.call c).parts = 0 := by
        rw [Stmt.parts, Chain.parts, Part.allLeft_cons, Part.allLeft_of_isValue hvalue]
        rfl
      rw [stmt, run_place]
      by_cases hlinks : c.links = []
      · have hnone := (hq (.chain c) List.mem_cons_self).chains (by simp [Part.tables, hlinks])
        have hcode : (callStmt z site c).code = [] := by
          obtain ⟨node, ls, span⟩ := c
          obtain rfl : ls = [] := hlinks
          rw [callStmt, chain, links]
          dsimp only
          rw [show z.findings.chains.find? node = none from hnone]
          rfl
        refine .place (isPlain_callStmt z site c) ?_ (fun hl => ?_) hroutine
        · rw [hcode, hleft]
          exact ⟨Int.le_refl 0, rfl⟩
        · exact absurd hlinks (hl _ List.mem_cons_self)
      · obtain ⟨t, hdone⟩ := hc hlinks
        exact .place_moves (callStmt_moves hz.sound.scopes hs.toHouses hdone)
          (isPlain_callStmt z site c) hleft.symm hroutine
  | .branch gs otherwise span, site, s, h, hs, hq, o => by
    cases h with
    | branch hgs he =>
      rw [Stmt.parts, List.forall_mem_append] at hq
      rw [run_if]
      have hbranches := emitted_branches hz hf gs hgs hs hq.1 ⟨o.labels + 1⟩
        { o with labels := o.labels + 1 }
      exact ((hbranches.trans (emitted_else hz hf otherwise he hs hq.2 _)).snoc_label _).start rfl rfl
  | .loop g, site, s, h, hs, hq, o => by
    cases h with
    | loop hg =>
      rw [stmt]
      exact emitted_loop hz hf g hg hs hq o
  | .routine r, site, s, h, hs, hq, o => by
    cases h with
    | routine hr =>
      rw [stmt]
      exact .routine hz hf hr hs (emitted_memberRoutine hz hf r hr hq o)
  | .type t, site, s, h, hs, hq, o => by
    cases h with
    | type ht =>
      rw [stmt]
      exact emitted_typeDef hz hf t ht hs hq o

theorem emitted_branch (hz : z.Settled) (hf : z.Finished Scopes.rootId) : (g : Guarded) →
    {site : Site} → {s : ScopeId} → z.GuardedDone s g → Hosts z site s →
      (∀ y ∈ g.parts, z.Silent y) → (done : Label) → (o : Output) →
        Emitted z g.parts o ((branch z site done g).run o).1 ((branch z site done g).run o).2
  | ⟨node, condition, body, span⟩, site, s, h, hs, hq, done, o => by
    cases h with
    | mk record parent kind hc hb =>
      rw [Guarded.parts, List.forall_mem_cons, List.forall_mem_append] at hq
      have hinner := hs.inner hz.sound.scopes parent kind
      rw [run_branch]
      exact .guarded (expr_moves hz.sound.scopes hinner.toHouses condition hc)
        ((emitted_stmts hz hf body hb hinner hq.2.2 _).start rfl rfl)

theorem emitted_loop (hz : z.Settled) (hf : z.Finished Scopes.rootId) : (g : Guarded) →
    {site : Site} → {s : ScopeId} → z.GuardedDone s g → Hosts z site s →
      (∀ y ∈ g.parts, z.Silent y) → (o : Output) →
        Emitted z g.parts o ((loop z site g).run o).1 ((loop z site g).run o).2
  | ⟨node, condition, body, span⟩, site, s, h, hs, hq, o => by
    cases h with
    | mk record parent kind hc hb =>
      rw [Guarded.parts, List.forall_mem_cons, List.forall_mem_append] at hq
      have hinner := hs.inner hz.sound.scopes parent kind
      have hbody := emitted_stmts hz hf body hb hinner hq.2.2
        ⟨o.labels + 2, o.classes, o.gaps + (jumpUnless z site condition ⟨o.labels + 2⟩).gaps⟩
      have hloop : Emitted z (Guarded.parts ⟨node, condition, body, span⟩) o
          (_ ++ [.jump ⟨o.labels + 1⟩, .label ⟨o.labels + 2⟩]) _ :=
        .guarded (expr_moves hz.sound.scopes hinner.toHouses condition hc) (hbody.start rfl rfl)
      rw [run_loop]
      exact hloop.cons_label ⟨o.labels + 1⟩

theorem emitted_else (hz : z.Settled) (hf : z.Finished Scopes.rootId) : (e : Else) →
    {site : Site} → {s : ScopeId} → z.ElseDone s e → Hosts z site s →
      (∀ y ∈ e.parts, z.Silent y) → (o : Output) →
        Emitted z e.parts o ((elseBlock z site e).run o).1 ((elseBlock z site e).run o).2
  | .absent, site, s, h, hs, hq, o => by
    rw [elseBlock]
    exact .nothing z o
  | .block node body span, site, s, h, hs, hq, o => by
    cases h with
    | block record parent kind hb =>
      rw [Else.parts, List.forall_mem_cons] at hq
      rw [elseBlock]
      refine (emitted_stmts hz hf body hb (hs.inner hz.sound.scopes parent kind) hq.2 o).conseq
        (fun x hx => List.mem_cons_of_mem _ hx) (fun r hr => ?_) ?_
      · exact (List.mem_cons.mp hr).resolve_left (by simp)
      · rw [Else.parts, Part.allLeft_cons]
        exact (Nat.zero_add _).symm

theorem emitted_memberRoutine (hz : z.Settled) (hf : z.Finished Scopes.rootId) :
    (r : RoutineDef) → {s : ScopeId} → z.RoutineDone s r → (∀ y ∈ r.parts, z.Silent y) →
      (o : Output) → Emitted z r.parts o [] ((memberRoutine z r).run o).2
  | ⟨node, name, closing, params, result, body, ret, span⟩, s, h, hq, o => by
    cases h with
    | @mk _ _ _ _ _ _ _ _ _ f record parent hb hret =>
      rw [RoutineDef.parts, List.forall_mem_cons, List.forall_mem_append] at hq
      have hr := hz.sound.routines _ (NodeTable.mem_of_find? record)
      have hbody := emitted_stmts hz hf body hb (hosts_routine hr) hq.2.1 o
      obtain ⟨cs, n, k, -, hcode, -⟩ := hbody.classes
      have hgaps := (closed_routineEnd hz.sound.scopes hr hret hcode).1
      rw [run_memberRoutine_some z record]
      refine hbody.complete (k := 0) (fun n hn => ?_) (by rw [hgaps, Nat.add_zero])
        (fun r' hr' => ?_) (fun x hx => ?_) ?_
      · rw [Nat.zero_add]
        exact leave_routineClass f (closed_routineEnd hz.sound.scopes hr hret hn).2
      · rw [RoutineDef.parts, List.mem_cons, List.mem_append] at hr'
        rcases hr' with hr' | hr' | hr'
        · obtain rfl := Part.routine.inj hr'
          exact Or.inr ⟨f, o, record, rfl⟩
        · exact Or.inl hr'
        · exact absurd (ReturnClause.isValue_of_mem_optParts hr') Bool.false_ne_true
      · exact List.mem_cons_of_mem _ (List.mem_append_left _ hx)
      · rw [RoutineDef.parts, Part.allLeft_cons, Part.allLeft_append,
          Part.allLeft_of_isValue fun x => ReturnClause.isValue_of_mem_optParts]
        exact (Nat.zero_add _).symm

/-- A type: the classes of its member routines, its own, and the call of its static
method. -/
theorem emitted_typeDef (hz : z.Settled) (hf : z.Finished Scopes.rootId) : (t : TypeDef) →
    {site : Site} → {s : ScopeId} → z.TypeDone s t → Hosts z site s →
      (∀ y ∈ t.parts, z.Silent y) → (o : Output) →
        Emitted z t.parts o ((typeDef z site t).run o).1 ((typeDef z site t).run o).2
  | ⟨node, name, closing, fields, statics, routines, staticRoutines, span⟩, site, s, h, hs, hq,
      o => by
    cases h with
    | @mk _ _ _ _ _ _ _ _ _ f record parent hfields hstatics hr hsr =>
      have ht := hz.sound.typeFindings _ (NodeTable.mem_of_find? record)
      rw [TypeDef.parts, List.forall_mem_cons, List.forall_mem_append, List.forall_mem_append] at hq
      have hmembers := (emitted_memberRoutines hz hf routines hr hq.2.1.2 o).trans
        (emitted_memberRoutines hz hf staticRoutines hsr hq.2.2 _)
      have hconstructor := closed_constructorCode (suits_declared hz hf hr
        (houses_type ht (constructorSite z f)))
      have hstatic := closed_staticInitCode (suits_declared hz hf hsr
        (houses_type ht (staticSite z f))) (staticFields_moves hz ht hstatics)
      have hinit : (initType z site f).Moves 0 0 :=
        initType_moves (suits_of_receives hz hf (.type record) parent hs.toHouses)
      rw [run_typeDef_some z site record]
      refine Emitted.andMoves (hmembers.complete
        (k := Part.allLeft z (statics.flatMap StaticField.parts)) (fun n hn => ?_) ?_
        (fun r hr => ?_) (fun x hx => ?_) ?_) hinit (isPlain_initType z site f)
      · obtain rfl : n = 0 := Int.natCast_eq_zero.mp hn.carries.2.symm
        exact leave_typeClass f _ _ hconstructor.2 hstatic.2
      · rw [hconstructor.1, hstatic.1]
        rfl
      · rw [TypeDef.parts, List.mem_cons, List.mem_append, List.mem_append, List.mem_append] at hr
        rcases hr with hr | ((hr | hr) | hr) | hr
        · exact absurd hr (by simp)
        · obtain ⟨d, -, hd⟩ := List.mem_map.mp hr
          exact absurd hd (by simp)
        · obtain ⟨x, -, hx⟩ := List.mem_flatMap.mp hr
          rw [StaticField.parts, List.mem_cons] at hx
          exact absurd (x.init.isValue_of_mem_parts (hx.resolve_left (by simp)))
            Bool.false_ne_true
        · exact Or.inl (List.mem_append_left _ hr)
        · exact Or.inl (List.mem_append_right _ hr)
      · rw [TypeDef.parts, List.append_assoc]
        exact List.mem_cons_of_mem _ (List.mem_append_right _ hx)
      · have hdata : Part.allLeft z (fields.map .declare) = 0 := by
          rw [Part.allLeft_eq_zero]
          exact List.forall_mem_map.mpr fun d _ => rfl
        rw [TypeDef.parts, Part.allLeft_cons, Part.allLeft_append, Part.allLeft_append,
          Part.allLeft_append, Part.allLeft_append, hdata, Part.left]
        omega

theorem emitted_stmts (hz : z.Settled) (hf : z.Finished Scopes.rootId) : (xs : List Stmt) →
    {site : Site} → {s : ScopeId} → z.StmtsDone s xs → Hosts z site s →
      (∀ y ∈ Stmt.allParts xs, z.Silent y) → (o : Output) →
        Emitted z (Stmt.allParts xs) o ((stmts z site xs).run o).1 ((stmts z site xs).run o).2
  | [], site, s, h, hs, hq, o => by
    rw [run_stmts_nil]
    exact .nothing z o
  | x :: xs, site, s, h, hs, hq, o => by
    cases h with
    | cons hx hxs =>
      rw [Stmt.allParts, List.forall_mem_append] at hq
      rw [run_stmts_cons]
      exact (emitted_stmt hz hf x hx hs hq.1 o).trans (emitted_stmts hz hf xs hxs hs hq.2 _)

theorem emitted_branches (hz : z.Settled) (hf : z.Finished Scopes.rootId) : (gs : List Guarded) →
    {site : Site} → {s : ScopeId} → z.GuardedAllDone s gs → Hosts z site s →
      (∀ y ∈ Guarded.allParts gs, z.Silent y) → (done : Label) → (o : Output) →
        Emitted z (Guarded.allParts gs) o ((branches z site done gs).run o).1
          ((branches z site done gs).run o).2
  | [], site, s, h, hs, hq, done, o => by
    rw [run_branches_nil]
    exact .nothing z o
  | g :: gs, site, s, h, hs, hq, done, o => by
    cases h with
    | cons hg hgs =>
      rw [Guarded.allParts, List.forall_mem_append] at hq
      rw [run_branches_cons]
      exact (emitted_branch hz hf g hg hs hq.1 done o).trans
        (emitted_branches hz hf gs hgs hs hq.2 done _)

theorem emitted_memberRoutines (hz : z.Settled) (hf : z.Finished Scopes.rootId) :
    (rs : List RoutineDef) → {s : ScopeId} → z.RoutinesDone s rs →
      (∀ y ∈ RoutineDef.allParts rs, z.Silent y) → (o : Output) →
        Emitted z (RoutineDef.allParts rs) o [] ((memberRoutines z rs).run o).2
  | [], s, h, hq, o => by
    rw [run_memberRoutines_nil]
    exact .nothing z o
  | r :: rs, s, h, hq, o => by
    cases h with
    | cons hr hrs =>
      rw [RoutineDef.allParts, List.forall_mem_append] at hq
      rw [run_memberRoutines_cons]
      exact (emitted_memberRoutine hz hf r hr hq.1 o).trans
        (emitted_memberRoutines hz hf rs hrs hq.2 _)

end

end Lowering

end Unnest
