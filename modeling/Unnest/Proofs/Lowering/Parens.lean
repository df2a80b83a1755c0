import Unnest.Proofs.Analysis.Parens
import Unnest.Session
import Unnest.Tree.Draft

/-!
# Parentheses are transparent

Compiling a program gives what compiling it without its parentheses gives
(`Session.parens_transparent`): the same faults in the same order, and when there are none
the same classes, with as many labels given out.  The nodes that are left may be numbered in
any other way, so the same holds of a tree that is built anew without parentheses.

Lowering reads the tables of an analysis and what is written about nodes, but no types of
expressions.  On a mirror image every part therefore has the code that it had, and the code
of parentheses is the code of what is inside them.
-/

namespace Unnest

open Code Analysis

variable {f : NodeId → NodeId} {z z' : Analysis}

namespace Lowering

/-! ## What lowering reads

None of these looks at a node, so the mirror image does not tell itself apart. -/

section Tables

variable (h : Mirrors f z z')

include h

theorem literal_mirror : literal z' = literal z := by
  obtain ⟨_, _, rfl, -⟩ := h
  rfl

theorem callRoutine_mirror : callRoutine z' = callRoutine z := by
  obtain ⟨_, _, rfl, -⟩ := h
  rfl

theorem linkCode_mirror : linkCode z' = linkCode z := by
  obtain ⟨_, _, rfl, -⟩ := h
  rfl

theorem beforeStore_mirror : beforeStore z' = beforeStore z := by
  obtain ⟨_, _, rfl, -⟩ := h
  rfl

theorem store_mirror : store z' = store z := by
  obtain ⟨_, _, rfl, -⟩ := h
  rfl

theorem memberField_mirror : memberField z' = memberField z := by
  obtain ⟨_, _, rfl, -⟩ := h
  rfl

theorem capturedField_mirror : capturedField z' = capturedField z := by
  obtain ⟨_, _, rfl, -⟩ := h
  rfl

theorem initPlaces_mirror : initPlaces z' = initPlaces z := by
  obtain ⟨_, _, rfl, -⟩ := h
  rfl

theorem declareSlots_mirror (bs : List Binding) : declareSlots z' bs = declareSlots z bs := by
  obtain ⟨_, _, rfl, -⟩ := h
  induction bs with
  | nil => rfl
  | cons b bs ih =>
    rw [declareSlots, declareSlots, ih]
    rfl

theorem loadCaptures_mirror (site : Site) (cs : List CaptureSource) :
    loadCaptures z' site cs = loadCaptures z site cs := by
  obtain ⟨_, _, rfl, -⟩ := h
  induction cs with
  | nil => rfl
  | cons c cs ih =>
    rw [loadCaptures, loadCaptures, ih]
    rfl

theorem makeRoutine_mirror (site : Site) (r : RoutineFinding) :
    makeRoutine z' site r = makeRoutine z site r := by
  rw [makeRoutine, makeRoutine, loadCaptures_mirror h]
  obtain ⟨_, _, rfl, -⟩ := h
  rfl

theorem initType_mirror (site : Site) (t : TypeFinding) :
    initType z' site t = initType z site t := by
  rw [initType, initType, loadCaptures_mirror h]
  obtain ⟨_, _, rfl, -⟩ := h
  rfl

theorem bindRoutine_mirror (site : Site) (r : RoutineFinding) :
    bindRoutine z' site r = bindRoutine z site r := by
  rw [bindRoutine, bindRoutine, makeRoutine_mirror h]

theorem bindRoutines_mirror (t : TypeFinding) (rs : List RoutineFinding) :
    bindRoutines z' t rs = bindRoutines z t rs := by
  induction rs with
  | nil => rfl
  | cons r rs ih =>
    rw [bindRoutines, bindRoutines, ih, makeRoutine_mirror h, memberField_mirror h]
    obtain ⟨_, _, rfl, -⟩ := h
    rfl

theorem constructorCode_mirror (t : TypeFinding) (rs : List RoutineFinding) :
    constructorCode z' t rs = constructorCode z t rs := by
  rw [constructorCode, constructorCode, bindRoutines_mirror h]
  obtain ⟨_, _, rfl, -⟩ := h
  rfl

theorem makeStaticRoutines_mirror (t : TypeFinding) (rs : List RoutineFinding) :
    makeStaticRoutines z' t rs = makeStaticRoutines z t rs := by
  induction rs with
  | nil => rfl
  | cons r rs ih =>
    rw [makeStaticRoutines, makeStaticRoutines, ih, makeRoutine_mirror h, memberField_mirror h]
    obtain ⟨_, _, rfl, -⟩ := h
    rfl

theorem storeCaptures_mirror (path : String) (slot : Nat) (cs : List CaptureSource) :
    storeCaptures z' path slot cs = storeCaptures z path slot cs := by
  obtain ⟨_, _, rfl, -⟩ := h
  induction cs generalizing slot with
  | nil => rfl
  | cons c cs ih =>
    rw [storeCaptures, storeCaptures, ih]

theorem routineClass_mirror : routineClass z' = routineClass z := by
  obtain ⟨_, _, rfl, -⟩ := h
  rfl

theorem typeClass_mirror : typeClass z' = typeClass z := by
  obtain ⟨_, _, rfl, -⟩ := h
  rfl

theorem routineSite_mirror : routineSite z' = routineSite z := by
  obtain ⟨_, _, rfl, -⟩ := h
  rfl

theorem staticSite_mirror : staticSite z' = staticSite z := by
  obtain ⟨_, _, rfl, -⟩ := h
  rfl

theorem makePredefined_mirror (rs : List (String × TypeId)) :
    makePredefined z' rs = makePredefined z rs := by
  obtain ⟨_, _, rfl, -⟩ := h
  induction rs with
  | nil => rfl
  | cons r rs ih =>
    obtain ⟨name, type⟩ := r
    rw [makePredefined, makePredefined, ih]
    rfl

theorem mainClass_mirror : mainClass z' = mainClass z := by
  obtain ⟨_, _, rfl, -⟩ := h
  rfl

end Tables

/-! ## Expressions -/

section Expressions

variable (hf : Function.Injective f) (h : Mirrors f z z') (site : Site)

include hf h

theorem linkAt_mirror (node : NodeId) (args : Fragment) :
    linkAt z' site (f node) args = linkAt z site node args := by
  have hlinks : z'.findings.links.find? (f node) = z.findings.links.find? node := by
    obtain ⟨_, _, rfl, -⟩ := h
    exact NodeTable.find?_renumber hf _ node
  rw [linkAt, linkAt, hlinks, linkCode_mirror h]

theorem operators_mirror (node : NodeId) :
    z'.findings.operators.find? (f node) = z.findings.operators.find? node := by
  obtain ⟨_, _, rfl, -⟩ := h
  exact NodeTable.find?_renumber hf _ node

end Expressions

mutual

/-- The code of an expression is its code without the parentheses. -/
theorem expr_strip (hf : Function.Injective f) (h : Mirrors f z z') (site : Site) : (e : Expr) →
    expr z' site (e.strip f) = expr z site e
  | .literal _ _ _ => by rw [Expr.strip, expr, expr, literal_mirror h]
  | .binary node _ left right _ => by
    rw [Expr.strip, expr, expr, operators_mirror hf h, expr_strip hf h site left,
      expr_strip hf h site right, callRoutine_mirror h]
  | .unary node _ operand _ => by
    rw [Expr.strip, expr, expr, operators_mirror hf h, expr_strip hf h site operand,
      callRoutine_mirror h]
  | .paren _ inner _ => by rw [Expr.strip, expr, expr_strip hf h site inner]
  | .chain c => by rw [Expr.strip, expr, expr, chain_strip hf h site c]

theorem chain_strip (hf : Function.Injective f) (h : Mirrors f z z') (site : Site) :
    (c : Chain) → chain z' site (c.strip f) = chain z site c
  | ⟨_, parts, _⟩ => by rw [Chain.strip, chain, chain, links_strip hf h site parts]

theorem link_strip (hf : Function.Injective f) (h : Mirrors f z z') (site : Site) : (l : Link) →
    link z' site (l.strip f) = link z site l
  | .bare node _ _ => by rw [Link.strip, link, link, linkAt_mirror hf h]
  | .call node _ args _ => by
    rw [Link.strip, link, link, linkAt_mirror hf h, exprs_strip hf h site args]

theorem links_strip (hf : Function.Injective f) (h : Mirrors f z z') (site : Site) :
    (ls : List Link) → links z' site (Link.stripAll f ls) = links z site ls
  | [] => rfl
  | l :: ls => by
    rw [Link.stripAll, links, links, link_strip hf h site l, links_strip hf h site ls]

theorem exprs_strip (hf : Function.Injective f) (h : Mirrors f z z') (site : Site) :
    (es : List Expr) → exprs z' site (Expr.stripAll f es) = exprs z site es
  | [] => rfl
  | e :: es => by
    rw [Expr.stripAll, exprs, exprs, expr_strip hf h site e, exprs_strip hf h site es]

end

/-! ## Declarations and assignments -/

section Statements

variable (hf : Function.Injective f) (h : Mirrors f z z') (site : Site)

include hf h

theorem receiver_strip (c : Chain) : receiver z' site (c.strip f) = receiver z site c := by
  have hlast : (c.strip f).links.dropLast = Link.stripAll f c.links.dropLast := by
    obtain ⟨node, ls, span⟩ := c
    rw [Chain.strip]
    induction ls with
    | nil => rfl
    | cons l ls ih =>
      cases ls with
      | nil => rfl
      | cons l' ls => exact congrArg (l.strip f :: ·) ih
  rw [receiver, receiver, hlast, links_strip hf h]

theorem jumpUnless_strip (e : Expr) (target : Label) :
    jumpUnless z' site (e.strip f) target = jumpUnless z site e target := by
  rw [jumpUnless, jumpUnless, expr_strip hf h]
  obtain ⟨_, _, rfl, -⟩ := h
  rfl

theorem decls_mirror (node : NodeId) :
    z'.findings.decls.find? (f node) = z.findings.decls.find? node := by
  obtain ⟨_, _, rfl, -⟩ := h
  exact NodeTable.find?_renumber hf _ node

theorem varDecl_strip (d : VarDecl) : varDecl z' (d.strip f) = varDecl z d := by
  rw [varDecl, varDecl, VarDecl.strip, decls_mirror hf h]
  simp only [declareSlots_mirror h]

theorem initDecl_strip (d : InitDecl) : initDecl z' site (d.strip f) = initDecl z site d := by
  rw [initDecl, initDecl, InitDecl.strip, decls_mirror hf h, initPlaces_mirror h,
    expr_strip hf h]

theorem staticField_strip (x : StaticField) :
    staticField z' site (x.strip f) = staticField z site x := by
  rw [staticField, staticField, StaticField.strip, VarDecl.strip, decls_mirror hf h,
    initPlaces_mirror h, expr_strip hf h, capturedField_mirror h]

theorem storeTarget_strip (c : Chain) (value : Fragment) :
    storeTarget z' site (c.strip f) value = storeTarget z site c value := by
  have hlast : ((c.strip f).last?.bind fun l => z'.findings.links.find? l.node) =
      c.last?.bind fun l => z.findings.links.find? l.node := by
    obtain ⟨_, _, rfl, -⟩ := h
    rw [Chain.last?_strip]
    cases c.last? with
    | none => rfl
    | some l =>
      rw [Option.map_some, Option.bind_some, Option.bind_some, Link.node_strip]
      exact NodeTable.find?_renumber hf _ l.node
  rw [storeTarget, storeTarget, hlast, beforeStore_mirror h, store_mirror h,
    memberField_mirror h, receiver_strip hf h]

theorem assign_strip (x : Assignment) : assign z' site (x.strip f) = assign z site x := by
  have hassigns : z'.findings.assigns.find? (f x.node) = z.findings.assigns.find? x.node := by
    obtain ⟨_, _, rfl, -⟩ := h
    exact NodeTable.find?_renumber hf _ x.node
  rw [assign, assign, Assignment.strip, hassigns, chain_strip hf h, expr_strip hf h,
    callRoutine_mirror h, storeTarget_strip hf h]

theorem callStmt_strip (c : Chain) : callStmt z' site (c.strip f) = callStmt z site c := by
  have hchains : z'.findings.chains.find? (f c.node) = z.findings.chains.find? c.node := by
    obtain ⟨_, _, rfl, -⟩ := h
    exact NodeTable.find?_renumber hf _ c.node
  rw [callStmt, callStmt, chain_strip hf h, Chain.node_strip, hchains]

/-! ## Classes -/

theorem routines_mirror (node : NodeId) :
    z'.findings.routines.find? (f node) = z.findings.routines.find? node := by
  obtain ⟨_, _, rfl, -⟩ := h
  exact NodeTable.find?_renumber hf _ node

theorem declaredRoutines_strip (rs : List RoutineDef) :
    declaredRoutines z' (RoutineDef.stripAll f rs) = declaredRoutines z rs := by
  induction rs with
  | nil => rfl
  | cons r rs ih =>
    have hnode : (r.strip f).node = f r.node := by
      obtain ⟨⟩ := r
      rfl
    rw [declaredRoutines, declaredRoutines] at ih
    rw [declaredRoutines, declaredRoutines, RoutineDef.stripAll, List.filterMap_cons,
      List.filterMap_cons, hnode, routines_mirror hf h, ih]

theorem routineEnd_strip (r : RoutineFinding) (ret : Option ReturnClause) :
    routineEnd z' r (ret.map (ReturnClause.strip f)) = routineEnd z r ret := by
  cases ret with
  | none => rfl
  | some ret =>
    rw [Option.map_some, routineEnd, routineEnd, ReturnClause.strip, expr_strip hf h,
      routineSite_mirror h]

theorem staticFields_strip (t : TypeFinding) (xs : List StaticField) :
    staticFields z' t (xs.map (StaticField.strip f)) = staticFields z t xs := by
  induction xs with
  | nil => rfl
  | cons x xs ih =>
    rw [List.map_cons, staticFields, staticFields, staticField_strip hf h, ih,
      staticSite_mirror h]

theorem staticInitCode_strip (t : TypeFinding) (rs : List RoutineFinding)
    (xs : List StaticField) :
    staticInitCode z' t rs (xs.map (StaticField.strip f)) = staticInitCode z t rs xs := by
  rw [staticInitCode, staticInitCode, staticFields_strip hf h, makeStaticRoutines_mirror h,
    storeCaptures_mirror h]
  obtain ⟨_, _, rfl, -⟩ := h
  rfl

theorem completeRoutine_strip (r : RoutineFinding) (ret : Option ReturnClause)
    (body : List Instruction) :
    completeRoutine z' r (ret.map (ReturnClause.strip f)) body = completeRoutine z r ret body := by
  rw [completeRoutine, completeRoutine, routineEnd_strip hf h, routineClass_mirror h]

theorem completeType_strip (t : TypeFinding) (rs ss : List RoutineFinding)
    (xs : List StaticField) :
    completeType z' t rs ss (xs.map (StaticField.strip f)) = completeType z t rs ss xs := by
  rw [completeType, completeType, constructorCode_mirror h, staticInitCode_strip hf h,
    typeClass_mirror h]

end Statements

/-! ## Statements -/

mutual

/-- A statement is lowered as without its parentheses. -/
theorem stmt_strip (hf : Function.Injective f) (h : Mirrors f z z') (site : Site) : (x : Stmt) →
    stmt z' site (x.strip f) = stmt z site x
  | .declare d => by rw [Stmt.strip, stmt, stmt, varDecl_strip hf h]
  | .define d => by rw [Stmt.strip, stmt, stmt, initDecl_strip hf h]
  | .assign x => by rw [Stmt.strip, stmt, stmt, assign_strip hf h]
  | .call c => by rw [Stmt.strip, stmt, stmt, callStmt_strip hf h]
  | .branch gs otherwise _ => by
    simp only [Stmt.strip, stmt, branches_strip hf h site _ gs,
      elseBlock_strip hf h site otherwise]
  | .loop g => by rw [Stmt.strip, stmt, stmt, loop_strip hf h site g]
  | .routine r => by rw [Stmt.strip, stmt, stmt, routine_strip hf h site r]
  | .type t => by rw [Stmt.strip, stmt, stmt, typeDef_strip hf h site t]

theorem branch_strip (hf : Function.Injective f) (h : Mirrors f z z') (site : Site)
    (done : Label) : (g : Guarded) → branch z' site done (g.strip f) = branch z site done g
  | ⟨_, condition, body, _⟩ => by
    simp only [Guarded.strip, branch, jumpUnless_strip hf h, stmts_strip hf h site body]

theorem loop_strip (hf : Function.Injective f) (h : Mirrors f z z') (site : Site) :
    (g : Guarded) → loop z' site (g.strip f) = loop z site g
  | ⟨_, condition, body, _⟩ => by
    simp only [Guarded.strip, loop, jumpUnless_strip hf h, stmts_strip hf h site body]

theorem elseBlock_strip (hf : Function.Injective f) (h : Mirrors f z z') (site : Site) :
    (e : Else) → elseBlock z' site (e.strip f) = elseBlock z site e
  | .absent => rfl
  | .block _ body _ => by
    rw [Else.strip, elseBlock, elseBlock, stmts_strip hf h site body]

theorem routine_strip (hf : Function.Injective f) (h : Mirrors f z z') (site : Site) :
    (r : RoutineDef) → routine z' site (r.strip f) = routine z site r
  | ⟨node, _, _, _, _, body, ret, _⟩ => by
    rw [RoutineDef.strip, routine, routine, routines_mirror hf h]
    cases z.findings.routines.find? node with
    | none => rfl
    | some r =>
      simp only [routineSite_mirror h, stmts_strip hf h _ body, completeRoutine_strip hf h,
        bindRoutine_mirror h]

theorem memberRoutine_strip (hf : Function.Injective f) (h : Mirrors f z z') :
    (r : RoutineDef) → memberRoutine z' (r.strip f) = memberRoutine z r
  | ⟨node, _, _, _, _, body, ret, _⟩ => by
    rw [RoutineDef.strip, memberRoutine, memberRoutine, routines_mirror hf h]
    cases z.findings.routines.find? node with
    | none => rfl
    | some r =>
      simp only [routineSite_mirror h, stmts_strip hf h _ body, completeRoutine_strip hf h]

theorem typeDef_strip (hf : Function.Injective f) (h : Mirrors f z z') (site : Site) :
    (t : TypeDef) → typeDef z' site (t.strip f) = typeDef z site t
  | ⟨node, _, _, _, fields, routines, staticRoutines, _⟩ => by
    have htypes : z'.findings.types.find? (f node) = z.findings.types.find? node := by
      obtain ⟨_, _, rfl, -⟩ := h
      exact NodeTable.find?_renumber hf _ node
    rw [TypeDef.strip, typeDef, typeDef, htypes]
    cases z.findings.types.find? node with
    | none => rfl
    | some t =>
      simp only [memberRoutines_strip hf h routines, memberRoutines_strip hf h staticRoutines,
        declaredRoutines_strip hf h, completeType_strip hf h, initType_mirror h]

/-- Statements are lowered as without their parentheses. -/
theorem stmts_strip (hf : Function.Injective f) (h : Mirrors f z z') (site : Site) :
    (xs : List Stmt) → stmts z' site (Stmt.stripAll f xs) = stmts z site xs
  | [] => rfl
  | x :: xs => by
    rw [Stmt.stripAll, stmts, stmts, stmt_strip hf h site x, stmts_strip hf h site xs]

theorem branches_strip (hf : Function.Injective f) (h : Mirrors f z z') (site : Site)
    (done : Label) : (gs : List Guarded) →
    branches z' site done (Guarded.stripAll f gs) = branches z site done gs
  | [] => rfl
  | g :: gs => by
    rw [Guarded.stripAll, branches, branches, branch_strip hf h site done g,
      branches_strip hf h site done gs]

theorem memberRoutines_strip (hf : Function.Injective f) (h : Mirrors f z z') :
    (rs : List RoutineDef) → memberRoutines z' (RoutineDef.stripAll f rs) = memberRoutines z rs
  | [] => rfl
  | r :: rs => by
    rw [RoutineDef.stripAll, memberRoutines, memberRoutines, memberRoutine_strip hf h r,
      memberRoutines_strip hf h rs]

end

/-- A program is lowered as without its parentheses, whether or not it has errors. -/
theorem generate_strip (hf : Function.Injective f) (h : Mirrors f z z') (program : String)
    (p : Program) (labels : Nat) :
    generate z' program (p.strip f) labels = generate z program p labels := by
  have hmain : mainUnit z' program (p.strip f) = mainUnit z program p := by
    rw [mainUnit, mainUnit, makePredefined_mirror h, Program.strip, stmts_strip hf h,
      mainClass_mirror h]
  rw [generate, generate, hmain]
  obtain ⟨_, _, rfl, -⟩ := h
  rfl

end Lowering

/-- Parentheses are transparent: a program without its parentheses, under any numbering of
the nodes that are left, has the faults of the program in the same order, and compiles to the
same classes. -/
theorem Session.parens_transparent (s : Session) (p : Program) (f : NodeId → NodeId)
    (hf : Function.Injective f) :
    (analyze s.program (p.strip f)).faults = (analyze s.program p).faults ∧
      (s.generate (analyze s.program (p.strip f)) (p.strip f)) =
        s.generate (analyze s.program p) p ∧
      (s.compile (p.strip f)).1.classes = (s.compile p).1.classes ∧
      (s.compile (p.strip f)).1.errors.map (·.fault) =
        (s.compile p).1.errors.map (·.fault) ∧
      (s.compile (p.strip f)).2 = (s.compile p).2 := by
  have h := mirrors_analyze hf s.program p
  have hgenerate : s.generate (analyze s.program (p.strip f)) (p.strip f) =
      s.generate (analyze s.program p) p := by
    rw [Session.generate, Session.generate, Lowering.generate_strip hf h]
  refine ⟨h.faults_eq, hgenerate, ?_⟩
  -- with errors no classes are made and no labels are given out
  rw [Session.compile, Session.compile, h.hasErrors_eq, hgenerate]
  split
  · exact ⟨rfl, h.faults_eq, rfl⟩
  · exact ⟨rfl, rfl, rfl⟩

/--
A value is needed where there is none, inside of two parentheses:
```
integer x = (1 + ((print(("a")))))
```
-/
def bracketed : Program := (Draft.build [
  .define ⟨none, .named none "integer", ["x"], .paren none (.binary none .add
    (.literal none (.int 1))
    (.paren none (.paren none (.chain ⟨none, [.call none "print"
      [.paren none (.literal none (.string "a"))]]⟩))))⟩]).1

/-- The missing value is reported once, with the parentheses and without them. -/
theorem parens_transparent_bracketed :
    Function.Injective (fun n : NodeId => (⟨n.index + 7⟩ : NodeId)) ∧
      bracketed.nodes.Nodup ∧
      (bracketed.strip fun n => ⟨n.index + 7⟩).nodes.length + 4 = bracketed.nodes.length ∧
      (analyze "demo" bracketed).faults = [.noValue] ∧
      (analyze "demo" (bracketed.strip fun n => ⟨n.index + 7⟩)).faults = [.noValue] := by
  have hf : Function.Injective (fun n : NodeId => (⟨n.index + 7⟩ : NodeId)) := by
    rintro ⟨m⟩ ⟨n⟩ h
    simpa using h
  have hfaults : (analyze "demo" bracketed).faults = [.noValue] := by decide +kernel
  have h := Session.parens_transparent ⟨"demo", 0⟩ bracketed (fun n => ⟨n.index + 7⟩) hf
  exact ⟨hf, by decide +kernel, by decide +kernel, hfaults, h.1.trans hfaults⟩

end Unnest
