import Unnest.Proofs.Analysis.Mirror
import Unnest.Proofs.Tree.Parens

/-!
# Analysing without parentheses

The analysis of a tree without its parentheses follows the analysis of the tree step by step
(`echoes_stmts`), so the two end in mirror images of each other (`mirrors_analyze`).

The induction over trees has one case that is not its own mirror image.  `typed` writes the
type of what is in parentheses about the parentheses too, which has no counterpart
(`Echoes.typed_left`).  Where a value is needed, the check is made once around the whole
expression, parentheses or not, because `paren` goes on with `expr` and not with `operand`.
-/

namespace Unnest.Analysis

open Analyze

variable {f : NodeId → NodeId}

/-! ## Expressions -/

mutual

/-- An expression is analysed as without its parentheses. -/
theorem echoes_expr : (e : Expr) → Echoes f (expr e) (expr (e.strip f))
  | .literal _ _ _ => by
    rw [Expr.strip, expr, expr]
    exact .typed (.pure _) _ _
  | .binary _ op left right span => by
    rw [Expr.strip, expr, expr]
    refine .typed ((echoes_expr left).required _ _ |>.bind fun l =>
      (echoes_expr right).required _ _ |>.bind fun r => ?_) _ _
    cases l <;> cases r
    case some.some l r => exact echoes_operator _ _ _
    all_goals exact .pure none
  | .unary _ op operand span => by
    rw [Expr.strip, expr, expr]
    refine .typed ((echoes_expr operand).required _ _ |>.bind fun x => ?_) _ _
    cases x with
    | some x => exact echoes_operator _ _ _
    | none => exact .pure none
  | .paren _ inner _ => by
    -- only the left side has a node here, and the types of expressions are left open
    rw [Expr.strip, expr]
    exact (echoes_expr inner).typed_left _
  | .chain c => by
    rw [Expr.strip, expr, expr]
    exact (echoes_chain c).typed _ _

/-- A chain is analysed as without the parentheses in it. -/
theorem echoes_chain : (c : Chain) → Echoes f (chain c) (chain (c.strip f))
  | ⟨_, [], _⟩ => by
    rw [Chain.strip, Link.stripAll, chain, chain]
    exact .pure none
  | ⟨_, head :: rest, _⟩ => by
    rw [Chain.strip, Link.stripAll, chain, chain]
    have hmore : (Link.stripAll f rest).isEmpty = rest.isEmpty := by cases rest <;> rfl
    rw [hmore]
    refine (echoes_headLink _ head).bind fun first => ?_
    cases first with
    | none => exact .pure none
    | some first =>
      refine (echoes_memberLinks first rest).bind fun last => ?_
      cases last with
      | none => exact .pure none
      | some last => exact echoes_finishChain last

theorem echoes_headLink (hasMore : Bool) : (l : Link) →
    Echoes f (headLink hasMore l) (headLink hasMore (l.strip f))
  | .bare _ _ _ => by
    rw [Link.strip, headLink, headLink]
    exact echoes_bareHead hasMore
  | .call _ _ args _ => by
    rw [Link.strip, headLink, headLink]
    exact echoes_callHead (echoes_arguments args)

theorem echoes_memberLink (before : Produced) : (l : Link) →
    Echoes f (memberLink before l) (memberLink before (l.strip f))
  | .bare _ _ _ => by
    rw [Link.strip, memberLink, memberLink]
    exact echoes_onReceiver before fun owner isStatic => echoes_bareMember owner isStatic
  | .call _ _ args _ => by
    rw [Link.strip, memberLink, memberLink]
    exact echoes_onReceiver before fun owner isStatic =>
      echoes_callMember (echoes_arguments args) owner isStatic

theorem echoes_memberLinks (before : Produced) : (ls : List Link) →
    Echoes f (memberLinks before ls) (memberLinks before (Link.stripAll f ls))
  | [] => by
    rw [Link.stripAll, memberLinks]
    exact .pure _
  | l :: ls => by
    rw [Link.stripAll, memberLinks, memberLinks]
    refine (echoes_memberLink before l).bind fun x => ?_
    cases x with
    | none => exact .pure none
    | some x => exact echoes_memberLinks x ls

theorem echoes_arguments : (es : List Expr) →
    Echoes f (arguments es) (arguments (Expr.stripAll f es))
  | [] => by
    rw [Expr.stripAll, arguments]
    exact .pure _
  | e :: es => by
    rw [Expr.stripAll, arguments, arguments]
    exact ((echoes_expr e).required _ _).bind fun x => (echoes_arguments es).bind fun xs =>
      .pure _

end

theorem echoes_operand (e : Expr) : Echoes f (operand e) (operand (e.strip f)) :=
  (echoes_expr e).required _ _

/-! ## Declarations -/

theorem echoes_varDecl (role : Role) (owner : Option TypeId) (d : VarDecl) :
    Echoes f (varDecl role owner d) (varDecl role owner (d.strip f)) := by
  refine (echoes_resolve d.type).bind fun type => ?_
  cases type with
  | none => exact .pure _
  | some type =>
    exact (echoes_declareNames _ _ _ _).bind fun _ => (echoes_recordDecl _ _).bind fun _ =>
      .pure _

theorem echoes_initDecl (d : InitDecl) : Echoes f (initDecl d) (initDecl (d.strip f)) :=
  (echoes_resolve d.type).bind fun _ => (echoes_operand d.value).bind fun _ =>
    (echoes_declareInit _ _ _ _ _ _ _ _).bind fun _ => .pure _

theorem echoes_staticField (type : TypeId) (fieldInit : ScopeId) (x : StaticField) :
    Echoes f (staticField type fieldInit x) (staticField type fieldInit (x.strip f)) :=
  ((echoes_operand x.init).inScope fieldInit).bind fun _ =>
    (echoes_resolve x.decl.type).bind fun _ => (echoes_declareInit _ _ _ _ _ _ _ _).bind fun _ =>
      echoes_updateTypes _

theorem echoes_staticFields (type : TypeId) (fieldInit : ScopeId) (xs : List StaticField) :
    Echoes f (staticFields type fieldInit xs)
      (staticFields type fieldInit (xs.map (StaticField.strip f))) := by
  induction xs with
  | nil => exact .pure _
  | cons x xs ih => exact (echoes_staticField type fieldInit x).bind fun _ => ih

theorem echoes_instanceFields (type : TypeId) (ds : List VarDecl) :
    Echoes f (instanceFields type ds) (instanceFields type (ds.map (VarDecl.strip f))) := by
  induction ds with
  | nil => exact .pure _
  | cons d ds ih =>
    exact (echoes_varDecl _ _ d).bind fun _ => (echoes_updateTypes _).bind fun _ => ih

theorem echoes_openRoutine (r : RoutineDef) (member : Option Membership) (s : Signature)
    (x : Binding) :
    Echoes f (openRoutine r member s x) (openRoutine (r.strip f) member s x) := by
  obtain ⟨node, name, closing, params, result, body, ret, span⟩ := r
  rw [RoutineDef.strip]
  exact (echoes_planUnit _ _ _).bind fun _ => (echoes_openScope _ _ _).bind fun _ =>
    (echoes_updateScopes _).bind fun _ => (echoes_declareParams _ _).bind fun _ =>
      (Echoes.record fun _ types => ⟨types, rfl⟩).bind fun _ => .pure _

theorem echoes_declareRoutine (member : Option Membership) (r : RoutineDef) :
    Echoes f (declareRoutine member r) (declareRoutine member (r.strip f)) := by
  have hopen := echoes_openRoutine (f := f) r member
  obtain ⟨node, name, closing, params, result, body, ret, span⟩ := r
  rw [RoutineDef.strip] at hopen ⊢
  refine (echoes_resolveAll _).bind fun ps => (echoes_resolveResult _).bind fun res => ?_
  cases ps with
  | none => exact .pure none
  | some ps =>
    cases res with
    | none => exact .pure none
    | some res =>
      refine (echoes_refuseMember _ _ _).bind fun refused => ?_
      cases refused with
      | true => exact .pure none
      | false =>
        refine (echoes_refuseName _).bind fun refused => ?_
        cases refused with
        | true => exact .pure none
        | false =>
          refine (echoes_addRoutineType _ _).bind fun type =>
            echoes_currentScope.bind fun scope => (echoes_declare _ _ _).bind fun binding => ?_
          cases binding with
          | none => exact .pure none
          | some binding =>
            exact (echoes_addMember _ _).bind fun _ => (hopen _ binding).bind fun _ => .pure _

theorem echoes_declareMembers (member : Membership) (rs : List RoutineDef) :
    Echoes f (declareMembers member rs) (declareMembers member (RoutineDef.stripAll f rs)) := by
  induction rs with
  | nil => exact .pure _
  | cons r rs ih =>
    rw [RoutineDef.stripAll]
    exact (echoes_declareRoutine _ r).bind fun _ => ih.bind fun _ => .pure _

/-! ## Statements -/

theorem loadsItself_strip (hf : Function.Injective f) (t : Findings) (types : NodeTable TypeId)
    (c : Chain) :
    loadsItself { t.renumber f with exprTypes := types } (c.strip f) = loadsItself t c := by
  rw [loadsItself, loadsItself, Chain.last?_strip]
  cases c.last? with
  | none => rfl
  | some l =>
    simp only [Option.map_some, Option.bind_some, Link.node_strip, Findings.renumber,
      NodeTable.find?_renumber hf]

theorem echoes_writeTarget (hf : Function.Injective f) (x : Assignment)
    (finding : ChainFinding) (target value : TypeId) :
    Echoes f (writeTarget x finding target value)
      (writeTarget (x.strip f) finding target value) := by
  refine .get fun a b h => ?_
  obtain ⟨types, d, rfl, -⟩ := h
  dsimp only [Assignment.strip]
  rw [loadsItself_strip hf]
  split
  · exact .record fun _ types => ⟨types, rfl⟩
  · split
    · exact .report _ _ _
    · exact .report _ _ _

theorem echoes_assign (hf : Function.Injective f) (x : Assignment) :
    Echoes f (assign x) (assign (x.strip f)) := by
  refine (echoes_chain x.target).bind fun target => (echoes_operand x.value).bind fun value => ?_
  cases value with
  | none => exact .pure _
  | some value =>
    refine .get fun a b h => ?_
    obtain ⟨types, d, rfl, -⟩ := h
    dsimp only [Assignment.strip]
    rw [Chain.node_strip]
    simp only [Findings.renumber, NodeTable.find?_renumber hf]
    cases a.findings.chains.find? x.target.node with
    | none => exact .pure _
    | some finding =>
      cases target with
      | none => exact .report _ _ _
      | some target => exact echoes_writeTarget hf x finding target value

theorem echoes_checkCondition (e : Expr) :
    Echoes f (checkCondition e) (checkCondition (e.strip f)) := by
  refine (echoes_operand e).bind fun type => ?_
  cases type with
  | none => exact .pure _
  | some type =>
    refine echoes_types.bind fun t => ?_
    split
    · exact .pure _
    · exact .report _ _ _

theorem echoes_checkReturn (r : RoutineDef) (result : Option TypeId) :
    Echoes f (checkReturn r result) (checkReturn (r.strip f) result) := by
  obtain ⟨node, name, closing, params, res, body, ret, span⟩ := r
  rw [RoutineDef.strip]
  cases ret with
  | none =>
    cases result with
    | none => exact .pure _
    | some type => exact (echoes_typeName type).bind fun _ => .report _ _ _
  | some ret =>
    cases result with
    | none => exact ((echoes_expr ret.value).bind fun _ => .pure _).bind fun _ => .report _ _ _
    | some type =>
      refine (echoes_operand ret.value).bind fun value => ?_
      cases value with
      | none => exact .pure _
      | some value =>
        refine echoes_types.bind fun t => ?_
        split
        · exact .pure _
        · exact .report _ _ _

theorem echoes_finishRoutine (hf : Function.Injective f) (r : RoutineDef) (scope : ScopeId) :
    Echoes f (finishRoutine r scope) (finishRoutine (r.strip f) scope) := by
  obtain ⟨node, name, closing, params, res, body, ret, span⟩ := r
  rw [RoutineDef.strip]
  refine (echoes_captureSources scope).bind fun cs =>
    (Echoes.record fun t types => ⟨types, ?_⟩).bind fun _ => echoes_checkClosing _ _ _
  simp only [Findings.renumber, NodeTable.renumber_change hf]

theorem echoes_finishType (d : TypeDef) (finding : TypeFinding) :
    Echoes f (finishType d finding) (finishType (d.strip f) finding) := by
  obtain ⟨⟩ := d
  rw [TypeDef.strip]
  exact (echoes_captureSources _).bind fun _ =>
    (Echoes.record fun _ types => ⟨types, rfl⟩).bind fun _ => echoes_checkClosing _ _ _

mutual

/-- A statement is analysed as without its parentheses. -/
theorem echoes_stmt (hf : Function.Injective f) : (x : Stmt) →
    Echoes f (stmt x) (stmt (x.strip f))
  | .declare d => by
    rw [Stmt.strip, stmt, stmt]
    exact (echoes_varDecl _ _ d).bind fun _ => .pure _
  | .define d => by
    rw [Stmt.strip, stmt, stmt]
    exact echoes_initDecl d
  | .assign x => by
    rw [Stmt.strip, stmt, stmt]
    exact echoes_assign hf x
  | .call c => by
    rw [Stmt.strip, stmt, stmt]
    exact (echoes_chain c).bind fun _ => .pure _
  | .branch branches otherwise _ => by
    rw [Stmt.strip, stmt, stmt]
    exact (echoes_guardedAll hf branches).bind fun _ => echoes_elseBlock hf otherwise
  | .loop g => by
    rw [Stmt.strip, stmt, stmt]
    exact echoes_guarded hf g
  | .routine r => by
    rw [Stmt.strip, stmt, stmt]
    refine (echoes_declareRoutine none r).bind fun declared => ?_
    cases declared with
    | none => exact .pure _
    | some declared => exact echoes_routineBody hf declared r
  | .type d => by
    rw [Stmt.strip, stmt, stmt]
    exact echoes_typeDef hf d

theorem echoes_guarded (hf : Function.Injective f) : (g : Guarded) →
    Echoes f (guarded g) (guarded (g.strip f))
  | ⟨node, condition, body, _⟩ => by
    rw [Guarded.strip, guarded, guarded]
    exact (echoes_openBlock node).bind fun scope => .inScope scope
      ((echoes_checkCondition condition).bind fun _ => echoes_stmts hf body)

theorem echoes_elseBlock (hf : Function.Injective f) : (e : Else) →
    Echoes f (elseBlock e) (elseBlock (e.strip f))
  | .absent => by
    rw [Else.strip, elseBlock]
    exact .pure _
  | .block node body _ => by
    rw [Else.strip, elseBlock, elseBlock]
    exact (echoes_openBlock node).bind fun scope => (echoes_stmts hf body).inScope scope

theorem echoes_routineBody (hf : Function.Injective f) (declared : DeclaredRoutine) :
    (r : RoutineDef) → Echoes f (routineBody declared r) (routineBody declared (r.strip f))
  | ⟨node, name, closing, params, result, body, ret, span⟩ => by
    have hreturn := echoes_checkReturn (f := f)
      ⟨node, name, closing, params, result, body, ret, span⟩ declared.result
    have hfinish := echoes_finishRoutine hf
      ⟨node, name, closing, params, result, body, ret, span⟩ declared.scope
    rw [RoutineDef.strip] at hreturn hfinish ⊢
    rw [routineBody, routineBody]
    exact (((echoes_stmts hf body).bind fun _ => hreturn).inScope _).bind fun _ => hfinish

theorem echoes_typeDef (hf : Function.Injective f) : (d : TypeDef) →
    Echoes f (typeDef d) (typeDef (d.strip f))
  | ⟨node, name, closing, fields, statics, routines, staticRoutines, span⟩ => by
    have hfinish := echoes_finishType (f := f)
      ⟨node, name, closing, fields, statics, routines, staticRoutines, span⟩
    rw [TypeDef.strip] at hfinish ⊢
    rw [typeDef, typeDef]
    refine (echoes_openType name).bind fun finding => ?_
    cases finding with
    | none => exact .pure _
    | some finding =>
      refine .bind (.inScope _ ?_) fun _ => hfinish finding
      exact (echoes_instanceFields _ fields).bind fun _ =>
        (echoes_staticFields _ _ statics).bind fun _ =>
          (echoes_declareMembers _ routines).bind fun declared =>
            (echoes_declareMembers _ staticRoutines).bind fun declaredStatic =>
              (echoes_routineBodies hf declared routines).bind fun _ =>
                echoes_routineBodies hf declaredStatic staticRoutines

/-- Statements are analysed as without their parentheses. -/
theorem echoes_stmts (hf : Function.Injective f) : (xs : List Stmt) →
    Echoes f (stmts xs) (stmts (Stmt.stripAll f xs))
  | [] => by
    rw [Stmt.stripAll, stmts]
    exact .pure _
  | x :: xs => by
    rw [Stmt.stripAll, stmts, stmts]
    exact (echoes_stmt hf x).bind fun _ => echoes_stmts hf xs

theorem echoes_guardedAll (hf : Function.Injective f) : (gs : List Guarded) →
    Echoes f (guardedAll gs) (guardedAll (Guarded.stripAll f gs))
  | [] => by
    rw [Guarded.stripAll, guardedAll]
    exact .pure _
  | g :: gs => by
    rw [Guarded.stripAll, guardedAll, guardedAll]
    exact (echoes_guarded hf g).bind fun _ => echoes_guardedAll hf gs

theorem echoes_routineBodies (hf : Function.Injective f) :
    (ds : List (Option DeclaredRoutine)) → (rs : List RoutineDef) →
    Echoes f (routineBodies ds rs) (routineBodies ds (RoutineDef.stripAll f rs))
  | some declared :: ds, r :: rs => by
    rw [RoutineDef.stripAll, routineBodies, routineBodies]
    exact (echoes_routineBody hf declared r).bind fun _ => echoes_routineBodies hf ds rs
  | none :: ds, _ :: rs => by
    rw [RoutineDef.stripAll, routineBodies, routineBodies]
    exact echoes_routineBodies hf ds rs
  | [], rs => by
    rw [routineBodies, routineBodies]
    exacts [.pure _, nofun, nofun, nofun, nofun]
  | _ :: _, [] => by
    rw [RoutineDef.stripAll, routineBodies]
    exacts [.pure _, nofun, nofun]

end

/-- The analysis of a program without its parentheses mirrors the analysis of the program. -/
theorem mirrors_analyze (hf : Function.Injective f) (program : String) (p : Program) :
    Mirrors f (analyze program p) (analyze program (p.strip f)) :=
  (echoes_stmts hf p.stmts _ _ (mirrors_initial program)).2

end Unnest.Analysis
