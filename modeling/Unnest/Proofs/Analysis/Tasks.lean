import Unnest.Proofs.Analysis.Statements

/-!
# The parts of an analysis and their states

What holds whenever a name is looked up is a statement about the states in the middle of an
analysis.  A *task* is a part of the analysis together with what it is given.  The tasks
that it calls in turn, each with the state that it starts in, are read off the analysis
(`Task.calls`): a task that calls nothing looks up one name, or does without any.

A program reaches a task in a state when its statements, analysed from the start, come down
to that task by calls (`Reached`).  Nothing is assumed about errors: analysis goes on after
a failed check, and so do the tasks.
-/

namespace Unnest.Analysis

open Analyze

/-- A part of the analysis, and what it is given. -/
inductive Task where
  /-- A name is looked up from the current scope, as a value or as a type. -/
  | name (name : String)
  | resolve (type : WrittenType)
  | resolveAll (types : List WrittenType)
  | resolveResult (type : Option WrittenType)
  | expr (e : Expr)
  | arguments (es : List Expr)
  | chain (c : Chain)
  | headLink (hasMore : Bool) (l : Link)
  | memberLink (before : Produced) (l : Link)
  | memberLinks (before : Produced) (ls : List Link)
  | declareNames (type : TypeId) (role : Role) (owner : Option TypeId) (names : List Ident)
  | varDecl (role : Role) (owner : Option TypeId) (d : VarDecl)
  | declareInit (node : NodeId) (role : Role) (owner : Option TypeId) (names : List Ident)
      (type value : Option TypeId) (valueSpan : Span)
  | initDecl (d : InitDecl)
  | staticField (type : TypeId) (fieldInit : ScopeId) (f : StaticField)
  | staticFields (type : TypeId) (fieldInit : ScopeId) (fs : List StaticField)
  | instanceFields (type : TypeId) (ds : List VarDecl)
  | declareRoutine (member : Option Membership) (r : RoutineDef)
  | declareMembers (member : Membership) (rs : List RoutineDef)
  | openType (name : Ident)
  | sourcesOf (names : List (String × TypeId))
  | captureSources (scope : ScopeId)
  | assign (x : Assignment)
  | checkCondition (condition : Expr)
  | checkReturn (r : RoutineDef) (result : Option TypeId)
  | stmt (s : Stmt)
  | stmts (ss : List Stmt)
  | guarded (g : Guarded)
  | guardedAll (gs : List Guarded)
  | elseBlock (e : Else)
  | routineBody (declared : DeclaredRoutine) (r : RoutineDef)
  | routineBodies (declared : List (Option DeclaredRoutine)) (rs : List RoutineDef)
  | memberRoutines (type : TypeId) (rs rs' : List RoutineDef)
  | members (f : TypeFinding) (fields : List VarDecl) (statics : List StaticField)
      (rs rs' : List RoutineDef)
  | typeDef (d : TypeDef)

/-- A call from some task: what is called, and the state that it starts in. -/
abbrev Call := Task × Analysis

namespace Task

/-- A call that only happens when the part before it comes to something. -/
def andThen {α : Type} (x : Option α × Analysis) (call : α → Analysis → List Call) : List Call :=
  match x with
  | (some y, b) => call y b
  | (none, _) => []

theorem forall_mem_andThen {α : Type} {P : Call → Prop} {x : Option α × Analysis}
    {call : α → Analysis → List Call} (h : ∀ y, x.1 = some y → ∀ c ∈ call y x.2, P c) :
    ∀ c ∈ andThen x call, P c := by
  obtain ⟨y, b⟩ := x
  cases y with
  | none => exact List.forall_mem_nil _
  | some y => exact h y rfl

/-- The arguments of a call at the head of a chain, analysed once its name has a meaning. -/
def headArguments (name : String) (args : List Expr) (a : Analysis) : List Call :=
  match (Analyze.lookup name).run a with
  | (.found _ _, b) => [(arguments args, b)]
  | (.hidden, _) => []
  | (.missing, b) => if (b.scopes.resolveType b.current name).isSome then [(arguments args, b)]
      else []

/-- The name of a routine is looked up once its signature is accepted. -/
def routineName (member : Option Membership) (r : RoutineDef) (params : Option (List TypeId))
    (result : Option (Option TypeId)) (a : Analysis) : List Call :=
  match params, result with
  | some params, some _ =>
    match (refuseMember member r.name params).run a with
    | (false, b) => [(name r.name.name, b)]
    | (true, _) => []
  | _, _ => []

/-- What a task calls, in order, with the states that the calls start in. -/
def calls (a : Analysis) : Task → List Call
  | name _ => []
  | resolve (.named n) => [(name n.name, a)]
  | resolve (.routine params result _) =>
    [(resolveAll params, a), (resolveResult result, ((Analyze.resolveAll params).run a).2)]
  | resolveAll [] => []
  | resolveAll (t :: ts) => [(resolve t, a), (resolveAll ts, ((Analyze.resolve t).run a).2)]
  | resolveResult none => []
  | resolveResult (some t) => [(resolve t, a)]
  | expr (.literal _ _ _) => []
  | expr (.binary _ _ left right _) => [(expr left, a), (expr right, ((operand left).run a).2)]
  | expr (.unary _ _ e _) => [(expr e, a)]
  | expr (.paren _ e _) => [(expr e, a)]
  | expr (.chain c) => [(chain c, a)]
  | arguments [] => []
  | arguments (e :: es) => [(expr e, a), (arguments es, ((operand e).run a).2)]
  | chain ⟨_, [], _⟩ => []
  | chain ⟨_, head :: rest, _⟩ =>
    (headLink (!rest.isEmpty) head, a) ::
      andThen ((Analyze.headLink (!rest.isEmpty) head).run a) fun first b =>
        [(memberLinks first rest, b)]
  | headLink _ (.bare _ n _) => [(name n.name, a)]
  | headLink _ (.call _ n args _) => (name n.name, a) :: headArguments n.name args a
  | memberLink _ (.bare _ _ _) => []
  | memberLink before (.call _ _ args _) =>
    if before.receiver?.isSome then [(arguments args, a)] else []
  | memberLinks _ [] => []
  | memberLinks before (l :: ls) =>
    (memberLink before l, a) :: andThen ((Analyze.memberLink before l).run a) fun produced b =>
      [(memberLinks produced ls, b)]
  | declareNames _ _ _ [] => []
  | declareNames type role owner (n :: ns) =>
    [(name n.name, a),
      (declareNames type role owner ns, ((declareName type role owner n).run a).2)]
  | varDecl role owner d =>
    (resolve d.type, a) :: andThen ((Analyze.resolve d.type).run a) fun type b =>
      [(declareNames type role owner d.names, b)]
  | declareInit _ role owner names (some type) (some value) span =>
    andThen ((initialMode type value span).run a) fun _ b =>
      [(declareNames type role owner names, b)]
  | declareInit _ _ _ _ _ _ _ => []
  | initDecl d =>
    let (type, b) := (Analyze.resolve d.type).run a
    let (value, c) := (operand d.value).run b
    [(resolve d.type, a), (expr d.value, b),
      (declareInit d.node .var none d.names type value d.value.span, c)]
  | staticField type fieldInit f =>
    let (value, b) := (inScope fieldInit (operand f.init)).run a
    let (declared, c) := (Analyze.resolve f.decl.type).run b
    [(expr f.init, { a with current := fieldInit }), (resolve f.decl.type, b),
      (declareInit f.decl.node .staticField (some type) f.decl.names declared value f.init.span, c)]
  | staticFields _ _ [] => []
  | staticFields type fieldInit (f :: fs) =>
    [(staticField type fieldInit f, a),
      (staticFields type fieldInit fs, ((Analyze.staticField type fieldInit f).run a).2)]
  | instanceFields _ [] => []
  | instanceFields type (d :: ds) =>
    [(varDecl .field (some type) d, a),
      (instanceFields type ds, ((Analyze.instanceFields type [d]).run a).2)]
  | declareRoutine member r =>
    let (params, b) := (Analyze.resolveAll (r.params.map (·.type))).run a
    let (result, c) := (Analyze.resolveResult r.result).run b
    (resolveAll (r.params.map (·.type)), a) :: (resolveResult r.result, b) ::
      routineName member r params result c
  | declareMembers _ [] => []
  | declareMembers member (r :: rs) =>
    [(declareRoutine (some member) r, a),
      (declareMembers member rs, ((Analyze.declareRoutine (some member) r).run a).2)]
  | openType n => [(name n.name, a)]
  | sourcesOf [] => []
  | sourcesOf ((n, _) :: rest) => [(name n, a), (sourcesOf rest, ((Analyze.lookup n).run a).2)]
  | captureSources s => [(sourcesOf ((a.scopes.get s).captures.map fun c => (c.name, c.binding.type)), a)]
  | assign x => [(chain x.target, a), (expr x.value, ((Analyze.chain x.target).run a).2)]
  | checkCondition e => [(expr e, a)]
  | checkReturn r _ =>
    match r.ret with
    | some ret => [(expr ret.value, a)]
    | none => []
  | stmt (.declare d) => [(varDecl .var none d, a)]
  | stmt (.define d) => [(initDecl d, a)]
  | stmt (.assign x) => [(assign x, a)]
  | stmt (.call c) => [(chain c, a)]
  | stmt (.branch gs otherwise _) =>
    [(guardedAll gs, a), (elseBlock otherwise, ((Analyze.guardedAll gs).run a).2)]
  | stmt (.loop g) => [(guarded g, a)]
  | stmt (.routine r) =>
    (declareRoutine none r, a) :: andThen ((Analyze.declareRoutine none r).run a) fun declared b =>
      [(routineBody declared r, b)]
  | stmt (.type d) => [(typeDef d, a)]
  | stmts [] => []
  | stmts (s :: ss) => [(stmt s, a), (stmts ss, ((Analyze.stmt s).run a).2)]
  | guarded ⟨node, condition, body, _⟩ =>
    let (scope, b) := (openBlock node).run a
    let b : Analysis := { b with current := scope }
    [(checkCondition condition, b), (stmts body, ((Analyze.checkCondition condition).run b).2)]
  | guardedAll [] => []
  | guardedAll (g :: gs) => [(guarded g, a), (guardedAll gs, ((Analyze.guarded g).run a).2)]
  | elseBlock .absent => []
  | elseBlock (.block node body _) =>
    let (scope, b) := (openBlock node).run a
    [(stmts body, { b with current := scope })]
  | routineBody declared r =>
    let b : Analysis := { a with current := declared.scope }
    let c := ((Analyze.stmts r.body).run b).2
    let d := ((Analyze.checkReturn r declared.result).run c).2
    [(stmts r.body, b), (checkReturn r declared.result, c),
      (captureSources declared.scope, { d with current := a.current })]
  | routineBodies (some declared :: ds) (r :: rs) =>
    [(routineBody declared r, a), (routineBodies ds rs, ((Analyze.routineBody declared r).run a).2)]
  | routineBodies (none :: ds) (_ :: rs) => [(routineBodies ds rs, a)]
  | routineBodies _ _ => []
  | memberRoutines type rs rs' =>
    let (declared, b) := (Analyze.declareMembers ⟨type, false⟩ rs).run a
    let (declaredStatic, c) := (Analyze.declareMembers ⟨type, true⟩ rs').run b
    [(declareMembers ⟨type, false⟩ rs, a), (declareMembers ⟨type, true⟩ rs', b),
      (routineBodies declared rs, c),
      (routineBodies declaredStatic rs', ((Analyze.routineBodies declared rs).run c).2)]
  | members f fields statics rs rs' =>
    let b := ((Analyze.instanceFields f.type fields).run a).2
    [(instanceFields f.type fields, a), (staticFields f.type f.fieldInit statics, b),
      (memberRoutines f.type rs rs', ((Analyze.staticFields f.type f.fieldInit statics).run b).2)]
  | typeDef d =>
    (openType d.name, a) :: andThen ((Analyze.openType d.name).run a) fun f b =>
      let c : Analysis := { b with current := f.scope }
      let e := ((Analysis.members f d.fields d.staticFields d.routines d.staticRoutines).run c).2
      [(members f d.fields d.staticFields d.routines d.staticRoutines, c),
        (captureSources f.scope, { e with current := b.current })]

end Task

/-- Analysing a program reaches a task in a state. -/
inductive Reached (program : String) (q : Program) : Task → Analysis → Prop
  | start : Reached program q (.stmts q.stmts) (initial program)
  | call {T T' : Task} {a b : Analysis} (h : Reached program q T a) (hc : (T', b) ∈ T.calls a) :
      Reached program q T' b

/-- Goes down from a call, each time to the callee at a position. -/
def Task.follow : List Nat → Call → Option Call
  | [], c => some c
  | i :: is, (T, a) => (T.calls a)[i]?.bind (follow is)

theorem Reached.follow {program : String} {q : Program} : {is : List Nat} → {T T' : Task} →
    {a b : Analysis} → Reached program q T a → Task.follow is (T, a) = some (T', b) →
      Reached program q T' b
  | [], _, _, _, _, h, hf => by
    obtain ⟨rfl, rfl⟩ := Prod.mk.inj (Option.some.inj hf)
    exact h
  | _ :: _, _, _, _, _, h, hf => by
    obtain ⟨⟨_, _⟩, hc, hf⟩ := Option.bind_eq_some_iff.mp hf
    exact (h.call (List.mem_of_getElem? hc)).follow hf

/-- Whether a call looks a name up in a state of some kind. -/
def Call.looksUp (n : String) (p : Analysis → Bool) : Call → Bool
  | (.name m, a) => m == n && p a
  | _ => false

/-- A call that is come to by following calls from the start. -/
theorem Reached.exists_call {program : String} {q : Program} {is : List Nat} {p : Call → Bool}
    (h : (Task.follow is (.stmts q.stmts, initial program)).any p = true) :
    ∃ T a, Reached program q T a ∧ p (T, a) = true := by
  obtain ⟨⟨T, a⟩, hc, hp⟩ := (Option.any_eq_true _ _).mp h
  exact ⟨T, a, Reached.follow .start hc, hp⟩

/-- A lookup that is come to by following calls from the start. -/
theorem Reached.exists_lookup {program : String} {q : Program} {is : List Nat} {n : String}
    {p : Analysis → Bool}
    (h : (Task.follow is (.stmts q.stmts, initial program)).any (Call.looksUp n p) = true) :
    ∃ a, Reached program q (.name n) a ∧ p a = true := by
  obtain ⟨T, a, hreached, hlooks⟩ := Reached.exists_call h
  cases T with
  | name m =>
    obtain ⟨hm, hp⟩ := Bool.and_eq_true_iff.mp hlooks
    obtain rfl := eq_of_beq hm
    exact ⟨a, hreached, hp⟩
  | _ => exact absurd hlooks Bool.false_ne_true

end Unnest.Analysis
