import Unnest.Analysis.Stmt
import Unnest.Proofs.Analysis.Sound

/-!
# What is decided about a tree

The findings of an accepted analysis form a typing of the tree.  It is stated here as
inference rules, one for each construct, over the final tables `z` and the scope that
the construct stands in: an expression has a type when its parts have theirs and the
routine that is called was on offer (`Analysis.ExprHas`), and a statement is done when
everything in it is decided and recorded (`Analysis.StmtDone`).

The rules say what lowering relies on: that the records are there, how many arguments a
routine takes and whether it gives a result, whether a member is static, and in which
scope a body stands.
-/

namespace Unnest

/-- What a chain that ends so is recorded to yield. -/
def Produced.finding? : Produced → Option ChainFinding
  | .value type binding => some ⟨some type, binding⟩
  | .nothing => some ⟨none, none⟩
  | .typeName _ => none

namespace Analysis

/-- The tables at the end of an analysis. -/
structure Settled (z : Analysis) : Prop where
  sound : Sound z
  keys : z.findings.keys.Nodup

/-- The tables at the end of an analysis without errors. -/
structure Accepted (z : Analysis) : Prop extends Settled z where
  errors : z.errors = []

/-- A lookup found a routine at some moment. -/
def Offers (z : Analysis) (owner : TypeId) (isStatic : Bool) (name : String)
    (args : List TypeId) (s : Signature) : Prop :=
  ∃ t : TypeTable, t.Sound ∧ t.Extends z.types ∧ t.lookup owner isStatic name args = some s

variable (z : Analysis)

/-! ## Expressions -/

mutual

/-- An expression in a scope has a type. -/
inductive ExprHas (s : ScopeId) : Expr → TypeId → Prop
  | literal {node : NodeId} {value : Literal} {span : Span}
      (type : z.findings.exprTypes.find? node = some value.type) :
      ExprHas s (.literal node value span) value.type
  | binary {node : NodeId} {op : BinaryOp} {left right : Expr} {span : Span} {l r t : TypeId}
      {routine : Signature} (hl : ExprHas s left l) (hr : ExprHas s right r)
      (call : z.findings.operators.find? node = some ⟨l, routine, false⟩)
      (offer : Offers z l false op.routine [r] routine) (result : routine.result = some t)
      (type : z.findings.exprTypes.find? node = some t) :
      ExprHas s (.binary node op left right span) t
  | unary {node : NodeId} {op : UnaryOp} {operand : Expr} {span : Span} {o t : TypeId}
      {routine : Signature} (ho : ExprHas s operand o)
      (call : z.findings.operators.find? node = some ⟨o, routine, true⟩)
      (offer : Offers z o true op.routine [o] routine) (result : routine.result = some t)
      (type : z.findings.exprTypes.find? node = some t) :
      ExprHas s (.unary node op operand span) t
  | paren {node : NodeId} {inner : Expr} {span : Span} {t : TypeId} (hi : ExprHas s inner t)
      (type : z.findings.exprTypes.find? node = some t) :
      ExprHas s (.paren node inner span) t
  | chain {c : Chain} {t : TypeId} (hc : ChainHas s c (some t))
      (type : z.findings.exprTypes.find? c.node = some t) : ExprHas s (.chain c) t

/-- A chain in a scope yields a value of a type, or nothing. -/
inductive ChainHas (s : ScopeId) : Chain → Option TypeId → Prop
  | mk {node : NodeId} {head : Link} {rest : List Link} {span : Span} {first last : Produced}
      {f : ChainFinding} (hh : HeadMakes s (!rest.isEmpty) head first)
      (hr : LinksMake s first rest last) (finding : last.finding? = some f)
      (record : z.findings.chains.find? node = some f) :
      ChainHas s ⟨node, head :: rest, span⟩ f.type

/-- What the first link of a chain produces. -/
inductive HeadMakes (s : ScopeId) : Bool → Link → Produced → Prop
  | load {hasMore : Bool} {node : NodeId} {name : Ident} {span : Span} {b : Binding}
      {access : Access}
      (record : z.findings.links.find? node = some (.load b access))
      (sees : z.scopes.Sees s (.load b access)) :
      HeadMakes s hasMore (.bare node name span) (.value b.type (some b))
  | typeName {hasMore : Bool} {node : NodeId} {name : Ident} {span : Span} {type : TypeId}
      (more : hasMore = true) (record : z.findings.links.find? node = some (.typeName type)) :
      HeadMakes s hasMore (.bare node name span) (.typeName type)
  | callBinding {hasMore : Bool} {node : NodeId} {name : Ident} {args : List Expr} {span : Span}
      {b : Binding} {access : Access} {ts : List TypeId} {routine : Signature}
      (hargs : ArgsHave s args ts)
      (offer : Offers z b.type false Reserved.call ts routine)
      (record : z.findings.links.find? node = some (.call b.type routine (.binding b access)))
      (sees : z.scopes.Sees s (.call b.type routine (.binding b access))) :
      HeadMakes s hasMore (.call node name args span) (.ofCall routine)
  | callType {hasMore : Bool} {node : NodeId} {name : Ident} {args : List Expr} {span : Span}
      {type : TypeId} {ts : List TypeId} {routine : Signature} (hargs : ArgsHave s args ts)
      (offer : Offers z type true Reserved.call ts routine)
      (record : z.findings.links.find? node = some (.call type routine (.member true))) :
      HeadMakes s hasMore (.call node name args span) (.ofCall routine)
  | construct {hasMore : Bool} {node : NodeId} {name : Ident} {args : List Expr} {span : Span}
      {type : TypeId}
      (hargs : ArgsHave s args []) (user : z.types.form type = .user)
      (record : z.findings.links.find? node = some (.construct type)) :
      HeadMakes s hasMore (.call node name args span) (.value type none)

/-- What a later link produces from what the ones before it produced. -/
inductive LinkMakes (s : ScopeId) : Produced → Link → Produced → Prop
  | field {before : Produced} {node : NodeId} {name : Ident} {span : Span} {owner : TypeId}
      {isStatic : Bool} {b : Binding} (on : before.receiver? = some (owner, isStatic))
      (role : b.role = .member isStatic)
      (record : z.findings.links.find? node = some (.field owner b)) :
      LinkMakes s before (.bare node name span) (.value b.type (some b))
  | callMember {before : Produced} {node : NodeId} {name : Ident} {args : List Expr} {span : Span}
      {owner : TypeId} {isStatic : Bool} {ts : List TypeId} {routine : Signature}
      (on : before.receiver? = some (owner, isStatic)) (hargs : ArgsHave s args ts)
      (offer : Offers z owner isStatic name.name ts routine)
      (record : z.findings.links.find? node = some (.call owner routine (.member isStatic))) :
      LinkMakes s before (.call node name args span) (.ofCall routine)
  | callField {before : Produced} {node : NodeId} {name : Ident} {args : List Expr} {span : Span}
      {owner : TypeId} {isStatic : Bool} {ts : List TypeId} {b : Binding} {routine : Signature}
      (on : before.receiver? = some (owner, isStatic)) (hargs : ArgsHave s args ts)
      (role : b.role = .member isStatic) (member : b.owner = some owner)
      (offer : Offers z b.type false Reserved.call ts routine)
      (record : z.findings.links.find? node =
        some (.call b.type routine (.fieldValue b isStatic))) :
      LinkMakes s before (.call node name args span) (.ofCall routine)

/-- What later links produce together. -/
inductive LinksMake (s : ScopeId) : Produced → List Link → Produced → Prop
  | nil {p : Produced} : LinksMake s p [] p
  | cons {before after last : Produced} {l : Link} {ls : List Link}
      (hl : LinkMakes s before l after) (hls : LinksMake s after ls last) :
      LinksMake s before (l :: ls) last

/-- The types of arguments. -/
inductive ArgsHave (s : ScopeId) : List Expr → List TypeId → Prop
  | nil : ArgsHave s [] []
  | cons {e : Expr} {es : List Expr} {t : TypeId} {ts : List TypeId} (he : ExprHas s e t)
      (hes : ArgsHave s es ts) : ArgsHave s (e :: es) (t :: ts)

end

/-! ## Statements -/

/-- How a value is written where that was decided. -/
def Writes (target value : TypeId) : WriteMode → Prop
  | .copy routine => Offers z target false Reserved.assignment [value] routine
  | .store => True

/-- All names of a declaration are declared, in order, as bindings of its type. -/
structure NamesDone (s : ScopeId) (type : TypeId) (names : List Ident) (bindings : List Binding) :
    Prop where
  names_eq : bindings.map (·.name) = names.map (·.name)
  distinct : (bindings.map (·.name)).Nodup
  typed : ∀ b ∈ bindings, b.type = type
  declared : ∀ b ∈ bindings, b ∈ (z.scopes.get s).entries

/-- A declaration without initial value. -/
structure DeclDone (s : ScopeId) (d : VarDecl) (f : DeclFinding) : Prop where
  record : z.findings.decls.find? d.node = some f
  mode : f.mode = none
  names : NamesDone z s f.type d.names f.bindings

/-- A declaration in the scope `s` whose initial value stands in the scope `v`. -/
structure InitDone (s v : ScopeId) (node : NodeId) (names : List Ident) (value : Expr)
    (f : DeclFinding) (mode : WriteMode) : Prop where
  record : z.findings.decls.find? node = some f
  mode_eq : f.mode = some mode
  names : NamesDone z s f.type names f.bindings
  value : ∃ t, ExprHas z v value t ∧ Writes z f.type t mode

/-- A link loads a binding or reads a member. -/
def Names (l : Link) : Prop :=
  (∃ b access, z.findings.links.find? l.node = some (.load b access)) ∨
    ∃ owner b, z.findings.links.find? l.node = some (.field owner b)

/-- An assignment.  Only a binding or a field is stored to. -/
structure AssignDone (s : ScopeId) (x : Assignment) (f : AssignFinding) : Prop where
  record : z.findings.assigns.find? x.node = some f
  target : ChainHas z s x.target (some f.target)
  value : ∃ t, ExprHas z s x.value t ∧ Writes z f.target t f.mode
  stored : f.mode = .store → ∃ l, x.target.last? = some l ∧ Names z l

/-- A return clause is there exactly when a result is promised. -/
inductive RetDone (s : ScopeId) : Option ReturnClause → Option TypeId → Prop
  | none : RetDone s none none
  | some {ret : ReturnClause} {t type : TypeId} (h : ExprHas z s ret.value t) :
      RetDone s (some ret) (some type)

mutual

/-- Everything about a statement is decided and recorded. -/
inductive StmtDone : ScopeId → Stmt → Prop
  | declare {s : ScopeId} {d : VarDecl} {f : DeclFinding} (h : DeclDone z s d f) :
      StmtDone s (.declare d)
  | define {s : ScopeId} {d : InitDecl} {f : DeclFinding} {mode : WriteMode}
      (h : InitDone z s s d.node d.names d.value f mode) : StmtDone s (.define d)
  | assign {s : ScopeId} {x : Assignment} (h : x.target.links ≠ [] → ∃ f, AssignDone z s x f)
      (value : ∃ t, ExprHas z s x.value t) : StmtDone s (.assign x)
  | call {s : ScopeId} {c : Chain} (h : c.links ≠ [] → ∃ t, ChainHas z s c t) :
      StmtDone s (.call c)
  | branch {s : ScopeId} {gs : List Guarded} {otherwise : Else} {span : Span}
      (hgs : GuardedAllDone s gs) (he : ElseDone s otherwise) :
      StmtDone s (.branch gs otherwise span)
  | loop {s : ScopeId} {g : Guarded} (h : GuardedDone s g) : StmtDone s (.loop g)
  | routine {s : ScopeId} {r : RoutineDef} (h : RoutineDone s r) : StmtDone s (.routine r)
  | type {s : ScopeId} {t : TypeDef} (h : TypeDone s t) : StmtDone s (.type t)

/-- A body under a condition, both in the block's scope. -/
inductive GuardedDone : ScopeId → Guarded → Prop
  | mk {s b : ScopeId} {node : NodeId} {condition : Expr} {body : List Stmt} {span : Span}
      {t : TypeId} (record : z.findings.blocks.find? node = some b)
      (parent : z.scopes.parent b = some s) (kind : (z.scopes.get b).kind = .block)
      (hc : ExprHas z b condition t) (hb : StmtsDone b body) :
      GuardedDone s ⟨node, condition, body, span⟩

inductive ElseDone : ScopeId → Else → Prop
  | absent {s : ScopeId} : ElseDone s .absent
  | block {s b : ScopeId} {node : NodeId} {body : List Stmt} {span : Span}
      (record : z.findings.blocks.find? node = some b) (parent : z.scopes.parent b = some s)
      (kind : (z.scopes.get b).kind = .block) (hb : StmtsDone b body) :
      ElseDone s (.block node body span)

/-- A routine that is declared in a scope, with its body. -/
inductive RoutineDone : ScopeId → RoutineDef → Prop
  | mk {s : ScopeId} {node : NodeId} {name closing : Ident} {params : List Param}
      {result : Option WrittenType} {body : List Stmt} {ret : Option ReturnClause} {span : Span}
      {f : RoutineFinding} (record : z.findings.routines.find? node = some f)
      (parent : z.scopes.parent f.scope = some s) (hb : StmtsDone f.scope body)
      (hret : RetDone z f.scope ret f.signature.result)
      (named : (z.scopes.get f.scope).name = name.name) :
      RoutineDone s ⟨node, name, closing, params, result, body, ret, span⟩

/-- A type that is defined in a scope, with all of its members. -/
inductive TypeDone : ScopeId → TypeDef → Prop
  | mk {s : ScopeId} {node : NodeId} {name closing : Ident} {fields : List VarDecl}
      {statics : List StaticField} {routines staticRoutines : List RoutineDef} {span : Span}
      {f : TypeFinding} (record : z.findings.types.find? node = some f)
      (parent : z.scopes.parent f.scope = some s)
      (hf : ∀ d ∈ fields, ∃ df, DeclDone z f.scope d df)
      (hs : ∀ x ∈ statics, ∃ df mode,
        InitDone z f.scope f.fieldInit x.decl.node x.decl.names x.init df mode)
      (hr : RoutinesDone f.scope routines) (hsr : RoutinesDone f.scope staticRoutines)
      (named : (z.scopes.get f.scope).name = name.name) :
      TypeDone s ⟨node, name, closing, fields, statics, routines, staticRoutines, span⟩

/-- Statements of one scope. -/
inductive StmtsDone : ScopeId → List Stmt → Prop
  | nil {s : ScopeId} : StmtsDone s []
  | cons {s : ScopeId} {x : Stmt} {xs : List Stmt} (h : StmtDone s x) (hs : StmtsDone s xs) :
      StmtsDone s (x :: xs)

inductive GuardedAllDone : ScopeId → List Guarded → Prop
  | nil {s : ScopeId} : GuardedAllDone s []
  | cons {s : ScopeId} {g : Guarded} {gs : List Guarded} (h : GuardedDone s g)
      (hs : GuardedAllDone s gs) : GuardedAllDone s (g :: gs)

inductive RoutinesDone : ScopeId → List RoutineDef → Prop
  | nil {s : ScopeId} : RoutinesDone s []
  | cons {s : ScopeId} {r : RoutineDef} {rs : List RoutineDef} (h : RoutineDone s r)
      (hs : RoutinesDone s rs) : RoutinesDone s (r :: rs)

end

section

variable {z} {s : ScopeId}

/-- The type of an expression is on record. -/
theorem ExprHas.record {e : Expr} {t : TypeId} (h : ExprHas z s e t) :
    z.findings.exprTypes.find? e.node = some t := by
  cases h <;> assumption

theorem RoutinesDone.mem {r : RoutineDef} {rs : List RoutineDef} (h : RoutinesDone z s rs)
    (hr : r ∈ rs) : RoutineDone z s r := by
  induction rs with
  | nil => exact absurd hr List.not_mem_nil
  | cons y ys ih =>
    cases h with
    | cons hy hys =>
      rcases List.mem_cons.mp hr with rfl | hr
      · exact hy
      · exact ih hys hr

end

end Analysis

end Unnest
