import Unnest.Proofs.Analysis.Entries
import Unnest.Proofs.Analysis.Environments

/-!
# What is read where

A link that is recorded is seen from the scope that it stands in, and what a scope sees
in a slot is filled there (`Reaches.within`).  `ReadsOnly z V xs` says that the links
among the parts `xs` read no slots but those of `V`.

The rules below follow the statements of a tree in order, with the slots that are filled
in front of each and behind it (`StmtFills`).  What a block fills counts only inside of
it.  A routine starts again with its own arguments, and what it captured is read where it
is made.
-/

namespace Unnest

theorem Chain.linkParts_of_nil {c : Chain} (h : c.links = []) : c.linkParts = [] := by
  obtain ⟨_, _, _⟩ := c
  obtain rfl := h
  rfl

/-- An access reads no slots but these. -/
def Access.Within (V : Set Nat) : Access → Prop
  | .slot k => k ∈ V
  | .itself => 0 ∈ V
  | .captured | .enclosing | .static _ => True

theorem Access.Within.mono {V U : Set Nat} {a : Access} (h : a.Within V) (hV : V ⊆ U) :
    a.Within U := by
  cases a with
  | slot k => exact hV h
  | itself => exact hV h
  | captured | enclosing | static => trivial

namespace Scopes

variable {t : Scopes} {s : ScopeId} {c : Capture} {a : Access} {V : Set Nat}

theorem zero_mem_filled (hk : (t.get (t.owningMethod s)).kind = .routine) : 0 ∈ t.filled s :=
  Or.inl (by rw [hk]; exact Nat.one_pos)

/-- An access that leads to a binding of its method reads the slot of the binding. -/
theorem Leads.within (h : t.Leads s c a)
    (hslot : ∀ k, c.binding.slot = some k → t.owningMethod c.owner = t.owningMethod s → k ∈ V)
    (hself : (t.get (t.owningMethod s)).kind = .routine → 0 ∈ V) : a.Within V := by
  cases a with
  | slot k => exact hslot k h.1 h.2
  | itself => exact hself h.2.1
  | captured | enclosing | static => trivial

/-- What a scope reaches is filled there. -/
theorem Reaches.within (h : Reaches t s c a) (ht : Sound t) : a.Within (t.filled s) := by
  by_cases hstatic : ∃ type, a = .static type
  · obtain ⟨type, rfl⟩ := hstatic
    trivial
  · refine (ht.leads h fun type ha => hstatic ⟨type, ha⟩).within (fun k hk hm => ?_) zero_mem_filled
    exact Or.inr ⟨c.owner, h.meant.owner_mem, hm, c.binding, h.meant.declared, hk⟩

end Scopes

namespace Analysis

variable {z : Analysis} {s : ScopeId} {V U : Set Nat} {xs ys : List Part}

/-! ## Links -/

/-- The links among these parts are recorded and seen. -/
def Seen (z : Analysis) (s : ScopeId) (xs : List Part) : Prop :=
  ∀ l, .link l ∈ xs → ∃ f, z.findings.links.find? l.node = some f ∧ z.scopes.Sees s f

/-- The links among these parts read no slots but those of `V`. -/
def ReadsOnly (z : Analysis) (V : Set Nat) (xs : List Part) : Prop :=
  ∀ l f b access, .link l ∈ xs → z.findings.links.find? l.node = some f →
    f.use? = some (b, access) → access.Within V

theorem ReadsOnly.sublist (h : ReadsOnly z V xs) (hs : ys ⊆ xs) : ReadsOnly z V ys :=
  fun l f b access hl => h l f b access (hs hl)

namespace Seen

theorem nil : Seen z s [] := fun _ h => absurd h List.not_mem_nil

theorem append (h : Seen z s xs) (h' : Seen z s ys) : Seen z s (xs ++ ys) := fun l hl =>
  (List.mem_append.mp hl).elim (h l) (h' l)

/-- Behind a part that is no link. -/
theorem cons {x : Part} (h : Seen z s xs) (hx : ∀ l, x ≠ .link l) : Seen z s (x :: xs) :=
  fun l hl => h l ((List.mem_cons.mp hl).resolve_left fun heq => hx l heq.symm)

theorem link {l : Link} {f : LinkFinding} (h : Seen z s xs)
    (record : z.findings.links.find? l.node = some f) (sees : z.scopes.Sees s f) :
    Seen z s (.link l :: xs) := fun l' hl =>
  (List.mem_cons.mp hl).elim (fun heq => Part.link.inj heq ▸ ⟨f, record, sees⟩) (h l')

/-- In the end, what was seen reads what was filled. -/
theorem readsOnly {b : Analysis} (h : Seen b s xs) (hz : Settled z) (hb : Sound b)
    (hg : Grows b z) : ReadsOnly z (b.scopes.filled s) xs := by
  intro l f v access hl hf huse
  obtain ⟨g, hg', hsees⟩ := h l hl
  obtain rfl := (Findings.nodup_links hz.keys).eq_of_mem
    (hg.findings.links (NodeTable.mem_of_find? hg')) (NodeTable.mem_of_find? hf)
  obtain ⟨owner, hr⟩ := hsees.reaches huse
  exact hr.within hb.scopes

end Seen

mutual

/-- The links of an expression that is decided are seen. -/
theorem seen_expr : (e : Expr) → {t : TypeId} → ExprHas z s e t → Seen z s e.parts
  | .literal _ _ _, _, _ => Seen.nil.cons fun _ => by simp
  | .binary _ _ left right _, _, h => by
    cases h with
    | binary hl hr => exact ((seen_expr left hl).append (seen_expr right hr)).cons fun _ => by simp
  | .unary _ _ operand _, _, h => by
    cases h with
    | unary ho => exact (seen_expr operand ho).cons fun _ => by simp
  | .paren _ inner _, _, h => by
    cases h with
    | paren hi => exact (seen_expr inner hi).cons fun _ => by simp
  | .chain c, _, h => by
    cases h with
    | chain hc => exact (seen_chain c hc).cons fun _ => by simp

theorem seen_chain : (c : Chain) → {t : Option TypeId} → ChainHas z s c t → Seen z s c.linkParts
  | ⟨_, [], _⟩, _, h => nomatch h
  | ⟨_, head :: rest, _⟩, _, h => by
    cases h with
    | mk hh hr => exact (seen_head head hh).append (seen_links rest hr)

theorem seen_head : (l : Link) → {hasMore : Bool} → {x : Produced} → HeadMakes z s hasMore l x →
    Seen z s l.parts
  | .bare _ _ _, _, _, h => by
    cases h with
    | load record sees => exact Seen.nil.link record sees
    | typeName _ record => exact Seen.nil.link record trivial
  | .call _ _ args _, _, _, h => by
    cases h with
    | callBinding hargs _ record sees => exact (seen_args args hargs).link record sees
    | callType hargs _ record => exact (seen_args args hargs).link record trivial
    | construct hargs _ record => exact (seen_args args hargs).link record trivial

theorem seen_link : (l : Link) → {before x : Produced} → LinkMakes z s before l x →
    Seen z s l.parts
  | .bare _ _ _, _, _, h => by
    cases h with
    | field _ _ record => exact Seen.nil.link record trivial
  | .call _ _ args _, _, _, h => by
    cases h with
    | callMember _ hargs _ record => exact (seen_args args hargs).link record trivial
    | callField _ hargs _ _ _ record => exact (seen_args args hargs).link record trivial

theorem seen_links : (ls : List Link) → {before x : Produced} → LinksMake z s before ls x →
    Seen z s (Link.allParts ls)
  | [], _, _, _ => .nil
  | l :: ls, _, _, h => by
    cases h with
    | cons hl hls => exact (seen_link l hl).append (seen_links ls hls)

theorem seen_args : (es : List Expr) → {ts : List TypeId} → ArgsHave z s es ts →
    Seen z s (Expr.allParts es)
  | [], _, _ => .nil
  | e :: es, _, h => by
    cases h with
    | cons he hes => exact (seen_expr e he).append (seen_args es hes)

end

theorem seen_ret {ret : Option ReturnClause} {result : Option TypeId} (h : RetDone z s ret result) :
    Seen z s (ReturnClause.optParts ret) := by
  cases h with
  | none => exact .nil
  | some h => exact seen_expr _ h

/-! ## Statements -/

variable (z)

/-- The body of a routine with these parameters starts with `V` filled: the routine
itself, and its parameters, which are the first bindings of its scope. -/
structure BodyStart (params : List Param) (f : RoutineFinding) (V : Set Nat) : Prop where
  itself : 0 ∈ V
  arguments : ∀ k ∈ V, k ≤ params.length
  below : ∀ k ∈ V, k < (z.scopes.get f.scope).numLocals
  length : f.signature.params.length = params.length
  entries : paramBindings 1 (params.zip f.signature.params) <+: (z.scopes.get f.scope).entries

mutual

/-- With the slots of `V` filled in front of a statement, those of `V'` are filled behind
it, and it reads only what is filled.  All slots that it fills are below `N`. -/
inductive StmtFills : Nat → Set Nat → Stmt → Set Nat → Prop
  | declare {N : Nat} {V : Set Nat} {d : VarDecl} {f : DeclFinding}
      (record : z.findings.decls.find? d.node = some f)
      (below : ∀ k ∈ slotSet f.bindings, k < N) :
      StmtFills N V (.declare d) (V ∪ slotSet f.bindings)
  | define {N : Nat} {V : Set Nat} {d : InitDecl} {f : DeclFinding} {mode : WriteMode}
      (record : z.findings.decls.find? d.node = some f) (mode_eq : f.mode = some mode)
      (below : ∀ k ∈ slotSet f.bindings, k < N) (value : ReadsOnly z V d.value.parts) :
      StmtFills N V (.define d) (V ∪ slotSet f.bindings)
  | assign {N : Nat} {V : Set Nat} {x : Assignment}
      (h : ReadsOnly z V (x.target.linkParts ++ x.value.parts)) : StmtFills N V (.assign x) V
  | call {N : Nat} {V : Set Nat} {c : Chain} (h : ReadsOnly z V c.linkParts) :
      StmtFills N V (.call c) V
  | branch {N : Nat} {V : Set Nat} {gs : List Guarded} {otherwise : Else} {span : Span}
      (hgs : ∀ g ∈ gs, GuardedFills N V g) (he : ElseFills N V otherwise) :
      StmtFills N V (.branch gs otherwise span) V
  | loop {N : Nat} {V : Set Nat} {g : Guarded} (h : GuardedFills N V g) : StmtFills N V (.loop g) V
  | routine {N k : Nat} {V : Set Nat} {r : RoutineDef} {f : RoutineFinding}
      (record : z.findings.routines.find? r.node = some f) (slot : f.binding.slot = some k)
      (below : k < N) (free : f.memberOf = none) (captures : ∀ c ∈ f.captures, c.access.Within V)
      (h : RoutineFills r) : StmtFills N V (.routine r) (insert k V)
  | type {N : Nat} {V : Set Nat} {t : TypeDef} {f : TypeFinding}
      (record : z.findings.types.find? t.node = some f)
      (captures : ∀ c ∈ f.captures, c.access.Within V)
      (statics : ∀ x ∈ t.staticFields, ReadsOnly z ∅ x.init.parts)
      (routines : ∀ r ∈ t.routines, MemberFills false r)
      (staticRoutines : ∀ r ∈ t.staticRoutines, MemberFills true r) : StmtFills N V (.type t) V

/-- A body under a condition. -/
inductive GuardedFills : Nat → Set Nat → Guarded → Prop
  | mk {N : Nat} {V V' : Set Nat} {node : NodeId} {condition : Expr} {body : List Stmt}
      {span : Span} (hc : ReadsOnly z V condition.parts) (hb : StmtsFills N V body V') :
      GuardedFills N V ⟨node, condition, body, span⟩

inductive ElseFills : Nat → Set Nat → Else → Prop
  | absent {N : Nat} {V : Set Nat} : ElseFills N V .absent
  | block {N : Nat} {V V' : Set Nat} {node : NodeId} {body : List Stmt} {span : Span}
      (hb : StmtsFills N V body V') : ElseFills N V (.block node body span)

/-- A routine, which has slots of its own. -/
inductive RoutineFills : RoutineDef → Prop
  | mk {node : NodeId} {name closing : Ident} {params : List Param}
      {result : Option WrittenType} {body : List Stmt} {ret : Option ReturnClause} {span : Span}
      {f : RoutineFinding} {V V' : Set Nat} (record : z.findings.routines.find? node = some f)
      (start : BodyStart z params f V)
      (hb : StmtsFills (z.scopes.get f.scope).numLocals V body V')
      (hret : ReadsOnly z V' (ReturnClause.optParts ret)) :
      RoutineFills ⟨node, name, closing, params, result, body, ret, span⟩

/-- A member routine, which is made where no slot of its method is filled. -/
inductive MemberFills : Bool → RoutineDef → Prop
  | mk {isStatic : Bool} {r : RoutineDef} {f : RoutineFinding}
      (record : z.findings.routines.find? r.node = some f) (static : f.isStatic = isStatic)
      (captures : ∀ c ∈ f.captures, c.access.Within ∅) (h : RoutineFills r) :
      MemberFills isStatic r

/-- Statements in order. -/
inductive StmtsFills : Nat → Set Nat → List Stmt → Set Nat → Prop
  | nil {N : Nat} {V : Set Nat} : StmtsFills N V [] V
  | cons {N : Nat} {V V₁ V' : Set Nat} {x : Stmt} {xs : List Stmt} (h : StmtFills N V x V₁)
      (hs : StmtsFills N V₁ xs V') : StmtsFills N V (x :: xs) V'

end

end Analysis

end Unnest
