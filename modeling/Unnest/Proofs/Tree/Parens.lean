import Unnest.Proofs.Tree.Parts

/-!
# Trees without parentheses

Parentheses say how a program is read and stay in the tree as nodes of their own.  `strip f`
is the tree with every parenthesis replaced by what is inside it, at any depth, and every
other node renumbered by `f`.  Nothing else changes: names, types as they are written,
spans and the order of everything stay.

`Program.parts_strip` says so of the parts of a tree: those that are left are the parts that
are no parentheses, in the same order, each without the parentheses inside it.  With `f`
injective distinct nodes stay distinct (`Program.nodup_nodes_strip`).
-/

namespace Unnest

/-- Whether a part is an expression in parentheses. -/
def Part.isParen : Part → Bool
  | .expr (.paren ..) => true
  | _ => false

variable (f : NodeId → NodeId)

mutual

/-- An expression without parentheses. -/
def Expr.strip : Expr → Expr
  | .literal node value span => .literal (f node) value span
  | .binary node op left right span => .binary (f node) op left.strip right.strip span
  | .unary node op operand span => .unary (f node) op operand.strip span
  | .paren _ inner _ => inner.strip
  | .chain c => .chain c.strip

/-- A chain without parentheses. -/
def Chain.strip : Chain → Chain
  | ⟨node, links, span⟩ => ⟨f node, Link.stripAll links, span⟩

/-- A link without parentheses. -/
def Link.strip : Link → Link
  | .bare node name span => .bare (f node) name span
  | .call node name args span => .call (f node) name (Expr.stripAll args) span

/-- Links without parentheses. -/
def Link.stripAll : List Link → List Link
  | [] => []
  | l :: ls => l.strip :: Link.stripAll ls

/-- Expressions without parentheses. -/
def Expr.stripAll : List Expr → List Expr
  | [] => []
  | e :: es => e.strip :: Expr.stripAll es

end

/-- A declaration, renumbered; there is nothing in it to strip. -/
def VarDecl.strip (d : VarDecl) : VarDecl := { d with node := f d.node }

/-- A local definition without parentheses. -/
def InitDecl.strip (d : InitDecl) : InitDecl :=
  { d with node := f d.node, value := d.value.strip f }

/-- An assignment without parentheses. -/
def Assignment.strip (x : Assignment) : Assignment :=
  { x with node := f x.node, target := x.target.strip f, value := x.value.strip f }

/-- A return clause without parentheses. -/
def ReturnClause.strip (r : ReturnClause) : ReturnClause := { r with value := r.value.strip f }

/-- A static member without parentheses. -/
def StaticField.strip (x : StaticField) : StaticField := ⟨x.decl.strip f, x.init.strip f⟩

mutual

/-- A statement without parentheses. -/
def Stmt.strip : Stmt → Stmt
  | .declare d => .declare (d.strip f)
  | .define d => .define (d.strip f)
  | .assign x => .assign (x.strip f)
  | .call c => .call (c.strip f)
  | .branch branches otherwise span =>
    .branch (Guarded.stripAll branches) otherwise.strip span
  | .loop g => .loop g.strip
  | .routine r => .routine r.strip
  | .type t => .type t.strip

/-- A body under a condition without parentheses. -/
def Guarded.strip : Guarded → Guarded
  | ⟨node, condition, body, span⟩ => ⟨f node, condition.strip f, Stmt.stripAll body, span⟩

/-- An `else` without parentheses. -/
def Else.strip : Else → Else
  | .absent => .absent
  | .block node body span => .block (f node) (Stmt.stripAll body) span

/-- A routine without parentheses. -/
def RoutineDef.strip : RoutineDef → RoutineDef
  | ⟨node, name, closing, params, result, body, ret, span⟩ =>
    ⟨f node, name, closing, params, result, Stmt.stripAll body, ret.map (ReturnClause.strip f),
      span⟩

/-- A type without parentheses. -/
def TypeDef.strip : TypeDef → TypeDef
  | ⟨node, name, closing, fields, staticFields, routines, staticRoutines, span⟩ =>
    ⟨f node, name, closing, fields.map (VarDecl.strip f), staticFields.map (StaticField.strip f),
      RoutineDef.stripAll routines, RoutineDef.stripAll staticRoutines, span⟩

/-- Statements without parentheses. -/
def Stmt.stripAll : List Stmt → List Stmt
  | [] => []
  | s :: ss => s.strip :: Stmt.stripAll ss

/-- Branches without parentheses. -/
def Guarded.stripAll : List Guarded → List Guarded
  | [] => []
  | g :: gs => g.strip :: Guarded.stripAll gs

/-- Routines without parentheses. -/
def RoutineDef.stripAll : List RoutineDef → List RoutineDef
  | [] => []
  | r :: rs => r.strip :: RoutineDef.stripAll rs

end

/-- A program without parentheses. -/
def Program.strip (p : Program) : Program := ⟨Stmt.stripAll f p.stmts, p.span⟩

@[simp] theorem Link.node_strip (l : Link) : (l.strip f).node = f l.node := by
  cases l <;> rfl

@[simp] theorem Chain.node_strip (c : Chain) : (c.strip f).node = f c.node := by
  obtain ⟨⟩ := c
  rfl

/-- The last link of a chain is still its last link. -/
theorem Chain.last?_strip (c : Chain) : (c.strip f).last? = c.last?.map (Link.strip f) := by
  obtain ⟨node, links, span⟩ := c
  rw [Chain.strip, Chain.last?, Chain.last?]
  induction links with
  | nil => rfl
  | cons l ls ih =>
    cases ls with
    | nil => rfl
    | cons l' ls => exact ih

/-- A part without parentheses. -/
def Part.strip : Part → Part
  | .expr e => .expr (e.strip f)
  | .chain c => .chain (c.strip f)
  | .link l => .link (l.strip f)
  | .block node => .block (f node)
  | .declare d => .declare (d.strip f)
  | .define d => .define (d.strip f)
  | .staticField x => .staticField (x.strip f)
  | .assign x => .assign (x.strip f)
  | .routine r => .routine (r.strip f)
  | .type t => .type (t.strip f)

/-- The parts that are no parentheses, each without the parentheses inside it. -/
def Part.stripAll (xs : List Part) : List Part :=
  (xs.filter fun x => !x.isParen).map (Part.strip f)

/-! ## Parts -/

namespace Part

variable {f}

@[simp] theorem stripAll_nil : stripAll f [] = [] := rfl

theorem stripAll_cons (x : Part) (xs : List Part) :
    stripAll f (x :: xs) = (if x.isParen then [] else [x.strip f]) ++ stripAll f xs := by
  cases h : x.isParen <;> simp [stripAll, h]

@[simp] theorem stripAll_append (xs ys : List Part) :
    stripAll f (xs ++ ys) = stripAll f xs ++ stripAll f ys := by
  simp [stripAll]

/-- A part that is no parenthesis is renumbered. -/
theorem node_strip {x : Part} (h : x.isParen = false) : (x.strip f).node = f x.node := by
  cases x with
  | expr e =>
    cases e with
    | paren => exact absurd h (by simp [isParen])
    | chain c => cases c; rfl
    | _ => rfl
  | chain c => exact c.node_strip f
  | link l => exact l.node_strip f
  | routine r => cases r; rfl
  | type t => cases t; rfl
  | _ => rfl

theorem isParen_strip {x : Part} (h : x.isParen = false) : (x.strip f).isParen = false := by
  cases x with
  | expr e =>
    cases e with
    | paren => exact absurd h (by simp [isParen])
    | _ => rfl
  | _ => rfl

end Part

section Parts

variable {f}

mutual

theorem Expr.parts_strip : (e : Expr) → (e.strip f).parts = Part.stripAll f e.parts
  | .literal _ _ _ => rfl
  | .binary _ _ left right _ => by
    rw [Expr.strip, Expr.parts, Expr.parts, left.parts_strip, right.parts_strip, Part.stripAll_cons,
      Part.stripAll_append]
    rfl
  | .unary _ _ operand _ => by
    rw [Expr.strip, Expr.parts, Expr.parts, operand.parts_strip, Part.stripAll_cons]
    rfl
  | .paren _ inner _ => by
    rw [Expr.strip, Expr.parts, inner.parts_strip, Part.stripAll_cons]
    rfl
  | .chain c => by
    rw [Expr.strip, Expr.parts, Expr.parts, c.linkParts_strip, Part.stripAll_cons]
    cases c
    rfl

theorem Chain.linkParts_strip : (c : Chain) → (c.strip f).linkParts = Part.stripAll f c.linkParts
  | ⟨_, links, _⟩ => by
    rw [Chain.strip, Chain.linkParts, Chain.linkParts, Link.parts_stripAll links]

theorem Link.parts_strip : (l : Link) → (l.strip f).parts = Part.stripAll f l.parts
  | .bare _ _ _ => rfl
  | .call _ _ args _ => by
    rw [Link.strip, Link.parts, Link.parts, Expr.parts_stripAll args, Part.stripAll_cons]
    rfl

theorem Link.parts_stripAll : (ls : List Link) →
    Link.allParts (Link.stripAll f ls) = Part.stripAll f (Link.allParts ls)
  | [] => rfl
  | l :: ls => by
    rw [Link.stripAll, Link.allParts, Link.allParts, l.parts_strip, Link.parts_stripAll ls,
      Part.stripAll_append]

theorem Expr.parts_stripAll : (es : List Expr) →
    Expr.allParts (Expr.stripAll f es) = Part.stripAll f (Expr.allParts es)
  | [] => rfl
  | e :: es => by
    rw [Expr.stripAll, Expr.allParts, Expr.allParts, e.parts_strip, Expr.parts_stripAll es,
      Part.stripAll_append]

end

theorem Chain.parts_strip (c : Chain) : (c.strip f).parts = Part.stripAll f c.parts := by
  rw [Chain.parts, Chain.parts, c.linkParts_strip, Part.stripAll_cons]
  cases c
  rfl

theorem StaticField.parts_strip (xs : List StaticField) :
    (xs.map (StaticField.strip f)).flatMap StaticField.parts =
      Part.stripAll f (xs.flatMap StaticField.parts) := by
  induction xs with
  | nil => rfl
  | cons x xs ih =>
    rw [List.map_cons, List.flatMap_cons, List.flatMap_cons, ih, Part.stripAll_append,
      StaticField.parts, StaticField.parts, Part.stripAll_cons, StaticField.strip,
      x.init.parts_strip]
    rfl

theorem ReturnClause.parts_strip (ret : Option ReturnClause) :
    ReturnClause.optParts (ret.map (ReturnClause.strip f)) =
      Part.stripAll f (ReturnClause.optParts ret) := by
  cases ret with
  | none => rfl
  | some ret => exact ret.value.parts_strip

theorem VarDecl.parts_strip (ds : List VarDecl) :
    (ds.map (VarDecl.strip f)).map Part.declare =
      Part.stripAll f (ds.map Part.declare) := by
  induction ds with
  | nil => rfl
  | cons d ds ih =>
    rw [List.map_cons, List.map_cons, ih, List.map_cons, Part.stripAll_cons]
    rfl

mutual

theorem Stmt.parts_strip : (x : Stmt) → (x.strip f).parts = Part.stripAll f x.parts
  | .declare _ => rfl
  | .define d => by
    rw [Stmt.strip, Stmt.parts, Stmt.parts, InitDecl.strip, d.value.parts_strip, Part.stripAll_cons]
    rfl
  | .assign x => by
    rw [Stmt.strip, Stmt.parts, Stmt.parts, Assignment.strip, x.target.parts_strip,
      x.value.parts_strip, Part.stripAll_cons, Part.stripAll_append]
    rfl
  | .call c => c.parts_strip
  | .branch branches otherwise _ => by
    rw [Stmt.strip, Stmt.parts, Stmt.parts, Guarded.parts_stripAll branches, otherwise.parts_strip,
      Part.stripAll_append]
  | .loop g => by rw [Stmt.strip, Stmt.parts, Stmt.parts, g.parts_strip]
  | .routine r => by rw [Stmt.strip, Stmt.parts, Stmt.parts, r.parts_strip]
  | .type t => by rw [Stmt.strip, Stmt.parts, Stmt.parts, t.parts_strip]

theorem Guarded.parts_strip : (g : Guarded) → (g.strip f).parts = Part.stripAll f g.parts
  | ⟨_, condition, body, _⟩ => by
    rw [Guarded.strip, Guarded.parts, Guarded.parts, condition.parts_strip,
      Stmt.parts_stripAll body, Part.stripAll_cons, Part.stripAll_append]
    rfl

theorem Else.parts_strip : (e : Else) → (e.strip f).parts = Part.stripAll f e.parts
  | .absent => rfl
  | .block _ body _ => by
    rw [Else.strip, Else.parts, Else.parts, Stmt.parts_stripAll body, Part.stripAll_cons]
    rfl

theorem RoutineDef.parts_strip : (r : RoutineDef) → (r.strip f).parts = Part.stripAll f r.parts
  | ⟨_, _, _, _, _, body, ret, _⟩ => by
    rw [RoutineDef.strip, RoutineDef.parts, RoutineDef.parts, Stmt.parts_stripAll body,
      ReturnClause.parts_strip, Part.stripAll_cons, Part.stripAll_append]
    rfl

theorem TypeDef.parts_strip : (t : TypeDef) → (t.strip f).parts = Part.stripAll f t.parts
  | ⟨_, _, _, fields, statics, routines, staticRoutines, _⟩ => by
    rw [TypeDef.strip, TypeDef.parts, TypeDef.parts, VarDecl.parts_strip, StaticField.parts_strip,
      RoutineDef.parts_stripAll routines, RoutineDef.parts_stripAll staticRoutines,
      Part.stripAll_cons, Part.stripAll_append, Part.stripAll_append, Part.stripAll_append]
    rfl

theorem Stmt.parts_stripAll : (xs : List Stmt) →
    Stmt.allParts (Stmt.stripAll f xs) = Part.stripAll f (Stmt.allParts xs)
  | [] => rfl
  | x :: xs => by
    rw [Stmt.stripAll, Stmt.allParts, Stmt.allParts, x.parts_strip, Stmt.parts_stripAll xs,
      Part.stripAll_append]

theorem Guarded.parts_stripAll : (gs : List Guarded) →
    Guarded.allParts (Guarded.stripAll f gs) = Part.stripAll f (Guarded.allParts gs)
  | [] => rfl
  | g :: gs => by
    rw [Guarded.stripAll, Guarded.allParts, Guarded.allParts, g.parts_strip,
      Guarded.parts_stripAll gs, Part.stripAll_append]

theorem RoutineDef.parts_stripAll : (rs : List RoutineDef) →
    RoutineDef.allParts (RoutineDef.stripAll f rs) =
      Part.stripAll f (RoutineDef.allParts rs)
  | [] => rfl
  | r :: rs => by
    rw [RoutineDef.stripAll, RoutineDef.allParts, RoutineDef.allParts, r.parts_strip,
      RoutineDef.parts_stripAll rs, Part.stripAll_append]

end

/-- What is left are the parts that are no parentheses. -/
theorem Program.parts_strip (p : Program) : (p.strip f).parts = Part.stripAll f p.parts :=
  Stmt.parts_stripAll p.stmts

/-- No parenthesis is left. -/
theorem Program.isParen_of_mem_strip {p : Program} {x : Part} (h : x ∈ (p.strip f).parts) :
    x.isParen = false := by
  rw [p.parts_strip] at h
  obtain ⟨y, hy, rfl⟩ := List.mem_map.mp h
  exact Part.isParen_strip (by simpa using (List.mem_filter.mp hy).2)

/-- Distinct nodes stay distinct. -/
theorem Program.nodup_nodes_strip (hf : Function.Injective f) {p : Program}
    (h : p.nodes.Nodup) : (p.strip f).nodes.Nodup := by
  have hplain : ((p.parts.filter fun x => !x.isParen).map Part.node).Nodup :=
    h.sublist (List.filter_sublist.map _)
  have hnodes : (p.strip f).nodes =
      ((p.parts.filter fun x => !x.isParen).map Part.node).map f := by
    rw [Program.nodes, p.parts_strip, Part.stripAll, List.map_map, List.map_map]
    refine List.map_congr_left fun x hx => Part.node_strip ?_
    simpa using (List.mem_filter.mp hx).2
  rw [hnodes]
  exact hplain.map hf

end Parts

end Unnest
