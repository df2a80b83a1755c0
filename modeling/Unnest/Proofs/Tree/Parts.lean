import Mathlib.Algebra.Order.Group.Multiset
import Mathlib.Data.List.Nodup
import Mathlib.Data.Multiset.UnionInter
import Mathlib.Tactic.Abel
import Unnest.Tree.Basic

/-!
# The parts of a tree

Statements about a whole tree speak about all of its parts, however deep: every
expression, every link, every block, every definition.  `Program.parts` lists them,
each with its own node.

## Keys

Findings are kept in nine tables.  A part is written about in one table, or in two:
an operator has a type and a routine, and a chain that is an expression has a type
and a summary.  Nothing is written about a chain without links.  A `Key` is a table
together with a node, and `Program.keys` lists the keys that an analysis of the tree
may write under.  Distinct nodes make distinct keys.
-/

namespace Unnest

/-- A part of a tree that findings are written about. -/
inductive Part where
  | expr (e : Expr)
  /-- A chain that is no expression: a statement, or the target of an assignment. -/
  | chain (c : Chain)
  | link (l : Link)
  /-- A branch of an `if`, an `else` or a loop. -/
  | block (node : NodeId)
  | declare (d : VarDecl)
  | define (d : InitDecl)
  | staticField (f : StaticField)
  | assign (x : Assignment)
  | routine (r : RoutineDef)
  | type (t : TypeDef)

/-- The node of a part. -/
def Part.node : Part → NodeId
  | .expr e => e.node
  | .chain c => c.node
  | .link l => l.node
  | .block node => node
  | .declare d => d.node
  | .define d => d.node
  | .staticField f => f.decl.node
  | .assign x => x.node
  | .routine r => r.node
  | .type t => t.node

/-! ## Listing -/

mutual

/-- The parts of an expression. -/
def Expr.parts : Expr → List Part
  | .literal node value span => [.expr (.literal node value span)]
  | .binary node op left right span =>
    .expr (.binary node op left right span) :: (left.parts ++ right.parts)
  | .unary node op operand span => .expr (.unary node op operand span) :: operand.parts
  | .paren node inner span => .expr (.paren node inner span) :: inner.parts
  | .chain c => .expr (.chain c) :: c.linkParts

/-- The parts of the links of a chain. -/
def Chain.linkParts : Chain → List Part
  | ⟨_, links, _⟩ => Link.allParts links

/-- The parts of a link. -/
def Link.parts : Link → List Part
  | .bare node name span => [.link (.bare node name span)]
  | .call node name args span => .link (.call node name args span) :: Expr.allParts args

/-- The parts of links in order. -/
def Link.allParts : List Link → List Part
  | [] => []
  | l :: ls => l.parts ++ Link.allParts ls

/-- The parts of expressions in order. -/
def Expr.allParts : List Expr → List Part
  | [] => []
  | e :: es => e.parts ++ Expr.allParts es

end

/-- The parts of a chain that is no expression. -/
def Chain.parts (c : Chain) : List Part := .chain c :: c.linkParts

/-- The parts of a static member. -/
def StaticField.parts (f : StaticField) : List Part := .staticField f :: f.init.parts

/-- The parts of a return clause, where there is one. -/
def ReturnClause.optParts : Option ReturnClause → List Part
  | none => []
  | some ret => ret.value.parts

mutual

/-- The parts of a statement. -/
def Stmt.parts : Stmt → List Part
  | .declare d => [.declare d]
  | .define d => .define d :: d.value.parts
  | .assign x => .assign x :: (x.target.parts ++ x.value.parts)
  | .call c => c.parts
  | .branch branches otherwise _ => Guarded.allParts branches ++ otherwise.parts
  | .loop g => g.parts
  | .routine r => r.parts
  | .type t => t.parts

/-- The parts of a body under a condition. -/
def Guarded.parts : Guarded → List Part
  | ⟨node, condition, body, _⟩ => .block node :: (condition.parts ++ Stmt.allParts body)

/-- The parts of an `else`. -/
def Else.parts : Else → List Part
  | .absent => []
  | .block node body _ => .block node :: Stmt.allParts body

/-- The parts of a routine. -/
def RoutineDef.parts : RoutineDef → List Part
  | ⟨node, name, closing, params, result, body, ret, span⟩ =>
    .routine ⟨node, name, closing, params, result, body, ret, span⟩ ::
      (Stmt.allParts body ++ ReturnClause.optParts ret)

/-- The parts of a type. -/
def TypeDef.parts : TypeDef → List Part
  | ⟨node, name, closing, fields, staticFields, routines, staticRoutines, span⟩ =>
    .type ⟨node, name, closing, fields, staticFields, routines, staticRoutines, span⟩ ::
      (fields.map .declare ++ staticFields.flatMap StaticField.parts ++
        RoutineDef.allParts routines ++ RoutineDef.allParts staticRoutines)

/-- The parts of statements in order. -/
def Stmt.allParts : List Stmt → List Part
  | [] => []
  | s :: ss => s.parts ++ Stmt.allParts ss

/-- The parts of branches in order. -/
def Guarded.allParts : List Guarded → List Part
  | [] => []
  | g :: gs => g.parts ++ Guarded.allParts gs

/-- The parts of routines in order. -/
def RoutineDef.allParts : List RoutineDef → List Part
  | [] => []
  | r :: rs => r.parts ++ RoutineDef.allParts rs

end

/-- The parts of the body of a routine. -/
def RoutineDef.bodyParts (r : RoutineDef) : List Part :=
  Stmt.allParts r.body ++ ReturnClause.optParts r.ret

theorem RoutineDef.parts_eq (r : RoutineDef) : r.parts = .routine r :: r.bodyParts := by
  obtain ⟨⟩ := r
  rfl

theorem TypeDef.parts_eq (t : TypeDef) : t.parts = .type t ::
    (t.fields.map .declare ++ t.staticFields.flatMap StaticField.parts ++
      RoutineDef.allParts t.routines ++ RoutineDef.allParts t.staticRoutines) := by
  obtain ⟨⟩ := t
  rfl

/-- The parts of a program. -/
def Program.parts (p : Program) : List Part := Stmt.allParts p.stmts

/-- The nodes of a program, one for each part. -/
def Program.nodes (p : Program) : List NodeId := p.parts.map Part.node

/-! ## Parts of expressions -/

/-- Whether a part is an expression or a link. -/
def Part.isValue : Part → Bool
  | .expr _ | .link _ => true
  | _ => false

mutual

/-- Expressions and links are all there is in an expression. -/
theorem Expr.isValue_of_mem_parts {x : Part} : (e : Expr) → x ∈ e.parts → x.isValue = true
  | .literal _ _ _, h => by
    rw [Expr.parts, List.mem_singleton] at h
    rw [h]
    rfl
  | .binary _ _ left right _, h => by
    rw [Expr.parts, List.mem_cons, List.mem_append] at h
    rcases h with rfl | h | h
    · rfl
    · exact Expr.isValue_of_mem_parts left h
    · exact Expr.isValue_of_mem_parts right h
  | .unary _ _ operand _, h => by
    rw [Expr.parts, List.mem_cons] at h
    rcases h with rfl | h
    · rfl
    · exact Expr.isValue_of_mem_parts operand h
  | .paren _ inner _, h => by
    rw [Expr.parts, List.mem_cons] at h
    rcases h with rfl | h
    · rfl
    · exact Expr.isValue_of_mem_parts inner h
  | .chain c, h => by
    rw [Expr.parts, List.mem_cons] at h
    rcases h with rfl | h
    · rfl
    · exact Chain.isValue_of_mem_linkParts c h

theorem Chain.isValue_of_mem_linkParts {x : Part} : (c : Chain) → x ∈ c.linkParts →
    x.isValue = true
  | ⟨_, ls, _⟩, h => Link.isValue_of_mem_allParts ls h

theorem Link.isValue_of_mem_parts {x : Part} : (l : Link) → x ∈ l.parts → x.isValue = true
  | .bare _ _ _, h => by
    rw [Link.parts, List.mem_singleton] at h
    rw [h]
    rfl
  | .call _ _ args _, h => by
    rw [Link.parts, List.mem_cons] at h
    rcases h with rfl | h
    · rfl
    · exact Expr.isValue_of_mem_allParts args h

theorem Link.isValue_of_mem_allParts {x : Part} : (ls : List Link) → x ∈ Link.allParts ls →
    x.isValue = true
  | [], h => absurd h List.not_mem_nil
  | l :: ls, h => by
    rw [Link.allParts, List.mem_append] at h
    rcases h with h | h
    · exact Link.isValue_of_mem_parts l h
    · exact Link.isValue_of_mem_allParts ls h

theorem Expr.isValue_of_mem_allParts {x : Part} : (es : List Expr) → x ∈ Expr.allParts es →
    x.isValue = true
  | [], h => absurd h List.not_mem_nil
  | e :: es, h => by
    rw [Expr.allParts, List.mem_append] at h
    rcases h with h | h
    · exact Expr.isValue_of_mem_parts e h
    · exact Expr.isValue_of_mem_allParts es h

end

theorem ReturnClause.isValue_of_mem_optParts {x : Part} {ret : Option ReturnClause}
    (h : x ∈ ReturnClause.optParts ret) : x.isValue = true := by
  cases ret with
  | none => exact absurd h List.not_mem_nil
  | some ret => exact ret.value.isValue_of_mem_parts h

/-! ## Keys -/

/-- The tables of findings. -/
inductive Table where
  | exprTypes | operators | links | chains | blocks | decls | assigns | routines | types
  deriving DecidableEq, Repr

/-- A place to write at: a table, and a node in it. -/
abbrev Key := Table × NodeId

/-- The tables that a part is written about in. -/
def Part.tables : Part → List Table
  | .expr (.literal ..) | .expr (.paren ..) => [.exprTypes]
  | .expr (.binary ..) | .expr (.unary ..) => [.exprTypes, .operators]
  | .expr (.chain _) => [.exprTypes, .chains]
  | .chain c => if c.links = [] then [] else [.chains]
  | .link _ => [.links]
  | .block _ => [.blocks]
  | .declare _ | .define _ | .staticField _ => [.decls]
  | .assign x => if x.target.links = [] then [] else [.assigns]
  | .routine _ => [.routines]
  | .type _ => [.types]

/-- The keys of a part. -/
def Part.keys (x : Part) : List Key := x.tables.map (·, x.node)

/-- The keys of parts, as often as they occur. -/
def Part.allKeys (xs : List Part) : Multiset Key := xs.flatMap Part.keys

/-- The keys of a program. -/
def Program.keys (p : Program) : Multiset Key := Part.allKeys p.parts

namespace Part

@[simp] theorem allKeys_nil : allKeys [] = 0 := rfl

@[simp] theorem allKeys_cons (x : Part) (xs : List Part) :
    allKeys (x :: xs) = ↑x.keys + allKeys xs := by
  rw [allKeys, List.flatMap_cons, allKeys, Multiset.coe_add]

@[simp] theorem allKeys_append (xs ys : List Part) :
    allKeys (xs ++ ys) = allKeys xs + allKeys ys := by
  rw [allKeys, List.flatMap_append, allKeys, allKeys, Multiset.coe_add]

/-- Routines are declared first, and their bodies follow. -/
theorem allKeys_routines (rs : List RoutineDef) : allKeys (RoutineDef.allParts rs) =
    allKeys (rs.map .routine) + allKeys (rs.flatMap RoutineDef.bodyParts) := by
  induction rs with
  | nil => rfl
  | cons r rs ih =>
    rw [RoutineDef.allParts, allKeys_append, ih, RoutineDef.parts_eq, List.map_cons,
      List.flatMap_cons, allKeys_cons, allKeys_cons, allKeys_append]
    abel

theorem nodup_tables (x : Part) : x.tables.Nodup := by
  unfold tables
  split <;> first | decide | (split <;> decide)

theorem mem_keys {x : Part} {k : Key} : k ∈ x.keys ↔ k.1 ∈ x.tables ∧ x.node = k.2 := by
  obtain ⟨t, n⟩ := k
  simp [keys, Prod.ext_iff]

/-- Only routines are written about in the table of routines. -/
theorem eq_routine {x : Part} (h : .routines ∈ x.tables) : ∃ r, x = .routine r := by
  cases x with
  | routine r => exact ⟨r, rfl⟩
  | expr e => cases e <;> simp [tables] at h
  | chain c =>
    rw [tables] at h
    split at h <;> simp at h
  | assign c =>
    rw [tables] at h
    split at h <;> simp at h
  | _ => simp [tables] at h

/-- Only types are written about in the table of types. -/
theorem eq_type {x : Part} (h : .types ∈ x.tables) : ∃ t, x = .type t := by
  cases x with
  | type t => exact ⟨t, rfl⟩
  | expr e => cases e <;> simp [tables] at h
  | chain c =>
    rw [tables] at h
    split at h <;> simp at h
  | assign c =>
    rw [tables] at h
    split at h <;> simp at h
  | _ => simp [tables] at h

theorem keys_chain {c : Chain} (h : c.links ≠ []) : (chain c).keys = [(.chains, c.node)] := by
  rw [keys, tables, if_neg h]
  rfl

/-- Parts with distinct nodes have distinct keys. -/
theorem nodup_allKeys {xs : List Part} (h : (xs.map Part.node).Nodup) : (allKeys xs).Nodup := by
  induction xs with
  | nil => exact Multiset.nodup_zero
  | cons x xs ih =>
    rw [List.map_cons, List.nodup_cons] at h
    have hxs := ih h.2
    rw [allKeys, Multiset.coe_nodup] at hxs ⊢
    rw [List.flatMap_cons]
    refine List.nodup_append'.mpr ⟨?_, hxs, ?_⟩
    · exact x.nodup_tables.map fun t u htu => (Prod.mk.inj htu).1
    · intro k hk hk'
      obtain ⟨y, hy, hky⟩ := List.mem_flatMap.mp hk'
      rw [mem_keys] at hk hky
      exact h.1 (List.mem_map.mpr ⟨y, hy, hky.2.trans hk.2.symm⟩)

end Part

/-- Distinct nodes make distinct keys. -/
theorem Program.nodup_keys {p : Program} (h : p.nodes.Nodup) : p.keys.Nodup :=
  Part.nodup_allKeys h

end Unnest
