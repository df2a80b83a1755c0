import Unnest.Analysis.Stmt
import Unnest.Proofs.Tree.Parts

/-!
# Definitions that were recorded

A routine or a type that was declared is on record.  `Stmt.defined` lists the recorded
definitions of a tree from the inside out: each stands behind those inside of it, and one
that was not recorded is left out with everything in it.

A node stands in the list as often as it does among the parts of the tree, or not at all
(`Defined.nodes_stmts`).  In a tree with distinct nodes no definition comes after one that
it is inside of (`Defined.inner_first`).
-/

namespace Unnest

/-- A definition with what was recorded about it. -/
inductive Defined (g : Findings) where
  | routine (node : NodeId) (f : RoutineFinding) (record : g.routines.find? node = some f)
  | type (node : NodeId) (f : TypeFinding) (record : g.types.find? node = some f)

namespace Defined

variable {g : Findings}

/-- The node of a definition. -/
def node : Defined g → NodeId
  | .routine node _ _ => node
  | .type node _ _ => node

/-- The scope that a definition opens. -/
def scope : Defined g → ScopeId
  | .routine _ f _ => f.scope
  | .type _ f _ => f.scope

/-- The unit that was planned for a definition. -/
def unit : Defined g → UnitId
  | .routine _ f _ => f.unit
  | .type _ f _ => f.unit

/-- The key that a definition is recorded under. -/
def key : Defined g → Key
  | .routine node _ _ => (.routines, node)
  | .type node _ _ => (.types, node)

/-- There is one record under a key. -/
theorem eq_of_key {d e : Defined g} (h : d.key = e.key) : d = e := by
  cases d with
  | routine n f hf =>
    cases e with
    | routine m f' hf' =>
      obtain rfl : n = m := (Prod.mk.inj h).2
      obtain rfl := Option.some.inj (hf.symm.trans hf')
      rfl
    | type m f' hf' => exact absurd (Prod.mk.inj h).1 (by decide)
  | type n f hf =>
    cases e with
    | routine m f' hf' => exact absurd (Prod.mk.inj h).1 (by decide)
    | type m f' hf' =>
      obtain rfl : n = m := (Prod.mk.inj h).2
      obtain rfl := Option.some.inj (hf.symm.trans hf')
      rfl

/-- The path of the class of a definition. -/
def path (z : Analysis) : Defined g → String
  | .routine _ f _ => z.units.path f.unit
  | .type _ f _ => z.types.path f.type

end Defined

/-! ## Listing -/

mutual

/-- The definitions in a statement, each behind those inside of it. -/
def Stmt.defined (g : Findings) : Stmt → List (Defined g)
  | .declare _ | .define _ | .assign _ | .call _ => []
  | .branch branches otherwise _ => Guarded.allDefined g branches ++ otherwise.defined g
  | .loop x => x.defined g
  | .routine r => r.defined g
  | .type t => t.defined g

/-- The definitions in a body under a condition. -/
def Guarded.defined (g : Findings) : Guarded → List (Defined g)
  | ⟨_, _, body, _⟩ => Stmt.allDefined g body

/-- The definitions in an `else`. -/
def Else.defined (g : Findings) : Else → List (Defined g)
  | .absent => []
  | .block _ body _ => Stmt.allDefined g body

/-- A routine behind the definitions in its body.  One that was not recorded is left out
with everything in it. -/
def RoutineDef.defined (g : Findings) : RoutineDef → List (Defined g)
  | ⟨node, _, _, _, _, body, _, _⟩ =>
    match h : g.routines.find? node with
    | some f => Stmt.allDefined g body ++ [.routine node f h]
    | none => []

/-- A type behind its member routines. -/
def TypeDef.defined (g : Findings) : TypeDef → List (Defined g)
  | ⟨node, _, _, _, _, routines, staticRoutines, _⟩ =>
    match h : g.types.find? node with
    | some f => RoutineDef.allDefined g routines ++ RoutineDef.allDefined g staticRoutines ++
        [.type node f h]
    | none => []

/-- The definitions in statements in order. -/
def Stmt.allDefined (g : Findings) : List Stmt → List (Defined g)
  | [] => []
  | s :: ss => s.defined g ++ Stmt.allDefined g ss

/-- The definitions in branches in order. -/
def Guarded.allDefined (g : Findings) : List Guarded → List (Defined g)
  | [] => []
  | x :: xs => x.defined g ++ Guarded.allDefined g xs

/-- The definitions in routines in order. -/
def RoutineDef.allDefined (g : Findings) : List RoutineDef → List (Defined g)
  | [] => []
  | r :: rs => r.defined g ++ RoutineDef.allDefined g rs

end

/-- The definitions in a program. -/
def Program.defined (g : Findings) (p : Program) : List (Defined g) := Stmt.allDefined g p.stmts

section

variable {g : Findings}

theorem RoutineDef.defined_some {r : RoutineDef} {f : RoutineFinding}
    (h : g.routines.find? r.node = some f) :
    r.defined g = Stmt.allDefined g r.body ++ [.routine r.node f h] := by
  obtain ⟨⟩ := r
  rw [defined]
  split
  · rename_i f' h'
    obtain rfl := Option.some.inj (h.symm.trans h')
    rfl
  · rename_i h'
    exact absurd (h.symm.trans h') (by simp)

theorem RoutineDef.defined_none {r : RoutineDef} (h : g.routines.find? r.node = none) :
    r.defined g = [] := by
  obtain ⟨⟩ := r
  rw [defined]
  split
  · rename_i h'
    exact absurd (h.symm.trans h') (by simp)
  · rfl

theorem TypeDef.defined_some {t : TypeDef} {f : TypeFinding}
    (h : g.types.find? t.node = some f) :
    t.defined g = RoutineDef.allDefined g t.routines ++ RoutineDef.allDefined g t.staticRoutines ++
      [.type t.node f h] := by
  obtain ⟨⟩ := t
  rw [defined]
  split
  · rename_i f' h'
    obtain rfl := Option.some.inj (h.symm.trans h')
    rfl
  · rename_i h'
    exact absurd (h.symm.trans h') (by simp)

theorem TypeDef.defined_none {t : TypeDef} (h : g.types.find? t.node = none) :
    t.defined g = [] := by
  obtain ⟨⟩ := t
  rw [defined]
  split
  · rename_i h'
    exact absurd (h.symm.trans h') (by simp)
  · rfl

end

/-! ## Nodes -/

namespace Defined

/-- The nodes of definitions, as often as they occur. -/
def nodes {g : Findings} (ds : List (Defined g)) : Multiset NodeId := ds.map node

variable (g : Findings)

theorem nodes_append (ds ds' : List (Defined g)) : nodes (ds ++ ds') = nodes ds + nodes ds' := by
  rw [nodes, List.map_append, ← Multiset.coe_add, nodes, nodes]

/-- The nodes of parts, as often as they occur. -/
def partNodes (xs : List Part) : Multiset NodeId := xs.map Part.node

theorem partNodes_append (xs ys : List Part) :
    partNodes (xs ++ ys) = partNodes xs + partNodes ys := by
  rw [partNodes, List.map_append, ← Multiset.coe_add, partNodes, partNodes]

theorem partNodes_cons (x : Part) (xs : List Part) :
    partNodes (x :: xs) = {x.node} + partNodes xs := by
  rw [partNodes, List.map_cons, ← Multiset.cons_coe, ← Multiset.singleton_add, partNodes]

mutual

theorem nodes_stmt : (x : Stmt) → nodes (x.defined g) ≤ partNodes x.parts
  | .declare _ | .define _ | .assign _ | .call _ => by
    rw [Stmt.defined]
    exact Multiset.zero_le _
  | .branch gs otherwise _ => by
    rw [Stmt.defined, Stmt.parts, nodes_append, partNodes_append]
    exact add_le_add (nodes_branches gs) (nodes_else otherwise)
  | .loop x => by
    rw [Stmt.defined, Stmt.parts]
    exact nodes_guarded x
  | .routine r => by
    rw [Stmt.defined, Stmt.parts]
    exact nodes_routine r
  | .type t => by
    rw [Stmt.defined, Stmt.parts]
    exact nodes_type t

theorem nodes_guarded : (x : Guarded) → nodes (x.defined g) ≤ partNodes x.parts
  | ⟨node, condition, body, _⟩ => by
    rw [Guarded.defined, Guarded.parts, partNodes_cons, partNodes_append]
    exact (nodes_stmts body).trans ((Multiset.le_add_left _ _).trans (Multiset.le_add_left _ _))

theorem nodes_else : (x : Else) → nodes (x.defined g) ≤ partNodes x.parts
  | .absent => by
    rw [Else.defined]
    exact Multiset.zero_le _
  | .block node body _ => by
    rw [Else.defined, Else.parts, partNodes_cons]
    exact (nodes_stmts body).trans (Multiset.le_add_left _ _)

theorem nodes_routine : (r : RoutineDef) → nodes (r.defined g) ≤ partNodes r.parts
  | ⟨node, name, closing, params, result, body, ret, span⟩ => by
    have hbody := nodes_stmts body
    set r : RoutineDef := ⟨node, name, closing, params, result, body, ret, span⟩
    cases h : g.routines.find? r.node with
    | none =>
      rw [RoutineDef.defined_none h]
      exact Multiset.zero_le _
    | some f =>
      rw [RoutineDef.defined_some h, RoutineDef.parts_eq, RoutineDef.bodyParts, partNodes_cons,
        partNodes_append, nodes_append, add_comm]
      exact add_le_add_right (hbody.trans (Multiset.le_add_right _ _)) _

theorem nodes_type : (t : TypeDef) → nodes (t.defined g) ≤ partNodes t.parts
  | ⟨node, name, closing, fields, statics, routines, staticRoutines, span⟩ => by
    have hr := nodes_routines routines
    have hs := nodes_routines staticRoutines
    set t : TypeDef := ⟨node, name, closing, fields, statics, routines, staticRoutines, span⟩
    cases h : g.types.find? t.node with
    | none =>
      rw [TypeDef.defined_none h]
      exact Multiset.zero_le _
    | some f =>
      rw [TypeDef.defined_some h, TypeDef.parts_eq, partNodes_cons, partNodes_append,
        partNodes_append, nodes_append, nodes_append, add_comm]
      refine add_le_add_right ?_ _
      exact add_le_add (hr.trans (Multiset.le_add_left _ _)) hs

theorem nodes_stmts : (xs : List Stmt) → nodes (Stmt.allDefined g xs) ≤ partNodes (Stmt.allParts xs)
  | [] => by
    rw [Stmt.allDefined]
    exact Multiset.zero_le _
  | x :: xs => by
    rw [Stmt.allDefined, Stmt.allParts, nodes_append, partNodes_append]
    exact add_le_add (nodes_stmt x) (nodes_stmts xs)

theorem nodes_branches : (xs : List Guarded) →
    nodes (Guarded.allDefined g xs) ≤ partNodes (Guarded.allParts xs)
  | [] => by
    rw [Guarded.allDefined]
    exact Multiset.zero_le _
  | x :: xs => by
    rw [Guarded.allDefined, Guarded.allParts, nodes_append, partNodes_append]
    exact add_le_add (nodes_guarded x) (nodes_branches xs)

theorem nodes_routines : (rs : List RoutineDef) →
    nodes (RoutineDef.allDefined g rs) ≤ partNodes (RoutineDef.allParts rs)
  | [] => by
    rw [RoutineDef.allDefined]
    exact Multiset.zero_le _
  | r :: rs => by
    rw [RoutineDef.allDefined, RoutineDef.allParts, nodes_append, partNodes_append]
    exact add_le_add (nodes_routine r) (nodes_routines rs)

end

/-- Every definition of a tree is listed once. -/
theorem nodup_nodes {q : Program} (hq : q.nodes.Nodup) : ((q.defined g).map node).Nodup :=
  Multiset.coe_nodup.mp (Multiset.nodup_of_le (nodes_stmts g q.stmts) (Multiset.coe_nodup.mpr hq))

end Defined

/-! ## Inner definitions first -/

/-- The parts of the members of a type. -/
def TypeDef.memberParts (t : TypeDef) : List Part :=
  t.fields.map .declare ++ t.staticFields.flatMap StaticField.parts ++
    RoutineDef.allParts t.routines ++ RoutineDef.allParts t.staticRoutines

/-- The parts inside of a definition, however deep. -/
def Part.inside : Part → List Part
  | .routine r => r.bodyParts
  | .type t => t.memberParts
  | .expr _ | .chain _ | .link _ | .block _ | .declare _ | .define _ | .staticField _
  | .assign _ => []

/-- Nothing is inside of a value. -/
theorem Part.inside_of_isValue {x : Part} (h : x.isValue = true) : x.inside = [] := by
  cases x <;> first | rfl | exact absurd h Bool.false_ne_true

/-- One node of a program stands inside of the definition at another. -/
def Program.Nests (q : Program) (inner outer : NodeId) : Prop :=
  ∃ x ∈ q.parts, x.node = outer ∧ ∃ y ∈ x.inside, y.node = inner

namespace Defined

variable {g : Findings} {xs ys : List Part} {ds es : List (Defined g)}

/-- Definitions among parts, none of them behind one that it is inside of. -/
structure InnerFirst (xs : List Part) (ds : List (Defined g)) : Prop where
  among : ∀ d ∈ ds, d.node ∈ xs.map Part.node
  closed : ∀ x ∈ xs, ∀ y ∈ x.inside, y ∈ xs ∧ y.node ≠ x.node
  order : ds.Pairwise fun d e => ∀ x ∈ xs, x.node = d.node → ∀ y ∈ x.inside, y.node ≠ e.node

namespace InnerFirst

/-- Parts that nothing is inside of. -/
theorem leaves (h : ∀ x ∈ xs, x.inside = []) : InnerFirst xs ([] : List (Defined g)) :=
  ⟨fun _ hd => absurd hd List.not_mem_nil,
    fun x hx _ hy => absurd (h x hx ▸ hy) List.not_mem_nil, .nil⟩

theorem append (hx : InnerFirst xs ds) (hy : InnerFirst ys es)
    (hnodup : ((xs ++ ys).map Part.node).Nodup) : InnerFirst (xs ++ ys) (ds ++ es) := by
  rw [List.map_append, List.nodup_append'] at hnodup
  obtain ⟨-, -, hdisjoint⟩ := hnodup
  have hxs : ∀ x ∈ xs ++ ys, x.node ∈ xs.map Part.node → x ∈ xs := fun _ h hn =>
    (List.mem_append.mp h).resolve_right fun hy => hdisjoint hn (List.mem_map_of_mem hy)
  have hys : ∀ y ∈ xs ++ ys, y.node ∈ ys.map Part.node → y ∈ ys := fun _ h hn =>
    (List.mem_append.mp h).resolve_left fun hx => hdisjoint (List.mem_map_of_mem hx) hn
  refine ⟨fun d hd => ?_, fun x h y hxy => ?_, List.pairwise_append.mpr ⟨?_, ?_, ?_⟩⟩
  · rw [List.map_append, List.mem_append]
    exact (List.mem_append.mp hd).imp (hx.among d) (hy.among d)
  · rcases List.mem_append.mp h with h | h
    · exact ⟨List.mem_append_left _ (hx.closed x h y hxy).1, (hx.closed x h y hxy).2⟩
    · exact ⟨List.mem_append_right _ (hy.closed x h y hxy).1, (hy.closed x h y hxy).2⟩
  · refine hx.order.imp_of_mem fun {d e} hd _ hde x h hn => ?_
    exact hde x (hxs x h (hn ▸ hx.among d hd)) hn
  · refine hy.order.imp_of_mem fun {d e} hd _ hde x h hn => ?_
    exact hde x (hys x h (hn ▸ hy.among d hd)) hn
  · intro d hd e he x h hn y hxy heq
    have hmem := hx.closed x (hxs x h (hn ▸ hx.among d hd)) y hxy
    exact hdisjoint (List.mem_map_of_mem hmem.1) (heq ▸ hy.among e he)

/-- A part that nothing is inside of, in front. -/
theorem cons {x : Part} (hx : x.inside = []) (h : InnerFirst xs ds) : InnerFirst (x :: xs) ds := by
  refine ⟨fun d hd => List.mem_cons_of_mem _ (h.among d hd), fun y hy w hw => ?_,
    h.order.imp fun {d e} hde y hy hn w hw => ?_⟩
  · rcases List.mem_cons.mp hy with rfl | hy
    · exact absurd (hx ▸ hw) List.not_mem_nil
    · exact ⟨List.mem_cons_of_mem _ (h.closed y hy w hw).1, (h.closed y hy w hw).2⟩
  · rcases List.mem_cons.mp hy with rfl | hy
    · exact absurd (hx ▸ hw) List.not_mem_nil
    · exact hde y hy hn w hw

/-- A definition around all parts. -/
theorem around {x : Part} (h : InnerFirst x.inside ds)
    (hnodup : ((x :: x.inside).map Part.node).Nodup) :
    InnerFirst (x :: x.inside) ([] : List (Defined g)) ∧
      ∀ d : Defined g, d.node = x.node → InnerFirst (x :: x.inside) (ds ++ [d]) := by
  rw [List.map_cons, List.nodup_cons] at hnodup
  have hclosed : ∀ y ∈ x :: x.inside, ∀ w ∈ y.inside, w ∈ x :: x.inside ∧ w.node ≠ y.node := by
    intro y hy w hw
    rcases List.mem_cons.mp hy with rfl | hy
    · exact ⟨List.mem_cons_of_mem _ hw, fun heq => hnodup.1 (heq ▸ List.mem_map_of_mem hw)⟩
    · exact ⟨List.mem_cons_of_mem _ (h.closed y hy w hw).1, (h.closed y hy w hw).2⟩
  have hinside : ∀ y ∈ x :: x.inside, ∀ d ∈ ds, y.node = d.node → y ∈ x.inside := by
    intro y hy d hd hn
    refine (List.mem_cons.mp hy).resolve_left ?_
    rintro rfl
    exact hnodup.1 (hn ▸ h.among d hd)
  refine ⟨⟨fun _ hd => absurd hd List.not_mem_nil, hclosed, .nil⟩, fun d hd => ⟨?_, hclosed, ?_⟩⟩
  · intro e he
    rw [List.map_cons]
    rcases List.mem_append.mp he with he | he
    · exact List.mem_cons_of_mem _ (h.among e he)
    · rw [List.mem_singleton.mp he, hd]
      exact List.mem_cons_self
  · refine List.pairwise_append.mpr ⟨?_, List.pairwise_singleton _ d, ?_⟩
    · exact h.order.imp_of_mem fun {e f} he _ hef y hy hn => hef y (hinside y hy e he hn) hn
    · intro e he f hf y hy hn w hw heq
      obtain rfl := List.mem_singleton.mp hf
      have hmem := (h.closed y (hinside y hy e he hn) w hw).1
      exact hnodup.1 (hd ▸ heq ▸ List.mem_map_of_mem hmem)

end InnerFirst

/-- The nodes of the first of two lists of parts. -/
theorem nodup_left (h : ((xs ++ ys).map Part.node).Nodup) : (xs.map Part.node).Nodup := by
  rw [List.map_append] at h
  exact h.of_append_left

theorem nodup_right (h : ((xs ++ ys).map Part.node).Nodup) : (ys.map Part.node).Nodup := by
  rw [List.map_append] at h
  exact h.of_append_right

theorem nodup_tail {x : Part} (h : ((x :: xs).map Part.node).Nodup) : (xs.map Part.node).Nodup := by
  rw [List.map_cons] at h
  exact h.of_cons

theorem inside_expr (e : Expr) : ∀ x ∈ e.parts, x.inside = [] := fun _ hx =>
  Part.inside_of_isValue (e.isValue_of_mem_parts hx)

theorem inside_links (c : Chain) : ∀ x ∈ c.linkParts, x.inside = [] := fun _ hx =>
  Part.inside_of_isValue (c.isValue_of_mem_linkParts hx)

theorem inside_fields (fields : List VarDecl) (statics : List StaticField) :
    ∀ x ∈ fields.map Part.declare ++ statics.flatMap StaticField.parts, x.inside = [] := by
  intro x hx
  rcases List.mem_append.mp hx with hx | hx
  · obtain ⟨d, -, rfl⟩ := List.mem_map.mp hx
    rfl
  · obtain ⟨f, -, hx⟩ := List.mem_flatMap.mp hx
    rcases List.mem_cons.mp hx with rfl | hx
    · rfl
    · exact inside_expr f.init x hx

variable (g)

mutual

theorem innerFirst_stmt : (x : Stmt) → (x.parts.map Part.node).Nodup →
    InnerFirst x.parts (x.defined g)
  | .declare d, _ => by
    rw [Stmt.defined, Stmt.parts]
    exact .cons rfl (.leaves (List.forall_mem_nil _))
  | .define d, _ => by
    rw [Stmt.defined, Stmt.parts]
    exact .cons rfl (.leaves (inside_expr d.value))
  | .assign x, _ => by
    rw [Stmt.defined, Stmt.parts]
    refine .cons rfl (.leaves (List.forall_mem_append.mpr ⟨?_, inside_expr x.value⟩))
    exact List.forall_mem_cons.mpr ⟨rfl, inside_links x.target⟩
  | .call c, _ => by
    rw [Stmt.defined, Stmt.parts]
    exact .cons rfl (.leaves (inside_links c))
  | .branch gs otherwise _, hn => by
    rw [Stmt.parts] at hn
    rw [Stmt.defined, Stmt.parts]
    exact (innerFirst_branches gs (nodup_left hn)).append
      (innerFirst_else otherwise (nodup_right hn)) hn
  | .loop x, hn => by
    rw [Stmt.defined, Stmt.parts]
    exact innerFirst_guarded x hn
  | .routine r, hn => by
    rw [Stmt.defined, Stmt.parts]
    exact innerFirst_routine r hn
  | .type t, hn => by
    rw [Stmt.defined, Stmt.parts]
    exact innerFirst_type t hn

theorem innerFirst_guarded : (x : Guarded) → (x.parts.map Part.node).Nodup →
    InnerFirst x.parts (x.defined g)
  | ⟨node, condition, body, _⟩, hn => by
    rw [Guarded.parts] at hn
    rw [Guarded.defined, Guarded.parts]
    exact .cons rfl ((InnerFirst.leaves (inside_expr condition)).append
      (innerFirst_stmts body (nodup_right (nodup_tail hn))) (nodup_tail hn))

theorem innerFirst_else : (x : Else) → (x.parts.map Part.node).Nodup →
    InnerFirst x.parts (x.defined g)
  | .absent, _ => by
    rw [Else.defined, Else.parts]
    exact .leaves (List.forall_mem_nil _)
  | .block node body _, hn => by
    rw [Else.parts] at hn
    rw [Else.defined, Else.parts]
    exact .cons rfl (innerFirst_stmts body (nodup_tail hn))

theorem innerFirst_routine : (r : RoutineDef) → (r.parts.map Part.node).Nodup →
    InnerFirst r.parts (r.defined g)
  | ⟨node, name, closing, params, result, body, ret, span⟩, hn => by
    have hbody := innerFirst_stmts body
    set r : RoutineDef := ⟨node, name, closing, params, result, body, ret, span⟩
    rw [RoutineDef.parts_eq] at hn ⊢
    have hinside := (hbody (nodup_left (nodup_tail hn))).append
      (InnerFirst.leaves fun x hx => Part.inside_of_isValue (ReturnClause.isValue_of_mem_optParts hx))
      (nodup_tail hn)
    rw [List.append_nil] at hinside
    obtain ⟨hnone, hsome⟩ := InnerFirst.around (x := .routine r) hinside hn
    cases h : g.routines.find? r.node with
    | none =>
      rw [RoutineDef.defined_none h]
      exact hnone
    | some f =>
      rw [RoutineDef.defined_some h]
      exact hsome _ rfl

theorem innerFirst_type : (t : TypeDef) → (t.parts.map Part.node).Nodup →
    InnerFirst t.parts (t.defined g)
  | ⟨node, name, closing, fields, statics, routines, staticRoutines, span⟩, hn => by
    have hr := innerFirst_routines routines
    have hs := innerFirst_routines staticRoutines
    set t : TypeDef := ⟨node, name, closing, fields, statics, routines, staticRoutines, span⟩
    rw [TypeDef.parts_eq] at hn ⊢
    have hmembers := nodup_tail hn
    have hinside := ((InnerFirst.leaves (g := g) (inside_fields fields statics)).append
      (hr (nodup_right (nodup_left hmembers))) (nodup_left hmembers)).append
        (hs (nodup_right hmembers)) hmembers
    obtain ⟨hnone, hsome⟩ := InnerFirst.around (x := .type t) hinside hn
    cases h : g.types.find? t.node with
    | none =>
      rw [TypeDef.defined_none h]
      exact hnone
    | some f =>
      rw [TypeDef.defined_some h]
      exact hsome _ rfl

theorem innerFirst_stmts : (xs : List Stmt) → ((Stmt.allParts xs).map Part.node).Nodup →
    InnerFirst (Stmt.allParts xs) (Stmt.allDefined g xs)
  | [], _ => by
    rw [Stmt.allDefined, Stmt.allParts]
    exact .leaves (List.forall_mem_nil _)
  | x :: xs, hn => by
    rw [Stmt.allParts] at hn
    rw [Stmt.allDefined, Stmt.allParts]
    exact (innerFirst_stmt x (nodup_left hn)).append (innerFirst_stmts xs (nodup_right hn)) hn

theorem innerFirst_branches : (xs : List Guarded) → ((Guarded.allParts xs).map Part.node).Nodup →
    InnerFirst (Guarded.allParts xs) (Guarded.allDefined g xs)
  | [], _ => by
    rw [Guarded.allDefined, Guarded.allParts]
    exact .leaves (List.forall_mem_nil _)
  | x :: xs, hn => by
    rw [Guarded.allParts] at hn
    rw [Guarded.allDefined, Guarded.allParts]
    exact (innerFirst_guarded x (nodup_left hn)).append (innerFirst_branches xs (nodup_right hn)) hn

theorem innerFirst_routines : (rs : List RoutineDef) →
    ((RoutineDef.allParts rs).map Part.node).Nodup →
      InnerFirst (RoutineDef.allParts rs) (RoutineDef.allDefined g rs)
  | [], _ => by
    rw [RoutineDef.allDefined, RoutineDef.allParts]
    exact .leaves (List.forall_mem_nil _)
  | r :: rs, hn => by
    rw [RoutineDef.allParts] at hn
    rw [RoutineDef.allDefined, RoutineDef.allParts]
    exact (innerFirst_routine r (nodup_left hn)).append (innerFirst_routines rs (nodup_right hn)) hn

end

/-- A definition is listed before those that it is inside of. -/
theorem inner_first {q : Program} (hq : q.nodes.Nodup) {i j : Nat} {d e : Defined g}
    (hd : (q.defined g)[i]? = some d) (he : (q.defined g)[j]? = some e)
    (h : q.Nests d.node e.node) : i < j := by
  obtain ⟨-, hclosed, horder⟩ := innerFirst_stmts g q.stmts hq
  obtain ⟨x, hx, hxe, y, hy, hyd⟩ := h
  obtain ⟨hi, rfl⟩ := List.getElem?_eq_some_iff.mp hd
  obtain ⟨hj, rfl⟩ := List.getElem?_eq_some_iff.mp he
  rcases Nat.lt_trichotomy i j with hlt | rfl | hgt
  · exact hlt
  · exact absurd (hyd.trans hxe.symm) (hclosed x hx y hy).2
  · exact absurd hyd (List.pairwise_iff_getElem.mp horder j i hj hi hgt x hx hxe y hy)

end Defined

end Unnest
