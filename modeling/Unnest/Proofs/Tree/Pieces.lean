import Unnest.Proofs.Tree.Parts
import Unnest.Tree.Builder

/-!
# The order of nodes

The building operations can be used in any order.  What was built and not used yet lies on a
bench (`Bench`): an operation takes some of the pieces from there, each of them once, and puts
a piece in their place.  A routine or type that is closed by another name takes the place of
the one that it was made from.

Whatever is built that way, the nodes on the bench are distinct and below the next id, and
every node is larger than all nodes below it (`Bench.numbered`), so this is true of all
programs that are built (`Builds.numbered`).
-/

namespace Unnest

/-- What building operations take and make. -/
inductive Piece where
  | expr (e : Expr)
  | link (l : Link)
  | chain (c : Chain)
  | declare (d : VarDecl)
  | define (d : InitDecl)
  | assign (x : Assignment)
  | guarded (g : Guarded)
  | otherwise (e : Else)
  | staticField (f : StaticField)
  | routine (r : RoutineDef)
  | type (t : TypeDef)
  | stmt (s : Stmt)

namespace Piece

/-- The node of a piece.  Statements have none but those of the constructs that they are. -/
def node? : Piece → Option NodeId
  | expr e => some e.node
  | link l => some l.node
  | chain c => some c.node
  | declare d => some d.node
  | define d => some d.node
  | assign x => some x.node
  | guarded g => some g.node
  | otherwise (.block node _ _) => some node
  | otherwise .absent => none
  | staticField f => some f.decl.node
  | routine r => some r.node
  | type t => some t.node
  | stmt _ => none

/-- The pieces right below a piece. -/
def children : Piece → List Piece
  | expr (.literal _ _ _) => []
  | expr (.binary _ _ left right _) => [expr left, expr right]
  | expr (.unary _ _ operand _) => [expr operand]
  | expr (.paren _ inner _) => [expr inner]
  | expr (.chain c) | chain c => c.links.map link
  | link (.bare _ _ _) => []
  | link (.call _ _ args _) => args.map expr
  | declare _ => []
  | define d => [expr d.value]
  | assign x => [chain x.target, expr x.value]
  | guarded g => expr g.condition :: g.body.map stmt
  | otherwise .absent => []
  | otherwise (.block _ body _) => body.map stmt
  | staticField f => [expr f.init]
  | routine r => r.body.map stmt ++ (r.ret.map fun ret => expr ret.value).toList
  | type t => t.fields.map declare ++ t.staticFields.map staticField ++ t.routines.map routine ++
      t.staticRoutines.map routine
  | stmt (.declare d) => [declare d]
  | stmt (.define d) => [define d]
  | stmt (.assign x) => [assign x]
  | stmt (.call c) => [chain c]
  | stmt (.branch branches e _) => branches.map guarded ++ [otherwise e]
  | stmt (.loop g) => [guarded g]
  | stmt (.routine r) => [routine r]
  | stmt (.type t) => [type t]

/-- The parts of a piece. -/
def parts : Piece → List Part
  | expr e => e.parts
  | link l => l.parts
  | chain c => c.parts
  | declare d => [.declare d]
  | define d => .define d :: d.value.parts
  | assign x => .assign x :: (x.target.parts ++ x.value.parts)
  | guarded g => g.parts
  | otherwise e => e.parts
  | staticField f => f.parts
  | routine r => r.parts
  | type t => t.parts
  | stmt s => s.parts

/-- The nodes of a piece, one for each part. -/
def nodes (x : Piece) : List NodeId := x.parts.map Part.node

/-- The nodes of pieces. -/
def allNodes (xs : List Piece) : List NodeId := xs.flatMap nodes

variable {x y z : Piece} {xs ys : List Piece} {n m : NodeId}

@[simp] theorem allNodes_nil : allNodes [] = [] := rfl

@[simp] theorem allNodes_cons (x : Piece) (xs : List Piece) :
    allNodes (x :: xs) = x.nodes ++ allNodes xs := List.flatMap_cons

@[simp] theorem allNodes_append (xs ys : List Piece) :
    allNodes (xs ++ ys) = allNodes xs ++ allNodes ys := List.flatMap_append

theorem allNodes_perm (h : xs.Perm ys) : (allNodes xs).Perm (allNodes ys) := h.flatMap_right nodes

theorem nodes_subset (h : x ∈ xs) : x.nodes ⊆ allNodes xs := fun _ hn =>
  List.mem_flatMap.mpr ⟨x, h, hn⟩

/-- Pieces of one kind have the nodes of their parts. -/
theorem allNodes_map {α : Type} {f : α → Piece} {g : List α → List Part} (hnil : g [] = [])
    (hcons : ∀ a as, g (a :: as) = (f a).parts ++ g as) (as : List α) :
    allNodes (as.map f) = (g as).map Part.node := by
  induction as with
  | nil => rw [hnil]; rfl
  | cons a as ih => rw [List.map_cons, allNodes_cons, ih, hcons, List.map_append, nodes]

theorem allNodes_exprs (es : List Expr) :
    allNodes (es.map expr) = (Expr.allParts es).map Part.node :=
  allNodes_map rfl (fun _ _ => rfl) es

theorem allNodes_links (ls : List Link) :
    allNodes (ls.map link) = (Link.allParts ls).map Part.node :=
  allNodes_map rfl (fun _ _ => rfl) ls

theorem allNodes_stmts (ss : List Stmt) :
    allNodes (ss.map stmt) = (Stmt.allParts ss).map Part.node :=
  allNodes_map rfl (fun _ _ => rfl) ss

theorem allNodes_guarded (gs : List Guarded) :
    allNodes (gs.map guarded) = (Guarded.allParts gs).map Part.node :=
  allNodes_map rfl (fun _ _ => rfl) gs

theorem allNodes_routines (rs : List RoutineDef) :
    allNodes (rs.map routine) = (RoutineDef.allParts rs).map Part.node :=
  allNodes_map rfl (fun _ _ => rfl) rs

theorem allNodes_fields (ds : List VarDecl) :
    allNodes (ds.map declare) = (ds.map Part.declare).map Part.node :=
  allNodes_map rfl (fun _ _ => rfl) ds

theorem allNodes_staticFields (fs : List StaticField) :
    allNodes (fs.map staticField) = (fs.flatMap StaticField.parts).map Part.node :=
  allNodes_map rfl (fun _ _ => List.flatMap_cons) fs

theorem nodes_chain (c : Chain) : (chain c).nodes = c.node :: allNodes (c.links.map link) := by
  obtain ⟨node, links, span⟩ := c
  rw [allNodes_links]
  rfl

/-- A piece has its own node, and those below it. -/
theorem nodes_eq (x : Piece) : x.nodes = x.node?.toList ++ allNodes x.children := by
  cases x with
  | expr e =>
    cases e with
    | chain c => exact nodes_chain c
    | _ => simp [nodes, parts, node?, children, Expr.parts, Expr.node, Part.node]
  | chain c => exact nodes_chain c
  | link l =>
    cases l with
    | bare => rfl
    | call node name args span => rw [children, allNodes_exprs]; rfl
  | declare | define | assign | staticField =>
    simp [nodes, parts, node?, children, StaticField.parts, Part.node]
  | guarded g =>
    obtain ⟨⟩ := g
    rw [children, allNodes_cons, allNodes_stmts, nodes, parts, Guarded.parts, List.map_cons,
      List.map_append]
    rfl
  | otherwise e =>
    cases e with
    | absent => rfl
    | block node body span => rw [children, allNodes_stmts]; rfl
  | routine r =>
    rw [children, allNodes_append, allNodes_stmts, nodes, parts, RoutineDef.parts_eq, List.map_cons,
      RoutineDef.bodyParts, List.map_append]
    cases r.ret <;> simp [node?, Part.node, ReturnClause.optParts, nodes, parts]
  | type t =>
    rw [children, allNodes_append, allNodes_append, allNodes_append, allNodes_fields,
      allNodes_staticFields, allNodes_routines, allNodes_routines, nodes, parts, TypeDef.parts_eq,
      List.map_cons, List.map_append, List.map_append, List.map_append]
    rfl
  | stmt s =>
    cases s with
    | branch gs e span =>
      rw [children, allNodes_append, allNodes_guarded, allNodes_cons, allNodes_nil, List.append_nil,
        nodes, parts, Stmt.parts, List.map_append]
      rfl
    | _ => simp [nodes, parts, node?, children, Stmt.parts]

/-! ### Pieces inside of pieces -/

/-- A piece is somewhere in another one, or is that one. -/
inductive Inside (x : Piece) : Piece → Prop
  | self : Inside x x
  | child {y z : Piece} (h : Inside x y) (hy : y ∈ z.children) : Inside x z

/-- A piece is somewhere below another one. -/
def Below (x z : Piece) : Prop := ∃ y ∈ z.children, Inside x y

theorem Inside.nodes_subset (h : Inside x z) : x.nodes ⊆ z.nodes := by
  induction h with
  | self => exact List.Subset.refl _
  | @child y z _ hy ih =>
    rw [nodes_eq z]
    exact fun n hn => List.mem_append_right _ (Piece.nodes_subset hy (ih hn))

theorem mem_nodes_of_node? (h : x.node? = some n) : n ∈ x.nodes := by
  rw [nodes_eq, h]
  exact List.mem_cons_self

theorem Below.mem_allNodes (h : Below x z) (hn : x.node? = some n) :
    n ∈ allNodes z.children := by
  obtain ⟨y, hy, hx⟩ := h
  exact nodes_subset hy (hx.nodes_subset (mem_nodes_of_node? hn))

/-- Every node in a piece is larger than the nodes below it. -/
inductive Ranked : Piece → Prop
  | mk {z : Piece} (own : ∀ n, z.node? = some n → ∀ m ∈ allNodes z.children, m.index < n.index)
      (below : ∀ y ∈ z.children, Ranked y) : Ranked z

namespace Ranked

theorem own (h : Ranked z) (hn : z.node? = some n) (hm : m ∈ allNodes z.children) :
    m.index < n.index := by
  cases h with
  | mk own _ => exact own n hn m hm

theorem child (h : Ranked z) (hy : y ∈ z.children) : Ranked y := by
  cases h with
  | mk _ below => exact below y hy

theorem inside (h : Ranked z) (hy : Inside y z) : Ranked y := by
  induction hy with
  | self => exact h
  | child _ hy ih => exact ih (h.child hy)

end Ranked

end Piece

namespace Builder

open Piece (allNodes)

/-! ## Operations -/

/-- The building operations, and the pieces that each of them takes. -/
inductive Makes : List Piece → Builder Piece → Prop
  | literal (value : Literal) : Makes [] (.expr <$> literal value)
  | binary (op : BinaryOp) (left right : Expr) :
      Makes [.expr left, .expr right] (.expr <$> binary op left right)
  | unary (op : UnaryOp) (operand : Expr) : Makes [.expr operand] (.expr <$> unary op operand)
  | paren (inner : Expr) : Makes [.expr inner] (.expr <$> paren inner)
  | bareLink (name : String) : Makes [] (.link <$> bareLink name)
  | callLink (name : String) (args : List Expr) :
      Makes (args.map .expr) (.link <$> callLink name args)
  | chain (links : List Link) : Makes (links.map .link) (.chain <$> chain links)
  /-- A chain that is used as an expression. -/
  | chainExpr (c : Chain) : Makes [.chain c] (pure (.expr (.chain c)))
  | varDecl (type : WrittenType) (names : List String) : Makes [] (.declare <$> varDecl type names)
  | initDecl (type : WrittenType) (names : List String) (value : Expr) :
      Makes [.expr value] (.define <$> initDecl type names value)
  | assignment (target : Chain) (value : Expr) :
      Makes [.chain target, .expr value] (.assign <$> assignment target value)
  | guarded (condition : Expr) (body : List Stmt) :
      Makes (.expr condition :: body.map .stmt) (.guarded <$> guarded condition body)
  | absent : Makes [] (pure (.otherwise .absent))
  | elseBlock (body : List Stmt) : Makes (body.map .stmt) (.otherwise <$> elseBlock body)
  | branch (branches : List Guarded) (otherwise : Else) :
      Makes (branches.map .guarded ++ [.otherwise otherwise]) (.stmt <$> branch branches otherwise)
  | routine (name : String) (params : List (WrittenType × String)) (result : Option WrittenType)
      (body : List Stmt) (ret : Option Expr) :
      Makes (body.map .stmt ++ (ret.map .expr).toList)
        (.routine <$> routine name params result body ret)
  | closeRoutine (r : RoutineDef) (name : String) :
      Makes [.routine r] (.routine <$> closeRoutine r name)
  | staticField (type : WrittenType) (names : List String) (init : Expr) :
      Makes [.expr init] (.staticField <$> staticField type names init)
  | type (name : String) (fields : List VarDecl) (staticFields : List StaticField)
      (routines staticRoutines : List RoutineDef) :
      Makes (fields.map .declare ++ staticFields.map .staticField ++ routines.map .routine ++
        staticRoutines.map .routine)
        (.type <$> type name fields staticFields routines staticRoutines)
  | closeType (t : TypeDef) (name : String) : Makes [.type t] (.type <$> closeType t name)
  | declareStmt (d : VarDecl) : Makes [.declare d] (pure (.stmt (.declare d)))
  | defineStmt (d : InitDecl) : Makes [.define d] (pure (.stmt (.define d)))
  | assignStmt (x : Assignment) : Makes [.assign x] (pure (.stmt (.assign x)))
  | callStmt (c : Chain) : Makes [.chain c] (pure (.stmt (.call c)))
  | loopStmt (g : Guarded) : Makes [.guarded g] (pure (.stmt (.loop g)))
  | routineStmt (r : RoutineDef) : Makes [.routine r] (pure (.stmt (.routine r)))
  | typeStmt (t : TypeDef) : Makes [.type t] (pure (.stmt (.type t)))

/-- What a piece that is made of others comes to. -/
inductive Comes (used : List Piece) (c : Cursor) (x : Piece) (c' : Cursor) : Prop
  /-- It gets the next node and has the others below it. -/
  | numbered (next : c'.nextNode = c.nextNode + 1) (node : x.node? = some ⟨c.nextNode⟩)
      (children : x.children = used)
  /-- It gets the next node and takes the place of another one. -/
  | renumbered {y : Piece} (takes : used = [y]) (next : c'.nextNode = c.nextNode + 1)
      (node : x.node? = some ⟨c.nextNode⟩) (children : x.children = y.children)
  /-- It gets no node, and has the others below it. -/
  | wrapped (next : c'.nextNode = c.nextNode) (node : x.node? = none) (children : x.children = used)
  /-- It is another one, used in another place. -/
  | same {y : Piece} (takes : used = [y]) (next : c'.nextNode = c.nextNode)
      (node : x.node? = y.node?) (children : x.children = y.children)

variable {c c' : Cursor} {x : Piece} {xs ys used rest : List Piece} {m : Builder Piece}

theorem Makes.comes (h : Makes used m) (c : Cursor) :
    Comes used c (m.run c).1 (m.run c).2 := by
  cases h with
  | closeRoutine | closeType => exact .renumbered rfl rfl rfl rfl
  | chainExpr => exact .same rfl rfl rfl rfl
  | absent | branch | declareStmt | defineStmt | assignStmt | callStmt | loopStmt | routineStmt
  | typeStmt => exact .wrapped rfl rfl rfl
  | routine _ _ _ _ ret => cases ret <;> exact .numbered rfl rfl rfl
  | _ => exact .numbered rfl rfl rfl

/-- It has the nodes of the others, and maybe the next one. -/
theorem Comes.nodes (h : Comes used c x c') : ∃ new : List NodeId,
    x.nodes.Sublist (new ++ allNodes used) ∧
      (new = [] ∧ c'.nextNode = c.nextNode ∨
        new = [⟨c.nextNode⟩] ∧ c'.nextNode = c.nextNode + 1) := by
  rw [Piece.nodes_eq]
  cases h with
  | numbered next node children =>
    rw [node, children]
    exact ⟨[⟨c.nextNode⟩], .refl _, .inr ⟨rfl, next⟩⟩
  | @renumbered y takes next node children =>
    rw [node, children, takes, Piece.allNodes_cons, Piece.nodes_eq y]
    refine ⟨[⟨c.nextNode⟩], .append_left ?_ _, .inr ⟨rfl, next⟩⟩
    exact (List.sublist_append_right _ _).trans (List.sublist_append_left _ _)
  | wrapped next node children =>
    rw [node, children]
    exact ⟨[], .refl _, .inl ⟨rfl, next⟩⟩
  | @same y takes next node children =>
    rw [node, children, takes, Piece.allNodes_cons, ← Piece.nodes_eq y]
    exact ⟨[], List.sublist_append_left _ _, .inl ⟨rfl, next⟩⟩

/-- A new node is larger than all that were given out. -/
theorem Comes.ranked (h : Comes used c x c') (hused : ∀ y ∈ used, y.Ranked)
    (hlt : ∀ n ∈ allNodes used, n.index < c.nextNode) : x.Ranked := by
  cases h with
  | numbered _ node children =>
    refine ⟨fun n hn m hm => ?_, fun y hy => hused y (children ▸ hy)⟩
    obtain rfl := Option.some.inj (node.symm.trans hn)
    exact hlt m (children ▸ hm)
  | @renumbered y takes _ node children =>
    subst takes
    rw [List.forall_mem_singleton] at hused
    refine ⟨fun n hn m hm => ?_, fun z hz => hused.child (children ▸ hz)⟩
    obtain rfl := Option.some.inj (node.symm.trans hn)
    refine hlt m (List.mem_append_left _ ?_)
    rw [Piece.nodes_eq]
    exact List.mem_append_right _ (children ▸ hm)
  | wrapped _ node children =>
    exact ⟨fun n hn => absurd (node.symm.trans hn) (by simp), fun y hy => hused y (children ▸ hy)⟩
  | @same y takes _ node children =>
    subst takes
    rw [List.forall_mem_singleton] at hused
    exact ⟨fun n hn m hm => hused.own (node.symm.trans hn) (children ▸ hm),
      fun z hz => hused.child (children ▸ hz)⟩

/-! ## The bench -/

/-- What was built and not used yet. -/
inductive Bench : Cursor → List Piece → Prop
  | start : Bench {} []
  | atLine {c : Cursor} {xs : List Piece} (h : Bench c xs) (line : Nat) :
      Bench ((atLine line).run c).2 xs
  | make {c : Cursor} {xs used rest : List Piece} {m : Builder Piece} (h : Bench c xs)
      (takes : xs.Perm (used ++ rest)) (makes : Makes used m) :
      Bench (m.run c).2 ((m.run c).1 :: rest)

/-- The nodes of pieces are distinct, all of them were given out, and each is larger than the
nodes below it. -/
structure Orderly (c : Cursor) (xs : List Piece) : Prop where
  nodup : (allNodes xs).Nodup
  lt : ∀ n ∈ allNodes xs, n.index < c.nextNode
  ranked : ∀ x ∈ xs, x.Ranked

theorem Orderly.perm (h : Orderly c xs) (hp : xs.Perm ys) : Orderly c ys where
  nodup := (Piece.allNodes_perm hp).nodup_iff.mp h.nodup
  lt n hn := h.lt n ((Piece.allNodes_perm hp).mem_iff.mpr hn)
  ranked x hx := h.ranked x (hp.mem_iff.mpr hx)

theorem Orderly.make (h : Orderly c (used ++ rest)) (hx : Comes used c x c') :
    Orderly c' (x :: rest) := by
  obtain ⟨new, hsub, hnew⟩ := hx.nodes
  -- All nodes that there are now were there before, but for the one that is new.
  have hall : (allNodes (x :: rest)).Sublist (new ++ allNodes (used ++ rest)) := by
    rw [Piece.allNodes_cons, Piece.allNodes_append, ← List.append_assoc]
    exact hsub.append_right _
  have hused : ∀ n ∈ allNodes used, n.index < c.nextNode := fun n hn =>
    h.lt n (Piece.allNodes_append used rest ▸ List.mem_append_left _ hn)
  refine ⟨.sublist hall ?_, fun n hn => ?_, List.forall_mem_cons.mpr ⟨?_, fun y hy => ?_⟩⟩
  · rcases hnew with ⟨rfl, -⟩ | ⟨rfl, -⟩
    · exact h.nodup
    · exact List.nodup_cons.mpr ⟨fun hn => Nat.lt_irrefl _ (h.lt _ hn), h.nodup⟩
  · rcases hnew with ⟨rfl, hnext⟩ | ⟨rfl, hnext⟩
    · exact hnext ▸ h.lt n (hall.subset hn)
    · rcases List.mem_cons.mp (hall.subset hn) with rfl | hn
      · exact hnext ▸ Nat.lt_succ_self _
      · exact hnext ▸ Nat.lt_succ_of_lt (h.lt n hn)
  · exact hx.ranked (fun y hy => h.ranked y (List.mem_append_left _ hy)) hused
  · exact h.ranked y (List.mem_append_right _ hy)

/-- Whatever was built, the nodes are in order. -/
theorem Bench.orderly (h : Bench c xs) : Orderly c xs := by
  induction h with
  | start => exact ⟨List.nodup_nil, List.forall_mem_nil _, List.forall_mem_nil _⟩
  | atLine _ _ ih => exact ⟨ih.nodup, ih.lt, ih.ranked⟩
  | make _ takes makes ih => exact (ih.perm takes).make (makes.comes _)

/-- A program is put together from statements that were built. -/
inductive Builds (c : Cursor) : Program → Prop
  | program {xs rest : List Piece} (h : Bench c xs) (ss : List Stmt)
      (takes : xs.Perm (ss.map .stmt ++ rest)) : Builds c (program ss)

end Builder

/-- The nodes of a program are distinct, below a bound, and each is larger than the nodes
below it. -/
structure Program.Numbered (q : Program) (count : Nat) : Prop where
  nodup : q.nodes.Nodup
  lt : ∀ n ∈ q.nodes, n.index < count
  descending : ∀ s ∈ q.stmts, ∀ y : Piece, y.Inside (.stmt s) → ∀ x : Piece, x.Below y →
    ∀ n m, y.node? = some n → x.node? = some m → m.index < n.index

open Piece in
theorem Builder.Builds.numbered {c : Cursor} {q : Program} (h : Builder.Builds c q) :
    q.Numbered c.nextNode := by
  obtain @⟨xs, rest, hbench, ss, takes⟩ := h
  have horder := hbench.orderly.perm takes
  have hnodes : (Builder.program ss).nodes = allNodes (ss.map .stmt) := (allNodes_stmts ss).symm
  have hsub : (allNodes (ss.map .stmt)).Sublist (allNodes (ss.map .stmt ++ rest)) := by
    rw [allNodes_append]
    exact List.sublist_append_left _ _
  refine ⟨hnodes ▸ horder.nodup.sublist hsub, fun n hn => ?_, fun s hs y hy x hx n m hn hm => ?_⟩
  · exact horder.lt n (hsub.subset (hnodes ▸ hn))
  · have hs : Piece.stmt s ∈ ss.map .stmt := List.mem_map_of_mem hs
    have hy : y.Ranked := (horder.ranked _ (List.mem_append_left _ hs)).inside hy
    exact hy.own hn (hx.mem_allNodes hm)

end Unnest
