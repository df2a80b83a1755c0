import Unnest.Proofs.Tree.Parts
import Unnest.Tree.Draft

/-!
# Trees that are built

Findings are kept under the nodes of a tree, so a tree has to have distinct nodes.  Every
tree that is built does: each building operation gives its construct the next unused id,
and a construct that is closed by another name gets a new one (`Draft.nodup_nodes_build`).

The nodes of what was built between two moments are bounded by the ids that were unused
at the one and at the other, so what is built first and what is built afterwards have no
node in common.  `Builder.Numbers` says of a step that it keeps this of the parts that
were built before it, put together with its own.
-/

namespace Unnest

namespace Builder

/-- Parts whose nodes were given out between two moments, each of them once. -/
structure Numbered (lo hi : Nat) (xs : List Part) : Prop where
  le : lo ≤ hi
  nodup : (xs.map Part.node).Nodup
  bounds : ∀ x ∈ xs, lo ≤ x.node.index ∧ x.node.index < hi

namespace Numbered

variable {lo mid hi : Nat} {xs ys : List Part} {x y : Part}

theorem nil (lo : Nat) : Numbered lo lo [] :=
  ⟨Nat.le_refl lo, List.nodup_nil, List.forall_mem_nil _⟩

theorem append (h : Numbered lo mid xs) (h' : Numbered mid hi ys) :
    Numbered lo hi (xs ++ ys) where
  le := Nat.le_trans h.le h'.le
  nodup := by
    rw [List.map_append]
    refine h.nodup.append h'.nodup fun n hn hn' => ?_
    obtain ⟨x, hx, rfl⟩ := List.mem_map.mp hn
    obtain ⟨y, hy, heq⟩ := List.mem_map.mp hn'
    have hlt := (h.bounds x hx).2
    have hle := (h'.bounds y hy).1
    rw [heq] at hle
    omega
  bounds z hz := by
    rcases List.mem_append.mp hz with hz | hz
    · exact ⟨(h.bounds z hz).1, Nat.lt_of_lt_of_le (h.bounds z hz).2 h'.le⟩
    · exact ⟨Nat.le_trans h.le (h'.bounds z hz).1, (h'.bounds z hz).2⟩

/-- A part gets the next id. -/
theorem next (h : Numbered lo hi xs) (hx : x.node = ⟨hi⟩) : Numbered lo (hi + 1) (x :: xs) where
  le := Nat.le_succ_of_le h.le
  nodup := by
    rw [List.map_cons, List.nodup_cons]
    refine ⟨fun hmem => ?_, h.nodup⟩
    obtain ⟨y, hy, heq⟩ := List.mem_map.mp hmem
    have hlt := (h.bounds y hy).2
    rw [heq, hx] at hlt
    exact Nat.lt_irrefl hi hlt
  bounds := by
    refine List.forall_mem_cons.mpr ⟨?_, fun y hy => ?_⟩
    · rw [hx]
      exact ⟨h.le, Nat.lt_succ_self hi⟩
    · exact ⟨(h.bounds y hy).1, Nat.lt_succ_of_lt (h.bounds y hy).2⟩

/-- A part is left out. -/
theorem tail (h : Numbered lo hi (x :: xs)) : Numbered lo hi xs where
  le := h.le
  nodup := (List.nodup_cons.mp h.nodup).2
  bounds y hy := h.bounds y (List.mem_cons_of_mem x hy)

/-- A part is taken for another one with its node. -/
theorem head (h : Numbered lo hi (x :: xs)) (hy : y.node = x.node) : Numbered lo hi (y :: xs) where
  le := h.le
  nodup := by
    rw [List.map_cons, hy]
    exact h.nodup
  bounds := by
    rw [List.forall_mem_cons, hy]
    exact List.forall_mem_cons.mp h.bounds

end Numbered

variable {α β : Type} {xs ys : List Part} {m : Builder α} {f : α → List Part} {g : β → List Part}

/-- Building on top of the parts `xs` results in the parts `f`, all with their own nodes. -/
def Numbers (xs : List Part) (m : Builder α) (f : α → List Part) : Prop :=
  ∀ c lo, Numbered lo c.nextNode xs → Numbered lo (m.run c).2.nextNode (f (m.run c).1)

namespace Numbers

theorem pure {a : α} (h : f a = xs) : Numbers xs (pure a) f := by
  intro c lo hc
  rwa [← h] at hc

theorem bind {k : α → Builder β} (hm : Numbers xs m f) (hk : ∀ a, Numbers (f a) (k a) g) :
    Numbers xs (m >>= k) g :=
  fun c lo hc => hk (m.run c).1 (m.run c).2 lo (hm c lo hc)

/-- What was built before stays in front. -/
theorem frame (h : Numbers [] m f) : Numbers xs m fun a => xs ++ f a :=
  fun c _ hc => hc.append (h c c.nextNode (.nil _))

/-- A step that gives out no id. -/
theorem still (h : ∀ c, (m.run c).2.nextNode = c.nextNode) (hf : ∀ a, f a = xs) :
    Numbers xs m f := by
  intro c lo hc
  rwa [h, hf]

/-- A step that puts one construct on top of its parts. -/
theorem node {x : α → Part} (h : ∀ c, (m.run c).2.nextNode = c.nextNode + 1 ∧
    (x (m.run c).1).node = ⟨c.nextNode⟩ ∧ f (m.run c).1 = x (m.run c).1 :: xs) :
    Numbers xs m f := by
  intro c lo hc
  obtain ⟨hnext, hnode, hparts⟩ := h c
  rw [hnext, hparts]
  exact hc.next hnode

theorem conseq {h : α → List Part} (hm : Numbers xs m f) (heq : ∀ a, f a = h a) :
    Numbers xs m h := by
  intro c lo hc
  rw [← heq]
  exact hm c lo hc

/-- Two parts from left to right. -/
theorem pair {m' : Builder β} (h : Numbers [] m f) (h' : Numbers [] m' g) :
    Numbers [] (do return (← m, ← m')) fun p => f p.1 ++ g p.2 :=
  h.bind fun _ => h'.frame.bind fun _ => pure rfl

/-- One part and then the others of its kind. -/
theorem cons {m' : Builder (List α)} {fs : List α → List Part} (h : Numbers [] m f)
    (h' : Numbers [] m' fs) (heq : ∀ a as, f a ++ fs as = fs (a :: as)) :
    Numbers [] (do return (← m) :: (← m')) fs :=
  h.bind fun a => h'.frame.bind fun as => pure (heq a as).symm

theorem mapM {γ : Type} {k : γ → Builder α} (h : ∀ c, Numbers [] (k c) f) (cs : List γ) :
    Numbers [] (cs.mapM k) fun as => as.flatMap f := by
  induction cs with
  | nil => exact pure rfl
  | cons c cs ih =>
    rw [List.mapM_cons]
    exact (h c).bind fun a => ih.frame.bind fun as => pure List.flatMap_cons

theorem atLine (line : Option Nat) : Numbers xs (Draft.move line) fun _ => xs := by
  refine still (fun c => ?_) fun _ => rfl
  cases line <;> rfl

theorem onLine {parts : Builder α} {whole : α → Builder β} (line : Option Nat)
    (hp : Numbers xs parts f) (hw : ∀ a, Numbers (f a) (whole a) g) :
    Numbers xs (Draft.onLine line parts whole) g :=
  (atLine line).bind fun _ => hp.bind fun a => (atLine line).bind fun _ => hw a

end Numbers

end Builder

namespace Draft

open Builder (Numbers)

/-! ## Written types -/

/-- Steps that build no parts with nodes. -/
abbrev Still {α : Type} (m : Builder α) : Prop := Numbers [] m fun _ => []

mutual

theorem still_written : (t : Written) → Still t.build
  | .named line _ => .onLine line (.pure rfl) fun _ => .still (fun _ => rfl) fun _ => rfl
  | .routine line params result =>
    .onLine line ((still_writtenAll params).pair (still_writtenOptional result)) fun _ =>
      .still (fun _ => rfl) fun _ => rfl

theorem still_writtenAll : (ts : List Written) → Still (Written.buildAll ts)
  | [] => .pure rfl
  | t :: ts => (still_written t).cons (still_writtenAll ts) fun _ _ => rfl

theorem still_writtenOptional : (t : Option Written) → Still (Written.buildOptional t)
  | none => .pure rfl
  | some t => (still_written t).bind fun _ => .pure rfl

end

theorem still_params (params : List (Written × String)) : Still (buildParams params) :=
  (still_writtenAll _).bind fun _ => .pure rfl

/-! ## Expressions -/

mutual

theorem numbers_expr : (e : Expr) → Numbers [] e.build Unnest.Expr.parts
  | .literal line _ => .onLine line (.pure rfl) fun _ => .node fun _ => ⟨rfl, rfl, rfl⟩
  | .binary line _ left right =>
    .onLine line ((numbers_expr left).pair (numbers_expr right)) fun _ =>
      .node fun _ => ⟨rfl, rfl, rfl⟩
  | .unary line _ operand =>
    .onLine line (numbers_expr operand) fun _ => .node fun _ => ⟨rfl, rfl, rfl⟩
  | .paren line inner =>
    .onLine line (numbers_expr inner) fun _ => .node fun _ => ⟨rfl, rfl, rfl⟩
  | .chain c => (numbers_chain c).bind fun _ _ _ hc => hc.head rfl

theorem numbers_chain : (c : Chain) → Numbers [] c.build Unnest.Chain.parts
  | ⟨line, links⟩ => .onLine line (numbers_links links) fun _ => .node fun _ => ⟨rfl, rfl, rfl⟩

theorem numbers_link : (l : Link) → Numbers [] l.build Unnest.Link.parts
  | .bare line _ => .onLine line (.pure rfl) fun _ => .node fun _ => ⟨rfl, rfl, rfl⟩
  | .call line _ args =>
    .onLine line (numbers_exprs args) fun _ => .node fun _ => ⟨rfl, rfl, rfl⟩

theorem numbers_links : (ls : List Link) → Numbers [] (Link.buildAll ls) Unnest.Link.allParts
  | [] => .pure rfl
  | l :: ls => (numbers_link l).cons (numbers_links ls) fun _ _ => rfl

theorem numbers_exprs : (es : List Expr) → Numbers [] (Expr.buildAll es) Unnest.Expr.allParts
  | [] => .pure rfl
  | e :: es => (numbers_expr e).cons (numbers_exprs es) fun _ _ => rfl

end

theorem numbers_ret : (e : Option Expr) →
    Numbers [] (Expr.buildOptional e) fun e => (e.map Unnest.Expr.parts).getD []
  | none => .pure rfl
  | some e => (numbers_expr e).bind fun _ => .pure rfl

/-! ## Statements -/

theorem numbers_varDecl (d : VarDecl) : Numbers [] d.build fun d => [.declare d] :=
  .onLine d.line (still_written d.type) fun _ => .node fun _ => ⟨rfl, rfl, rfl⟩

theorem numbers_initDecl (d : InitDecl) :
    Numbers [] d.build fun d => .define d :: d.value.parts :=
  .onLine d.line ((still_written d.type).pair (numbers_expr d.value)) fun _ =>
    .node fun _ => ⟨rfl, rfl, rfl⟩

theorem numbers_static (d : InitDecl) : Numbers [] d.buildStatic StaticField.parts :=
  .onLine d.line ((still_written d.type).pair (numbers_expr d.value)) fun _ =>
    .node fun _ => ⟨rfl, rfl, rfl⟩

theorem numbers_assignment (target : Unnest.Chain) (value : Unnest.Expr) :
    Numbers (target.parts ++ value.parts) (Builder.assignment target value) fun x =>
      .assign x :: (x.target.parts ++ x.value.parts) :=
  .node fun _ => ⟨rfl, rfl, rfl⟩

/-- A routine that is closed by another name gets a new node. -/
theorem numbers_closeRoutine (r : Unnest.RoutineDef) (closing : Option Closing) :
    Numbers r.parts (closeRoutine r closing) Unnest.RoutineDef.parts := by
  cases closing with
  | none => exact .pure rfl
  | some closing =>
    refine (Numbers.atLine closing.line).bind fun _ c lo hc => ?_
    rw [RoutineDef.parts_eq] at hc
    exact hc.tail.next rfl

/-- A type that is closed by another name gets a new node. -/
theorem numbers_closeType (t : Unnest.TypeDef) (closing : Option Closing) :
    Numbers t.parts (closeType t closing) Unnest.TypeDef.parts := by
  cases closing with
  | none => exact .pure rfl
  | some closing =>
    refine (Numbers.atLine closing.line).bind fun _ c lo hc => ?_
    obtain ⟨⟩ := t
    exact hc.tail.next rfl

mutual

theorem numbers_stmt : (s : Stmt) → Numbers [] s.build Unnest.Stmt.parts
  | .declare d => (numbers_varDecl d).bind fun _ => .pure rfl
  | .define d => (numbers_initDecl d).bind fun _ => .pure rfl
  | .assign line target value =>
    .onLine line ((numbers_chain target).pair (numbers_expr value)) fun _ =>
      (numbers_assignment _ _).bind fun _ => .pure rfl
  | .call c => (numbers_chain c).bind fun _ => .pure rfl
  | .branch line branches otherwise =>
    (Numbers.atLine line).bind fun _ => (numbers_guardedAll branches).bind fun _ =>
      (numbers_else line otherwise).frame.bind fun _ => (Numbers.atLine line).bind fun _ _ _ hc => hc
  | .loop g => (numbers_guarded g).bind fun _ => .pure rfl
  | .routine r => (numbers_routine r).bind fun _ => .pure rfl
  | .type t => (numbers_type t).bind fun _ => .pure rfl

theorem numbers_guarded : (g : Guarded) → Numbers [] g.build Unnest.Guarded.parts
  | ⟨line, condition, body⟩ =>
    .onLine line ((numbers_expr condition).pair (numbers_stmts body)) fun _ =>
      .node (x := fun g => .block g.node) fun _ => ⟨rfl, rfl, rfl⟩

theorem numbers_else (line : Option Nat) : (e : Else) →
    Numbers [] (e.build line) Unnest.Else.parts
  | .absent => .pure rfl
  | .block body => (numbers_stmts body).bind fun _ => (Numbers.atLine line).bind fun _ =>
      fun _ _ hc => hc.next (x := .block _) rfl

theorem numbers_routine : (r : RoutineDef) → Numbers [] r.build Unnest.RoutineDef.parts
  | ⟨line, _, params, result, body, ret, closing⟩ => by
    refine Numbers.bind (f := Unnest.RoutineDef.parts) ?_ fun r => numbers_closeRoutine r closing
    refine .onLine line (f := fun x => Unnest.Stmt.allParts x.2.2.1 ++
      (x.2.2.2.map Unnest.Expr.parts).getD []) ?_ fun x =>
        .node (x := .routine) fun _ => ⟨rfl, rfl, ?_⟩
    · exact (still_params params).bind fun _ => (still_writtenOptional result).bind fun _ =>
        (numbers_stmts body).bind fun _ => (numbers_ret ret).frame.bind fun _ => .pure rfl
    · obtain ⟨_, _, body, ret⟩ := x
      cases ret <;> rfl

theorem numbers_type : (t : TypeDef) → Numbers [] t.build Unnest.TypeDef.parts
  | ⟨line, _, fields, statics, routines, staticRoutines, closing⟩ => by
    refine Numbers.bind (f := Unnest.TypeDef.parts) ?_ fun t => numbers_closeType t closing
    have hfields : Numbers [] (fields.mapM VarDecl.build) (List.map .declare) :=
      (Numbers.mapM numbers_varDecl fields).conseq fun _ => List.flatMap_pure_eq_map _ _
    refine .onLine line (f := fun x => x.1.map .declare ++ x.2.1.flatMap StaticField.parts ++
      Unnest.RoutineDef.allParts x.2.2.1 ++ Unnest.RoutineDef.allParts x.2.2.2) ?_ fun x =>
        .node fun _ => ⟨rfl, rfl, rfl⟩
    exact hfields.bind fun _ => (Numbers.mapM numbers_static statics).frame.bind fun _ =>
      (numbers_routines routines).frame.bind fun _ =>
        (numbers_routines staticRoutines).frame.bind fun _ => .pure rfl

theorem numbers_stmts : (ss : List Stmt) → Numbers [] (Stmt.buildAll ss) Unnest.Stmt.allParts
  | [] => .pure rfl
  | s :: ss => (numbers_stmt s).cons (numbers_stmts ss) fun _ _ => rfl

theorem numbers_guardedAll : (gs : List Guarded) →
    Numbers [] (Guarded.buildAll gs) Unnest.Guarded.allParts
  | [] => .pure rfl
  | g :: gs => (numbers_guarded g).cons (numbers_guardedAll gs) fun _ _ => rfl

theorem numbers_routines : (rs : List RoutineDef) →
    Numbers [] (RoutineDef.buildAll rs) Unnest.RoutineDef.allParts
  | [] => .pure rfl
  | r :: rs => (numbers_routine r).cons (numbers_routines rs) fun _ _ => rfl

end

/-- Every tree that is built has distinct nodes. -/
theorem nodup_nodes_build (ss : List Stmt) : (build ss).1.nodes.Nodup :=
  (numbers_stmts ss {} 0 (.nil 0)).nodup

/-! ## A program -/

/-- A written type on the current line. -/
def Written.of (name : String) : Written := .named none name

/-- A chain of names on the current line. -/
def Chain.of (names : List String) : Chain := ⟨none, names.map (.bare none)⟩

/-- A whole number on the current line. -/
def Expr.int (n : Int) : Expr := .literal none (.int n)

/-- A program with definitions inside each other and with control flow inside each other:

```
integer count = 0
type Box
  integer size
  static integer made = count
  routine grow(integer by)
    size = size + by
    routine note()
      count = by
    end note
    note()
  end grow
end Box
Box box
loop count < 3
  if count = 1
    box.grow(count)
  else
    count = count + 1
  end
end
```
-/
def nested : List Stmt := [
  .define ⟨none, .of "integer", ["count"], .int 0⟩,
  .type ⟨none, "Box", [⟨none, .of "integer", ["size"]⟩],
    [⟨none, .of "integer", ["made"], .chain (.of ["count"])⟩],
    [⟨none, "grow", [(.of "integer", "by")], none, [
        .assign none (.of ["size"])
          (.binary none .add (.chain (.of ["size"])) (.chain (.of ["by"]))),
        .routine ⟨none, "note", [], none, [.assign none (.of ["count"]) (.chain (.of ["by"]))],
          none, none⟩,
        .call ⟨none, [.call none "note" []]⟩], none, none⟩],
    [], none⟩,
  .declare ⟨none, .of "Box", ["box"]⟩,
  .loop ⟨none, .binary none .less (.chain (.of ["count"])) (.int 3), [
    .branch none
      [⟨none, .binary none .equal (.chain (.of ["count"])) (.int 1),
        [.call ⟨none, [.bare none "box", .call none "grow" [.chain (.of ["count"])]]⟩]⟩]
      (.block [.assign none (.of ["count"])
        (.binary none .add (.chain (.of ["count"])) (.int 1))])]⟩]

end Draft

/-- The tree of the program `Draft.nested`. -/
def nested : Program := (Draft.build Draft.nested).1

theorem nodup_nested : nested.nodes.Nodup := Draft.nodup_nodes_build Draft.nested

end Unnest
