import Mathlib.Data.List.Nodup
import Unnest.Proofs.Lowering.Plain

/-!
# Control flow is preserved

The code of a body runs as the body is read.  Whatever outcomes the conditions have,
if the structured execution of the body ends then the machine, started where the code
of the body starts, executes the same instructions, uses up the same outcomes and
arrives where that code ends (`arrives_stmts`).

## The structured reading

A body is executed by its structure.  The conditions of an `if` are tested in order
until one of them is true, and the body of that branch runs, or the `else` when none
is; a loop tests its condition before every round.  Nothing is known about values, so
the outcomes of the conditions are given, as the list of them in the order in which
they are tested.

`Executes` relates a statement to the outcomes that it uses up and to the
instructions that it executes.  It speaks of trees and knows neither labels nor
jumps.  It is defined by its finite executions: a loop that never ends has none.

A definition in the middle of a body executes what it leaves there, which makes the
routine or runs the static method of the type.  The bodies inside the definition are
no part of it.

## Labels

A jump finds its label only if the label is placed once in the method.  Labels are
numbered through a whole compilation, so the bodies of nested definitions, whose code
goes elsewhere, take numbers away in the middle of a method.  `Issued m n code` says
that the labels placed in `code` are distinct and were given out between the counts
`m` and `n`; code of consecutive counts can be put together.

## Equations

Lowering is a state monad.  The equations `run_…` say what each construct returns and
which state it leaves, once, and nothing below looks into the monad again.
-/

namespace Unnest.Lowering

open Code

variable (a : Analysis) (site : Site)

/-! ## The structured reading -/

/-- The instructions that test a condition, without the jump at their end. -/
def testCode (condition : Expr) : List Instruction :=
  (expr a site condition).code ++
    [.getField ⟨a.types.path .bool, Reserved.boolFlag, "I"⟩]

/-- What a routine definition leaves where it stands. -/
def routineHere (r : RoutineDef) : Fragment :=
  match a.findings.routines.find? r.node with
  | some finding => bindRoutine a site finding
  | none => .gap

/-- What a type definition leaves where it stands. -/
def typeHere (t : TypeDef) : Fragment :=
  match a.findings.types.find? t.node with
  | some finding => initType a site finding
  | none => .gap

mutual

/-- A statement uses up these outcomes and executes these instructions. -/
inductive Executes : Stmt → List Bool → List Instruction → Prop
  | declare (d : VarDecl) : Executes (.declare d) [] (varDecl a d).code
  | define (d : InitDecl) : Executes (.define d) [] (initDecl a site d).code
  | assign (x : Assignment) : Executes (.assign x) [] (assign a site x).code
  | call (c : Chain) : Executes (.call c) [] (callStmt a site c).code
  | routine (r : RoutineDef) : Executes (.routine r) [] (routineHere a site r).code
  | type (t : TypeDef) : Executes (.type t) [] (typeHere a site t).code
  | branch {gs : List Guarded} {otherwise : Else} {span : Span} {os : List Bool}
      {tr : List Instruction} (h : Chooses gs otherwise os tr) :
      Executes (.branch gs otherwise span) os tr
  /-- The condition is false, and the loop is over. -/
  | loopEnd (node : NodeId) (condition : Expr) (body : List Stmt) (span : Span) :
      Executes (.loop ⟨node, condition, body, span⟩) [false] (testCode a site condition)
  /-- The condition is true, and the loop goes on after its body. -/
  | loopAgain {node : NodeId} {condition : Expr} {body : List Stmt} {span : Span}
      {os os' : List Bool} {tr tr' : List Instruction} (round : ExecutesAll body os tr)
      (rest : Executes (.loop ⟨node, condition, body, span⟩) os' tr') :
      Executes (.loop ⟨node, condition, body, span⟩) (true :: (os ++ os'))
        (testCode a site condition ++ tr ++ tr')

/-- Statements, in order. -/
inductive ExecutesAll : List Stmt → List Bool → List Instruction → Prop
  | nil : ExecutesAll [] [] []
  | cons {s : Stmt} {ss : List Stmt} {os os' : List Bool} {tr tr' : List Instruction}
      (first : Executes s os tr) (rest : ExecutesAll ss os' tr') :
      ExecutesAll (s :: ss) (os ++ os') (tr ++ tr')

/-- The branches of an `if` that are left, and its `else`. -/
inductive Chooses : List Guarded → Else → List Bool → List Instruction → Prop
  | absent : Chooses [] .absent [] []
  | otherwise {node : NodeId} {body : List Stmt} {span : Span} {os : List Bool}
      {tr : List Instruction} (h : ExecutesAll body os tr) :
      Chooses [] (.block node body span) os tr
  /-- The condition is true, and the other branches are passed over. -/
  | taken {node : NodeId} {condition : Expr} {body : List Stmt} {span : Span}
      (gs : List Guarded) (otherwise : Else) {os : List Bool} {tr : List Instruction}
      (h : ExecutesAll body os tr) :
      Chooses (⟨node, condition, body, span⟩ :: gs) otherwise (true :: os)
        (testCode a site condition ++ tr)
  /-- The condition is false, and the next branch is tried. -/
  | next (node : NodeId) (condition : Expr) (body : List Stmt) (span : Span)
      {gs : List Guarded} {otherwise : Else} {os : List Bool} {tr : List Instruction}
      (h : Chooses gs otherwise os tr) :
      Chooses (⟨node, condition, body, span⟩ :: gs) otherwise (false :: os)
        (testCode a site condition ++ tr)

end

/-! ## What each construct is lowered to -/

theorem run_place (f : Fragment) (o : Output) :
    (Lower.place f).run o = (f.code, { o with gaps := o.gaps + f.gaps }) := rfl

theorem run_stmts_nil (o : Output) : (stmts a site []).run o = ([], o) := by
  rw [stmts]; rfl

theorem run_stmts_cons (s : Stmt) (ss : List Stmt) (o : Output) :
    (stmts a site (s :: ss)).run o =
      (((stmt a site s).run o).1 ++ ((stmts a site ss).run ((stmt a site s).run o).2).1,
        ((stmts a site ss).run ((stmt a site s).run o).2).2) := by
  rw [stmts]; rfl

theorem run_branch (done : Label) (node : NodeId) (condition : Expr) (body : List Stmt)
    (span : Span) (o : Output) :
    (branch a site done ⟨node, condition, body, span⟩).run o =
      let test := jumpUnless a site condition ⟨o.labels + 1⟩
      let r := (stmts a site body).run
        { o with labels := o.labels + 1, gaps := o.gaps + test.gaps }
      (test.code ++ r.1 ++ [.jump done, .label ⟨o.labels + 1⟩], r.2) := by
  rw [branch]; rfl

theorem run_branches_nil (done : Label) (o : Output) :
    (branches a site done []).run o = ([], o) := by
  rw [branches]; rfl

theorem run_branches_cons (done : Label) (g : Guarded) (gs : List Guarded) (o : Output) :
    (branches a site done (g :: gs)).run o =
      let r := (branch a site done g).run o
      let q := (branches a site done gs).run r.2
      (r.1 ++ q.1, q.2) := by
  rw [branches]; rfl

theorem run_if (gs : List Guarded) (otherwise : Else) (span : Span) (o : Output) :
    (stmt a site (.branch gs otherwise span)).run o =
      let r := (branches a site ⟨o.labels + 1⟩ gs).run { o with labels := o.labels + 1 }
      let q := (elseBlock a site otherwise).run r.2
      (r.1 ++ q.1 ++ [.label ⟨o.labels + 1⟩], q.2) := by
  rw [stmt]; rfl

theorem run_loop (node : NodeId) (condition : Expr) (body : List Stmt) (span : Span)
    (o : Output) :
    (loop a site ⟨node, condition, body, span⟩).run o =
      let test := jumpUnless a site condition ⟨o.labels + 2⟩
      let r := (stmts a site body).run
        { o with labels := o.labels + 2, gaps := o.gaps + test.gaps }
      (.label ⟨o.labels + 1⟩ :: test.code ++ r.1 ++
        [.jump ⟨o.labels + 1⟩, .label ⟨o.labels + 2⟩], r.2) := by
  rw [loop]; rfl

theorem run_routine_some {r : RoutineDef} {f : RoutineFinding}
    (h : a.findings.routines.find? r.node = some f) (o : Output) :
    (routine a site r).run o =
      let body := (stmts a (routineSite a f) r.body).run o
      let final := routineEnd a f r.ret
      ((bindRoutine a site f).code,
        { body.2 with
          classes := body.2.classes ++ [routineClass a f (body.1 ++ final.code)]
          gaps := body.2.gaps + final.gaps + (bindRoutine a site f).gaps }) := by
  obtain ⟨node, name, closing, params, result, body, ret, span⟩ := r
  rw [routine, h]; rfl

theorem run_routine_none {r : RoutineDef} (h : a.findings.routines.find? r.node = none)
    (o : Output) :
    (routine a site r).run o = ([], { o with gaps := o.gaps + 1 }) := by
  obtain ⟨node, name, closing, params, result, body, ret, span⟩ := r
  rw [routine, h]; rfl

theorem run_memberRoutine_some {r : RoutineDef} {f : RoutineFinding}
    (h : a.findings.routines.find? r.node = some f) (o : Output) :
    (memberRoutine a r).run o =
      let body := (stmts a (routineSite a f) r.body).run o
      let final := routineEnd a f r.ret
      ((), { body.2 with
        classes := body.2.classes ++ [routineClass a f (body.1 ++ final.code)]
        gaps := body.2.gaps + final.gaps }) := by
  obtain ⟨node, name, closing, params, result, body, ret, span⟩ := r
  rw [memberRoutine, h]; rfl

theorem run_memberRoutine_none {r : RoutineDef} (h : a.findings.routines.find? r.node = none)
    (o : Output) : (memberRoutine a r).run o = ((), { o with gaps := o.gaps + 1 }) := by
  obtain ⟨node, name, closing, params, result, body, ret, span⟩ := r
  rw [memberRoutine, h]; rfl

theorem run_memberRoutines_nil (o : Output) : (memberRoutines a []).run o = ((), o) := by
  rw [memberRoutines]; rfl

theorem run_memberRoutines_cons (r : RoutineDef) (rs : List RoutineDef) (o : Output) :
    (memberRoutines a (r :: rs)).run o =
      (memberRoutines a rs).run ((memberRoutine a r).run o).2 := by
  rw [memberRoutines]; rfl

theorem run_typeDef_some {t : TypeDef} {f : TypeFinding}
    (h : a.findings.types.find? t.node = some f) (o : Output) :
    (typeDef a site t).run o =
      let o₁ := ((memberRoutines a t.routines).run o).2
      let o₂ := ((memberRoutines a t.staticRoutines).run o₁).2
      let rs := declaredRoutines a t.routines
      let ss := declaredRoutines a t.staticRoutines
      let init := constructorCode a f rs
      let static := staticInitCode a f ss t.staticFields
      ((initType a site f).code,
        { o₂ with
          classes := o₂.classes ++ [typeClass a f rs ss init.code static.code]
          gaps := o₂.gaps + init.gaps + static.gaps + (initType a site f).gaps }) := by
  obtain ⟨node, name, closing, fields, statics, routines, staticRoutines, span⟩ := t
  rw [typeDef, h]; rfl

theorem run_typeDef_none {t : TypeDef} (h : a.findings.types.find? t.node = none) (o : Output) :
    (typeDef a site t).run o = ([], { o with gaps := o.gaps + 1 }) := by
  obtain ⟨node, name, closing, fields, statics, routines, staticRoutines, span⟩ := t
  rw [typeDef, h]; rfl

/-- A definition leaves what `routineHere` says. -/
theorem code_routine (r : RoutineDef) (o : Output) :
    ((routine a site r).run o).1 = (routineHere a site r).code := by
  unfold routineHere
  cases h : a.findings.routines.find? r.node with
  | some f => rw [run_routine_some a site h]
  | none => rw [run_routine_none a site h]; rfl

/-- A definition leaves what `typeHere` says. -/
theorem code_typeDef (t : TypeDef) (o : Output) :
    ((typeDef a site t).run o).1 = (typeHere a site t).code := by
  unfold typeHere
  cases h : a.findings.types.find? t.node with
  | some f => rw [run_typeDef_some a site h]
  | none => rw [run_typeDef_none a site h]; rfl

theorem code_jumpUnless (condition : Expr) (l : Label) :
    (jumpUnless a site condition l).code = testCode a site condition ++ [.jumpIfZero l] := by
  simp [jumpUnless, testCode]

theorem isPlain_testCode (condition : Expr) : IsPlain (testCode a site condition) := by
  refine isPlain_append.mpr ⟨isPlain_expr a site condition, ?_⟩
  simp [Instruction.isPlain]

theorem isPlain_routineHere (r : RoutineDef) : (routineHere a site r).IsPlain := by
  unfold routineHere
  split
  · exact isPlain_bindRoutine a site _
  · exact Fragment.isPlain_gap

theorem isPlain_typeHere (t : TypeDef) : (typeHere a site t).IsPlain := by
  unfold typeHere
  split
  · exact isPlain_initType a site _
  · exact Fragment.isPlain_gap

/-! ## Labels are placed once -/

/-- The labels of `code` are distinct, and were given out between two counts. -/
structure Issued (m n : Nat) (code : List Instruction) : Prop where
  le : m ≤ n
  nodup : (placedLabels code).Nodup
  bounds : ∀ l ∈ placedLabels code, m < l.number ∧ l.number ≤ n

namespace Issued

variable {m n p : Nat} {c d : List Instruction}

theorem of_isPlain (h : IsPlain c) (hmn : m ≤ n) : Issued m n c := by
  have hc := placedLabels_of_isPlain h
  exact ⟨hmn, by rw [hc]; exact List.nodup_nil, by rw [hc]; exact List.forall_mem_nil _⟩

theorem append (hc : Issued m n c) (hd : Issued n p d) : Issued m p (c ++ d) where
  le := Nat.le_trans hc.le hd.le
  nodup := by
    rw [placedLabels_append]
    refine List.nodup_append'.mpr ⟨hc.nodup, hd.nodup, fun l hlc hld => ?_⟩
    have h₁ := (hc.bounds l hlc).2
    have h₂ := (hd.bounds l hld).1
    omega
  bounds := by
    rw [placedLabels_append]
    intro l hl
    rcases List.mem_append.mp hl with h | h
    · exact ⟨(hc.bounds l h).1, Nat.le_trans (hc.bounds l h).2 hd.le⟩
    · exact ⟨Nat.lt_of_le_of_lt hc.le (hd.bounds l h).1, (hd.bounds l h).2⟩

/-- Code that places no labels may stand in front. -/
theorem plain_append (hd : IsPlain d) (hc : Issued m n c) : Issued m n (d ++ c) :=
  append (of_isPlain hd (Nat.le_refl m)) hc

/-- The next label may be given out first and placed last. -/
theorem snoc_label (hc : Issued (m + 1) n c) : Issued m n (c ++ [.label ⟨m + 1⟩]) := by
  have hlast : placedLabels [.label ⟨m + 1⟩] = [⟨m + 1⟩] := rfl
  have hle := hc.le
  refine ⟨by omega, ?_, ?_⟩
  · rw [placedLabels_append, hlast]
    refine List.nodup_append'.mpr ⟨hc.nodup, List.nodup_singleton _, fun l hl hl' => ?_⟩
    have hb := (hc.bounds l hl).1
    rw [List.mem_singleton.mp hl'] at hb
    exact Nat.lt_irrefl _ hb
  · rw [placedLabels_append, hlast]
    intro l hl
    rcases List.mem_append.mp hl with h | h
    · have hb := hc.bounds l h
      omega
    · rw [List.mem_singleton.mp h]
      exact ⟨Nat.lt_succ_self m, hc.le⟩

/-- Jumps place nothing. -/
theorem of_placedLabels_eq (h : placedLabels d = placedLabels c) (hc : Issued m n c) :
    Issued m n d :=
  ⟨hc.le, h ▸ hc.nodup, h ▸ hc.bounds⟩

end Issued

theorem issued_place {f : Fragment} (h : f.IsPlain) (o : Output) :
    Issued o.labels ((Lower.place f).run o).2.labels ((Lower.place f).run o).1 :=
  Issued.of_isPlain h (Nat.le_refl _)

mutual

/-- A statement places labels that it took, each once. -/
theorem issued_stmt (site : Site) : ∀ (s : Stmt) (o : Output),
    Issued o.labels ((stmt a site s).run o).2.labels ((stmt a site s).run o).1
  | .declare d, o => by
    rw [stmt]
    exact issued_place (isPlain_varDecl a d) o
  | .define d, o => by
    rw [stmt]
    exact issued_place (isPlain_initDecl a site d) o
  | .assign x, o => by
    rw [stmt]
    exact issued_place (isPlain_assign a site x) o
  | .call c, o => by
    rw [stmt]
    exact issued_place (isPlain_callStmt a site c) o
  | .branch gs otherwise span, o => by
    rw [run_if]
    exact Issued.snoc_label (Issued.append
      (issued_branches site ⟨o.labels + 1⟩ gs { o with labels := o.labels + 1 })
      (issued_elseBlock site otherwise _))
  | .loop g, o => by
    rw [stmt]
    exact issued_loop site g o
  | .routine r, o => by
    rw [stmt]
    refine Issued.of_isPlain ?_ (labels_le_routine site r o)
    rw [code_routine]
    exact isPlain_routineHere a site r
  | .type t, o => by
    rw [stmt]
    refine Issued.of_isPlain ?_ (labels_le_typeDef site t o)
    rw [code_typeDef]
    exact isPlain_typeHere a site t

theorem issued_branch (site : Site) (done : Label) : ∀ (g : Guarded) (o : Output),
    Issued o.labels ((branch a site done g).run o).2.labels ((branch a site done g).run o).1
  | ⟨node, condition, body, span⟩, o => by
    rw [run_branch]
    dsimp only
    have hbody := issued_stmts site body { o with labels := o.labels + 1, gaps := o.gaps +
      (jumpUnless a site condition ⟨o.labels + 1⟩).gaps }
    refine Issued.of_placedLabels_eq ?_
      (Issued.snoc_label (Issued.plain_append (isPlain_testCode a site condition) hbody))
    rw [code_jumpUnless]
    simp only [placedLabels_append, placedLabels_jump, placedLabels_jumpIfZero,
      placedLabels_nil, List.append_nil]

theorem issued_loop (site : Site) : ∀ (g : Guarded) (o : Output),
    Issued o.labels ((loop a site g).run o).2.labels ((loop a site g).run o).1
  | ⟨node, condition, body, span⟩, o => by
    rw [run_loop]
    dsimp only
    have hbody := issued_stmts site body { o with labels := o.labels + 2, gaps := o.gaps +
      (jumpUnless a site condition ⟨o.labels + 2⟩).gaps }
    have htop : Issued o.labels (o.labels + 1) [.label ⟨o.labels + 1⟩] :=
      Issued.snoc_label (c := []) (Issued.of_isPlain isPlain_nil (Nat.le_refl _))
    refine Issued.of_placedLabels_eq ?_ (Issued.append htop
      (Issued.snoc_label (Issued.plain_append (isPlain_testCode a site condition) hbody)))
    rw [code_jumpUnless]
    simp only [List.cons_append, List.nil_append, placedLabels_append, placedLabels_label,
      placedLabels_jump, placedLabels_jumpIfZero, placedLabels_nil, List.append_nil]

theorem issued_elseBlock (site : Site) : ∀ (e : Else) (o : Output),
    Issued o.labels ((elseBlock a site e).run o).2.labels ((elseBlock a site e).run o).1
  | .absent, o => by
    rw [elseBlock]
    exact Issued.of_isPlain isPlain_nil (Nat.le_refl _)
  | .block _ body _, o => by
    rw [elseBlock]
    exact issued_stmts site body o

/-- The body of a routine takes labels, and none of them is placed around it. -/
theorem labels_le_routine (site : Site) : ∀ (r : RoutineDef) (o : Output),
    o.labels ≤ ((routine a site r).run o).2.labels
  | ⟨node, name, closing, params, result, body, ret, span⟩, o => by
    cases h : a.findings.routines.find? node with
    | some f =>
      rw [run_routine_some a site h]
      exact (issued_stmts (routineSite a f) body o).le
    | none =>
      rw [run_routine_none a site h]

theorem labels_le_memberRoutine : ∀ (r : RoutineDef) (o : Output),
    o.labels ≤ ((memberRoutine a r).run o).2.labels
  | ⟨node, name, closing, params, result, body, ret, span⟩, o => by
    cases h : a.findings.routines.find? node with
    | some f =>
      rw [run_memberRoutine_some a h]
      exact (issued_stmts (routineSite a f) body o).le
    | none =>
      rw [run_memberRoutine_none a h]

theorem labels_le_typeDef (site : Site) : ∀ (t : TypeDef) (o : Output),
    o.labels ≤ ((typeDef a site t).run o).2.labels
  | ⟨node, name, closing, fields, statics, routines, staticRoutines, span⟩, o => by
    cases h : a.findings.types.find? node with
    | some f =>
      rw [run_typeDef_some a site h]
      exact Nat.le_trans (labels_le_memberRoutines routines o)
        (labels_le_memberRoutines staticRoutines _)
    | none =>
      rw [run_typeDef_none a site h]

theorem issued_stmts (site : Site) : ∀ (ss : List Stmt) (o : Output),
    Issued o.labels ((stmts a site ss).run o).2.labels ((stmts a site ss).run o).1
  | [], o => by
    rw [run_stmts_nil]
    exact Issued.of_isPlain isPlain_nil (Nat.le_refl _)
  | s :: ss, o => by
    rw [run_stmts_cons]
    exact Issued.append (issued_stmt site s o) (issued_stmts site ss _)

theorem issued_branches (site : Site) (done : Label) : ∀ (gs : List Guarded) (o : Output),
    Issued o.labels ((branches a site done gs).run o).2.labels ((branches a site done gs).run o).1
  | [], o => by
    rw [run_branches_nil]
    exact Issued.of_isPlain isPlain_nil (Nat.le_refl _)
  | g :: gs, o => by
    rw [run_branches_cons]
    exact Issued.append (issued_branch site done g o) (issued_branches site done gs _)

theorem labels_le_memberRoutines : ∀ (rs : List RoutineDef) (o : Output),
    o.labels ≤ ((memberRoutines a rs).run o).2.labels
  | [], o => by
    rw [run_memberRoutines_nil]
  | r :: rs, o => by
    rw [run_memberRoutines_cons]
    exact Nat.le_trans (labels_le_memberRoutine r o) (labels_le_memberRoutines rs _)

end

/-! ## Running the code of a body -/

variable {a site}

/-- Where the code of a test stands, the machine executes it and comes to the jump. -/
theorem arrives_test {code : List Instruction} {condition : Expr} {l : Label} {k : Nat}
    (h : StandsAt code k (jumpUnless a site condition l).code) (os : List Bool)
    (t : List Instruction) :
    Arrives code ⟨k, os, t⟩
        ⟨k + (testCode a site condition).length, os, t ++ testCode a site condition⟩ ∧
      code[k + (testCode a site condition).length]? = some (.jumpIfZero l) := by
  rw [code_jumpUnless, StandsAt.append_iff] at h
  exact ⟨arrives_of_isPlain (isPlain_testCode a site condition) h.1,
    (StandsAt.cons_iff.mp h.2).1⟩

mutual

/-- The machine executes the code of a statement as the statement is read. -/
theorem arrives_stmt {code : List Instruction} (hu : (placedLabels code).Nodup) {s : Stmt}
    {os : List Bool} {tr : List Instruction} (h : Executes a site s os tr) (k : Nat) (o : Output)
    (hk : StandsAt code k ((stmt a site s).run o).1) (rest : List Bool) (t : List Instruction) :
    Arrives code ⟨k, os ++ rest, t⟩
      ⟨k + ((stmt a site s).run o).1.length, rest, t ++ tr⟩ := by
  match h with
  | .declare d =>
    rw [stmt] at hk ⊢
    exact arrives_of_isPlain (isPlain_varDecl a d) hk
  | .define d =>
    rw [stmt] at hk ⊢
    exact arrives_of_isPlain (isPlain_initDecl a site d) hk
  | .assign x =>
    rw [stmt] at hk ⊢
    exact arrives_of_isPlain (isPlain_assign a site x) hk
  | .call c =>
    rw [stmt] at hk ⊢
    exact arrives_of_isPlain (isPlain_callStmt a site c) hk
  | .routine r =>
    rw [stmt, code_routine] at hk ⊢
    exact arrives_of_isPlain (isPlain_routineHere a site r) hk
  | .type d =>
    rw [stmt, code_typeDef] at hk ⊢
    exact arrives_of_isPlain (isPlain_typeHere a site d) hk
  | .branch hc =>
    rw [run_if] at hk ⊢
    dsimp only at hk ⊢
    rw [StandsAt.append_iff, StandsAt.append_iff, StandsAt.cons_iff, List.length_append] at hk
    obtain ⟨⟨hgs, helse⟩, hdone, -⟩ := hk
    rw [← Nat.add_assoc] at hdone
    have hrun := arrives_choice hu hc _ k _ hgs helse hdone rest t
    rw [List.length_append, List.length_append, List.length_singleton, ← Nat.add_assoc,
      ← Nat.add_assoc]
    exact hrun.trans (arrives_label hdone)
  | .loopEnd node condition body span =>
    rw [stmt, run_loop] at hk ⊢
    dsimp only at hk ⊢
    rw [List.cons_append, List.cons_append, StandsAt.cons_iff, StandsAt.append_iff,
      StandsAt.append_iff, StandsAt.cons_iff, StandsAt.cons_iff] at hk
    obtain ⟨htop, ⟨htest, -⟩, -, hdone, -⟩ := hk
    obtain ⟨hrun, hjump⟩ := arrives_test htest (false :: rest) t
    refine (arrives_label htop).trans (hrun.trans ?_)
    refine (arrives_jumpIfZero_false hu hjump hdone).trans ?_
    have hlast := @arrives_label code _ rest (t ++ testCode a site condition) _ hdone
    convert hlast using 2
    simp only [List.length_append, List.length_cons, List.length_nil]
    omega
  | @Executes.loopAgain _ _ node condition body span os os' tr tr' round again =>
    have hwhole := hk
    rw [stmt, run_loop] at hk
    dsimp only at hk
    rw [List.cons_append, List.cons_append, StandsAt.cons_iff, StandsAt.append_iff,
      StandsAt.append_iff, StandsAt.cons_iff] at hk
    obtain ⟨htop, ⟨htest, hbody⟩, hback, -⟩ := hk
    obtain ⟨hrun, hjump⟩ := arrives_test htest (true :: (os ++ (os' ++ rest))) t
    have hround := arrives_stmts hu round _ _ hbody (os' ++ rest) (t ++ testCode a site condition)
    have hagain := arrives_stmt hu again k o hwhole rest (t ++ testCode a site condition ++ tr)
    rw [List.length_append, ← Nat.add_assoc] at hback
    rw [List.cons_append, List.append_assoc os, ← List.append_assoc t, ← List.append_assoc t]
    refine (arrives_label htop).trans (hrun.trans ?_)
    refine (arrives_jumpIfZero_true hjump).trans ?_
    rw [code_jumpUnless, List.length_append, List.length_singleton, ← Nat.add_assoc] at hround hback
    exact hround.trans ((arrives_jump hu hback htop).trans hagain)

/-- The machine executes the code of statements as they are read. -/
theorem arrives_stmts {code : List Instruction} (hu : (placedLabels code).Nodup) {ss : List Stmt}
    {os : List Bool} {tr : List Instruction} (h : ExecutesAll a site ss os tr) (k : Nat)
    (o : Output) (hk : StandsAt code k ((stmts a site ss).run o).1) (rest : List Bool)
    (t : List Instruction) :
    Arrives code ⟨k, os ++ rest, t⟩
      ⟨k + ((stmts a site ss).run o).1.length, rest, t ++ tr⟩ := by
  match h with
  | .nil =>
    rw [run_stmts_nil, List.append_nil]
    exact Arrives.refl code _
  | @ExecutesAll.cons _ _ _ _ os os' tr tr' first others =>
    rw [run_stmts_cons] at hk ⊢
    rw [StandsAt.append_iff] at hk
    have hfirst := arrives_stmt hu first k o hk.1 (os' ++ rest) t
    have hothers := arrives_stmts hu others _ _ hk.2 rest (t ++ tr)
    rw [List.append_assoc, List.length_append, ← Nat.add_assoc, ← List.append_assoc t]
    exact hfirst.trans hothers

/-- The machine takes the branch that is chosen, and comes to the label behind the
whole `if`. -/
theorem arrives_choice {code : List Instruction} (hu : (placedLabels code).Nodup)
    {gs : List Guarded} {otherwise : Else} {os : List Bool} {tr : List Instruction}
    (h : Chooses a site gs otherwise os tr) (done : Label) (k : Nat) (o : Output)
    (hgs : StandsAt code k ((branches a site done gs).run o).1)
    (helse : StandsAt code (k + ((branches a site done gs).run o).1.length)
      ((elseBlock a site otherwise).run ((branches a site done gs).run o).2).1)
    (hdone : code[k + ((branches a site done gs).run o).1.length +
      ((elseBlock a site otherwise).run ((branches a site done gs).run o).2).1.length]? =
        some (.label done))
    (rest : List Bool) (t : List Instruction) :
    Arrives code ⟨k, os ++ rest, t⟩
      ⟨k + ((branches a site done gs).run o).1.length +
        ((elseBlock a site otherwise).run ((branches a site done gs).run o).2).1.length,
        rest, t ++ tr⟩ := by
  match h with
  | .absent =>
    rw [run_branches_nil, elseBlock, List.append_nil]
    exact Arrives.refl code _
  | .otherwise hbody =>
    rw [run_branches_nil, elseBlock] at helse ⊢
    exact arrives_stmts hu hbody k o helse rest t
  | @Chooses.taken _ _ node condition body span gs otherwise os tr hbody =>
    rw [run_branches_cons, run_branch] at hgs helse hdone ⊢
    dsimp only at hgs helse hdone ⊢
    rw [StandsAt.append_iff, StandsAt.append_iff, StandsAt.append_iff, StandsAt.cons_iff] at hgs
    obtain ⟨⟨⟨htest, hstmts⟩, hjumpDone, -⟩, -⟩ := hgs
    obtain ⟨hrun, hjump⟩ := arrives_test htest (true :: (os ++ rest)) t
    have hround := arrives_stmts hu hbody _ _ hstmts rest (t ++ testCode a site condition)
    rw [List.length_append, ← Nat.add_assoc] at hjumpDone
    rw [code_jumpUnless, List.length_append, List.length_singleton, ← Nat.add_assoc]
      at hround hjumpDone
    rw [List.cons_append, ← List.append_assoc t]
    refine hrun.trans ((arrives_jumpIfZero_true hjump).trans (hround.trans ?_))
    exact arrives_jump hu hjumpDone hdone
  | @Chooses.next _ _ node condition body span gs otherwise os tr hrest =>
    rw [run_branches_cons] at hgs helse hdone ⊢
    dsimp only at hgs helse hdone ⊢
    rw [StandsAt.append_iff] at hgs
    rw [List.length_append, ← Nat.add_assoc] at helse hdone ⊢
    have hothers := arrives_choice hu hrest done _ _ hgs.2 helse hdone rest
      (t ++ testCode a site condition)
    have hfirst : Arrives code ⟨k, false :: (os ++ rest), t⟩
        ⟨k + ((branch a site done ⟨node, condition, body, span⟩).run o).1.length,
          os ++ rest, t ++ testCode a site condition⟩ := by
      have hbranch := hgs.1
      rw [run_branch] at hbranch ⊢
      dsimp only at hbranch ⊢
      rw [StandsAt.append_iff, StandsAt.append_iff, StandsAt.cons_iff, StandsAt.cons_iff]
        at hbranch
      obtain ⟨⟨htest, -⟩, -, hnext, -⟩ := hbranch
      obtain ⟨hrun, hjump⟩ := arrives_test htest (false :: (os ++ rest)) t
      refine hrun.trans ((arrives_jumpIfZero_false hu hjump hnext).trans ?_)
      have hlast := @arrives_label code _ (os ++ rest) (t ++ testCode a site condition) _ hnext
      convert hlast using 2
      simp only [List.length_append, List.length_cons, List.length_nil]
      omega
    rw [List.cons_append, ← List.append_assoc t]
    exact hfirst.trans hothers

end

end Unnest.Lowering
