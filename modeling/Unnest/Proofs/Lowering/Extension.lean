import Unnest.Proofs.Analysis.Program
import Unnest.Proofs.Analysis.Sparing
import Unnest.Proofs.Lowering.Agreement
import Unnest.Proofs.Lowering.Order
import Unnest.Proofs.Lowering.Signatures
import Unnest.Session

/-!
# Programs that go on

Statements that follow change nothing that was compiled before them
(`Session.compile_goes_on`).

The analysis of a program that goes on is the analysis of what follows, from where the
analysis of the program ended.  What follows is in the body of the program: it owns that
body and what it opens itself, and so everything inside of the definitions before it stays
(`Analysis.spares_later`).  What is written about the nodes before it stays as well, and no
error is taken back (`Analysis.grows_later`, `Analysis.alike_later`).

So the analysis of the longer program agrees with that of the shorter one
(`agrees_later`), and the statements that they share are lowered to the same
code and the same classes.  What follows adds code behind and classes behind, and the class
that every routine extends gets the methods that it had before.
-/

namespace Unnest

/-! ## The analysis of what follows -/

/-- The parts of a list of statements that goes on. -/
theorem Stmt.allParts_append (xs ys : List Stmt) :
    Stmt.allParts (xs ++ ys) = Stmt.allParts xs ++ Stmt.allParts ys := by
  induction xs with
  | nil => rw [List.nil_append, Stmt.allParts, List.nil_append]
  | cons x xs ih => rw [List.cons_append, Stmt.allParts, Stmt.allParts, ih, List.append_assoc]

namespace Analysis

open Analyze

variable {a : Analysis} {p q : Program}

theorem run_stmts_append (xs ys : List Stmt) (a : Analysis) :
    (stmts (xs ++ ys)).run a = (stmts ys).run ((stmts xs).run a).2 := by
  induction xs generalizing a with
  | nil => rfl
  | cons x xs ih => exact ih ((stmt x).run a).2

theorem analyze_append (program : String) {qs : List Stmt} (hqs : p.stmts ++ qs = q.stmts) :
    analyze program q = ((stmts qs).run (analyze program p)).2 := by
  rw [analyze, analyze, ← hqs, run_stmts_append]

/-- The nodes of a program that goes on are those of its beginning, and more. -/
theorem nodes_sublist (hpq : p.stmts <+: q.stmts) : p.nodes.Sublist q.nodes := by
  obtain ⟨qs, hqs⟩ := hpq
  rw [Program.nodes, Program.nodes, Program.parts, Program.parts, ← hqs, Stmt.allParts_append,
    List.map_append]
  exact List.sublist_append_left _ _

/-! ## Before what follows -/

theorem current_analyze (program : String) (p : Program) :
    (analyze program p).current = Scopes.rootId :=
  (outcome_analyze program p).walk.current_eq.trans (steps_initial program).current_eq

theorem sound_analyze (program : String) (p : Program) : Sound (analyze program p) :=
  (sound_initial program).walk (outcome_analyze program p).walk

section

variable (program : String) (hpq : p.stmts <+: q.stmts)

include hpq

/-- Statements that follow add to the tables. -/
theorem grows_later : Grows (analyze program p) (analyze program q) := by
  obtain ⟨qs, hqs⟩ := hpq
  have ha := sound_analyze program p
  have hkind : ((analyze program p).scopes.get (analyze program p).current).kind.isBody = true := by
    rw [current_analyze, ha.scopes.root_kind]
    rfl
  rw [analyze_append program hqs]
  exact ((analysed_stmts qs).outcome ha hkind).walk.grows

/-- Statements that follow spare what is inside of the definitions before them. -/
theorem spares_later : ∃ K, (q.nodes.Nodup → ∀ n ∈ p.nodes, ∀ t, (t, n) ∉ K) ∧
    Confined (analyze program p).here (analyze program q) ∧
      Spares (analyze program p).here K (analyze program p) (analyze program q) := by
  obtain ⟨qs, hqs⟩ := hpq
  refine ⟨{k | k.2 ∈ (Stmt.allParts qs).map Part.node}, fun hnodup n hn t => ?_, ?_⟩
  · rw [Program.nodes, Program.parts, ← hqs, Stmt.allParts_append, List.map_append] at hnodup
    exact List.disjoint_of_nodup_append hnodup hn
  · have hwrites : ∀ y ∈ Stmt.allParts qs,
        Annotates {k | k.2 ∈ (Stmt.allParts qs).map Part.node} y.node := fun y hy t =>
      List.mem_map_of_mem (f := Part.node) hy
    obtain ⟨hc, hs, -⟩ := keeps_stmts qs hwrites _ (confined_here (sound_analyze program p))
    rw [analyze_append program hqs]
    exact ⟨hc, hs⟩

/-- What is written about a node is not changed by statements that follow. -/
theorem alike_later (hq : q.nodes.Nodup) : ∀ n ∈ p.nodes,
    (analyze program p).findings.AlikeAt (analyze program q).findings n := by
  obtain ⟨K, hK, -, hs⟩ := spares_later program hpq
  exact fun n hn t => hs.findings _ (hK hq n hn t)

end

end Analysis

open Code

namespace Lowering

variable {a b : Analysis} {p q : Program}

/-! ## Agreement -/

/-- The analysis of a program that goes on agrees with that of its beginning. -/
theorem agrees_later (program : String) (hpq : p.stmts <+: q.stmts) :
    Agrees (analyze program p) (analyze program q) := by
  have ha := Analysis.sound_analyze program p
  have hg := Analysis.grows_later program hpq
  obtain ⟨K, -, hc, hs⟩ := Analysis.spares_later program hpq
  have hcur := Analysis.current_analyze program p
  -- A routine is inside of what was there, and it is not the body that goes on.
  have hroutine : ∀ f ∈ (analyze program p).findings.routines.map Prod.snd,
      (analyze program p).scopes.Has f.scope ∧ f.scope ≠ Scopes.rootId ∧
        ((analyze program p).scopes.get f.scope).unit = f.unit := by
    intro f hf
    obtain ⟨e, he, rfl⟩ := List.mem_map.mp hf
    have hr := ha.routines e he
    refine ⟨hr.has, fun hroot => ?_, hr.unit⟩
    have hkind := hr.kind
    rw [hroot, ha.scopes.root_kind] at hkind
    exact absurd hkind (by decide)
  have howns : ∀ f ∈ (analyze program p).findings.routines.map Prod.snd,
      ¬ (analyze program p).here.Owns f.scope := by
    intro f hf ho
    obtain ⟨hhas, hne, -⟩ := hroutine f hf
    rcases ho with ho | ho
    · exact hne (ho.trans hcur)
    · exact absurd hhas (Nat.not_lt_of_le ho)
  have hpath : (analyze program p).scopes.methodPath (analyze program p).here.scope =
      [Scopes.rootId] := by
    rw [Analysis.here, hcur, Scopes.methodPath, ha.scopes.path_root, Scopes.uptoMethod]
    split <;> rfl
  refine ⟨Analysis.grounded_analyze program p, hg.types.base, fun id hid => hs.types id hid,
    fun f hf => hg.units.path_eq ?_, fun f hf => ?_, fun f hf => ?_⟩
  · obtain ⟨hhas, -, hunit⟩ := hroutine f hf
    rw [← hunit]
    exact ha.houses.isSome ha.scopes.toWF hhas
  · refine hs.scopes.methodLocals_eq hc.scopes rfl (howns f hf) ?_
    rw [hpath, List.mem_singleton]
    exact (hroutine f hf).2.1
  · refine hs.scopes.slots f.scope (hroutine f hf).1 ?_
    rw [Scopes.owningMethod, hpath]
    exact (hroutine f hf).2.1

/-- The predefined routines keep their slots. -/
theorem makePredefined_later (program : String) (hpq : p.stmts <+: q.stmts)
    (hp : p.nodes.Nodup) (he : (analyze program p).errors = []) :
    makePredefined (analyze program q) Predefined.routines =
      makePredefined (analyze program p) Predefined.routines := by
  have h := agrees_later program hpq
  have hentries := (Analysis.grows_later program hpq).scopes.entries Scopes.rootId
    (Analysis.sound_analyze program p).scopes.root_has
  have hdeclared := Analysis.predefined_analyze program hp he
  have htypes : ∀ x ∈ Predefined.routines, (analyze program p).types.Has x.2 := fun x hx =>
    Nat.lt_of_lt_of_le ((by decide : ∀ x ∈ Predefined.routines, x.2.index < 6) x hx)
      (Analysis.grows_analyze program p).types.size_le
  generalize Predefined.routines = xs at hdeclared htypes
  induction xs with
  | nil => rfl
  | cons x xs ih =>
    obtain ⟨name, type⟩ := x
    rw [List.forall_mem_cons] at hdeclared htypes
    obtain ⟨⟨x, hx, hname⟩, hdeclared⟩ := hdeclared
    have hbinding : ((analyze program q).scopes.get Scopes.rootId).binding? name =
        ((analyze program p).scopes.get Scopes.rootId).binding? name := by
      obtain ⟨rest, hrest⟩ := hentries
      rw [Scope.binding?, Scope.binding?, ← hrest, List.find?_append]
      exact Option.or_of_isSome (List.find?_isSome.mpr ⟨x, hx, beq_iff_eq.mpr hname⟩)
    rw [makePredefined, makePredefined, hbinding, defaultValue_congr h htypes.1,
      ih hdeclared htypes.2]

/-! ## Code and classes -/

theorem run_stmts_append (z : Analysis) (site : Site) (xs ys : List Stmt) (o : Output) :
    (stmts z site (xs ++ ys)).run o =
      let first := (stmts z site xs).run o
      let rest := (stmts z site ys).run first.2
      (first.1 ++ rest.1, rest.2) := by
  induction xs generalizing o with
  | nil => rw [List.nil_append, run_stmts_nil]; rfl
  | cons x xs ih =>
    rw [List.cons_append, run_stmts_cons, run_stmts_cons, ih]
    dsimp only
    rw [List.append_assoc]

/-- The body of a program that goes on: the code and the classes of its beginning, and then
more. -/
theorem mainBody_later (program : String) (hpq : p.stmts <+: q.stmts) (hq : q.nodes.Nodup)
    (he : (analyze program p).errors = []) (labels : Nat) :
    ∃ rest more, (mainBody (analyze program q) program q labels).1 =
        (mainBody (analyze program p) program p labels).1 ++ rest ∧
      (mainBody (analyze program q) program q labels).2.classes =
        (mainBody (analyze program p) program p labels).2.classes ++ more := by
  have hp := hq.sublist (Analysis.nodes_sublist hpq)
  have hsame : stmts (analyze program q) (mainSite program) p.stmts =
      stmts (analyze program p) (mainSite program) p.stmts :=
    stmts_congr (agrees_later program hpq) p.stmts
      (fun y hy => Analysis.alike_later program hpq hq _ (List.mem_map_of_mem hy))
      fun _ ht => absurd ht (Option.not_mem_none _)
  have hstart := makePredefined_later program hpq hp he
  obtain ⟨qs, hqs⟩ := hpq
  rw [mainBody, mainBody, ← hqs, run_stmts_append, hsame, hstart]
  obtain ⟨more, hmore, -⟩ := appends_stmts (z := analyze program q) qs (mainSite program)
    ((stmts (analyze program p) (mainSite program) p.stmts).run
      { labels, gaps := (makePredefined (analyze program p) Predefined.routines).gaps }).2
  exact ⟨_, more, rfl, hmore⟩

/-! ## The class that every routine extends -/

theorem superPath_mainClass (z : Analysis) (program : String) (code : List Instruction) :
    (mainClass z program code).superPath = Reserved.object := rfl

/-- The class that runs a program with more code uses more signatures. -/
theorem uses_mainClass {base program : String} {code rest : List Instruction} {d : Descriptor}
    (h : Uses base (mainClass a program (code ++ [.returnNothing])) d) :
    Uses base (mainClass b program (code ++ rest ++ [.returnNothing])) d := by
  simp only [Uses, superPath_mainClass] at h ⊢
  obtain ⟨m, hm, huse⟩ := h
  rcases List.mem_cons.mp hm with rfl | hm
  · exact ⟨_, List.mem_cons_self, huse⟩
  · obtain rfl := List.mem_singleton.mp hm
    refine ⟨_, List.mem_cons_of_mem _ List.mem_cons_self, huse.imp_left fun hcode => ?_⟩
    rcases List.mem_append.mp hcode with hcode | hcode
    · exact List.mem_append_left _ (List.mem_append_left _ hcode)
    · exact List.mem_append_right _ hcode

/-- Classes of a program that goes on.  The class that runs it has the code that it had, and
more before it returns.  The classes of the definitions are the ones that were there, and
others behind them.  The class that every routine extends has the methods that it had. -/
def ExtendedBy (a b : Analysis) (program : String) (cs cs' : List ClassFile) : Prop :=
  ∃ code rest units more base ds es,
    cs = mainClass a program (code ++ [.returnNothing]) :: (units ++ [baseClass base ds]) ∧
      cs' = mainClass b program (code ++ rest ++ [.returnNothing]) ::
        (units ++ more ++ [baseClass base es]) ∧
      (baseClass base ds).methods ⊆ (baseClass base es).methods

/-- A program that goes on extends what its beginning is lowered to. -/
theorem extendedBy_generate (program : String) (hpq : p.stmts <+: q.stmts) (hq : q.nodes.Nodup)
    (he : (analyze program p).errors = []) (labels : Nat) :
    ExtendedBy (analyze program p) (analyze program q) program
      (generate (analyze program p) program p labels).classes
      (generate (analyze program q) program q labels).classes := by
  have hp := hq.sublist (Analysis.nodes_sublist hpq)
  obtain ⟨rest, more, hcode, hclasses⟩ := mainBody_later program hpq hq he labels
  have hstart := makePredefined_later program hpq hp he
  have hbase := (agrees_later program hpq).base
  rw [classes_eq, classes_eq, hbase, programClasses, programClasses, hstart, hcode, hclasses,
    ← List.append_assoc _ _ rest]
  refine ⟨_, rest, _, more, _, _, _, rfl, rfl, ?_⟩
  refine List.cons_subset_cons _ (List.map_subset _ fun d hd => ?_)
  obtain ⟨c, hc, huse⟩ := mem_usedSignatures.mp hd
  refine mem_usedSignatures.mpr ?_
  rcases List.mem_cons.mp hc with rfl | hc
  · exact ⟨_, List.mem_cons_self, uses_mainClass huse⟩
  · exact ⟨c, List.mem_cons_of_mem _ (List.mem_append_left _ hc), huse⟩

end Lowering

end Unnest
