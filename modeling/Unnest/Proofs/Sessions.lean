import Unnest.Proofs.Lowering.Extension
import Unnest.Proofs.Lowering.Renumbering
import Unnest.Session

/-!
# Sessions

A session compiles programs, and lowers analyses as they are, one after the other.  All
that one step leaves for the next is the count of labels.

* `labels_of_session`: over a whole session every label that was given out is placed
  once, and every jump finds its label in its own method.
* `compile_renumbers`: what a session compiled before a program only moves its labels.
* `compile_goes_on`: statements that follow change nothing that was compiled before them.
-/

namespace Unnest

open Code Lowering

/-- What a session is asked to do. -/
inductive Request where
  | compile (p : Program)
  /-- Lower an analysis, whether or not it has errors. -/
  | generate (a : Analysis) (p : Program)

namespace Session

/-- The classes that a request leads to, and the session after it. -/
def serve (s : Session) : Request → List ClassFile × Session
  | .compile p => ((s.compile p).1.classes, (s.compile p).2)
  | .generate a p => ((s.generate a p).1.classes, (s.generate a p).2)

/-- The classes that requests lead to one after the other. -/
def serveAll (s : Session) : List Request → List ClassFile × Session
  | [] => ([], s)
  | r :: rs => ((s.serve r).1 ++ ((s.serve r).2.serveAll rs).1, ((s.serve r).2.serveAll rs).2)

/-! ## Labels -/

/-- Between two moments of a session these classes were made: they place the labels that
were given out, and no jump leaves its method. -/
structure Accounts (s : Session) (cs : List ClassFile) (s' : Session) : Prop where
  le : s.labels ≤ s'.labels
  placed : labelsOf cs = labelsBetween s.labels s'.labels
  inside : ∀ c ∈ cs, c.JumpsInside

namespace Accounts

variable {s s₁ s' : Session} {cs ds : List ClassFile}

theorem nothing (s : Session) : Accounts s [] s :=
  ⟨le_rfl, (labelsBetween_self _).symm, List.forall_mem_nil _⟩

theorem append (h : Accounts s cs s₁) (h' : Accounts s₁ ds s') : Accounts s (cs ++ ds) s' where
  le := h.le.trans h'.le
  placed := by rw [labelsOf_append, h.placed, h'.placed, labelsBetween_add h.le h'.le]
  inside := List.forall_mem_append.mpr ⟨h.inside, h'.inside⟩

end Accounts

theorem accounts_generate (s : Session) (a : Analysis) (p : Program) :
    Accounts s (s.generate a p).1.classes (s.generate a p).2 := by
  obtain ⟨hle, hplaced, hinside⟩ := labels_generate a s.program p s.labels
  exact ⟨hle, hplaced, hinside⟩

/-- A rejected program takes no labels. -/
theorem accounts_compile (s : Session) (p : Program) :
    Accounts s (s.compile p).1.classes (s.compile p).2 := by
  rw [compile]
  dsimp only
  split
  · exact .nothing s
  · exact accounts_generate s _ p

theorem accounts_serve (s : Session) (r : Request) : Accounts s (s.serve r).1 (s.serve r).2 := by
  cases r with
  | compile p => exact accounts_compile s p
  | generate a p => exact accounts_generate s a p

theorem accounts_serveAll (s : Session) (rs : List Request) :
    Accounts s (s.serveAll rs).1 (s.serveAll rs).2 := by
  induction rs generalizing s with
  | nil => exact .nothing s
  | cons r rs ih => exact (accounts_serve s r).append (ih _)

/-- Labels over a whole session: the methods of all classes together place the labels from
the first to the last that was given out, each once, and a jump goes to a label of its own
method. -/
theorem labels_of_session (program : String) (rs : List Request) :
    (((Session.mk program 0).serveAll rs).1.flatMap ClassFile.placedLabels).Perm
        ((List.range' 1 ((Session.mk program 0).serveAll rs).2.labels).map Label.mk) ∧
      ∀ c ∈ ((Session.mk program 0).serveAll rs).1, ∀ m ∈ c.methods, ∀ i ∈ m.code,
        ∀ l, i.jumpsTo? = some l → l ∈ placedLabels m.code := by
  have h := accounts_serveAll (Session.mk program 0) rs
  refine ⟨Multiset.coe_eq_coe.mp h.placed, fun c hc m hm i hi l hl => ?_⟩
  exact (h.inside c hc m hm i hi l hl).resolve_right List.not_mem_nil

/-! ## Renumbering -/

/-- What was compiled before a program only moves its labels.  In a session in which `n`
labels were given out, a program has the errors that it has in a new session, and its
classes are the ones of a new session with every label `n` higher. -/
theorem compile_renumbers (s : Session) (p : Program) :
    (s.compile p).1.errors = ((Session.mk s.program 0).compile p).1.errors ∧
      (s.compile p).1.classes =
        ((Session.mk s.program 0).compile p).1.classes.map (ClassFile.shift s.labels) ∧
      (s.compile p).2 =
        { s with labels := s.labels + ((Session.mk s.program 0).compile p).2.labels } := by
  have hgenerate := shift_generate (n := s.labels) (analyze s.program p) s.program p 0
  rw [Nat.zero_add] at hgenerate
  rw [compile, compile]
  dsimp only
  split
  · exact ⟨rfl, rfl, rfl⟩
  · refine ⟨rfl, ?_, ?_⟩
    · simp only [generate, hgenerate]
    · simp only [generate, hgenerate, Nat.add_comm]

/-! ## Going on -/

theorem hasErrors_eq_false_iff (a : Analysis) : a.hasErrors = false ↔ a.errors = [] := by
  rw [Analysis.hasErrors, Bool.not_eq_false', Diagnostics.isEmpty, List.isEmpty_iff, Analysis.errors]

theorem isSuccess_compile (s : Session) (p : Program) :
    (s.compile p).1.isSuccess = true ↔ (analyze s.program p).errors = [] := by
  rw [compile]
  dsimp only
  split
  · exact List.isEmpty_iff
  · rename_i h
    exact iff_of_true rfl ((hasErrors_eq_false_iff _).mp (Bool.not_eq_true _ ▸ h))

theorem classes_compile {s : Session} {p : Program} (h : (analyze s.program p).errors = []) :
    (s.compile p).1.classes =
      (Unnest.generate (analyze s.program p) s.program p s.labels).classes := by
  rw [compile]
  dsimp only
  rw [(hasErrors_eq_false_iff _).mpr h]
  rfl

/-- Later statements never affect earlier ones.  When a program goes on, its errors stay and
come first, and so does everything that is written about its nodes.  If the longer program
is accepted, it extends what the shorter one is compiled to. -/
theorem compile_goes_on (s : Session) {p q : Program} (hpq : p.stmts <+: q.stmts)
    (hq : q.nodes.Nodup) :
    (analyze s.program p).errors <+: (analyze s.program q).errors ∧
      (∀ n ∈ p.nodes, (analyze s.program p).findings.AlikeAt (analyze s.program q).findings n) ∧
      ((s.compile q).1.isSuccess = true →
        ExtendedBy (analyze s.program p) (analyze s.program q) s.program
          (s.compile p).1.classes (s.compile q).1.classes) := by
  have hbegun := (Analysis.grows_later s.program hpq).errors
  refine ⟨hbegun, Analysis.alike_later s.program hpq hq, fun hsuccess => ?_⟩
  have herrors := (isSuccess_compile s q).mp hsuccess
  have hnone : (analyze s.program p).errors = [] := List.prefix_nil.mp (herrors ▸ hbegun)
  rw [classes_compile hnone, classes_compile herrors]
  exact extendedBy_generate s.program hpq hq hnone s.labels

theorem compile_goes_on_nested :
    ExtendedBy (analyze "demo" ⟨nested.stmts.take 2, nested.span⟩) (analyze "demo" nested) "demo"
      ((Session.mk "demo" 0).compile ⟨nested.stmts.take 2, nested.span⟩).1.classes
      ((Session.mk "demo" 0).compile nested).1.classes := by
  have hbegun : (Program.mk (nested.stmts.take 2) nested.span).stmts <+: nested.stmts := by
    dsimp only
    exact List.take_prefix 2 nested.stmts
  obtain ⟨-, -, hextended⟩ := compile_goes_on ⟨"demo", 0⟩ hbegun nodup_nested
  exact hextended ((isSuccess_compile ⟨"demo", 0⟩ nested).mpr Analysis.errors_nested)

end Session

end Unnest
