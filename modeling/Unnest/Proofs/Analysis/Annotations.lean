import Unnest.Proofs.Analysis.History
import Unnest.Proofs.Tree.Pieces

/-!
# Annotations are written once

What an analysis does to its findings is a sequence of steps (`Advances`).  A step writes
under a key of the tree that nothing was written under, or a routine that is on record
learns at the end of its body what it has captured.  Nothing else is ever changed.

The keys of a tree are distinct, and an analysis writes no others.  Since every write adds a
key, none can be written under twice.
-/

namespace Unnest

namespace Findings

variable {f g i : Findings} {k : Key}

theorem Adds.writes (h : f.Adds k g) : f.Writes k g := by
  cases h <;> constructor

/-- Whatever is written stays as it is, but for the captures of routines. -/
structure Kept (f g : Findings) : Prop where
  keys : f.keys ≤ g.keys
  alike : ∀ k ∈ f.keys, k.1 ≠ .routines → f.Alike g k
  routines : ∀ n x, f.routines.find? n = some x →
    ∃ sources, g.routines.find? n = some { x with captures := sources }

namespace Kept

theorem refl (f : Findings) : Kept f f :=
  ⟨le_refl _, fun k _ _ => .refl f k, fun _ x hx => ⟨x.captures, hx⟩⟩

theorem trans (h : Kept f g) (h' : Kept g i) : Kept f i where
  keys := h.keys.trans h'.keys
  alike k hk hne := (h.alike k hk hne).trans (h'.alike k (Multiset.mem_of_le h.keys hk) hne)
  routines n x hx := by
    obtain ⟨_, hy⟩ := h.routines n x hx
    obtain ⟨sources, hz⟩ := h'.routines n _ hy
    exact ⟨sources, hz⟩

/-- Nothing is overwritten under a key that is free. -/
theorem of_adds (h : f.Adds k g) (hk : k ∉ f.keys) : Kept f g where
  keys := h.keys_eq ▸ Multiset.le_add_left _ _
  alike j hj _ := h.writes.alike (by rintro rfl; exact hk hj)
  routines n x hx := by
    have hj : (.routines, n) ≠ k := by
      rintro rfl
      exact hk (mem_keys_routines hx)
    exact ⟨x.captures, Eq.trans (h.writes.alike hj) hx⟩

theorem complete (f : Findings) (node : NodeId) (sources : List CaptureSource) :
    Kept f (f.complete node sources) where
  keys := le_of_eq (Analysis.keys_complete f node sources).symm
  alike k _ hk := (Writes.captures node sources).alike fun heq => hk (congrArg Prod.fst heq)
  routines n x hx := by
    have hfind := NodeTable.find?_change f.routines node n ({ · with captures := sources })
    rw [hx] at hfind
    split at hfind
    · exact ⟨sources, hfind⟩
    · exact ⟨x.captures, hfind⟩

end Kept

/-- Where a routine is not on record, there is nothing to complete. -/
theorem complete_of_not_mem {node : NodeId} (h : (.routines, node) ∉ f.keys)
    (sources : List CaptureSource) : f.complete node sources = f := by
  have hchange : f.routines.change node ({ · with captures := sources }) = f.routines := by
    refine (List.map_congr_left fun e he => if_neg ?_).trans (List.map_id _)
    rintro rfl
    have hmem : (.routines, e.1) ∈ f.routines.keysIn .routines :=
      Multiset.mem_coe.mpr (List.mem_map_of_mem he)
    exact h (by simp only [keys, Multiset.mem_add, hmem, true_or, or_true])
  rw [complete, hchange]

end Findings

namespace Analysis

open Analyze Relation

variable {P : Permit} {program : String} {q : Program} {a b c : Analysis}

/-- What a step of an analysis does to the findings. -/
inductive Advances (q : Program) (a b : Analysis) : Prop
  | aside (h : b.findings = a.findings)
  /-- Something is written under a key of the tree, where nothing was. -/
  | writes {k : Key} (h : a.findings.Adds k b.findings) (key : k ∈ q.keys)
      (free : k ∉ a.findings.keys)
  /-- A routine that is on record learns at the end of its body what its scope has captured. -/
  | completes {d : DeclaredRoutine} {r : RoutineDef} {s : Analysis}
      (body : ((bodyCaptures d r).run s).2 = a) (recorded : (.routines, r.node) ∈ a.findings.keys)
      (h : b.findings = a.findings.complete r.node ((bodyCaptures d r).run s).1)

theorem Advances.kept (h : Advances q a b) : a.findings.Kept b.findings := by
  cases h with
  | aside h => exact h ▸ .refl _
  | writes h _ free => exact .of_adds h free
  | completes _ _ h => exact h ▸ .complete _ _ _

/-- One step after the other. -/
abbrev Course (q : Program) : Analysis → Analysis → Prop := ReflTransGen (Advances q)

theorem Course.kept (h : Course q a b) : a.findings.Kept b.findings := by
  induction h with
  | refl => exact .refl _
  | tail _ h ih => exact ih.trans h.kept

/-! ## Changes as steps -/

/-- As long as no key is written under that the tree does not have, and none as often as
twice, a change is a step. -/
theorem Change.advances (h : Change P a b) (hb : b.findings.keys ≤ q.keys)
    (hq : q.keys.Nodup) : Advances q a b := by
  cases h with
  | aside _ findings => exact .aside findings
  | declareType | types => exact .aside rfl
  | @record k f h =>
    -- A write adds its key to the others, so a key that was there would be there twice.
    have hkeys : {k} + a.findings.keys ≤ q.keys := h.keys_eq ▸ hb
    have hmem : k ∈ {k} + a.findings.keys :=
      Multiset.mem_add.mpr (.inl (Multiset.mem_singleton_self k))
    have hnodup := Multiset.nodup_of_le hkeys hq
    rw [Multiset.singleton_add, Multiset.nodup_cons] at hnodup
    exact .writes h (Multiset.mem_of_le hkeys hmem) hnodup.1
  | @complete d r s body =>
    -- The body of a routine is analysed after it is declared, but no invariant is needed for
    -- that: without a record, nothing changes.
    by_cases hr : (.routines, r.node) ∈ a.findings.keys
    · exact .completes body hr rfl
    · exact .aside (Findings.complete_of_not_mem hr _)

theorem Changes.course (h : Changes P a b) (hb : b.findings.keys ≤ q.keys) (hq : q.keys.Nodup) :
    Course q a b := by
  induction h with
  | refl => exact .refl
  | tail _ h ih => exact (ih (h.keys_le.trans hb)).tail (h.advances hb hq)

/-- An analysis writes under the keys of its tree. -/
theorem keys_analyze (program : String) (q : Program) :
    (analyze program q).findings.keys ≤ q.keys := by
  have hkeys := (outcome_analyze program q).walk.keys_le
  rwa [keys_initial, add_zero] at hkeys

end Analysis

open Analysis in
/-- In a program that is built of pieces, each of them used once, the nodes are in order.
Whatever is written when it is analysed is written under a key that is free, and stays as it
is, but for the captures of a routine that come with the end of its body. -/
theorem Builder.Builds.annotated_once {c : Cursor} {q : Program} (h : Builds c q)
    (program : String) : q.Numbered c.nextNode ∧
    ∀ a, Attained program q a → a.findings.keys.Nodup ∧
      Course q (blank program) a ∧ Course q a (analyze program q) ∧
      a.findings.Kept (analyze program q).findings := by
  have hnumbered := h.numbered
  refine ⟨hnumbered, fun a ha => ?_⟩
  have hq := Program.nodup_keys hnumbered.nodup
  have hend := keys_analyze program q
  have hkeys := ha.after.keys_le.trans hend
  have hafter : Course q a (analyze program q) := ha.after.course hend hq
  exact ⟨Multiset.nodup_of_le hkeys hq, ha.before.course hkeys hq, hafter, hafter.kept⟩

open Builder in
/--
A routine that is closed twice.  It uses the link that is built first of all:
```
integer k = 1
routine f()
  integer n = k
end f
```
-/
def closedTwice : Program := (StateT.run (do
  let link ← bareLink "k"
  let one ← literal (.int 1)
  let k ← initDecl (← namedType "integer") ["k"] one
  let n ← initDecl (← namedType "integer") ["n"] (.chain (← chain [link]))
  let f ← closeRoutine (← routine "f" [] none [.define n] none) "f"
  return program [.define k, .routine f]) {} : Id _).1

open Builder in
theorem builds_closedTwice : Builds ⟨7, 1⟩ closedTwice := by
  let integer : WrittenType := .named ⟨"integer", .ofLine 1⟩
  have hlink : Bench ⟨1, 1⟩ _ := .make .start (.refl []) (.bareLink "k")
  have hone : Bench ⟨2, 1⟩ _ := .make hlink (.refl _) (.literal (.int 1))
  have hk : Bench ⟨3, 1⟩ _ := .make hone (.refl _) (.initDecl integer ["k"] _)
  have hchain : Bench ⟨4, 1⟩ _ := .make hk (.swap _ _ []) (.chain [_])
  have hvalue : Bench ⟨4, 1⟩ _ := .make hchain (.refl _) (.chainExpr _)
  have hn : Bench ⟨5, 1⟩ _ := .make hvalue (.refl _) (.initDecl integer ["n"] _)
  have hbody : Bench ⟨5, 1⟩ _ := .make hn (.refl _) (.defineStmt _)
  have hf : Bench ⟨6, 1⟩ _ := .make hbody (.refl _) (.routine "f" [] none [_] none)
  have hclosed : Bench ⟨7, 1⟩ _ := .make hf (.refl _) (.closeRoutine _ "f")
  have hlast : Bench ⟨7, 1⟩ _ := .make hclosed (.refl _) (.routineStmt _)
  have hfirst : Bench ⟨7, 1⟩ _ := .make hlast (.swap _ _ []) (.defineStmt _)
  exact .program hfirst [_, _] (.refl _)

open Analysis in
/-- The routine has the node that it was closed with, and its record learns its capture. -/
theorem Builder.annotated_once_closedTwice : Builder.Builds ⟨7, 1⟩ closedTwice ∧
    closedTwice.nodes = [⟨2⟩, ⟨1⟩, ⟨6⟩, ⟨4⟩, ⟨3⟩, ⟨0⟩] ∧ closedTwice.Numbered 7 ∧
    (analyze "demo" closedTwice).errors = [] ∧
    (analyze "demo" closedTwice).findings.routines.map (fun e => (e.1, e.2.captures.map (·.name))) =
      [(⟨6⟩, ["k"])] ∧
    (analyze "demo" closedTwice).findings.keys.Nodup ∧
    Course closedTwice (.blank "demo") (analyze "demo" closedTwice) := by
  obtain ⟨hnumbered, h⟩ := builds_closedTwice.annotated_once "demo"
  obtain ⟨hkeys, hcourse, -⟩ := h _ (attained_analyze _ _)
  exact ⟨builds_closedTwice, by decide, hnumbered, by decide +kernel, by decide +kernel, hkeys,
    hcourse⟩

end Unnest
