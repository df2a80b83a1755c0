import Unnest.Proofs.Analysis.Reached
import Unnest.Proofs.Analysis.Sparing

/-!
# The discipline of statements

Statements are analysed in a scope, and the analysis moves from scope to scope on the way:
into blocks and the bodies of routines, into types and back.  Whatever errors it meets, it
comes back to where it was.  What it adds to the tables, it adds in that scope and inside of
it, and on the outside it leaves nothing but captures, which stand on the way out, and
slots in the method that the statements are in (`Disciplined`).

This is what a walk spares that starts in the scope (`Analysis.Spares`), with what was opened
on the way put in its place (`Scopes.Confined.mem_path`).  The scope need not be one that
statements stand in.
-/

namespace Unnest.Analysis

open Analyze

variable {K : Set Key} {program : String} {q : Program} {T : Task} {a b : Analysis}

/-- What a list of statements does not touch, between the states before and after it. -/
structure Disciplined (a b : Analysis) : Prop where
  /-- The analysis is back in its scope. -/
  current : b.current = a.current
  /-- Every scope that was opened is inside of that scope. -/
  opened : ∀ s, b.scopes.Has s → ¬ a.scopes.Has s → a.current ∈ b.scopes.path s
  has : ∀ s, a.scopes.Has s → b.scopes.Has s
  /-- Scopes that were there are where they were. -/
  path_eq : ∀ s, a.scopes.Has s → b.scopes.path s = a.scopes.path s
  /-- The other scopes keep what they declare, their children and their tokens for blocks,
  which is everything but captures and slots. -/
  core : ∀ s, a.scopes.Has s → s ≠ a.current →
    (b.scopes.get s).core = (a.scopes.get s).core
  /-- Slots are taken in the method around the statements and in no other that was there. -/
  slots : ∀ s, a.scopes.Has s → s ≠ a.scopes.owningMethod a.current →
    (b.scopes.get s).numLocals = (a.scopes.get s).numLocals
  slots_le : ∀ s, a.scopes.Has s → (a.scopes.get s).numLocals ≤ (b.scopes.get s).numLocals
  /-- Captures stay, and new ones are further out at most. -/
  captures : ∀ s, a.scopes.Has s → (a.scopes.get s).captures <+: (b.scopes.get s).captures
  around : ∀ s, a.scopes.Has s → s ∉ a.scopes.path a.current →
    (b.scopes.get s).captures = (a.scopes.get s).captures
  units : a.units.Extends b.units
  /-- Types keep their members and their paths. -/
  types : ∀ t, a.types.Has t → b.types.get t = a.types.get t

theorem Spares.disciplined (hs : Spares a.here K a b) (hb : Confined a.here b) :
    Disciplined a b where
  current := hs.current
  opened _ hnew hold := hb.scopes.mem_path (Nat.le_of_not_lt hold) hnew
  has _ hold := hold.trans_le hs.scopes.size_le
  path_eq _ hold := hs.scopes.path_eq hold
  core _ hold hne := hs.scopes.core _ fun ho => ho.elim hne (Nat.not_le_of_lt hold)
  slots := hs.scopes.slots
  slots_le := hs.scopes.slots_le
  captures := hs.scopes.captures
  around := hs.scopes.around
  units := hs.units
  types := hs.types

/-- From every state that an analysis comes to, a list of statements is analysed with
discipline. -/
theorem Reached.disciplined_stmts (h : Reached program q T a) (xs : List Stmt) :
    Disciplined a ((stmts xs).run a).2 := by
  obtain ⟨hb, hs, -⟩ := keeps_stmts (K := Set.univ) xs (fun _ _ _ => Set.mem_univ _) a
    (confined_here h.sound)
  exact hs.disciplined hb

/-- A block inside of a routine:

```
routine run(integer n)
  while n == 1 then
    n = 2
  end while
end run
```
-/
def blockInside : Program := (Draft.build [
  .routine ⟨none, "run", [(.of "integer", "n")], none,
    [.loop ⟨none, .binary none .equal (.chain (.of ["n"])) (.int 1),
      [.assign none (.of ["n"]) (.int 2)]⟩], none, none⟩]).1

/-- Statements with two errors, one of them in a scope of its own:

```
integer z = 1
routine get() returns integer
  y = 1
  return n
end get
integer z = 2
```
-/
def faulty : List Stmt := (Draft.build [
  .define ⟨none, .of "integer", ["z"], .int 1⟩,
  .routine ⟨none, "get", [], some (.of "integer"),
    [.assign none (.of ["y"]) (.int 1)], some (.chain (.of ["n"])), none⟩,
  .define ⟨none, .of "integer", ["z"], .int 2⟩]).1.stmts

/-- Inside of the block the statements are analysed with their errors, take a slot of the
routine around and record a capture. -/
theorem disciplined_faulty : ∃ a, Reached "demo" blockInside (.name "n") a ∧
    a.scopes.owningMethod a.current ≠ a.current ∧
    ((stmts faulty).run a).2.errors.length = a.errors.length + 2 ∧
    Disciplined a ((stmts faulty).run a).2 := by
  have hfollow : (Task.follow [0, 1, 0, 0, 0, 0, 0, 0, 0, 0, 0]
      (.stmts blockInside.stmts, initial "demo")).any (Call.looksUp "n" fun a =>
        a.scopes.owningMethod a.current != a.current &&
          ((stmts faulty).run a).2.errors.length == a.errors.length + 2) = true := by decide +kernel
  obtain ⟨a, h, hp⟩ := Reached.exists_lookup hfollow
  obtain ⟨hmethod, hfails⟩ := Bool.and_eq_true_iff.mp hp
  exact ⟨a, h, bne_iff_ne.mp hmethod, eq_of_beq hfails, h.disciplined_stmts faulty⟩

end Unnest.Analysis
