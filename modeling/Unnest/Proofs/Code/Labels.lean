import Mathlib.Data.Multiset.AddSub
import Unnest.Proofs.Code.Stack

/-!
# Accounting for labels

Labels are given out in order and placed in another one, in the methods of whatever
classes are complete by then.  What comes out even is the multiset: the labels between
two counts are the labels that were placed between them.

A jump in a piece of code goes to a label of the piece or to one that is still to be
placed around it (`JumpsWithin`).  Placing such a label closes the piece to it.
-/

namespace Unnest.Code

variable {m n p : Nat} {l : Label} {outer : List Label} {c d : List Instruction}

/-! ## Counts -/

/-- The labels that are given out from one count to another. -/
def labelsBetween (m n : Nat) : Multiset Label := ((List.range' (m + 1) (n - m)).map Label.mk)

@[simp] theorem labelsBetween_self (n : Nat) : labelsBetween n n = 0 := by
  rw [labelsBetween, Nat.sub_self]
  rfl

theorem labelsBetween_add (hmn : m ≤ n) (hnp : n ≤ p) :
    labelsBetween m n + labelsBetween n p = labelsBetween m p := by
  obtain ⟨j, rfl⟩ := Nat.exists_eq_add_of_le hmn
  obtain ⟨k, rfl⟩ := Nat.exists_eq_add_of_le hnp
  have hstart : m + j + 1 = m + 1 + 1 * j := by omega
  rw [labelsBetween, labelsBetween, labelsBetween, Multiset.coe_add, ← List.map_append,
    Nat.add_sub_cancel_left, Nat.add_sub_cancel_left, hstart, List.range'_append, Nat.add_assoc,
    Nat.add_sub_cancel_left]

theorem labelsBetween_succ (n : Nat) : labelsBetween n (n + 1) = {⟨n + 1⟩} := by
  rw [labelsBetween, Nat.add_sub_cancel_left]
  rfl

/-- Where a label stands does not matter for the account. -/
theorem placedLabels_insert (c d : List Instruction) (l : Label) :
    (placedLabels (c ++ .label l :: d) : Multiset Label) = {l} + (placedLabels (c ++ d)) := by
  rw [placedLabels_append, placedLabels_label, placedLabels_append, Multiset.singleton_add,
    Multiset.cons_coe]
  exact Multiset.coe_eq_coe.mpr List.perm_middle

/-! ## Jumps -/

/-- Jumps go to labels of the code itself, or to labels that are placed around it. -/
def JumpsWithin (outer : List Label) (code : List Instruction) : Prop :=
  ∀ i ∈ code, ∀ l, i.jumpsTo? = some l → l ∈ placedLabels code ∨ l ∈ outer

/-- Code without labels and jumps.  Unlike plain code, it may return. -/
def IsStraight (code : List Instruction) : Prop :=
  ∀ i ∈ code, i.placed? = none ∧ i.jumpsTo? = none

theorem isStraight_append : IsStraight (c ++ d) ↔ IsStraight c ∧ IsStraight d :=
  List.forall_mem_append

theorem isStraight_of_isPlain (h : IsPlain c) : IsStraight c := by
  intro i hi
  refine ⟨?_, Instruction.jumpsTo?_of_isPlain (h i hi)⟩
  exact List.filterMap_eq_nil_iff.mp (placedLabels_of_isPlain h) i hi

/-- A return at the end of plain code. -/
theorem isStraight_return (h : IsPlain c) {i : Instruction}
    (hi : i = .returnValue ∨ i = .returnNothing) : IsStraight (c ++ [i]) := by
  refine isStraight_append.mpr ⟨isStraight_of_isPlain h, ?_⟩
  rcases hi with rfl | rfl <;> exact List.forall_mem_singleton.mpr ⟨rfl, rfl⟩

theorem placedLabels_of_isStraight (h : IsStraight c) : placedLabels c = [] :=
  List.filterMap_eq_nil_iff.mpr fun i hi => (h i hi).1

namespace JumpsWithin

theorem of_isStraight (h : IsStraight c) : JumpsWithin outer c := by
  intro i hi l hl
  rw [(h i hi).2] at hl
  exact absurd hl (by simp)

theorem of_mem {i : Instruction} (h : l ∈ outer) (hi : i.jumpsTo? = some l) :
    JumpsWithin outer [i] := by
  intro j hj k hk
  obtain rfl := List.mem_singleton.mp hj
  obtain rfl := Option.some.inj (hk.symm.trans hi)
  exact .inr h

theorem append (hc : JumpsWithin outer c) (hd : JumpsWithin outer d) :
    JumpsWithin outer (c ++ d) := by
  intro i hi l hl
  rw [placedLabels_append, List.mem_append]
  rcases List.mem_append.mp hi with hi | hi
  · exact (hc i hi l hl).imp_left .inl
  · exact (hd i hi l hl).imp_left .inr

/-- A label that is placed inside is no longer needed around. -/
theorem place (h : JumpsWithin (l :: outer) (c ++ d)) : JumpsWithin outer (c ++ .label l :: d) := by
  intro i hi k hk
  rw [placedLabels_append, placedLabels_label]
  rcases List.mem_append.mp hi with hi | hi
  · rcases h i (List.mem_append_left d hi) k hk with hk | hk
    · rw [placedLabels_append] at hk
      exact .inl (by simp only [List.mem_append, List.mem_cons] at hk ⊢; grind)
    · exact (List.mem_cons.mp hk).imp_left fun hk => by simp [hk]
  · rcases List.mem_cons.mp hi with rfl | hi
    · exact absurd hk (by simp [Instruction.jumpsTo?])
    · rcases h i (List.mem_append_right c hi) k hk with hk | hk
      · rw [placedLabels_append] at hk
        exact .inl (by simp only [List.mem_append, List.mem_cons] at hk ⊢; grind)
      · exact (List.mem_cons.mp hk).imp_left fun hk => by simp [hk]

end JumpsWithin

/-! ## Classes -/

namespace ClassFile

/-- The labels that the methods of a class place. -/
def placedLabels (c : ClassFile) : List Label := c.methods.flatMap fun m => Code.placedLabels m.code

/-- No jump leaves its method. -/
def JumpsInside (c : ClassFile) : Prop := ∀ m ∈ c.methods, JumpsWithin [] m.code

end ClassFile

/-- The labels that classes place, as often as they do. -/
def labelsOf (cs : List ClassFile) : Multiset Label := (cs.flatMap ClassFile.placedLabels)

@[simp] theorem labelsOf_nil : labelsOf [] = 0 := rfl

@[simp] theorem labelsOf_append (cs cs' : List ClassFile) :
    labelsOf (cs ++ cs') = labelsOf cs + labelsOf cs' := by
  rw [labelsOf, List.flatMap_append, ← Multiset.coe_add, labelsOf, labelsOf]

theorem labelsOf_cons (c : ClassFile) (cs : List ClassFile) :
    labelsOf (c :: cs) = c.placedLabels + labelsOf cs := by
  rw [labelsOf, List.flatMap_cons, ← Multiset.coe_add, labelsOf]

theorem labelsOf_singleton (c : ClassFile) : labelsOf [c] = c.placedLabels := by
  rw [labelsOf_cons, labelsOf_nil, Multiset.add_zero]

/-- The labels of a class are those of one method when the others are straight. -/
theorem ClassFile.placedLabels_eq {cls : ClassFile} {ms ms' : List Method} {m : Method}
    (h : cls.methods = ms ++ m :: ms') (hms : ∀ x ∈ ms ++ ms', IsStraight x.code) :
    cls.placedLabels = Code.placedLabels m.code := by
  have hnil : ∀ xs : List Method, (∀ x ∈ xs, IsStraight x.code) →
      xs.flatMap (fun x => Code.placedLabels x.code) = [] := fun xs hxs =>
    List.flatMap_eq_nil_iff.mpr fun x hx => placedLabels_of_isStraight (hxs x hx)
  obtain ⟨h₁, h₂⟩ := List.forall_mem_append.mp hms
  rw [placedLabels, h, List.flatMap_append, List.flatMap_cons, hnil ms h₁, hnil ms' h₂,
    List.nil_append, List.append_nil]

end Unnest.Code
