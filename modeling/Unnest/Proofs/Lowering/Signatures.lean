import Unnest.Proofs.Lowering.Making

/-!
# The class that every routine extends

The signatures that classes call through the routine base, and those that they
implement, are collected when all other classes are complete.  They are kept in order
and each once, and so the base declares a method for exactly the signatures that are
used (`mem_usedSignatures`), and no two of one descriptor (`nodup_usedSignatures`).
-/

namespace Unnest

open Code

namespace Code.Descriptor

instance : Std.TransOrd Descriptor :=
  inferInstanceAs (Std.TransCmp
    (compareLex (compareOn Descriptor.params) (compareOn Descriptor.result)))

instance : Std.LawfulEqOrd Descriptor where
  compare_self {a} := Ordering.then_eq_eq.mpr ⟨Std.ReflCmp.compare_self, Std.ReflCmp.compare_self⟩
  eq_of_compare {a b} h := by
    obtain ⟨params, result⟩ := a
    obtain ⟨params', result'⟩ := b
    obtain ⟨hparams, hresult⟩ := Ordering.then_eq_eq.mp h
    exact congrArg₂ mk (Std.LawfulEqCmp.eq_of_compare hparams)
      (Std.LawfulEqCmp.eq_of_compare hresult)

end Code.Descriptor

namespace Lowering

variable {base : String} {c : ClassFile} {cs : List ClassFile} {d e : Descriptor}
  {ds : List Descriptor}

/-! ## Ordered lists of signatures -/

theorem mem_insertSignature : e ∈ insertSignature d ds ↔ e = d ∨ e ∈ ds := by
  induction ds with
  | nil => simp [insertSignature]
  | cons x ds ih =>
    rw [insertSignature]
    split
    · exact List.mem_cons
    · rename_i h
      rw [Std.LawfulEqCmp.eq_of_compare h, List.mem_cons, ← or_assoc, or_self]
    · rw [List.mem_cons, ih, List.mem_cons, or_left_comm]

/-- Signatures that stand in order. -/
def Ordered (ds : List Descriptor) : Prop := ds.Pairwise fun d e => compare d e = .lt

theorem Ordered.nodup (h : Ordered ds) : ds.Nodup :=
  h.imp fun {d e} hlt heq => by
    have hself : compare e e = .eq := Std.ReflCmp.compare_self
    rw [heq, hself] at hlt
    exact absurd hlt (by decide)

theorem ordered_insertSignature (h : Ordered ds) : Ordered (insertSignature d ds) := by
  induction ds with
  | nil => exact List.pairwise_singleton _ d
  | cons x ds ih =>
    rw [insertSignature]
    split
    · rename_i hlt
      refine List.Pairwise.cons (List.forall_mem_cons.mpr ⟨hlt, fun e he => ?_⟩) h
      exact Std.TransCmp.lt_trans hlt (List.rel_of_pairwise_cons h he)
    · exact h
    · rename_i hgt
      refine List.Pairwise.cons (fun e he => ?_) (ih h.of_cons)
      rcases mem_insertSignature.mp he with rfl | he
      · exact Std.OrientedCmp.lt_of_gt hgt
      · exact List.rel_of_pairwise_cons h he

theorem ordered_foldl (es : List Descriptor) (h : Ordered ds) :
    Ordered (es.foldl (fun ds d => insertSignature d ds) ds) := by
  induction es generalizing ds with
  | nil => exact h
  | cons d es ih => exact ih (ordered_insertSignature h)

theorem mem_foldl (es : List Descriptor) :
    e ∈ es.foldl (fun ds d => insertSignature d ds) ds ↔ e ∈ es ∨ e ∈ ds := by
  induction es generalizing ds with
  | nil => simp
  | cons d es ih => rw [List.foldl_cons, ih, mem_insertSignature, List.mem_cons, or_left_comm, or_assoc]

/-! ## Signatures that classes use -/

/-- A class uses a signature: it calls it through the routine base, or it extends the
base and implements it. -/
def Uses (base : String) (c : ClassFile) (d : Descriptor) : Prop :=
  ∃ m ∈ c.methods, .invokeVirtual ⟨base, Reserved.call, d⟩ ∈ m.code ∨
    c.superPath = base ∧ m.name = Reserved.call ∧ m.descriptor = d

theorem calledSignature?_eq_some {i : Instruction} :
    calledSignature? base i = some d ↔ i = .invokeVirtual ⟨base, Reserved.call, d⟩ := by
  cases i with
  | invokeVirtual m =>
    obtain ⟨owner, name, descriptor⟩ := m
    simp only [calledSignature?, Instruction.invokeVirtual.injEq, MethodRef.mk.injEq]
    split
    · rename_i h
      simp [h]
    · rename_i h
      simp only [reduceCtorEq, false_iff]
      exact fun h' => h ⟨h'.1, h'.2.1⟩
  | _ => simp [calledSignature?]

theorem mem_signaturesOf : d ∈ signaturesOf base c ↔ Uses base c d := by
  simp only [signaturesOf, Uses, List.mem_flatMap, List.mem_append, List.mem_filterMap,
    calledSignature?_eq_some, exists_eq_right]
  refine exists_congr fun m => and_congr_right fun _ => ?_
  rw [or_comm, ← and_assoc]
  refine or_congr_right ?_
  split
  · rename_i h
    rw [List.mem_singleton, and_iff_right h, eq_comm]
  · rename_i h
    exact ⟨fun h' => absurd h' List.not_mem_nil, fun h' => absurd h'.1 h⟩

theorem mem_usedSignatures : d ∈ usedSignatures base cs ↔ ∃ c ∈ cs, Uses base c d := by
  rw [usedSignatures, mem_foldl]
  simp only [List.not_mem_nil, or_false, List.mem_flatMap, mem_signaturesOf]

theorem nodup_usedSignatures : (usedSignatures base cs).Nodup :=
  (ordered_foldl _ .nil).nodup

/-! ## The methods of the base -/

/-- The descriptors of the call methods of a class. -/
def callDescriptors (c : ClassFile) : List Descriptor :=
  (c.methods.filter (·.name == Reserved.call)).map (·.descriptor)

theorem callDescriptors_baseClass : callDescriptors (baseClass base ds) = ds := by
  have hmethods : (ds.map baseMethod).filter (·.name == Reserved.call) = ds.map baseMethod :=
    List.filter_eq_self.mpr (List.forall_mem_map.mpr fun d _ => by simp [baseMethod, Method.assemble])
  have hdescriptor : (fun m : Method => m.descriptor) ∘ baseMethod = id := rfl
  rw [callDescriptors, baseClass, List.filter_cons_of_neg (by decide), hmethods, List.map_map,
    hdescriptor, List.map_id]

/-- The base calls nothing through itself. -/
theorem uses_baseClass (h : Uses base (baseClass base ds) d) : d ∈ ds := by
  obtain ⟨m, hm, hcode | ⟨-, hname, rfl⟩⟩ := h
  · rcases List.mem_cons.mp hm with rfl | hm
    · exact absurd hcode (by simp [plainConstructor, Method.assemble, constructSuper])
    · obtain ⟨e, -, rfl⟩ := List.mem_map.mp hm
      rw [baseMethod, Method.assemble] at hcode
      dsimp only at hcode
      split at hcode <;> exact absurd hcode (by simp)
  · rcases List.mem_cons.mp hm with rfl | hm
    · exact absurd hname (by decide)
    · obtain ⟨e, he, rfl⟩ := List.mem_map.mp hm
      exact he

end Lowering

end Unnest
