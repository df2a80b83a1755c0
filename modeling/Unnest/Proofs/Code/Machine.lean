import Mathlib.Data.List.Infix
import Mathlib.Data.List.Pairwise
import Unnest.Code.ClassFile

/-!
# Running code

What the instructions of a method compute is left open here; what is modelled is the
way they take.  A conditional jump tests something that depends on values, so its
outcomes come from outside: a run is given the list of them, uses one up at each
conditional jump, and jumps exactly when the outcome is `false`.

A `Run` is deterministic.  That it *arrives* somewhere is therefore a statement about
the one run there is, and not about a run that was chosen well.

## Places

Code is compared with what it was lowered from piece by piece.  `StandsAt code k c`
says that the piece `c` stands at the place `k`; pieces of pieces stand where one
expects, and a label that is placed once is found by the jumps to it.
-/

namespace Unnest.Code

/-- Whether an instruction does something and control then goes on behind it. -/
def Instruction.isPlain : Instruction → Bool
  | .jumpIfZero _ | .jump _ | .label _ | .returnValue | .returnNothing => false
  | _ => true

/-- Code without jumps, labels and returns. -/
def IsPlain (code : List Instruction) : Prop := ∀ i ∈ code, i.isPlain = true

/-- The label that an instruction places. -/
def Instruction.placed? : Instruction → Option Label
  | .label l => some l
  | _ => none

/-- The labels that code places, in order. -/
def placedLabels (code : List Instruction) : List Label := code.filterMap Instruction.placed?

/-- Where the jumps to a label arrive. -/
def target (code : List Instruction) (l : Label) : Option Nat :=
  code.findIdx? (· == .label l)

/-- A method that is being run. -/
structure Run where
  /-- The place of the next instruction. -/
  pc : Nat
  /-- What the conditions to come will turn out to be. -/
  outcomes : List Bool
  /-- The instructions executed so far that neither jump nor only mark a place. -/
  trace : List Instruction
  deriving DecidableEq, Repr

/-- One instruction of a run; `none` when the run is over or its outcomes are used up. -/
def step (code : List Instruction) (r : Run) : Option Run :=
  match code[r.pc]? with
  | some (.jumpIfZero l) =>
    match r.outcomes with
    | [] => none
    | true :: os => some ⟨r.pc + 1, os, r.trace⟩
    | false :: os => (target code l).map fun pc => ⟨pc, os, r.trace⟩
  | some (.jump l) => (target code l).map fun pc => ⟨pc, r.outcomes, r.trace⟩
  | some (.label _) => some ⟨r.pc + 1, r.outcomes, r.trace⟩
  | some .returnValue | some .returnNothing | none => none
  | some i => some ⟨r.pc + 1, r.outcomes, r.trace ++ [i]⟩

/-- Several instructions of a run. -/
def steps (code : List Instruction) : Nat → Run → Option Run
  | 0, r => some r
  | n + 1, r => (step code r).bind (steps code n)

/-- The run that is at `r` comes to be at `r'`. -/
def Arrives (code : List Instruction) (r r' : Run) : Prop := ∃ n, steps code n r = some r'

namespace Arrives

variable {code : List Instruction} {r s t : Run}

theorem refl (code : List Instruction) (r : Run) : Arrives code r r := ⟨0, rfl⟩

theorem head (h : step code r = some s) (hs : Arrives code s t) : Arrives code r t := by
  obtain ⟨n, hn⟩ := hs
  exact ⟨n + 1, by rw [steps, h, Option.bind_some, hn]⟩

theorem single (h : step code r = some s) : Arrives code r s := head h (refl code s)

theorem trans (hr : Arrives code r s) (hs : Arrives code s t) : Arrives code r t := by
  obtain ⟨n, hn⟩ := hr
  induction n generalizing r with
  | zero =>
    rw [steps] at hn
    rwa [Option.some.inj hn]
  | succ n ih =>
    rw [steps, Option.bind_eq_some_iff] at hn
    obtain ⟨q, hq, hn⟩ := hn
    exact head hq (ih hn)

end Arrives

/-! ## Pieces of code -/

@[simp] theorem isPlain_nil : IsPlain [] := List.forall_mem_nil _

@[simp] theorem isPlain_append {c d : List Instruction} : IsPlain (c ++ d) ↔ IsPlain c ∧ IsPlain d :=
  List.forall_mem_append

@[simp] theorem isPlain_cons {i : Instruction} {c : List Instruction} :
    IsPlain (i :: c) ↔ i.isPlain = true ∧ IsPlain c :=
  List.forall_mem_cons

@[simp] theorem placedLabels_nil : placedLabels [] = [] := rfl

@[simp] theorem placedLabels_label (l : Label) (c : List Instruction) :
    placedLabels (.label l :: c) = l :: placedLabels c := rfl

@[simp] theorem placedLabels_jump (l : Label) (c : List Instruction) :
    placedLabels (.jump l :: c) = placedLabels c := rfl

@[simp] theorem placedLabels_jumpIfZero (l : Label) (c : List Instruction) :
    placedLabels (.jumpIfZero l :: c) = placedLabels c := rfl

theorem placedLabels_append (c d : List Instruction) :
    placedLabels (c ++ d) = placedLabels c ++ placedLabels d :=
  List.filterMap_append

theorem placedLabels_of_isPlain {c : List Instruction} (h : IsPlain c) : placedLabels c = [] := by
  refine List.filterMap_eq_nil_iff.mpr fun i hi => ?_
  have hp := h i hi
  cases i <;> first | rfl | simp [Instruction.isPlain] at hp

/-- A piece of code stands at a place. -/
def StandsAt (code : List Instruction) (k : Nat) (c : List Instruction) : Prop :=
  c <+: code.drop k

namespace StandsAt

variable {code c d : List Instruction} {k : Nat} {i : Instruction}

theorem append_iff :
    StandsAt code k (c ++ d) ↔ StandsAt code k c ∧ StandsAt code (k + c.length) d := by
  rw [StandsAt, StandsAt, StandsAt, ← List.drop_drop]
  constructor
  · rintro ⟨t, ht⟩
    rw [← ht]
    refine ⟨⟨d ++ t, by rw [List.append_assoc]⟩, t, ?_⟩
    rw [List.append_assoc, List.drop_left]
  · rintro ⟨⟨t, ht⟩, hd⟩
    rw [← ht, List.drop_left] at hd
    obtain ⟨u, rfl⟩ := hd
    exact ⟨u, by rw [List.append_assoc, ht]⟩

theorem cons_iff : StandsAt code k (i :: c) ↔ code[k]? = some i ∧ StandsAt code (k + 1) c := by
  rw [← List.singleton_append, append_iff, List.length_singleton]
  refine and_congr_left fun _ => ?_
  rw [StandsAt, ← List.head?_drop]
  cases code.drop k with
  | nil => simp
  | cons j rest => simp [List.cons_prefix_cons, eq_comm]

theorem mid (pre c post : List Instruction) : StandsAt (pre ++ c ++ post) pre.length c := by
  rw [StandsAt, List.append_assoc, List.drop_left]
  exact List.prefix_append c post

end StandsAt

/-- A label that is placed once is found where it stands. -/
theorem target_eq {code : List Instruction} (h : (placedLabels code).Nodup) {k : Nat} {l : Label}
    (hk : code[k]? = some (.label l)) : target code l = some k := by
  have hpw := List.pairwise_filterMap.mp h
  rw [List.pairwise_iff_getElem] at hpw
  obtain ⟨hk', hl⟩ := List.getElem?_eq_some_iff.mp hk
  refine List.findIdx?_eq_some_iff_getElem.mpr ⟨hk', by rw [hl]; exact beq_self_eq_true _, ?_⟩
  intro j hj heq
  have hjl : code[j] = .label l := eq_of_beq heq
  exact hpw j k (Nat.lt_trans hj hk') hk' hj l (by rw [hjl]; rfl) l (by rw [hl]; rfl) rfl

/-! ## Running pieces of code -/

section Pieces

variable {code : List Instruction} {k : Nat} {os : List Bool} {t : List Instruction}

theorem step_plain {i : Instruction} (hi : i.isPlain = true) (h : code[k]? = some i) :
    step code ⟨k, os, t⟩ = some ⟨k + 1, os, t ++ [i]⟩ := by
  unfold step
  rw [h]
  cases i <;> first | rfl | simp [Instruction.isPlain] at hi

/-- Plain code is executed from its start to its end. -/
theorem arrives_of_isPlain {c : List Instruction} (hc : IsPlain c) (h : StandsAt code k c) :
    Arrives code ⟨k, os, t⟩ ⟨k + c.length, os, t ++ c⟩ := by
  induction c generalizing k t with
  | nil =>
    rw [List.append_nil]
    exact Arrives.refl code _
  | cons i c ih =>
    obtain ⟨hi, hc⟩ := isPlain_cons.mp hc
    obtain ⟨hik, hck⟩ := StandsAt.cons_iff.mp h
    have hrest := ih hc hck (t := t ++ [i])
    rw [List.append_assoc, List.singleton_append, Nat.add_assoc, Nat.add_comm 1] at hrest
    exact Arrives.head (step_plain hi hik) hrest

theorem arrives_label {l : Label} (h : code[k]? = some (.label l)) :
    Arrives code ⟨k, os, t⟩ ⟨k + 1, os, t⟩ :=
  Arrives.single (by rw [step, h])

theorem arrives_jump {l : Label} {j : Nat} (hu : (placedLabels code).Nodup)
    (h : code[k]? = some (.jump l)) (hj : code[j]? = some (.label l)) :
    Arrives code ⟨k, os, t⟩ ⟨j, os, t⟩ := by
  refine Arrives.single ?_
  rw [step, h]
  show (target code l).map _ = _
  rw [target_eq hu hj]
  rfl

theorem arrives_jumpIfZero_true {l : Label} (h : code[k]? = some (.jumpIfZero l)) :
    Arrives code ⟨k, true :: os, t⟩ ⟨k + 1, os, t⟩ :=
  Arrives.single (by rw [step, h])

theorem arrives_jumpIfZero_false {l : Label} {j : Nat} (hu : (placedLabels code).Nodup)
    (h : code[k]? = some (.jumpIfZero l)) (hj : code[j]? = some (.label l)) :
    Arrives code ⟨k, false :: os, t⟩ ⟨j, os, t⟩ := by
  refine Arrives.single ?_
  rw [step, h]
  show (target code l).map _ = _
  rw [target_eq hu hj]
  rfl

end Pieces

end Unnest.Code
