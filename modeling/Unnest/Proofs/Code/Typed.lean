import Mathlib.Data.List.Forall2
import Unnest.Code.ClassFile
import Unnest.Types.Basic

/-!
# Typed cells

`Carries` counts the cells on the operand stack.  Here each of them is known by the
descriptor of the value that it is of, and a walk through code in order checks what every
instruction finds on top of the stack: the receiver and the value of a field access, the
receiver and the arguments of a call (`Frame.step`).  A walk stops where something is
missing or does not fit.

A walk that gets through does the same above any other cells (`Frame.walk_raise`).  Code that
can be walked through from the empty stack therefore never touches what was there before it
(`Pushes`).
-/

namespace Unnest.Code

open TypeTable (classDescriptor)

/-- The cells on the operand stack, the top one first, each with the descriptor of the value
that it is of. -/
abbrev Cells := List String

namespace Descriptor

/-- The cells of a value: two for the wide kinds. -/
def valueCells (descriptor : String) : Cells := List.replicate (cells descriptor) descriptor

/-- The cells of the arguments of a call, the last one on top. -/
def argumentCells (d : Descriptor) : Cells := (d.params.flatMap valueCells).reverse

/-- The cells that a call leaves for its arguments. -/
def givenCells (d : Descriptor) : Cells := d.result.elim [] valueCells

end Descriptor

open Descriptor (valueCells)

/-- What the code of a method can rely on. -/
structure Frame where
  /-- The local variables of the method. -/
  vars : List LocalVar
  /-- Classes, each with the class that it extends. -/
  extensions : List (String × String)

namespace Frame

variable (F : Frame)

/-- The descriptor of the variable in a slot. -/
def slot? (slot : Nat) : Option String :=
  (F.vars.find? (·.slot == slot)).map (·.descriptor)

/-- Whether a cell can stand where a descriptor is asked for: it is of that descriptor, or of
a class that extends the one that is asked for. -/
def fits (cell descriptor : String) : Bool :=
  cell == descriptor || F.extensions.any fun e =>
    cell == classDescriptor e.1 && descriptor == classDescriptor e.2

/-- Takes cells off the stack, the top one first; all of them have to be there and to fit. -/
def take : List String → Cells → Option Cells
  | [], σ => some σ
  | d :: ds, c :: σ => if F.fits c d then take ds σ else none
  | _ :: _, [] => none

/-- What an instruction makes of the stack.  Jumps, labels and returns are not walked over,
and neither is the value of no class. -/
def step (σ : Cells) : Instruction → Option Cells
  | .new path => some (classDescriptor path :: σ)
  | .dup =>
    match σ with
    | c :: σ => if Descriptor.cells c = 1 then some (c :: c :: σ) else none
    | [] => none
  | .pop =>
    match σ with
    | c :: σ => if Descriptor.cells c = 1 then some σ else none
    | [] => none
  | .int _ => some (valueCells "I" ++ σ)
  | .text _ => some (valueCells Reserved.textDescriptor ++ σ)
  | .double _ => some (valueCells "D" ++ σ)
  | .load slot => (F.slot? slot).map (· :: σ)
  | .store slot => (F.slot? slot).bind fun d => F.take [d] σ
  | .getField f => (F.take [classDescriptor f.owner] σ).map (valueCells f.descriptor ++ ·)
  | .putField f => F.take (valueCells f.descriptor ++ [classDescriptor f.owner]) σ
  | .getStatic f => some (valueCells f.descriptor ++ σ)
  | .putStatic f => F.take (valueCells f.descriptor) σ
  | .invokeVirtual m | .invokeSpecial m =>
    (F.take (m.descriptor.argumentCells ++ [classDescriptor m.owner]) σ).map
      (m.descriptor.givenCells ++ ·)
  | .invokeStatic m =>
    (F.take m.descriptor.argumentCells σ).map (m.descriptor.givenCells ++ ·)
  | .null | .jumpIfZero _ | .jump _ | .label _ | .returnValue | .returnNothing => none

/-- What code makes of the stack, read in order. -/
def walk (code : List Instruction) (σ : Cells) : Option Cells := code.foldlM F.step σ

variable {F} {ds ds' : List String} {cs ρ ρ' σ τ : Cells} {c d : String} {i : Instruction}
  {code code' : List Instruction}

/-! ## Taking cells -/

@[simp] theorem fits_self (F : Frame) (d : String) : F.fits d d = true := by
  rw [fits, beq_self_eq_true, Bool.true_or]

theorem fits_of_extends {path base : String} (h : (path, base) ∈ F.extensions) :
    F.fits (classDescriptor path) (classDescriptor base) = true := by
  rw [fits, Bool.or_eq_true, List.any_eq_true]
  exact Or.inr ⟨_, h, by simp⟩

/-- Cells that fit, one by one. -/
abbrev Fit (F : Frame) (cs : Cells) (ds : List String) : Prop :=
  List.Forall₂ (fun c d => F.fits c d = true) cs ds

theorem fit_self (F : Frame) (ds : List String) : F.Fit ds ds :=
  List.forall₂_same.mpr fun d _ => fits_self F d

theorem take_of_fit (h : F.Fit cs ds) (σ : Cells) : F.take ds (cs ++ σ) = some σ := by
  induction h with
  | nil => rfl
  | cons hc _ ih => rw [List.cons_append, take, if_pos hc, ih]

theorem take_raise (h : F.take ds ρ = some ρ') (σ : Cells) :
    F.take ds (ρ ++ σ) = some (ρ' ++ σ) := by
  induction ds generalizing ρ with
  | nil =>
    obtain rfl := Option.some.inj h
    rfl
  | cons d ds ih =>
    cases ρ with
    | nil => exact absurd h (by simp [take])
    | cons c ρ =>
      rw [take] at h
      split at h
      · rename_i hc
        rw [List.cons_append, take, if_pos hc]
        exact ih h
      · exact absurd h (by simp)

/-! ## Walking -/

/-- An instruction does not look at what lies deeper than what it takes. -/
theorem step_raise (h : F.step ρ i = some ρ') (σ : Cells) :
    F.step (ρ ++ σ) i = some (ρ' ++ σ) := by
  have hmap : ∀ {ds : List String} {κ : Cells}, (F.take ds ρ).map (κ ++ ·) = some ρ' →
      (F.take ds (ρ ++ σ)).map (κ ++ ·) = some (ρ' ++ σ) := by
    intro ds κ h
    obtain ⟨τ, hτ, rfl⟩ := Option.map_eq_some_iff.mp h
    rw [take_raise hτ, Option.map_some, List.append_assoc]
  cases i with
  | new | int | text | double | getStatic =>
    obtain rfl := Option.some.inj h
    simp only [step, List.append_assoc, List.cons_append]
  | dup | pop =>
    cases ρ with
    | nil => exact absurd h (by simp [step])
    | cons c ρ =>
      simp only [step, List.cons_append] at h ⊢
      split at h
      · rename_i hc
        obtain rfl := Option.some.inj h
        exact if_pos hc
      · exact absurd h (by simp)
  | load slot =>
    obtain ⟨d, hd, rfl⟩ := Option.map_eq_some_iff.mp h
    rw [step, hd]
    rfl
  | store slot =>
    obtain ⟨d, hd, h⟩ := Option.bind_eq_some_iff.mp h
    rw [step, hd]
    exact take_raise h σ
  | putField | putStatic => exact take_raise h σ
  | getField | invokeVirtual | invokeSpecial | invokeStatic => exact hmap h
  | null | jumpIfZero | jump | label | returnValue | returnNothing => exact absurd h (by simp [step])

theorem walk_cons : F.walk (i :: code) σ = (F.step σ i).bind (F.walk code) := rfl

theorem walk_append : F.walk (code ++ code') σ = (F.walk code σ).bind (F.walk code') :=
  List.foldlM_append

/-- Code that can be walked through does the same above other cells. -/
theorem walk_raise (h : F.walk code ρ = some ρ') (σ : Cells) :
    F.walk code (ρ ++ σ) = some (ρ' ++ σ) := by
  induction code generalizing ρ with
  | nil =>
    obtain rfl := Option.some.inj h
    rfl
  | cons i code ih =>
    rw [walk_cons, Option.bind_eq_some_iff] at h
    obtain ⟨τ, hi, h⟩ := h
    rw [walk_cons, step_raise hi, Option.bind_some]
    exact ih h

/-- So does every start of it. -/
theorem exists_walk_take (h : F.walk code ρ = some ρ') (k : Nat) :
    ∃ τ, F.walk (code.take k) ρ = some τ := by
  rw [← List.take_append_drop k code, walk_append, Option.bind_eq_some_iff] at h
  obtain ⟨τ, hτ, -⟩ := h
  exact ⟨τ, hτ⟩

theorem walk_two (h : F.walk code ρ = some τ) (h' : F.walk code' τ = some ρ') :
    F.walk (code ++ code') ρ = some ρ' := by
  rw [walk_append, h, Option.bind_some, h']

/-- Code that starts above cells that it leaves alone. -/
theorem walk_above (h : F.walk code ρ = some τ) (h' : F.walk code' [] = some ρ') :
    F.walk (code ++ code') ρ = some (ρ' ++ τ) :=
  walk_two h (walk_raise h' τ)

theorem walk_single (h : F.step ρ i = some ρ') : F.walk [i] ρ = some ρ' := by
  rw [walk_cons, h]
  rfl

end Frame

/-- From wherever it starts, code puts cells on the stack.  It never touches a cell below: at
each moment, what it has made of the empty stack stands on the cells that were there. -/
structure Pushes (F : Frame) (code : List Instruction) (ρ : Cells) : Prop where
  ends : ∀ σ, F.walk code σ = some (ρ ++ σ)
  above : ∀ σ k, ∃ τ, F.walk (code.take k) [] = some τ ∧ F.walk (code.take k) σ = some (τ ++ σ)

theorem pushes_of_walk {F : Frame} {code : List Instruction} {ρ : Cells}
    (h : F.walk code [] = some ρ) : Pushes F code ρ := by
  refine ⟨fun σ => ?_, fun σ k => ?_⟩
  · exact Frame.walk_raise h σ
  · obtain ⟨τ, hτ⟩ := Frame.exists_walk_take h k
    exact ⟨τ, hτ, Frame.walk_raise hτ σ⟩

end Unnest.Code
