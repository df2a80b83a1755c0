import Mathlib.Data.Set.Insert
import Mathlib.Logic.Function.Basic
import Unnest.Proofs.Code.Stack

/-!
# Local slots

A slot may be read where every way from the entry of a method has filled it: an argument
is in it, or the way has stored to it (`Visits`).

`Fills F N V code V'` reads code once in order.  The slots of `V` are filled in front of
it, and those of `V'` behind.  What is filled at a label is said by `F`, and it has to be
filled on every way that comes there, from above or by a jump.  That is enough for all
ways (`Fills.visits`).  Code that is put together from pieces chooses `F` piece by piece,
since each piece has labels of its own (`Filling`).
-/

namespace Unnest.Code

/-! ## Slots of a method -/

namespace Instruction

/-- The slot that an instruction uses. -/
def slot? : Instruction → Option Nat
  | .load k | .store k => some k
  | _ => none

/-- The slots that an instruction fills. -/
def stored : Instruction → Set Nat
  | .store k => {k}
  | _ => ∅

/-- The label that an instruction jumps to or places. -/
def label? : Instruction → Option Label
  | .jumpIfZero l | .jump l | .label l => some l
  | _ => none

end Instruction

/-- The slots that arguments are in, counted from a slot on. -/
def Descriptor.slotsFrom : Nat → List String → List Nat
  | _, [] => []
  | k, d :: ds => k :: slotsFrom (k + cells d) ds

/-- The slots that are filled when a method is entered: that of the receiver, where there
is one, and those of the arguments. -/
def Method.argumentSlots (m : Method) : List Nat :=
  if m.modifiers.isStatic then Descriptor.slotsFrom 0 m.descriptor.params
  else 0 :: Descriptor.slotsFrom 1 m.descriptor.params

/-- Some way from the entry comes to a place and has stored to these slots. -/
inductive Visits (code : List Instruction) : Nat → Set Nat → Prop
  | entry : Visits code 0 ∅
  | next {j : Nat} {W : Set Nat} {i : Instruction} (h : Visits code j W) (hi : code[j]? = some i)
      (falls : i.falls = true) : Visits code (j + 1) (W ∪ i.stored)
  | jump {j j' : Nat} {W : Set Nat} {i : Instruction} {l : Label} (h : Visits code j W)
      (hi : code[j]? = some i) (jumps : i.jumpsTo? = some l)
      (arrives : code[j']? = some (.label l)) : Visits code j' W

/-- A method uses its local slots safely. -/
structure LocalSafe (m : Method) : Prop where
  /-- On every way, what is read was an argument or was stored before. -/
  filled : ∀ j W k, Visits m.code j W → m.code[j]? = some (.load k) →
    k ∈ m.argumentSlots ∨ k ∈ W
  below : ∀ i ∈ m.code, ∀ k, i.slot? = some k → k < m.maxLocals
  vars : (m.vars.map (·.slot)).Pairwise (· < ·)

variable {F G : Label → Set Nat} {N n n₁ n₂ : Nat} {U V V₁ V' : Set Nat}
  {c c' code test body : List Instruction} {i : Instruction} {J : List Label} {l l' : Label}

theorem Descriptor.slotsFrom_eq_range' {ds : List String} (h : ∀ d ∈ ds, cells d = 1) (k : Nat) :
    slotsFrom k ds = List.range' k ds.length := by
  induction ds generalizing k with
  | nil => rfl
  | cons d ds ih =>
    rw [List.forall_mem_cons] at h
    rw [slotsFrom, h.1, ih h.2, List.length_cons, List.range'_succ]

/-! ## Reading in order -/

/-- An instruction may stand where these slots are filled. -/
def Instruction.Fits (F : Label → Set Nat) (N : Nat) (V : Set Nat) : Instruction → Prop
  | .load k => k ∈ V ∧ k < N
  | .store k => k < N
  | .jumpIfZero l | .jump l | .label l => F l ⊆ V
  | _ => True

/-- The slots that are filled behind an instruction.  Nothing comes from an instruction
that does not fall through, so any slot may be said to be filled there. -/
def Instruction.fills (F : Label → Set Nat) (V : Set Nat) : Instruction → Set Nat
  | .store k => insert k V
  | .label l => F l
  | .jump _ | .returnValue | .returnNothing => Set.univ
  | _ => V

/-- Read in order, code uses only slots below `N`, reads only filled ones, and leaves at
least those of `V'` filled. -/
def Fills (F : Label → Set Nat) (N : Nat) : Set Nat → List Instruction → Set Nat → Prop
  | V, [], V' => V' ⊆ V
  | V, i :: c, V' => i.Fits F N V ∧ Fills F N (i.fills F V) c V'

theorem Instruction.Fits.mono (h : i.Fits F N V) (hV : V ⊆ U) : i.Fits F N U := by
  cases i with
  | load k => exact ⟨hV h.1, h.2⟩
  | store k => exact h
  | jumpIfZero l => exact Set.Subset.trans h hV
  | jump l => exact Set.Subset.trans h hV
  | label l => exact Set.Subset.trans h hV
  | _ => trivial

theorem Instruction.fills_mono (i : Instruction) (hV : V ⊆ U) : i.fills F V ⊆ i.fills F U := by
  cases i with
  | store k => exact Set.insert_subset_insert hV
  | label l => exact Set.Subset.refl _
  | jump l => exact Set.Subset.refl _
  | returnValue => exact Set.Subset.refl _
  | returnNothing => exact Set.Subset.refl _
  | _ => exact hV

/-- What an instruction fills is what was filled already, or stored by it. -/
theorem Instruction.Fits.fills_subset (h : i.Fits F N V) (hf : i.falls = true) :
    i.fills F V ⊆ V ∪ i.stored := by
  cases i with
  | store k => exact fun j hj => hj.elim Or.inr Or.inl
  | label l => exact Set.Subset.trans h Set.subset_union_left
  | jump l => exact absurd hf Bool.false_ne_true
  | returnValue => exact absurd hf Bool.false_ne_true
  | returnNothing => exact absurd hf Bool.false_ne_true
  | _ => exact Set.subset_union_left

/-- An instruction that may jump finds what has to be filled at the label. -/
theorem Instruction.Fits.subset_of_jumps (h : i.Fits F N V) (hj : i.jumpsTo? = some l) :
    F l ⊆ V := by
  cases i with
  | jumpIfZero l' => exact Option.some.inj hj ▸ h
  | jump l' => exact Option.some.inj hj ▸ h
  | _ => exact absurd hj (by simp [Instruction.jumpsTo?])

theorem Instruction.Fits.lt (h : i.Fits F N V) {k : Nat} (hk : i.slot? = some k) : k < N := by
  cases i with
  | load j => exact Option.some.inj hk ▸ h.2
  | store j => exact Option.some.inj hk ▸ h
  | _ => exact absurd hk (by simp [Instruction.slot?])

namespace Fills

theorem mono (h : Fills F N V c V') (hV : V ⊆ U) : Fills F N U c V' := by
  induction c generalizing V U with
  | nil => exact Set.Subset.trans h hV
  | cons i c ih => exact ⟨h.1.mono hV, ih h.2 (i.fills_mono hV)⟩

theorem append (h : Fills F N V c V₁) (h' : Fills F N V₁ c' V') : Fills F N V (c ++ c') V' := by
  induction c generalizing V with
  | nil => exact h'.mono h
  | cons i c ih => exact ⟨h.1, ih h.2⟩

theorem weaken (h : Fills F N V c V') (hV : U ⊆ V') : Fills F N V c U := by
  have hnil : Fills F N V' [] U := hV
  rw [← List.append_nil c]
  exact h.append hnil

/-- Only the labels that code jumps to or places matter to it. -/
theorem congr (h : Fills F N V c V') (hG : ∀ i ∈ c, ∀ l, i.label? = some l → G l = F l) :
    Fills G N V c V' := by
  induction c generalizing V with
  | nil => exact h
  | cons i c ih =>
    rw [List.forall_mem_cons] at hG
    have hfits : i.Fits G N V ∧ i.fills G V = i.fills F V := by
      cases i with
      | jumpIfZero l => exact ⟨Eq.subst (motive := (· ⊆ V)) (hG.1 l rfl).symm h.1, rfl⟩
      | jump l => exact ⟨Eq.subst (motive := (· ⊆ V)) (hG.1 l rfl).symm h.1, rfl⟩
      | label l => exact ⟨Eq.subst (motive := (· ⊆ V)) (hG.1 l rfl).symm h.1, hG.1 l rfl⟩
      | _ => exact ⟨h.1, rfl⟩
    exact ⟨hfits.1, hfits.2 ▸ ih h.2 hG.2⟩

/-- Behind the first instructions, something is filled with which the rest fits. -/
theorem drop (h : Fills F N V c V') (j : Nat) : ∃ U, Fills F N U (c.drop j) V' := by
  induction c generalizing V j with
  | nil =>
    rw [List.drop_nil]
    exact ⟨V, h⟩
  | cons i c ih =>
    cases j with
    | zero => exact ⟨V, h⟩
    | succ j => exact ih h.2 j

/-- The instruction at a place, and the code behind it. -/
theorem drop_iff {j : Nat} (hi : code[j]? = some i) : Fills F N V (code.drop j) V' ↔
    i.Fits F N V ∧ Fills F N (i.fills F V) (code.drop (j + 1)) V' := by
  obtain ⟨hj, rfl⟩ := List.getElem?_eq_some_iff.mp hi
  rw [List.drop_eq_getElem_cons hj, Fills]

/-- Code that is read once in order is right about every way through it: what it takes to
be filled at a place was filled in front, or stored on the way. -/
theorem visits {A : Set Nat} (h : Fills F N A code V') {j : Nat} {W : Set Nat}
    (hv : Visits code j W) : ∃ V, V ⊆ A ∪ W ∧ Fills F N V (code.drop j) V' := by
  induction hv with
  | entry => exact ⟨A, Set.subset_union_left, h⟩
  | @next j W i _ hi hf ih =>
    obtain ⟨V, hV, hfills⟩ := ih
    rw [drop_iff hi] at hfills
    refine ⟨i.fills F V, ?_, hfills.2⟩
    rw [← Set.union_assoc]
    exact Set.Subset.trans (hfills.1.fills_subset hf) (Set.union_subset_union_left _ hV)
  | @jump j j' W i l _ hi hj harrives ih =>
    obtain ⟨V, hV, hfills⟩ := ih
    obtain ⟨U, hU⟩ := h.drop j'
    have hbehind := ((drop_iff harrives).mp hU).2
    exact ⟨F l, Set.Subset.trans (((drop_iff hi).mp hfills).1.subset_of_jumps hj) hV,
      (drop_iff harrives).mpr ⟨Set.Subset.refl _, hbehind⟩⟩

theorem lt (h : Fills F N V c V') {k : Nat} (hi : i ∈ c) (hk : i.slot? = some k) : k < N := by
  induction c generalizing V with
  | nil => exact absurd hi List.not_mem_nil
  | cons i' c ih =>
    rcases List.mem_cons.mp hi with rfl | hi
    · exact h.1.lt hk
    · exact ih h.2 hi

end Fills

/-- A method is safe whose code, read in order, uses its slots as it should. -/
theorem localSafe_of_fills {m : Method} {A : Set Nat} (h : Fills F N A m.code V')
    (hA : ∀ k ∈ A, k ∈ m.argumentSlots) (hN : N ≤ m.maxLocals)
    (hvars : (m.vars.map (·.slot)).Pairwise (· < ·)) : LocalSafe m where
  filled j W k hv hk := by
    obtain ⟨V, hV, hfills⟩ := h.visits hv
    exact (hV ((Fills.drop_iff hk).mp hfills).1.1).imp_left (hA k)
  below i hi k hk := Nat.lt_of_lt_of_le (h.lt hi hk) hN
  vars := hvars

/-! ## Code without stores -/

/-- An instruction neither jumps nor stores, and reads only slots of `V`. -/
def Instruction.Reads (V : Set Nat) : Instruction → Prop
  | .load k => k ∈ V
  | .store _ | .jumpIfZero _ | .jump _ | .label _ | .returnValue | .returnNothing => False
  | _ => True

/-- Code neither jumps nor stores, and reads only slots of `V`. -/
def Reads (V : Set Nat) (code : List Instruction) : Prop := ∀ i ∈ code, i.Reads V

@[simp] theorem reads_nil : Reads V [] := List.forall_mem_nil _

@[simp] theorem reads_cons : Reads V (i :: c) ↔ i.Reads V ∧ Reads V c := List.forall_mem_cons

@[simp] theorem reads_append : Reads V (c ++ c') ↔ Reads V c ∧ Reads V c' :=
  List.forall_mem_append

theorem Reads.append (h : Reads V c) (h' : Reads V c') : Reads V (c ++ c') :=
  reads_append.mpr ⟨h, h'⟩

theorem Instruction.Reads.mono (h : i.Reads V) (hV : V ⊆ U) : i.Reads U := by
  cases i with
  | load k => exact hV h
  | _ => exact h

theorem Reads.mono (h : Reads V c) (hV : V ⊆ U) : Reads U c := fun i hi => (h i hi).mono hV

theorem Instruction.Reads.isPlain (h : i.Reads V) : i.isPlain = true := by
  cases i <;> first | rfl | exact absurd h id

theorem Reads.isPlain (h : Reads V c) : IsPlain c := fun i hi => (h i hi).isPlain

/-- Code without stores leaves filled what was filled. -/
theorem Reads.fills (h : Reads V c) (hN : ∀ k ∈ V, k < N) : Fills F N V c V := by
  induction c with
  | nil => exact Set.Subset.refl V
  | cons i c ih =>
    rw [reads_cons] at h
    have hi : i.Fits F N V ∧ i.fills F V = V := by
      cases i with
      | load k => exact ⟨⟨h.1, hN k h.1⟩, rfl⟩
      | _ => first | exact ⟨trivial, rfl⟩ | exact absurd h.1 id
    exact ⟨hi.1, hi.2.symm ▸ ih h.2⟩

theorem fills_store {k : Nat} (hk : k < N) (hV : V' ⊆ insert k V) :
    Fills F N V [.store k] V' := ⟨hk, hV⟩

/-! ## Code made of pieces -/

theorem Instruction.label?_of_isPlain (h : i.isPlain = true) : i.label? = none := by
  cases i <;> first | rfl | exact absurd h Bool.false_ne_true

/-- Code whose labels were given out between the counts `n` and `n'`, but for those of
`J`, which stand outside of it.  The latter ask for nothing that is not filled in front. -/
structure Filling (N : Nat) (J : List Label) (n n' : Nat) (V : Set Nat) (c : List Instruction)
    (V' : Set Nat) : Prop where
  le : n ≤ n'
  grows : V ⊆ V'
  outside : ∀ l ∈ J, l.number ≤ n
  labels : ∀ i ∈ c, ∀ l, i.label? = some l → l.number ≤ n'
  /-- What is filled at labels from elsewhere may be chosen before. -/
  fills : ∀ G : Label → Set Nat, (∀ l ∈ J, G l ⊆ V) → ∃ F, (∀ l : Label, l.number ≤ n → F l = G l) ∧
    Fills F N V c V'

namespace Filling

theorem of_isPlain (hJ : ∀ l ∈ J, l.number ≤ n) (hc : IsPlain c) (hV : V ⊆ V')
    (h : ∀ F, Fills F N V c V') : Filling N J n n V c V' :=
  ⟨Nat.le_refl n, hV, hJ, fun i hi _ hl =>
    absurd (hl.symm.trans (Instruction.label?_of_isPlain (hc i hi))) (by simp),
    fun G _ => ⟨G, fun _ _ => rfl, h G⟩⟩

theorem nothing (N n : Nat) (V : Set Nat) (hJ : ∀ l ∈ J, l.number ≤ n) :
    Filling N J n n V [] V :=
  .of_isPlain hJ isPlain_nil (Set.Subset.refl V) fun _ => Set.Subset.refl V

/-- More labels may be jumped to than code jumps to. -/
theorem jumping (h : Filling N [] n n' V c V') (hJ : ∀ l ∈ J, l.number ≤ n) :
    Filling N J n n' V c V' :=
  ⟨h.le, h.grows, hJ, h.labels, fun G _ => h.fills G (List.forall_mem_nil _)⟩

/-- What is filled inside of a block does not count behind it. -/
theorem forget (h : Filling N J n n' V c V') : Filling N J n n' V c V :=
  ⟨h.le, Set.Subset.refl V, h.outside, h.labels, fun G hG =>
    (h.fills G hG).imp fun _ hF => ⟨hF.1, hF.2.weaken h.grows⟩⟩

/-- More labels may be given out behind. -/
theorem later (h : Filling N J n n₁ V c V') (hle : n₁ ≤ n₂) : Filling N J n n₂ V c V' :=
  ⟨Nat.le_trans h.le hle, h.grows, h.outside,
    fun i hi l hl => Nat.le_trans (h.labels i hi l hl) hle, h.fills⟩

theorem append (h : Filling N J n n₁ V c V₁) (h' : Filling N J n₁ n₂ V₁ c' V') :
    Filling N J n n₂ V (c ++ c') V' := by
  refine ⟨Nat.le_trans h.le h'.le, Set.Subset.trans h.grows h'.grows, h.outside,
    fun i hi l hl => ?_, fun G hG => ?_⟩
  · rcases List.mem_append.mp hi with hi | hi
    · exact Nat.le_trans (h.labels i hi l hl) h'.le
    · exact h'.labels i hi l hl
  · obtain ⟨F₁, hF₁, hfills₁⟩ := h.fills G hG
    obtain ⟨F₂, hF₂, hfills₂⟩ := h'.fills F₁ fun l hl => by
      rw [hF₁ l (h.outside l hl)]
      exact Set.Subset.trans (hG l hl) h.grows
    refine ⟨F₂, fun l hl => ?_, ?_⟩
    · rw [hF₂ l (Nat.le_trans hl h.le), hF₁ l hl]
    · exact (hfills₁.congr fun i hi l hl => hF₂ l (h.labels i hi l hl)).append hfills₂

end Filling

/-- A body behind a test, and a jump over the place where a failed test goes on. -/
theorem Fills.guarded (htest : Fills F N V test V) (hbody : Fills F N V body V') (hV : V ⊆ V')
    (hl : F l ⊆ V) (hl' : F l' ⊆ V) :
    Fills F N V (test ++ [.jumpIfZero l] ++ body ++ [.jump l', .label l]) (F l) := by
  have hjump : Fills F N V [.jumpIfZero l] V := ⟨hl, Set.Subset.refl V⟩
  have hend : Fills F N V' [.jump l', .label l] (F l) :=
    ⟨Set.Subset.trans hl' hV, Set.subset_univ _, Set.Subset.refl _⟩
  exact ((htest.append hjump).append hbody).append hend

namespace Filling

theorem labels_guarded (htest : IsPlain test) (hbody : ∀ i ∈ body, ∀ l, i.label? = some l →
    l.number ≤ n) (hl : l.number ≤ n) (hl' : l'.number ≤ n) :
    ∀ i ∈ test ++ [.jumpIfZero l] ++ body ++ [.jump l', .label l], ∀ l₁, i.label? = some l₁ →
      l₁.number ≤ n := by
  refine List.forall_mem_append.mpr ⟨List.forall_mem_append.mpr ⟨List.forall_mem_append.mpr
    ⟨fun i hi _ h => ?_, List.forall_mem_singleton.mpr fun _ h => ?_⟩, hbody⟩,
    List.forall_mem_cons.mpr ⟨fun _ h => ?_, List.forall_mem_singleton.mpr fun _ h => ?_⟩⟩
  · exact absurd (h.symm.trans (Instruction.label?_of_isPlain (htest i hi))) (by simp)
  · exact Option.some.inj h ▸ hl
  · exact Option.some.inj h ▸ hl'
  · exact Option.some.inj h ▸ hl

/-- A branch of an `if`, which jumps out of it behind its body. -/
theorem branch (htest : Reads V test) (hN : ∀ k ∈ V, k < N)
    (hbody : Filling N [] (n + 1) n' V body V') (hl : l.number ≤ n) :
    Filling N [l] n n' V
      (test ++ [.jumpIfZero ⟨n + 1⟩] ++ body ++ [.jump l, .label ⟨n + 1⟩]) V := by
  have hle := hbody.le
  refine ⟨by omega, Set.Subset.refl V, List.forall_mem_singleton.mpr hl,
    labels_guarded htest.isPlain hbody.labels hle (by omega), fun G hG => ?_⟩
  rw [List.forall_mem_singleton] at hG
  -- a failed test goes on with what was filled in front of it
  obtain ⟨F, hF, hfills⟩ := hbody.fills (Function.update G ⟨n + 1⟩ V) (List.forall_mem_nil _)
  have hold : ∀ l' : Label, l'.number ≤ n → F l' = G l' := fun l' hl' => by
    have hne : l' ≠ ⟨n + 1⟩ := by
      rintro rfl
      exact Nat.not_succ_le_self n hl'
    rw [hF l' (Nat.le_succ_of_le hl'), Function.update_of_ne hne]
  have hnext : F ⟨n + 1⟩ = V := by rw [hF _ (Nat.le_refl _), Function.update_self]
  refine ⟨F, hold, ?_⟩
  have h := Fills.guarded (htest.fills hN) hfills hbody.grows hnext.subset ((hold l hl).symm ▸ hG)
  rwa [hnext] at h

/-- A loop, which jumps back to its test behind its body. -/
theorem loop (htest : Reads V test) (hN : ∀ k ∈ V, k < N)
    (hbody : Filling N [] (n + 2) n' V body V') :
    Filling N [] n n' V (.label ⟨n + 1⟩ ::
      (test ++ [.jumpIfZero ⟨n + 2⟩] ++ body ++ [.jump ⟨n + 1⟩, .label ⟨n + 2⟩])) V := by
  have hle := hbody.le
  refine ⟨by omega, Set.Subset.refl V, List.forall_mem_nil _, ?_, fun G _ => ?_⟩
  · refine List.forall_mem_cons.mpr ⟨fun l hl => ?_, labels_guarded htest.isPlain hbody.labels hle
      (Nat.le_of_succ_le hle)⟩
    exact Option.some.inj hl ▸ Nat.le_of_succ_le hle
  · -- the same is filled whenever the test is reached, and when it fails
    obtain ⟨F, hF, hfills⟩ := hbody.fills
      (fun l => if l.number ≤ n then G l else V) (List.forall_mem_nil _)
    have hnew : ∀ k, n < k → k ≤ n + 2 → F ⟨k⟩ = V := fun k hk hk' => by
      rw [hF ⟨k⟩ hk', if_neg (Nat.not_le_of_lt hk)]
    have htop := hnew (n + 1) (by omega) (by omega)
    have hdone := hnew (n + 2) (by omega) (by omega)
    refine ⟨F, fun l hl => ?_, ?_⟩
    · rw [hF l (by omega), if_pos hl]
    · have h := Fills.guarded (htest.fills hN) hfills hbody.grows hdone.subset htop.subset
      rw [hdone] at h
      exact ⟨htop.subset, htop.symm ▸ h⟩

/-- The place behind an `if`, which its branches jump to. -/
theorem behind (h : Filling N [⟨n + 1⟩] (n + 1) n' V c V') :
    Filling N [] n n' V (c ++ [.label ⟨n + 1⟩]) V := by
  have hle := h.le
  refine ⟨by omega, Set.Subset.refl V, List.forall_mem_nil _, ?_, fun G _ => ?_⟩
  · refine List.forall_mem_append.mpr ⟨h.labels, List.forall_mem_singleton.mpr fun l hl => ?_⟩
    exact Option.some.inj hl ▸ hle
  · obtain ⟨F, hF, hfills⟩ := h.fills (Function.update G ⟨n + 1⟩ V)
      (List.forall_mem_singleton.mpr (by rw [Function.update_self]))
    have hdone : F ⟨n + 1⟩ = V := by rw [hF _ (Nat.le_refl _), Function.update_self]
    refine ⟨F, fun l hl => ?_, hfills.append ?_⟩
    · have hne : l ≠ ⟨n + 1⟩ := by
        rintro rfl
        exact Nat.not_succ_le_self n hl
      rw [hF l (Nat.le_succ_of_le hl), Function.update_of_ne hne]
    · exact ⟨Set.Subset.trans hdone.subset h.grows, hdone.superset⟩

end Filling

end Unnest.Code
