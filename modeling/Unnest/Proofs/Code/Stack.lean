import Mathlib.Algebra.BigOperators.Group.List.Basic
import Mathlib.Algebra.Ring.Int.Defs
import Unnest.Proofs.Code.Machine

/-!
# The operand stack

The depth of the stack at a place of a method is the depth with which some way from the
entry comes to it (`Reached`).  A method that states its limits by reading its code once
in order is right about them if every way agrees with that reading, which is what
`Disciplined` asks for.

`Regular c n` says how the code of a body is made: of pieces without jumps, of labels,
and of bodies behind a test.  Read in order it leaves `n` cells on the stack, and it is
never below the depth that it started at.  A method with such a body is disciplined
exactly when nothing is left over (`disciplined_iff`).
-/

namespace Unnest.Code

variable {code c c' : List Instruction} {i : Instruction} {d e k : Int} {n n' : Nat}

/-! ## Reading in order -/

/-- How much deeper the stack is after instructions, read in order. -/
def effects (c : List Instruction) : Int := (c.map Instruction.effect).sum

@[simp] theorem effects_nil : effects [] = 0 := rfl

@[simp] theorem effects_cons (i : Instruction) (c : List Instruction) :
    effects (i :: c) = i.effect + effects c := by
  rw [effects, List.map_cons, List.sum_cons, effects]

@[simp] theorem effects_append (c c' : List Instruction) :
    effects (c ++ c') = effects c + effects c' := by
  rw [effects, List.map_append, List.sum_append, effects, effects]

/-- Read in order, instructions lead from one depth to another and never below nothing. -/
def Carries (d : Int) : List Instruction → Int → Prop
  | [], e => 0 ≤ d ∧ d = e
  | i :: c, e => 0 ≤ d ∧ Carries (d + i.effect) c e

namespace Carries

theorem nonneg (h : Carries d c e) : 0 ≤ d := by
  cases c with
  | nil => exact h.1
  | cons i c => exact h.1

theorem effects_eq (h : Carries d c e) : d + effects c = e := by
  induction c generalizing d with
  | nil => rw [effects_nil, add_zero, h.2]
  | cons i c ih => rw [effects_cons, ← add_assoc, ih h.2]

theorem append (h : Carries d c e) (h' : Carries e c' k) : Carries d (c ++ c') k := by
  induction c generalizing d with
  | nil =>
    obtain ⟨-, rfl⟩ := h
    exact h'
  | cons i c ih => exact ⟨h.1, ih h.2⟩

/-- With more below, nothing else changes. -/
theorem raise (h : Carries d c e) (hk : 0 ≤ k) : Carries (k + d) c (k + e) := by
  induction c generalizing d with
  | nil => exact ⟨Int.add_nonneg hk h.1, by rw [h.2]⟩
  | cons i c ih =>
    refine ⟨Int.add_nonneg hk h.1, ?_⟩
    rw [add_assoc]
    exact ih h.2

/-- Pieces that each start from an empty stack. -/
theorem andThen (h : Carries d c n) (h' : Carries 0 c' e) : Carries d (c ++ c') (n + e) := by
  have hraised := h'.raise (Int.natCast_nonneg n)
  rw [add_zero] at hraised
  exact h.append hraised

theorem take_nonneg (h : Carries d c e) (j : Nat) : 0 ≤ d + effects (c.take j) := by
  induction c generalizing d j with
  | nil =>
    rw [List.take_nil, effects_nil, add_zero]
    exact h.1
  | cons i c ih =>
    cases j with
    | zero =>
      rw [List.take_zero, effects_nil, add_zero]
      exact h.1
    | succ j =>
      rw [List.take_succ_cons, effects_cons, ← add_assoc]
      exact ih h.2 j

end Carries

/-- The depth that is counted at a place when a method is read in order. -/
def depthAt (code : List Instruction) (j : Nat) : Int := (code.take j).foldl depthAfter 0

theorem foldl_depthAfter (h : Carries d c e) : c.foldl depthAfter d = d + effects c := by
  induction c generalizing d with
  | nil => rw [List.foldl_nil, effects_nil, add_zero]
  | cons i c ih =>
    rw [List.foldl_cons, depthAfter, Int.max_eq_right h.2.nonneg, ih h.2, effects_cons, add_assoc]

theorem Carries.take (h : Carries d c e) (j : Nat) :
    Carries d (c.take j) (d + effects (c.take j)) := by
  induction c generalizing d j with
  | nil =>
    rw [List.take_nil, effects_nil, add_zero]
    exact ⟨h.1, rfl⟩
  | cons i c ih =>
    cases j with
    | zero =>
      rw [List.take_zero, effects_nil, add_zero]
      exact ⟨h.1, rfl⟩
    | succ j =>
      rw [List.take_succ_cons, effects_cons, ← add_assoc]
      exact ⟨h.1, ih h.2 j⟩

/-- Code that is never below nothing is counted without clamping. -/
theorem depthAt_eq (h : Carries 0 code e) (j : Nat) : depthAt code j = effects (code.take j) := by
  rw [depthAt, foldl_depthAfter (h.take j), zero_add]

theorem effects_take_succ {j : Nat} (h : code[j]? = some i) :
    effects (code.take (j + 1)) = effects (code.take j) + i.effect := by
  rw [List.take_add_one, h, effects_append]
  simp

/-! ## Ways through a method -/

namespace Instruction

/-- Whether control can go on behind an instruction. -/
def falls : Instruction → Bool
  | .jump _ | .returnValue | .returnNothing => false
  | _ => true

/-- The label that an instruction may jump to. -/
def jumpsTo? : Instruction → Option Label
  | .jumpIfZero l | .jump l => some l
  | _ => none

theorem falls_of_isPlain (h : i.isPlain = true) : i.falls = true := by
  cases i <;> first | rfl | exact absurd h Bool.false_ne_true

theorem jumpsTo?_of_isPlain (h : i.isPlain = true) : i.jumpsTo? = none := by
  cases i <;> first | rfl | exact absurd h Bool.false_ne_true

end Instruction

/-- Some way from the entry comes to a place with this depth. -/
inductive Reached (code : List Instruction) : Nat → Int → Prop
  | entry : Reached code 0 0
  | next {j : Nat} {d : Int} {i : Instruction} (h : Reached code j d) (hi : code[j]? = some i)
      (falls : i.falls = true) : Reached code (j + 1) (d + i.effect)
  | jump {j j' : Nat} {d : Int} {i : Instruction} {l : Label} (h : Reached code j d)
      (hi : code[j]? = some i) (jumps : i.jumpsTo? = some l)
      (arrives : code[j']? = some (.label l)) : Reached code j' (d + i.effect)

/-- The stack is used as the limits of a method promise. -/
structure Disciplined (m : Method) : Prop where
  nonneg : ∀ j d, Reached m.code j d → 0 ≤ d
  /-- The count never has to be kept from becoming negative. -/
  unclamped : ∀ j i, m.code[j]? = some i →
    depthAfter (depthAt m.code j) i = depthAt m.code j + i.effect
  /-- All ways to a place agree on its depth, and it is the one that is counted. -/
  counted : ∀ j d, Reached m.code j d → d = depthAt m.code j
  label : ∀ j d l, Reached m.code j d → m.code[j]? = some (.label l) → d = 0
  returnNothing : ∀ j d, Reached m.code j d → m.code[j]? = some .returnNothing → d = 0
  returnValue : ∀ j d, Reached m.code j d → m.code[j]? = some .returnValue → d = 1
  bound : ∀ j d, Reached m.code j d → d ≤ m.maxStack
  attained : ∃ j d, Reached m.code j d ∧ d = m.maxStack

/-! ## Regular code -/

/-- Code as bodies are made of it, which leaves `n` cells on the stack. -/
inductive Regular : List Instruction → Nat → Prop
  | plain {c : List Instruction} {n : Nat} (hc : IsPlain c) (h : Carries 0 c n) : Regular c n
  | label (l : Label) : Regular [.label l] 0
  | append {c c' : List Instruction} {n n' : Nat} (h : Regular c n) (h' : Regular c' n') :
      Regular (c ++ c') (n + n')
  /-- A test, a body, and a jump over the place where a failed test goes on. -/
  | guarded {test body : List Instruction} {n : Nat} {l l' : Label} (hplain : IsPlain test)
      (htest : Carries 0 test 1) (hbody : Regular body n) :
      Regular (test ++ [.jumpIfZero l] ++ body ++ [.jump l', .label l]) n

theorem Regular.carries (h : Regular c n) : Carries 0 c n := by
  induction h with
  | plain _ h => exact h
  | label l => exact ⟨Int.le_refl 0, Int.le_refl 0, rfl⟩
  | append _ _ ih ih' =>
    rw [Int.natCast_add]
    exact ih.andThen ih'
  | @guarded test body n l l' _ htest _ ih =>
    have hjump : Carries 1 [.jumpIfZero l] 0 := by
      simp [Carries, Instruction.effect]
    have hend : Carries n [.jump l', .label l] n := by
      simp [Carries, Instruction.effect]
    exact ((htest.append hjump).append ih).append hend

/-- Every place behind the first is behind an instruction that falls through, or it is a
label that a test before it jumps to. -/
def Connected (code : List Instruction) : Prop :=
  ∀ j i, code[j]? = some i → i.falls = true ∨
    ∃ l, code[j + 1]? = some (.label l) ∧ ∃ j' < j, code[j']? = some (.jumpIfZero l)

theorem connected_of_isPlain (h : IsPlain c) : Connected c := fun _ _ hi =>
  Or.inl (Instruction.falls_of_isPlain (h _ (List.mem_of_getElem? hi)))

/-- The test before a label may also stand in the code before. -/
theorem Connected.append_of (h : Connected c) (h' : ∀ j i, c'[j]? = some i → i.falls = true ∨
    ∃ l, c'[j + 1]? = some (.label l) ∧
      (.jumpIfZero l ∈ c ∨ ∃ j' < j, c'[j']? = some (.jumpIfZero l))) : Connected (c ++ c') := by
  intro j i hi
  by_cases hj : j < c.length
  · rw [List.getElem?_append_left hj] at hi
    refine (h j i hi).imp_right ?_
    rintro ⟨l, hl, j', hj', htest⟩
    refine ⟨l, ?_, j', hj', ?_⟩
    · rwa [List.getElem?_append_left (List.getElem?_eq_some_iff.mp hl).1]
    · rwa [List.getElem?_append_left (Nat.lt_trans hj' hj)]
  · obtain ⟨m, rfl⟩ := Nat.exists_eq_add_of_le (Nat.le_of_not_lt hj)
    rw [List.getElem?_append_right (Nat.le_add_right _ _), Nat.add_sub_cancel_left] at hi
    refine (h' m i hi).imp_right ?_
    rintro ⟨l, hl, htest⟩
    refine ⟨l, ?_, ?_⟩
    · rwa [Nat.add_assoc, List.getElem?_append_right (Nat.le_add_right _ _),
        Nat.add_sub_cancel_left]
    · rcases htest with hmem | ⟨j', hj', htest⟩
      · obtain ⟨j', hj', htest⟩ := List.getElem_of_mem hmem
        refine ⟨j', Nat.lt_of_lt_of_le hj' (Nat.le_add_right _ _), ?_⟩
        rw [List.getElem?_append_left hj', List.getElem?_eq_getElem hj', htest]
      · refine ⟨c.length + j', Nat.add_lt_add_left hj' _, ?_⟩
        rwa [List.getElem?_append_right (Nat.le_add_right _ _), Nat.add_sub_cancel_left]

theorem Connected.append (h : Connected c) (h' : Connected c') : Connected (c ++ c') :=
  h.append_of fun j i hi => (h' j i hi).imp_right fun ⟨l, hl, htest⟩ => ⟨l, hl, Or.inr htest⟩

theorem connected_singleton (h : i.falls = true) : Connected [i] := fun _ _ hi =>
  Or.inl (List.mem_singleton.mp (List.mem_of_getElem? hi) ▸ h)

theorem Regular.connected (h : Regular c n) : Connected c := by
  induction h with
  | plain hc => exact connected_of_isPlain hc
  | label l => exact connected_singleton rfl
  | append _ _ ih ih' => exact ih.append ih'
  | @guarded test body n l l' hplain _ _ ih =>
    have htest := (connected_of_isPlain hplain).append (connected_singleton (i := .jumpIfZero l) rfl)
    refine (htest.append ih).append_of fun j i hi => ?_
    match j, hi with
    | 0, _ => exact Or.inr ⟨l, rfl, Or.inl (by simp)⟩
    | 1, hi =>
      obtain rfl : Instruction.label l = i := Option.some.inj hi
      exact Or.inl rfl

/-- Behind a jump, a label or a return, nothing is left on the stack. -/
def Level (code : List Instruction) : Prop :=
  ∀ j i, code[j]? = some i → i.isPlain = false → effects (code.take (j + 1)) = 0

theorem level_of_isPlain (h : IsPlain c) : Level c := fun _ _ hi hp =>
  absurd ((h _ (List.mem_of_getElem? hi)).symm.trans hp) Bool.noConfusion

/-- Code that starts and ends at the same depth. -/
theorem Level.append (h : Level c) (h' : Level c') (hc : effects c = 0) : Level (c ++ c') := by
  intro j i hi hp
  by_cases hj : j < c.length
  · rw [List.getElem?_append_left hj] at hi
    rw [List.take_append_of_le_length hj]
    exact h j i hi hp
  · obtain ⟨m, rfl⟩ := Nat.exists_eq_add_of_le (Nat.le_of_not_lt hj)
    rw [List.getElem?_append_right (Nat.le_add_right _ _), Nat.add_sub_cancel_left] at hi
    rw [Nat.add_assoc, List.take_append, List.take_of_length_le (Nat.le_add_right _ _),
      Nat.add_sub_cancel_left, effects_append, hc, zero_add]
    exact h' m i hi hp

/-- A piece without jumps, and an instruction that ends it. -/
theorem level_snoc (h : IsPlain c) (hc : effects c + i.effect = 0) : Level (c ++ [i]) := by
  intro j i' hi hp
  by_cases hj : j < c.length
  · rw [List.getElem?_append_left hj] at hi
    exact absurd ((h _ (List.mem_of_getElem? hi)).symm.trans hp) Bool.noConfusion
  · rw [List.take_of_length_le, effects_append, effects_cons, effects_nil, add_zero, hc]
    rw [List.length_append, List.length_singleton]
    exact Nat.succ_le_succ (Nat.le_of_not_lt hj)

theorem Regular.level (h : Regular c n) (hn : n = 0) : Level c := by
  induction h with
  | plain hc => exact level_of_isPlain hc
  | label l => exact level_snoc (c := []) isPlain_nil rfl
  | @append c c' n n' h h' ih ih' =>
    obtain ⟨rfl, rfl⟩ := Nat.add_eq_zero_iff.mp hn
    exact (ih rfl).append (ih' rfl) (by simpa using h.carries.effects_eq)
  | @guarded test body n l l' hplain htest hbody ih =>
    subst hn
    have htestEffects := htest.effects_eq
    have hbodyEffects := hbody.carries.effects_eq
    have hend : Level [.jump l', .label l] :=
      (level_snoc (c := []) isPlain_nil rfl).append (level_snoc (c := []) isPlain_nil rfl) rfl
    refine Level.append (Level.append (level_snoc hplain ?_) (ih rfl) ?_) hend ?_
    · rw [Instruction.effect]
      omega
    · rw [effects_append, effects_cons, Instruction.effect, effects_nil]
      omega
    · rw [effects_append, effects_append, effects_cons, Instruction.effect, effects_nil]
      omega

/-! ## Whole methods -/

/-- The code of a method with a regular body, which is then left. -/
inductive Closed : List Instruction → Nat → Prop
  | nothing {c : List Instruction} {n : Nat} (h : Regular c n) : Closed (c ++ [.returnNothing]) n
  | value {c v : List Instruction} {n : Nat} (h : Regular c n) (hplain : IsPlain v)
      (hv : Carries 0 v 1) : Closed (c ++ (v ++ [.returnValue])) n

theorem Closed.carries (h : Closed code n) : Carries 0 code n := by
  cases h with
  | nothing h =>
    refine h.carries.append (e := n) ?_
    simp [Carries, Instruction.effect]
  | value h _ hv =>
    have hreturn : Carries 1 [.returnValue] 0 := by
      simp [Carries, Instruction.effect]
    have hend := h.carries.andThen (hv.append hreturn)
    rwa [add_zero] at hend

theorem Closed.level (h : Closed code 0) : Level code := by
  cases h with
  | @nothing c _ h =>
    exact (h.level rfl).append (level_snoc (c := []) isPlain_nil rfl) (by
      simpa using h.carries.effects_eq)
  | @value c v _ h hplain hv =>
    have hend : effects v + Instruction.returnValue.effect = 0 := by
      have heffects := hv.effects_eq
      rw [Instruction.effect]
      omega
    exact (h.level rfl).append (level_snoc hplain hend) (by simpa using h.carries.effects_eq)

/-- The last instruction of a method returns, and no other one does. -/
theorem Closed.last (h : Closed code n) : ∃ c i, code = c ++ [i] ∧ Connected c ∧
    (i = .returnNothing ∨ i = .returnValue) := by
  cases h with
  | @nothing c _ h => exact ⟨c, _, rfl, h.connected, Or.inl rfl⟩
  | @value c v _ h hplain hv =>
    refine ⟨c ++ v, _, (List.append_assoc _ _ _).symm, ?_, Or.inr rfl⟩
    exact h.connected.append (connected_of_isPlain hplain)

/-- Every place of a method is on some way. -/
theorem exists_reached (h : Connected code) {j : Nat} (hj : j ≤ code.length) :
    ∃ d, Reached (code ++ [i]) j d := by
  induction j using Nat.strong_induction_on with
  | _ j ih =>
    cases j with
    | zero => exact ⟨0, .entry⟩
    | succ j =>
      have hget : ∀ m, m < code.length → (code ++ [i])[m]? = code[m]? := fun m hm =>
        List.getElem?_append_left hm
      obtain ⟨d, hd⟩ := ih j (Nat.lt_succ_self j) (Nat.le_of_lt hj)
      have hi := List.getElem?_eq_getElem hj
      rcases h j code[j] hi with hfalls | ⟨l, hl, j', hj', htest⟩
      · exact ⟨_, hd.next ((hget j hj).trans hi) hfalls⟩
      · have hlt := Nat.lt_trans hj' hj
        obtain ⟨d', hd'⟩ := ih j' (Nat.lt_succ_of_lt hj') (Nat.le_of_lt hlt)
        have hlabel := (hget (j + 1) (List.getElem?_eq_some_iff.mp hl).1).trans hl
        exact ⟨_, hd'.jump ((hget j' hlt).trans htest) rfl hlabel⟩

/-- Where nothing is left behind, all ways to a place have the depth that is counted. -/
theorem depth_of_reached (hlevel : Level code) {j : Nat} {d : Int} (hd : Reached code j d) :
    d = effects (code.take j) := by
  induction hd with
  | entry => rfl
  | next _ hi _ ih => rw [effects_take_succ hi, ← ih]
  | @jump j j' d i l _ hi jumps arrives ih =>
    have hplain : i.isPlain = false := by
      by_contra hp
      rw [Instruction.jumpsTo?_of_isPlain ((Bool.not_eq_false _).mp hp)] at jumps
      exact absurd jumps (by simp)
    have hafter := hlevel j i hi hplain
    have hlabel := hlevel j' _ arrives rfl
    rw [effects_take_succ hi, ← ih] at hafter
    rw [effects_take_succ arrives, Instruction.effect, add_zero] at hlabel
    rw [hafter, hlabel]

theorem le_peakFrom (code : List Instruction) (d : Int) {j : Nat} (hj : j < code.length) :
    (code.take (j + 1)).foldl depthAfter d ≤ peakFrom d code := by
  induction code generalizing d j with
  | nil => exact absurd hj (Nat.not_lt_zero j)
  | cons i code ih =>
    rw [List.take_succ_cons, List.foldl_cons, peakFrom]
    cases j with
    | zero => exact Int.le_max_left _ _
    | succ j => exact Int.le_trans (ih _ (Nat.lt_of_succ_lt_succ hj)) (Int.le_max_right _ _)

theorem exists_eq_peakFrom (code : List Instruction) (d : Int) (h : 0 < peakFrom d code) :
    ∃ j < code.length, (code.take (j + 1)).foldl depthAfter d = peakFrom d code := by
  induction code generalizing d with
  | nil => exact absurd h (Int.lt_irrefl 0)
  | cons i code ih =>
    rw [peakFrom] at h ⊢
    by_cases hle : peakFrom (depthAfter d i) code ≤ depthAfter d i
    · refine ⟨0, Nat.succ_pos _, ?_⟩
      rw [Int.max_eq_left hle]
      rfl
    · have hlt := Int.le_of_lt (Int.not_le.mp hle)
      rw [Int.max_eq_right hlt] at h ⊢
      obtain ⟨j, hj, heq⟩ := ih _ h
      exact ⟨j + 1, Nat.succ_lt_succ hj, heq⟩

theorem le_length_of_reached {j : Nat} {d : Int} (h : Reached code j d) : j ≤ code.length := by
  cases h with
  | entry => exact Nat.zero_le _
  | next _ hi => exact (List.getElem?_eq_some_iff.mp hi).1
  | jump _ _ _ arrives => exact Nat.le_of_lt (List.getElem?_eq_some_iff.mp arrives).1

/-- The largest depth that is counted is the depth of some way. -/
theorem Closed.attained (h : Closed code 0) (hpos : 0 < peakFrom 0 code) :
    ∃ j d, Reached code j d ∧ d = peakFrom 0 code := by
  have hcarries := h.carries
  obtain ⟨j, hj, hpeak⟩ := exists_eq_peakFrom code 0 hpos
  have hi := List.getElem?_eq_getElem hj
  have hcount : depthAt code (j + 1) = effects (code.take (j + 1)) := depthAt_eq hcarries (j + 1)
  rw [depthAt, hpeak] at hcount
  by_cases hp : code[j].isPlain = true
  · obtain ⟨c, i, rfl, hconnected, -⟩ := h.last
    rw [List.length_append] at hj
    obtain ⟨d, hd⟩ := exists_reached (i := i) hconnected (Nat.le_of_lt_succ hj)
    have hnext := hd.next hi (Instruction.falls_of_isPlain hp)
    exact ⟨j + 1, _, hnext, (depth_of_reached h.level hnext).trans hcount.symm⟩
  · rw [h.level j _ hi ((Bool.not_eq_true _).mp hp)] at hcount
    rw [hcount] at hpos
    exact absurd hpos (Int.lt_irrefl 0)

/-- A method whose body leaves nothing behind is disciplined. -/
theorem Closed.disciplined {m : Method} (h : Closed m.code 0)
    (hm : m.maxStack = maxStack m.code) : Disciplined m := by
  have hcarries := h.carries
  have hlevel := h.level
  have hdepth : ∀ {j d}, Reached m.code j d → d = effects (m.code.take j) := fun hd =>
    depth_of_reached hlevel hd
  have hbefore : ∀ {j i}, m.code[j]? = some i → i.isPlain = false →
      effects (m.code.take j) = -i.effect := fun hi hp => by
    have hafter := hlevel _ _ hi hp
    rw [effects_take_succ hi] at hafter
    omega
  have hmax : (m.maxStack : Int) = max 0 (peakFrom 0 m.code) := by
    rw [hm, maxStack, Int.toNat_eq_max, Int.max_comm]
  refine ⟨fun j d hd => ?_, fun j i hi => ?_, fun j d hd => ?_, fun j d l hd hi => ?_,
    fun j d hd hi => ?_, fun j d hd hi => ?_, fun j d hd => ?_, ?_⟩
  · rw [hdepth hd, ← zero_add (effects _)]
    exact hcarries.take_nonneg j
  · rw [depthAfter, depthAt_eq hcarries, ← effects_take_succ hi]
    refine Int.max_eq_right ?_
    rw [← zero_add (effects _)]
    exact hcarries.take_nonneg (j + 1)
  · rw [hdepth hd, depthAt_eq hcarries]
  · rw [hdepth hd, hbefore hi rfl]
    rfl
  · rw [hdepth hd, hbefore hi rfl]
    rfl
  · rw [hdepth hd, hbefore hi rfl]
    rfl
  · rw [hdepth hd, hmax]
    have hj := le_length_of_reached hd
    cases j with
    | zero => exact Int.le_max_left _ _
    | succ j =>
      rw [← depthAt_eq hcarries]
      exact Int.le_trans (le_peakFrom m.code 0 hj) (Int.le_max_right _ _)
  · rw [hmax]
    by_cases hpos : 0 < peakFrom 0 m.code
    · rw [Int.max_eq_right (Int.le_of_lt hpos)]
      exact h.attained hpos
    · exact ⟨0, 0, .entry, (Int.max_eq_left (Int.not_lt.mp hpos)).symm⟩

/-- A method is disciplined exactly when its body leaves nothing behind. -/
theorem Closed.disciplined_iff {m : Method} (h : Closed m.code n)
    (hm : m.maxStack = maxStack m.code) : Disciplined m ↔ n = 0 := by
  refine ⟨fun hd => ?_, ?_⟩
  · have hcarries := h.carries
    obtain ⟨c, i, hcode, hconnected, hlast⟩ := h.last
    obtain ⟨d, hreached⟩ := exists_reached (i := i) hconnected (Nat.le_refl _)
    rw [← hcode] at hreached
    have hi : m.code[c.length]? = some i := by
      rw [hcode, List.getElem?_append_right (Nat.le_refl _), Nat.sub_self]
      rfl
    have hcount := hd.counted _ _ hreached
    rw [depthAt_eq hcarries, hcode, List.take_left] at hcount
    have hall := hcarries.effects_eq
    rw [hcode, effects_append, effects_cons, effects_nil] at hall
    rcases hlast with rfl | rfl
    · have hzero := hd.returnNothing _ _ hreached hi
      rw [Instruction.effect] at hall
      omega
    · have hone := hd.returnValue _ _ hreached hi
      rw [Instruction.effect] at hall
      omega
  · rintro rfl
    exact h.disciplined hm

/-- Methods that state the limits of their code, and whose bodies leave `n` cells in all. -/
inductive Leave : List Method → Nat → Prop
  | nil : Leave [] 0
  | cons {m : Method} {ms : List Method} {n n' : Nat} (h : Closed m.code n)
      (hm : m.maxStack = maxStack m.code) (hs : Leave ms n') : Leave (m :: ms) (n + n')

namespace Leave

variable {ms ms' : List Method}

theorem append (h : Leave ms n) (h' : Leave ms' n') : Leave (ms ++ ms') (n + n') := by
  induction h with
  | nil => rwa [List.nil_append, Nat.zero_add]
  | cons h hm _ ih =>
    rw [List.cons_append, Nat.add_assoc]
    exact .cons h hm ih

theorem assemble {name : String} {descriptor : Descriptor} {modifiers : Modifiers}
    {vars : List LocalVar} {slots : Nat} (h : Closed code n) :
    Leave [.assemble name descriptor modifiers vars slots code] n := .cons h rfl .nil

/-- All methods are disciplined exactly when none of them leaves anything behind. -/
theorem disciplined_iff (h : Leave ms n) : (∀ m ∈ ms, Disciplined m) ↔ n = 0 := by
  induction h with
  | nil => exact ⟨fun _ => rfl, fun _ _ hm => absurd hm List.not_mem_nil⟩
  | cons h hm _ ih => rw [List.forall_mem_cons, h.disciplined_iff hm, ih, Nat.add_eq_zero_iff]

end Leave

end Unnest.Code
